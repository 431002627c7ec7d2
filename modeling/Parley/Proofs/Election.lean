/-
Which provider is asked when none is named.

* `Manager.Elected` — the default is one of the registered providers, and is missing only where
  there are none;
* `Manager.Elected.of_launch` — so it is after every launch that succeeds;
* `Manager.Elected.perform`, `Manager.Elected.run` — and after any calls from then on, further
  launches and those that fail among them;
* `Manager.Serves`, `Manager.start_eq_start_named` — a start that names no provider is a start
  that names the one that serves the NPC;
* `Manager.election` — and it fails for want of a provider or of a tree exactly where no
  provider has one.

Design notes: only three calls and a launch touch the register.  The others may put a provider
back as a turn left it, so they are said to keep the names, not the providers.
-/
import Parley.Proofs.Opening
import Parley.Proofs.Restart

namespace Parley.Manager

variable {α : Type} {f : Context → α} {m m' : Manager}

/-! ### The default -/

structure Elected (m : Manager) : Prop where
  absent : m.defaultProvider = none → ∀ providerId, m.providers.contains providerId = false
  registered : ∀ providerId, m.defaultProvider = some providerId →
    m.providers.contains providerId = true

/-- The same providers are registered, and the same one is the default. -/
structure SameRegister (m m' : Manager) : Prop where
  defaultProvider : m'.defaultProvider = m.defaultProvider
  contains : ∀ providerId, m'.providers.contains providerId = m.providers.contains providerId

namespace SameRegister

variable {m'' : Manager}

theorem refl (m : Manager) : m.SameRegister m := ⟨rfl, fun _ => rfl⟩

theorem trans (h : m.SameRegister m') (h' : m'.SameRegister m'') : m.SameRegister m'' :=
  ⟨h'.defaultProvider.trans h.defaultProvider,
    fun providerId => (h'.contains providerId).trans (h.contains providerId)⟩

theorem withProvider (m : Manager) (p : Provider) : m.SameRegister (m.withProvider p) :=
  ⟨rfl, contains_withProvider m p⟩

theorem settle (m : Manager) (o : Outcome Response) : m.SameRegister (m.settle o).manager :=
  ⟨rfl, contains_withProvider m o.provider⟩

theorem start (m : Manager) (ps : Participants) (providerId : Option String) :
    m.SameRegister (m.start ps providerId).manager := by
  have expired : m.SameRegister (m.afterExpiry ps.player.id) := ⟨rfl, fun _ => rfl⟩
  refine expired.trans ?_
  rw [Manager.start]
  simp only [expirePlayer_fst]
  split
  · exact .refl _
  · split
    · exact .refl _
    · exact .settle _ _

theorem advance (m : Manager) (ps : Participants) (id input : String) :
    m.SameRegister (m.advance ps id input).manager := by
  rw [Manager.advance]
  split
  · exact .refl m
  · split
    · exact .refl m
    · split
      · exact ⟨rfl, fun _ => rfl⟩
      · split
        · exact .refl m
        · rename_i p _
          have turned : m.SameRegister (m.settle (p.advance m.forum ps id input)).manager :=
            .settle m _
          dsimp only
          split
          · split
            · exact turned.trans ⟨rfl, fun _ => rfl⟩
            · exact turned
          · exact turned

theorem finish (m : Manager) (id : String) : m.SameRegister (m.finish id).manager := by
  rw [Manager.finish]
  split
  · exact .refl m
  · split <;> exact ⟨rfl, fun _ => rfl⟩

theorem switchProvider (m : Manager) (id providerId : String) :
    m.SameRegister (m.switchProvider id providerId).manager := by
  have switched := switchProvider_cases m id providerId
  generalize m.switchProvider id providerId = reply at switched
  cases switched with
  | refused | same => exact .refl m
  | moved => exact ⟨rfl, fun _ => rfl⟩

theorem cleanup (m : Manager) : m.SameRegister m.cleanup.manager := by
  rw [cleanup_manager]
  exact ⟨rfl, fun _ => rfl⟩

theorem autosave {count : Nat} (h : m.autosave = .ok (m', count)) : m.SameRegister m' := by
  obtain ⟨store, rfl⟩ := autosave_frame h
  exact ⟨rfl, fun _ => rfl⟩

theorem maintain (m : Manager) : m.SameRegister m.maintain.1 := by
  rw [Manager.maintain]
  split
  · rename_i hsave
    exact (SameRegister.cleanup m).trans (.autosave hsave)
  · exact .cleanup m

theorem tick (m : Manager) (seconds : Nat) : m.SameRegister (m.tick seconds).1 := by
  rw [Manager.tick]
  split
  · exact .refl m
  · split
    · exact ⟨rfl, fun _ => rfl⟩
    · exact (SameRegister.maintain m).trans ⟨rfl, fun _ => rfl⟩

theorem shutdown (m : Manager) : m.SameRegister m.shutdown.1 := by
  have stopped : m.SameRegister { m with maintenance := none } := ⟨rfl, fun _ => rfl⟩
  rw [Manager.shutdown]
  split
  · rename_i hsave
    exact stopped.trans (.autosave hsave)
  · exact stopped

theorem editProvider (m : Manager) (providerId : String) (e : Provider.Edit) :
    m.SameRegister (m.editProvider providerId e) := by
  rw [Manager.editProvider]
  split
  · exact .withProvider m _
  · exact .refl m

theorem restore (h : m.restore = .ok m') : m.SameRegister m' := by
  obtain ⟨arena, rfl⟩ := restore_frame h
  exact ⟨rfl, fun _ => rfl⟩

end SameRegister

namespace Elected

theorem of_same (hm : m.Elected) (h : m.SameRegister m') : m'.Elected where
  absent hnone providerId := by
    rw [h.contains, hm.absent (h.defaultProvider ▸ hnone)]
  registered providerId hdefault := by
    rw [h.contains, hm.registered providerId (h.defaultProvider ▸ hdefault)]

/-- The first provider to be registered becomes the default, and a later one does not take its
place. -/
theorem register {p : Provider} (hm : m.Elected) (h : m.register p = .ok m') : m'.Elected := by
  obtain rfl := register_ok h
  cases hdefault : m.defaultProvider with
  | none =>
    refine ⟨fun hnone => absurd hnone (by simp), fun providerId heq => ?_⟩
    obtain rfl := Option.some.inj heq
    show (m.providers.insert p.id p).contains p.id = true
    rw [Dict.contains_insert, decide_eq_true rfl, Bool.true_or]
  | some chosen =>
    refine ⟨fun hnone => absurd hnone (by simp), fun providerId heq => ?_⟩
    obtain rfl := Option.some.inj heq
    show (m.providers.insert p.id p).contains chosen = true
    rw [Dict.contains_insert, hm.registered chosen hdefault, Bool.or_true]

/-- When the default goes, the first of those that are left takes its place. -/
theorem unregister (hm : m.Elected) (providerId : String) :
    (m.unregister providerId).manager.Elected := by
  cases hcontains : m.providers.contains providerId with
  | false =>
    rw [unregister_absent hcontains]
    exact hm
  | true =>
    rw [(unregister_held hcontains).1]
    constructor
    · intro hnone other
      dsimp only at hnone ⊢
      split at hnone
      · exact Dict.head?_keys_eq_none.mp hnone other
      · rw [Dict.contains_erase, hm.absent hnone, Bool.and_false]
    · intro other hother
      dsimp only at hother ⊢
      split at hother
      · exact (Dict.head?_keys.mp hother).1
      · rename_i hstays
        have hne : providerId ≠ other := fun heq => hstays (heq ▸ hother)
        rw [Dict.contains_erase, hm.registered other hother, decide_eq_true hne, Bool.and_true]

theorem setDefault {providerId : String} (h : m.setDefault providerId = .ok m') : m'.Elected := by
  rw [Manager.setDefault] at h
  split at h
  · rename_i hcontains
    obtain rfl := Except.ok.inj h
    refine ⟨fun hnone => absurd hnone (by simp), fun other heq => ?_⟩
    obtain rfl := Option.some.inj heq
    exact hcontains
  · exact absurd h (by simp)

theorem registerAll (hm : m.Elected) (content : Option Directory) (given : List Provider) :
    (m.registerAll content given).1.Elected := by
  induction given generalizing m with
  | nil => exact hm
  | cons p rest ih =>
    rw [Manager.registerAll]
    split
    · rename_i hregister
      exact ih (hm.register hregister)
    · exact hm

/-- A launch that fails half way keeps a default as well. -/
theorem launch (hm : m.Elected) (given : List Provider) (content : Option Directory) :
    (m.launch given content).1.Elected := by
  have registered := hm.registerAll content (m.provided given)
  rcases m.launch_cases given content with ⟨e, h⟩ | ⟨m', hrestore, h⟩
  · rw [h]
    exact registered
  · have restored := registered.of_same (.restore hrestore)
    rw [h]
    dsimp only
    split
    · exact restored.of_same ⟨rfl, fun _ => rfl⟩
    · exact restored

/-- A provider that is registered becomes the default unless there is one. -/
theorem registerAll_isSome {content : Option Directory} {given : List Provider}
    (hsome : m.defaultProvider.isSome = true ∨ given ≠ [])
    (h : m.registerAll content given = (m', .ok ())) : m'.defaultProvider.isSome = true := by
  induction given generalizing m with
  | nil =>
    obtain ⟨rfl, -⟩ := Prod.mk.inj h
    exact hsome.resolve_right (fun hne => hne rfl)
  | cons p rest ih =>
    rw [Manager.registerAll] at h
    split at h
    · rename_i hregister
      obtain rfl := register_ok hregister
      refine ih (.inl ?_) h
      cases hdefault : m.defaultProvider <;> simp
    · exact absurd (Prod.mk.inj h).2 (by simp)

/-- Whatever the configuration names, a launch that succeeds has found the default among the
registered providers. -/
theorem of_launch {given : List Provider} {content : Option Directory}
    (h : m.launch given content = (m', .ok ())) : m'.Elected := by
  rw [Manager.launch] at h
  have some_given : m.provided given ≠ [] := by
    rw [provided]
    split
    · simp
    · rename_i hne
      exact fun heq => hne (List.isEmpty_iff.mpr heq)
  generalize hregistered : m.registerAll content (m.provided given) =
    registered at h
  obtain ⟨registered, result⟩ := registered
  cases result with
  | error => exact absurd (Prod.mk.inj h).2 (by simp)
  | ok =>
    obtain ⟨chosen, hchosen⟩ :=
      Option.isSome_iff_exists.mp (registerAll_isSome (.inr some_given) hregistered)
    dsimp only at h
    split at h
    · exact absurd (Prod.mk.inj h).2 (by simp)
    · rename_i hchecked
      have present : registered.providers.contains chosen = true := by
        rw [hchosen, Option.filter_some] at hchecked
        simpa using hchecked
      have elected : registered.Elected := by
        refine ⟨fun hnone => absurd (hchosen.symm.trans hnone) (by simp), fun other hother => ?_⟩
        obtain rfl := Option.some.inj (hchosen.symm.trans hother)
        exact present
      split at h
      · exact absurd (Prod.mk.inj h).2 (by simp)
      · rename_i hrestore
        obtain ⟨rfl, -⟩ := Prod.mk.inj h
        have restored := elected.of_same (.restore hrestore)
        split
        · exact restored.of_same ⟨rfl, fun _ => rfl⟩
        · exact restored

theorem perform (hm : m.Elected) (c : Call) : (m.perform c).1.Elected := by
  cases c with
  | launch given content => exact hm.launch given content
  | register p =>
    rw [Manager.perform]
    cases h : m.register p with
    | error => exact hm
    | ok => exact hm.register h
  | unregister providerId => exact hm.unregister providerId
  | setDefault providerId =>
    rw [Manager.perform]
    cases h : m.setDefault providerId with
    | error => exact hm
    | ok => exact .setDefault h
  | editProvider providerId e => exact hm.of_same (.editProvider m providerId e)
  | start ps providerId => exact hm.of_same (.start m ps providerId)
  | advance ps id input => exact hm.of_same (.advance m ps id input)
  | finish id => exact hm.of_same (.finish m id)
  | switchProvider id providerId => exact hm.of_same (.switchProvider m id providerId)
  | cleanup => exact hm.of_same (.cleanup m)
  | autosave =>
    rw [Manager.perform]
    cases h : m.autosave with
    | error => exact hm
    | ok => exact hm.of_same (.autosave h)
  | setClock => exact hm.of_same ⟨rfl, fun _ => rfl⟩
  | startMaintenance => exact hm.of_same ⟨rfl, fun _ => rfl⟩
  | tick seconds => exact hm.of_same (.tick m seconds)
  | shutdown => exact hm.of_same (.shutdown m)

theorem run (hm : m.Elected) (cs : List Call) : (m.run cs).1.Elected := by
  induction cs generalizing m with
  | nil => exact hm
  | cons c rest ih => exact ih (hm.perform c)

end Elected

/-! ### The provider that serves an NPC -/

/-- The provider that runs an NPC if none is named: the default if it can, else the first in the
order of ids that can, else the default, which cannot. -/
inductive Serves (m : Manager) (npcId : String) : Provider → Prop where
  | preferred {p : Provider} (hp : m.providers.get? p.id = some p)
      (hdefault : m.defaultProvider = some p.id) (hable : p.canHandle npcId = true) :
      Serves m npcId p
  | first {p : Provider} (hp : m.providers.get? p.id = some p)
      (hunable : ∀ chosen, m.default? = some chosen → chosen.canHandle npcId = false)
      (hable : p.canHandle npcId = true)
      (hleast : ∀ other q, m.providers.get? other = some q → q.canHandle npcId = true →
        p.id ≤ other) :
      Serves m npcId p
  | resort {p : Provider} (hp : m.providers.get? p.id = some p)
      (hdefault : m.defaultProvider = some p.id)
      (hnone : ∀ other q, m.providers.get? other = some q → q.canHandle npcId = false) :
      Serves m npcId p

variable {npcId : String} {p : Provider}

theorem Serves.registered (h : m.Serves npcId p) : m.providers.get? p.id = some p := by
  cases h with
  | preferred hp | first hp | resort hp => exact hp

theorem resolve_of_serves (h : m.Serves npcId p) : m.resolve npcId none = .ok p := by
  rw [resolve]
  cases h with
  | preferred hp hdefault hable =>
    have chosen : m.default? = some p := by rw [default?, hdefault, Option.bind_some, hp]
    have found : (p :: m.providers.values).find? (·.canHandle npcId) = some p :=
      List.find?_cons_of_pos hable
    rw [chosen, Option.toList_some, List.singleton_append, found]
    rfl
  | first hp hunable hable hleast =>
    have unable : m.default?.toList.find? (·.canHandle npcId) = none := by
      rw [List.find?_eq_none]
      intro chosen hchosen
      rw [hunable chosen (Option.mem_toList.mp hchosen)]
      exact Bool.false_ne_true
    have found : m.providers.values.find? (·.canHandle npcId) = some p := by
      have some_able : (m.providers.values.find? (·.canHandle npcId)).isSome = true :=
        List.find?_isSome.mpr ⟨p, Dict.mem_values.mpr ⟨p.id, hp⟩, hable⟩
      obtain ⟨q, hq⟩ := Option.isSome_iff_exists.mp some_able
      obtain ⟨key, hkey, hqable, hfirst⟩ := Dict.find?_values hq
      obtain rfl : key = p.id := String.le_antisymm (hfirst p.id p hp hable)
        (hleast key q hkey hqable)
      rw [hq, ← hkey, hp]
    rw [List.find?_append, unable, found]
    rfl
  | resort hp hdefault hnone =>
    have chosen : m.default? = some p := by rw [default?, hdefault, Option.bind_some, hp]
    have unable : (m.default?.toList ++ m.providers.values).find? (·.canHandle npcId) = none := by
      rw [List.find?_eq_none]
      intro q hq
      rw [chosen, Option.toList_some, List.singleton_append] at hq
      rcases List.mem_cons.mp hq with rfl | hq
      · rw [hnone q.id q hp]
        exact Bool.false_ne_true
      · obtain ⟨key, hkey⟩ := Dict.mem_values.mp hq
        rw [hnone key q hkey]
        exact Bool.false_ne_true
    rw [unable, chosen]
    rfl

/-- Where anything is registered, there is one that serves. -/
theorem Elected.exists_serves (hm : m.Sound f) (helected : m.Elected) {providerId : String}
    (h : m.providers.contains providerId = true) (npcId : String) : ∃ p, m.Serves npcId p := by
  obtain ⟨defaultId, hdefault⟩ : ∃ defaultId, m.defaultProvider = some defaultId := by
    cases hdefault : m.defaultProvider with
    | none => exact absurd h (by rw [helected.absent hdefault]; exact Bool.false_ne_true)
    | some defaultId => exact ⟨defaultId, rfl⟩
  have present := helected.registered defaultId hdefault
  rw [Dict.contains_eq_isSome, Option.isSome_iff_exists] at present
  obtain ⟨chosen, hchosen⟩ := present
  obtain ⟨rfl, -⟩ := hm.registry _ _ hchosen
  cases hable : chosen.canHandle npcId with
  | true => exact ⟨chosen, .preferred hchosen hdefault hable⟩
  | false =>
    cases hfound : m.providers.values.find? (·.canHandle npcId) with
    | none =>
      refine ⟨chosen, .resort hchosen hdefault fun other q hq => ?_⟩
      have := List.find?_eq_none.mp hfound q (Dict.mem_values.mpr ⟨other, hq⟩)
      simpa using this
    | some p =>
      obtain ⟨key, hkey, hpable, hleast⟩ := Dict.find?_values hfound
      obtain ⟨rfl, -⟩ := hm.registry _ _ hkey
      refine ⟨p, .first hkey (fun other hother => ?_) hpable hleast⟩
      rw [default?, hdefault, Option.bind_some, hchosen] at hother
      obtain rfl := Option.some.inj hother
      exact hable

/-- A start depends on what is asked for only through the provider that is found. -/
theorem start_congr {ps : Participants} {a b : Option String}
    (h : m.resolve ps.npc.id a = m.resolve ps.npc.id b) : m.start ps a = m.start ps b := by
  have same : (m.afterExpiry ps.player.id).resolve ps.npc.id a =
      (m.afterExpiry ps.player.id).resolve ps.npc.id b := h
  rw [start, start]
  simp only [expirePlayer_fst, same]

theorem start_eq_start_named {ps : Participants} (h : m.Serves ps.npc.id p) :
    m.start ps none = m.start ps (some p.id) := by
  refine start_congr ?_
  rw [resolve_of_serves h, resolve]
  rw [h.registered]

/-! ### Starts that name no provider -/

variable {ps : Participants}

/-- No provider is found exactly where none is registered. -/
theorem start_unserved_iff (hm : m.Sound f) (helected : m.Elected)
    (hroom : m.liveCount ps.player.id < m.config.maxConversationsPerPlayer) (npcId : String) :
    (m.start ps none).result.response = .error (.noProviderAvailable npcId) ↔
      npcId = ps.npc.id ∧ ∀ providerId, m.providers.contains providerId = false := by
  rw [start_error_iff hm]
  constructor
  · intro h
    cases h with
    | unserved _ _ hdefault =>
      refine ⟨rfl, helected.absent ?_⟩
      cases hchosen : m.defaultProvider with
      | none => rfl
      | some chosen =>
        have present := helected.registered chosen hchosen
        rw [default?, hchosen, Option.bind_some] at hdefault
        rw [Dict.contains_eq_isSome, hdefault] at present
        exact absurd present Bool.false_ne_true
  · rintro ⟨rfl, hempty⟩
    have unregistered (providerId : String) : m.providers.get? providerId = none := by
      have := hempty providerId
      rw [Dict.contains_eq_isSome] at this
      simpa using this
    refine .unserved hroom rfl ?_ fun other q hq => ?_
    · rw [default?]
      cases m.defaultProvider with
      | none => rfl
      | some chosen => exact unregistered chosen
    · exact absurd (hq.symm.trans (unregistered other)) (by simp)

/-- The tree is missing exactly where there are providers and none has one. -/
theorem start_unmapped_iff (hm : m.Sound f) (helected : m.Elected) (npcId : String) :
    (m.start ps none).result.response = .error (.noTreeMapped npcId) ↔
      npcId = ps.npc.id ∧ m.liveCount ps.player.id < m.config.maxConversationsPerPlayer ∧
        (∃ providerId, m.providers.contains providerId = true) ∧
        ∀ providerId p, m.providers.get? providerId = some p → p.canHandle npcId = false := by
  rw [start_error_iff hm]
  constructor
  · intro h
    cases h with
    | unmapped hroom hresolve htree =>
      obtain ⟨registered, hp⟩ := resolve_mem hresolve
      have present := Dict.contains_of_get? hp
      obtain ⟨q, hq⟩ := helected.exists_serves hm present ps.npc.id
      obtain rfl := Except.ok.inj ((resolve_of_serves hq).symm.trans hresolve)
      have unable : q.canHandle ps.npc.id = false := by
        rw [Provider.canHandle, Dict.contains_eq_isSome, htree]
        rfl
      refine ⟨rfl, hroom, ⟨registered, present⟩, ?_⟩
      cases hq with
      | preferred _ _ hable | first _ _ hable => exact absurd (hable.symm.trans unable) (by simp)
      | resort _ _ hnone => exact hnone
  · rintro ⟨rfl, hroom, ⟨providerId, hpresent⟩, hnone⟩
    obtain ⟨p, hp⟩ := helected.exists_serves hm hpresent ps.npc.id
    have unable := hnone p.id p hp.registered
    rw [Provider.canHandle, Dict.contains_eq_isSome] at unable
    exact .unmapped hroom (resolve_of_serves hp) (by simpa using unable)

/-! ### After a launch -/

/-- A provider whose id is taken is turned away. -/
theorem register_taken (h : m.providers.contains p.id = true) :
    m.register p = .error (.duplicateProvider p.id) ∧ m.perform (.register p) = (m, []) := by
  have refused : m.register p = .error (.duplicateProvider p.id) := by
    rw [Manager.register, if_pos h]
  refine ⟨refused, ?_⟩
  rw [perform, refused]
  rfl

/-- After a launch that succeeds and any calls from then on, the default is missing exactly where
nothing is registered and is registered otherwise, no provider is registered over another, and a
start that names no provider goes to the one that serves the NPC: it lacks a provider exactly
where none is registered, and a tree only where none of them has one. -/
theorem election {m₀ launched : Manager} (h₀ : m₀.Reachable) {given : List Provider}
    (hgiven : ∀ p ∈ given, p.Authored) {content : Option Directory}
    (hlaunch : m₀.launch given content = (launched, .ok ())) {cs : List Call}
    (hcs : ∀ c ∈ cs, ∀ p ∈ c.providers, p.Authored) :
    let m := (launched.run cs).1
    (m.defaultProvider = none ↔ ∀ providerId, m.providers.contains providerId = false) ∧
    (∀ providerId, m.defaultProvider = some providerId →
      m.providers.contains providerId = true) ∧
    (∀ p : Provider, m.providers.contains p.id = true →
      m.register p = .error (.duplicateProvider p.id) ∧ m.perform (.register p) = (m, [])) ∧
    ∀ ps : Participants,
      (∀ p, m.Serves ps.npc.id p → m.start ps none = m.start ps (some p.id)) ∧
      ((∃ providerId, m.providers.contains providerId = true) → ∃ p, m.Serves ps.npc.id p) ∧
      (m.liveCount ps.player.id < m.config.maxConversationsPerPlayer → ∀ npcId,
        (m.start ps none).result.response = .error (.noProviderAvailable npcId) ↔
          npcId = ps.npc.id ∧ ∀ providerId, m.providers.contains providerId = false) ∧
      ∀ npcId, (m.start ps none).result.response = .error (.noTreeMapped npcId) →
        npcId = ps.npc.id ∧
          ∀ providerId p, m.providers.get? providerId = some p → p.canHandle npcId = false := by
  intro m
  have hlaunched : launched.Reachable := by
    have := h₀.call (.launch given content) hgiven
    rwa [perform, hlaunch] at this
  have sound : m.Sound fun _ => () := (hlaunched.run hcs).sound
  have elected : m.Elected := (Elected.of_launch hlaunch).run cs
  have served (npcId : String) (h : ∃ providerId, m.providers.contains providerId = true) :
      ∃ p, m.Serves npcId p := by
    obtain ⟨providerId, hpresent⟩ := h
    exact elected.exists_serves sound hpresent npcId
  refine ⟨⟨elected.absent, fun hempty => ?_⟩, elected.registered, fun p => register_taken,
    fun ps => ⟨fun p => start_eq_start_named, served ps.npc.id,
      fun hroom => start_unserved_iff sound elected hroom, fun npcId h => ?_⟩⟩
  · rw [Option.eq_none_iff_forall_ne_some]
    intro chosen hchosen
    exact Bool.false_ne_true ((hempty chosen).symm.trans (elected.registered chosen hchosen))
  · obtain ⟨hnpc, -, -, hnone⟩ := (start_unmapped_iff sound elected npcId).mp h
    exact ⟨hnpc, hnone⟩

/-- The inn opens with its keeper, the cook comes, and the keeper goes. -/
theorem election_cook :
    let opened := ((Manager.new {} Inn.ids Instant.epoch none).launch [Inn.keeper] none).1
    let m := (opened.run [.register Inn.cook, .unregister "keeper"]).1
    m.defaultProvider = some "cook" ∧ m.providers.contains "cook" = true ∧
    m.perform (.register Inn.cook) = (m, []) ∧
    m.start Inn.diner none = m.start Inn.diner (some "cook") ∧
    (m.start Inn.guest none).result.response = .error (.noTreeMapped "innkeeper") ∧
    ∀ providerId p, m.providers.get? providerId = some p → p.canHandle "innkeeper" = false := by
  intro opened m
  have launched : (Manager.new {} Inn.ids Instant.epoch none).launch [Inn.keeper] none =
      (opened, .ok ()) := rfl
  have authored : ∀ c ∈ [Call.register Inn.cook, .unregister "keeper"],
      ∀ p ∈ c.providers, p.Authored := by
    refine List.forall_mem_cons.mpr ⟨fun p hp => ?_, List.forall_mem_singleton.mpr nofun⟩
    exact List.mem_singleton.mp hp ▸ Inn.cook_authored
  obtain ⟨-, hregistered, hrefused, hstart⟩ := election (.new _ _ _ _ _)
    (fun p hp => List.mem_singleton.mp hp ▸ Inn.keeper_authored) launched authored
  have chosen : m.defaultProvider = some "cook" := rfl
  have present : m.providers.contains "cook" = true := hregistered "cook" chosen
  have unmapped : (m.start Inn.guest none).result.response = .error (.noTreeMapped "innkeeper") := by
    decide +kernel
  exact ⟨chosen, present, (hrefused Inn.cook present).2,
    (hstart Inn.diner).1 Inn.cook (.preferred rfl chosen rfl), unmapped,
    ((hstart Inn.guest).2.2.2 "innkeeper" unmapped).2⟩

end Parley.Manager
