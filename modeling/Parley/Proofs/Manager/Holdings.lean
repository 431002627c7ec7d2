/-
What a manager holds and announces can be written.

* `Provider.HoldsSound.edit` — loaded content can be written, and so can what is edited into a
  provider, if it was given so;
* `Store.HoldsSound.loadActive` — and what is loaded from a store;
* `Manager.HoldsSound.perform`, `Manager.HoldsSound.run` — so where calls bring what can be
  written, all that a manager holds and announces in a run is of that kind.

Design notes: what comes from the text of a file or of a row needs no assumption, since
whatever is read can be written.
-/
import Parley.Proofs.Manager.Requests
import Parley.Proofs.Turn.Sound

namespace Parley

/-! ### Providers -/

theorem File.isSound_of_tree {file : File} {t : Tree} (h : file.tree = .ok t) : t.IsSound := by
  cases file with
  | unreadable => exact absurd h nofun
  | text s =>
    replace h : Tree.ofText s = .ok t := h
    rw [Tree.ofText] at h
    split at h
    · exact absurd h (by simp)
    · rename_i t' hread
      obtain ⟨d, -, hdecode⟩ := Option.bind_eq_some_iff.mp hread
      have same : t' = t := by
        cases hvalid : t'.validate with
        | error e =>
          rw [hvalid] at h
          exact absurd h nofun
        | ok =>
          rw [hvalid] at h
          exact Except.ok.inj h
      exact same ▸ Tree.isSound_of_decode hdecode

/-- Files are read, so the trees in them can be written. -/
theorem Directory.isSound_of_mem_load {d : Directory} {t : Tree} (h : t ∈ d.load.1) : t.IsSound := by
  obtain ⟨⟨name, loaded⟩, hmem, ht⟩ := List.mem_filterMap.mp h
  obtain ⟨⟨name', file⟩, -, heq⟩ := List.mem_map.mp hmem
  obtain ⟨rfl, rfl⟩ := Prod.mk.inj heq
  cases hfile : file.tree with
  | error e =>
    rw [hfile] at ht
    exact absurd ht nofun
  | ok t' =>
    rw [hfile] at ht
    obtain rfl := Option.some.inj ht
    exact File.isSound_of_tree hfile

namespace Provider

structure HoldsSound (p : Provider) : Prop where
  trees : ∀ treeId t, p.trees.get? treeId = some t → t.IsSound
  hook : ∀ run ∈ p.hook, run.IsSound

def Edit.BringsSound : Edit → Prop
  | .replaceTree t => t.IsSound
  | _ => True

namespace HoldsSound

variable {p p' : Provider}

theorem draw (h : p.HoldsSound) (taken : Nat) : HoldsSound { p with taken } :=
  ⟨h.trees, h.hook⟩

theorem mapNpc (h : p.HoldsSound) (npcId treeId : String) : (p.mapNpc npcId treeId).HoldsSound :=
  ⟨h.trees, h.hook⟩

theorem replaceTree (h : p.HoldsSound) {t : Tree} (ht : t.IsSound) {old : Option Tree}
    (hreplace : p.replaceTree t = .ok (p', old)) : p'.HoldsSound := by
  rw [Provider.replaceTree] at hreplace
  cases hvalid : t.validate with
  | error e =>
    rw [hvalid] at hreplace
    exact absurd hreplace (by simp [Except.map])
  | ok =>
    rw [hvalid] at hreplace
    obtain ⟨rfl, -⟩ := Prod.mk.inj (Except.ok.inj hreplace)
    refine ⟨fun treeId t' ht' => ?_, h.hook⟩
    rcases Dict.get?_insert_cases ht' with ⟨-, rfl⟩ | hold
    · exact ht
    · exact h.trees treeId t' hold

theorem adopt (h : p.HoldsSound) {t : Tree} (ht : t.IsSound) : (p.adopt t).HoldsSound := by
  have mapped : (t.declaredNpcs.foldl (fun p npcId => p.mapNpc npcId t.id) p).HoldsSound :=
    List.foldlRecOn _ _ h fun _ hp npcId _ => hp.mapNpc npcId t.id
  rw [adopt.eq_def]
  simp only
  split
  · rename_i hreplace
    exact mapped.replaceTree ht hreplace
  · exact mapped

theorem prepare (h : p.HoldsSound) (config : Config) (content : Option Directory) :
    (p.prepare config content).HoldsSound := by
  rw [prepare.eq_def]
  refine List.foldlRecOn _ _ ?_ fun _ hp entry _ => hp.mapNpc entry.1 entry.2
  refine List.foldlRecOn _ _ h fun _ hp t ht => hp.adopt ?_
  cases content with
  | none => exact absurd ht List.not_mem_nil
  | some d => exact Directory.isSound_of_mem_load ht

theorem edit (h : p.HoldsSound) {e : Edit} (he : e.BringsSound) : (p.edit e).HoldsSound := by
  cases e with
  | replaceTree t =>
    rw [edit.eq_def]
    simp only
    split
    · rename_i hreplace
      exact h.replaceTree he hreplace
    · exact h
  | mapNpc npcId treeId => exact h.mapNpc npcId treeId
  | unmapNpc npcId => exact ⟨h.trees, h.hook⟩
  | prepare config content => exact h.prepare config content

/-- On its trees, a provider plays turns that leave and announce what can be written. -/
theorem keeps (h : p.HoldsSound) (forum : Forum) (hnow : forum.now.IsValid) {treeId : String}
    {tree : Tree} (htree : p.trees.get? treeId = some tree) :
    (p.turn forum tree).Keeps Play.IsSound :=
  Turn.keeps_isSound (h.trees treeId tree htree) h.hook hnow

end HoldsSound

end Provider

/-! ### Stores -/

namespace Store

def HoldsSound : Store → Prop
  | memory saved | verbatim saved _ _ => ∀ c ∈ saved, c.IsSound
  | database _ => True

variable {s s' : Store} {cs : List Conversation}

theorem HoldsSound.loadActive (h : s.HoldsSound) (hload : s.loadActive = .ok cs) :
    ∀ c ∈ cs, c.IsSound := by
  cases s with
  | memory saved =>
    obtain rfl := Except.ok.inj hload
    exact h
  | database rows =>
    rw [Store.loadActive] at hload
    split at hload
    · rename_i loaded hcollect
      obtain rfl := Except.ok.inj hload
      intro c hc
      obtain ⟨row, -, hrow⟩ := Document.exists_of_collect hcollect c hc
      obtain ⟨d, -, hdecode⟩ := Option.bind_eq_some_iff.mp hrow
      exact Conversation.isSound_of_decode hdecode
    · exact absurd hload (by simp)
  | verbatim saved refusesSave refusesLoad =>
    cases refusesLoad with
    | true => exact absurd hload nofun
    | false =>
      obtain rfl := Except.ok.inj hload
      exact h

theorem holdsSound_of_replaceActive (hcs : ∀ c ∈ cs, c.IsSound)
    (hsave : s.replaceActive cs = .ok s') : s'.HoldsSound := by
  cases s with
  | memory saved =>
    obtain rfl := Except.ok.inj hsave
    exact fun c hc => hcs c (List.mem_of_mem_filter hc)
  | database rows =>
    rw [replaceActive] at hsave
    split at hsave
    · obtain rfl := Except.ok.inj hsave
      trivial
    · exact absurd hsave (by simp)
  | verbatim saved refusesSave refusesLoad =>
    cases refusesSave with
    | true => exact absurd hsave nofun
    | false =>
      obtain rfl := Except.ok.inj hsave
      exact hcs

end Store

/-! ### Managers -/

/-- Whatever a call brings along can be written. -/
def Call.BringsSound : Call → Prop
  | launch providers _ => ∀ p ∈ providers, p.HoldsSound
  | register p => p.HoldsSound
  | editProvider _ e => e.BringsSound
  | start ps _ | advance ps _ _ => ps.IsSound
  | setClock now => now.IsValid
  | _ => True

namespace Manager

structure HoldsSound (m : Manager) : Prop where
  now : m.now.IsValid
  arena : ∀ id c, m.arena.get? id = some c → c.IsSound
  providers : ∀ providerId p, m.providers.get? providerId = some p → p.HoldsSound
  store : ∀ store ∈ m.store, store.HoldsSound

/-- What a call leaves and announces can be written. -/
structure LeavesSound (m : Manager) (events : List Event) : Prop where
  manager : m.HoldsSound
  events : ∀ e ∈ events, e.IsSound

variable {α : Type} {f : Context → α} {m m' : Manager} {ps : Participants}

namespace HoldsSound

theorem silent (h : m.HoldsSound) : m.LeavesSound [] :=
  ⟨h, fun _ he => absurd he List.not_mem_nil⟩

theorem withArena (h : m.HoldsSound) {arena : Arena}
    (harena : ∀ id c, arena.get? id = some c → c.IsSound) : (m.withArena arena).HoldsSound :=
  ⟨h.now, harena, h.providers, h.store⟩

theorem withProvider (h : m.HoldsSound) {p : Provider} (hp : p.HoldsSound) :
    (m.withProvider p).HoldsSound := by
  refine ⟨h.now, h.arena, fun providerId p' hget => ?_, h.store⟩
  rcases Dict.get?_modify_cases hget with ⟨-, _, -, rfl⟩ | hold
  · exact hp
  · exact h.providers providerId p' hold

theorem endEvent (h : m.HoldsSound) (reason : EndReason) (c : Conversation) :
    (c.endEvent reason m.now).IsSound :=
  ⟨h.now, trivial⟩

/-- Conversations that end are announced and gone. -/
theorem without (h : m.HoldsSound) (reason : EndReason) (ids : List String) :
    (m.withArena (m.arena.without ids)).LeavesSound (m.endEvents reason ids) := by
  refine ⟨h.withArena fun id c hc => h.arena id c (Arena.get?_without_cases hc).2, fun e he => ?_⟩
  obtain ⟨_, -, c, -, rfl⟩ := mem_endEvents he
  exact h.endEvent reason c

theorem remove (h : m.HoldsSound) (reason : EndReason) (id : String) (c : Conversation) :
    (m.withArena (m.arena.remove id)).LeavesSound [c.endEvent reason m.now] := by
  refine ⟨h.withArena fun id' c' hc' => ?_, List.forall_mem_singleton.mpr (h.endEvent reason c)⟩
  rw [Arena.get?_remove] at hc'
  split at hc'
  · exact absurd hc' nofun
  · exact h.arena id' c' hc'

theorem expirePlayer (h : m.HoldsSound) (hm : m.Sound f) (playerId : String) :
    (m.afterExpiry playerId).LeavesSound (m.expirePlayer playerId).2 := by
  rw [expirePlayer_endEvents hm]
  exact h.without .timeout _

/-! ### Calls that play a turn -/

theorem start (h : m.HoldsSound) (hm : m.Sound f) (hps : ps.IsSound)
    (providerId : Option String) :
    (m.start ps providerId).manager.LeavesSound (m.start ps providerId).events := by
  have expired := h.expirePlayer hm ps.player.id
  cases hr : (m.start ps providerId).result.response with
  | error e =>
    rw [start_refused hm hr]
    exact expired
  | ok r =>
    obtain ⟨p, tree, play, opens⟩ := start_ok hm hr
    obtain ⟨treeId, htree⟩ := Provider.treeOf_mem opens.mapped
    have holds : p.HoldsSound := h.providers _ _ (opens.registered hm).1
    have new : (p.newConversation m.forum ps tree).IsSound :=
      .new (holds.trees treeId tree htree) h.now _ _ _ _
    have played : play.IsSound := by
      have begun := (holds.keeps m.forum h.now htree).begin
        (Play.isSound_ofConversation new hps p.taken)
      rwa [opens.begins] at begun
    refine ⟨?_, fun e he => ?_⟩
    · rw [opens.start_eq]
      refine ⟨h.now, fun id c hc => ?_, (h.withProvider (holds.draw play.taken)).providers, h.store⟩
      replace hc : (if play.conversation.isActive then
        (m.afterExpiry ps.player.id).arena.insert play.conversation
        else (m.afterExpiry ps.player.id).arena).get? id = some c := hc
      split at hc
      · rcases Arena.get?_insert_cases hc with rfl | hold
        · exact played.conversation
        · exact expired.manager.arena id c hold
      · exact expired.manager.arena id c hc
    · rw [opens.events_eq] at he
      rcases List.mem_append.mp he with he | he
      · exact expired.events e he
      · rcases List.mem_cons.mp he with rfl | he
        · exact ⟨h.now, trivial⟩
        · exact played.scene.events e he

theorem advance (h : m.HoldsSound) (hm : m.Sound f) (hps : ps.IsSound) (id input : String) :
    (m.advance ps id input).manager.LeavesSound (m.advance ps id input).events := by
  cases hr : (m.advance ps id input).result.response with
  | error e =>
    have advanced := advance_cases hm ps id input
    by_cases htimeout : e = .timeout id
    · subst htimeout
      obtain ⟨c, -, hreply⟩ := advanced.timedOut hr
      rw [hreply]
      exact h.remove .timeout id c
    · rw [advanced.refused hr htimeout]
      exact h.silent
  | ok r =>
    obtain ⟨c, p, tree, n, play, proceeds⟩ := advance_ok hm hr
    have holds : p.HoldsSound := h.providers _ _ proceeds.provider
    have touched := (h.arena id c proceeds.held).touch h.now
    have played : play.IsSound := by
      have advanced := (holds.keeps m.forum h.now proceeds.installed).advance input
        (Play.isSound_ofConversation touched hps p.taken)
      rwa [proceeds.advances] at advanced
    have present : m.arena.contains play.conversation.id = true := by
      rw [proceeds.id_eq hm]
      exact Arena.contains_of_get? proceeds.held
    rw [proceeds.advance_eq hm]
    refine ⟨⟨h.now, fun id' c' hc' => ?_, (h.withProvider (holds.draw play.taken)).providers,
      h.store⟩, played.scene.events⟩
    rcases Arena.get?_settle_cases present hc' with rfl | hold
    · exact played.conversation
    · exact h.arena id' c' hold

/-! ### Calls that play none -/

theorem finish (h : m.HoldsSound) (hm : m.Sound f) (id : String) :
    (m.finish id).manager.LeavesSound (m.finish id).events := by
  cases hc : m.arena.get? id with
  | none =>
    rw [finish_absent hc]
    exact h.silent
  | some c =>
    rw [finish_held hm hc]
    exact h.remove .explicit id c

theorem switchProvider (h : m.HoldsSound) (id providerId : String) :
    (m.switchProvider id providerId).manager.LeavesSound
      (m.switchProvider id providerId).events := by
  have switched := switchProvider_cases m id providerId
  generalize m.switchProvider id providerId = reply at switched
  cases switched with
  | refused | same => exact h.silent
  | @moved c p hc =>
    have sound := h.arena id c hc
    refine ⟨h.withArena fun id' c' hc' => ?_, List.forall_mem_singleton.mpr ⟨h.now, trivial⟩⟩
    rcases Arena.get?_update_cases hc' with rfl | hold
    · exact ⟨sound.startedAt, sound.lastActivity, sound.turnCount, sound.vars⟩
    · exact h.arena id' c' hold

theorem cleanup (h : m.HoldsSound) (hm : m.Sound f) :
    m.cleanup.manager.LeavesSound m.cleanup.events := by
  rw [cleanup_manager, cleanup_endEvents hm]
  exact h.without .timeout _

theorem unregister (h : m.HoldsSound) (hm : m.Sound f) (providerId : String) :
    (m.unregister providerId).manager.LeavesSound (m.unregister providerId).events := by
  cases hcontains : m.providers.contains providerId with
  | false =>
    rw [unregister_absent hcontains]
    exact h.silent
  | true =>
    have hids : (m.arena.idsOfProvider providerId).Nodup := Dict.nodup_keys _
    obtain ⟨hmanager, hevents⟩ := unregister_held hcontains
    rw [hmanager, hevents, finishAll_endEvents hm _ hids]
    have ended := h.without .providerUnregistered (m.arena.idsOfProvider providerId)
    refine ⟨⟨h.now, ended.manager.arena, fun other p hp => ?_, h.store⟩, ended.events⟩
    exact h.providers other p (Dict.get?_erase_cases hp).2

theorem register (h : m.HoldsSound) {p : Provider} (hp : p.HoldsSound)
    (hregister : m.register p = .ok m') : m'.HoldsSound := by
  rw [Manager.register] at hregister
  split at hregister
  · exact absurd hregister (by simp)
  · obtain rfl := Except.ok.inj hregister
    refine ⟨h.now, h.arena, fun providerId p' hget => ?_, h.store⟩
    rcases Dict.get?_insert_cases hget with ⟨-, rfl⟩ | hold
    · exact hp
    · exact h.providers providerId p' hold

theorem editProvider (h : m.HoldsSound) (providerId : String) {e : Provider.Edit}
    (he : e.BringsSound) : (m.editProvider providerId e).HoldsSound := by
  rw [Manager.editProvider]
  split
  · rename_i p hp
    exact h.withProvider ((h.providers providerId p hp).edit he)
  · exact h

theorem autosave (h : m.HoldsSound) {count : Nat} (hsave : m.autosave = .ok (m', count)) :
    m'.HoldsSound := by
  rw [Manager.autosave] at hsave
  split at hsave
  · obtain ⟨rfl, -⟩ := Prod.mk.inj (Except.ok.inj hsave)
    exact h
  · split at hsave
    · rename_i store' hreplace
      obtain ⟨rfl, -⟩ := Prod.mk.inj (Except.ok.inj hsave)
      refine ⟨h.now, h.arena, h.providers, ?_⟩
      rintro _ ⟨⟩
      refine Store.holdsSound_of_replaceActive (fun c hc => ?_) hreplace
      obtain ⟨id, hget⟩ := Arena.mem_all.mp hc
      exact h.arena id c hget
    · exact absurd hsave (by simp)

theorem tick (h : m.HoldsSound) (hm : m.Sound f) (seconds : Nat) :
    (m.tick seconds).1.LeavesSound (m.tick seconds).2 := by
  have cleaned := h.cleanup hm
  have maintained : m.maintain.1.LeavesSound m.maintain.2 := by
    rw [maintain]
    split
    · rename_i hsave
      exact ⟨cleaned.manager.autosave hsave, cleaned.events⟩
    · exact cleaned
  rw [Manager.tick]
  split
  · exact h.silent
  · split
    · exact silent ⟨h.now, h.arena, h.providers, h.store⟩
    · have holds := maintained.manager
      exact ⟨⟨holds.now, holds.arena, holds.providers, holds.store⟩, maintained.events⟩

theorem shutdown (h : m.HoldsSound) : m.shutdown.1.HoldsSound := by
  have stopped : HoldsSound { m with maintenance := none } :=
    ⟨h.now, h.arena, h.providers, h.store⟩
  rw [Manager.shutdown]
  split
  · rename_i hsave
    exact stopped.autosave hsave
  · exact stopped

theorem registerAll (h : m.HoldsSound) (content : Option Directory) {providers : List Provider}
    (hall : ∀ p ∈ providers, p.HoldsSound) : (m.registerAll content providers).1.HoldsSound := by
  -- What is registered before a refusal stays, so every prefix of the list counts.
  induction providers generalizing m with
  | nil => exact h
  | cons p rest ih =>
    obtain ⟨hp, hrest⟩ := List.forall_mem_cons.mp hall
    rw [Manager.registerAll]
    split
    · rename_i m' hregister
      exact ih (h.register (hp.prepare m.config content) hregister) hrest
    · exact h

theorem restore (h : m.HoldsSound) (hrestore : m.restore = .ok m') : m'.HoldsSound := by
  rw [Manager.restore] at hrestore
  split at hrestore
  · obtain rfl := Except.ok.inj hrestore
    exact h
  · rename_i store hstore
    split at hrestore
    · rename_i saved hload
      obtain rfl := Except.ok.inj hrestore
      have sound := (h.store store hstore).loadActive hload
      refine h.withArena ?_
      refine List.foldlRecOn (motive := fun a : Arena => ∀ id c, a.get? id = some c → c.IsSound)
        _ _ h.arena fun a ha c hc id c' hc' => ?_
      rcases Arena.get?_insert_cases hc' with rfl | hold
      · exact sound _ (List.mem_of_mem_filter hc)
      · exact ha id c' hold
    · exact absurd hrestore (by simp)

theorem launch (h : m.HoldsSound) {given : List Provider} (hgiven : ∀ p ∈ given, p.HoldsSound)
    (content : Option Directory) : (m.launch given content).1.HoldsSound := by
  have brought : ∀ p ∈ m.provided given, p.HoldsSound := by
    rw [provided]
    split
    · have empty (treeId : String) :
          ({ sample := m.sample } : Provider).trees.get? treeId = none := rfl
      exact List.forall_mem_singleton.mpr ⟨fun treeId _ ht =>
        absurd ((empty treeId).symm.trans ht) (by simp), fun _ hrun => absurd hrun (by simp)⟩
    · exact hgiven
  have registered := h.registerAll content brought
  rcases m.launch_cases given content with ⟨e, hlaunch⟩ | ⟨m', hrestore, hlaunch⟩
  · rw [hlaunch]
    exact registered
  · have restored := registered.restore hrestore
    rw [hlaunch]
    dsimp only
    split
    · exact ⟨restored.now, restored.arena, restored.providers, restored.store⟩
    · exact restored

/-! ### Runs -/

theorem unlessRefused (h : m.HoldsSound) {result : Except DialogueError Manager}
    (hresult : ∀ m', result = .ok m' → m'.HoldsSound) : (m.unlessRefused result).HoldsSound := by
  cases result with
  | error => exact h
  | ok m' => exact hresult m' rfl

theorem perform (h : m.HoldsSound) (hm : m.Sound f) {c : Call} (hc : c.BringsSound) :
    (m.perform c).1.LeavesSound (m.perform c).2 := by
  cases c with
  | launch given content => exact (h.launch hc content).silent
  | register p => exact (h.unlessRefused fun _ => h.register hc).silent
  | unregister providerId => exact h.unregister hm providerId
  | setDefault providerId =>
    refine (h.unlessRefused fun m' hset => ?_).silent
    rw [setDefault] at hset
    split at hset
    · obtain rfl := Except.ok.inj hset
      exact ⟨h.now, h.arena, h.providers, h.store⟩
    · exact absurd hset (by simp)
  | editProvider providerId e => exact (h.editProvider providerId hc).silent
  | start ps providerId => exact h.start hm hc providerId
  | advance ps id input => exact h.advance hm hc id input
  | finish id => exact h.finish hm id
  | switchProvider id providerId => exact h.switchProvider id providerId
  | cleanup => exact h.cleanup hm
  | autosave =>
    refine (h.unlessRefused fun m' hsave => ?_).silent
    cases hresult : m.autosave with
    | error e =>
      rw [hresult] at hsave
      exact absurd hsave (by simp [Except.map])
    | ok saved =>
      rw [hresult] at hsave
      obtain rfl := Except.ok.inj hsave
      exact h.autosave hresult
  | setClock now => exact silent ⟨hc, h.arena, h.providers, h.store⟩
  | startMaintenance => exact silent ⟨h.now, h.arena, h.providers, h.store⟩
  | tick seconds => exact h.tick hm seconds
  | shutdown => exact h.shutdown.silent

/-- All that is held and announced in a run can be written. -/
theorem run (h : m.HoldsSound) (hm : m.Reachable) {calls : List Call}
    (hcalls : ∀ c ∈ calls, c.BringsSound ∧ ∀ p ∈ c.providers, p.Authored) :
    (m.run calls).1.LeavesSound (m.run calls).2 := by
  induction calls generalizing m with
  | nil => exact h.silent
  | cons c rest ih =>
    obtain ⟨⟨hc, hauthored⟩, hrest⟩ := List.forall_mem_cons.mp hcalls
    have performed := h.perform hm.sound hc
    have later := ih performed.manager (hm.call c hauthored) hrest
    refine ⟨later.manager, fun e he => ?_⟩
    rcases List.mem_append.mp he with he | he
    · exact performed.events e he
    · exact later.events e he

theorem new (config : Config) (ids : IdSupply) {now : Instant} (hnow : now.IsValid)
    (store : Option Store) (hstore : ∀ s ∈ store, s.HoldsSound) (sample : Nat → Float) :
    HoldsSound { Manager.new config ids now store with sample } :=
  ⟨hnow, fun _ _ hc => absurd hc nofun, fun _ _ hp => absurd hp nofun, hstore⟩

end HoldsSound

end Manager

end Parley
