/-
A restart changes nothing.

A manager with a store is shut down, and a new one is made of its configuration, its time and
what the store then holds, and launched with providers that hold what the old ones held.

* `Manager.shutdown_saves` — shutting down saves the conversations as they are;
* `Manager.registerAll_get?`, `Manager.registerAll_default` — a launch registers every provider
  that it is given, if their ids are different;
* `Manager.restore_all` — and takes up every conversation that was saved, if none is idle;
* `Manager.restart` — so the new manager holds the same conversations, and answers as the old
  one would have.

Design notes: the ids of later conversations are drawn at random, so two managers are compared
as if they drew the same.
-/
import Parley.Proofs.Expiry
import Parley.Proofs.Isolation
import Parley.Proofs.Manager.Twin
import Parley.Proofs.Store

namespace Parley

/-! ### Arenas -/

namespace Arena

variable {a b : Arena} {cs : List Conversation}

/-- Arenas in order that hold the same conversations are the same. -/
theorem Sound.ext (ha : a.Sound) (hb : b.Sound)
    (h : ∀ id c, a.get? id = some c ↔ b.get? id = some c) : a = b := by
  obtain ⟨entries⟩ := a
  obtain ⟨entries'⟩ := b
  refine congrArg Arena.mk (Dict.ext_get? fun id => ?_)
  rw [show entries.get? id = _ from ha.entries_get? id,
    show entries'.get? id = _ from hb.entries_get? id]
  exact congrArg (Option.map _) (Option.ext fun c => h id c)

theorem Sound.foldl_insert (ha : a.Sound) (hcs : ∀ c ∈ cs, c.isActive = true) :
    (cs.foldl Arena.insert a).Sound := by
  induction cs generalizing a with
  | nil => exact ha
  | cons c rest ih =>
    exact ih (ha.insert (hcs c List.mem_cons_self)) fun c' hc' =>
      hcs c' (List.mem_cons_of_mem c hc')

theorem get?_foldl_insert_cases {id : String} {c : Conversation}
    (h : (cs.foldl Arena.insert a).get? id = some c) :
    (c ∈ cs ∧ c.id = id) ∨ a.get? id = some c := by
  rcases get?_foldl_insert_iff.mp h with ⟨hmem, hid⟩ | ⟨-, hbefore⟩
  · exact .inl ⟨List.pwFilter_subset cs hmem, hid⟩
  · exact .inr hbefore

/-- Taking up everything that an arena holds, in any order, makes the arena again. -/
theorem Sound.foldl_insert_all (ha : a.Sound) (hcs : cs.Perm a.all) :
    cs.foldl Arena.insert {} = a := by
  have mem {c : Conversation} : c ∈ cs ↔ a.get? c.id = some c := by
    rw [hcs.mem_iff, mem_all]
    exact ⟨fun ⟨id, hc⟩ => ha.id_eq hc ▸ hc, fun hc => ⟨c.id, hc⟩⟩
  have active : ∀ c ∈ cs, c.isActive = true := fun c hc => ha.isActive (mem.mp hc)
  refine (Sound.empty.foldl_insert active).ext ha fun id c => ⟨fun hc => ?_, fun hc => ?_⟩
  · rcases get?_foldl_insert_cases hc with ⟨hmem, rfl⟩ | hempty
    · exact mem.mp hmem
    · exact absurd hempty (by nofun)
  · obtain rfl := ha.id_eq hc
    -- An id is held once, so none takes the place of another.
    have one : ∀ c' ∈ cs, c'.id = c.id → c' = c := fun c' hc' hid =>
      Option.some.inj ((hid ▸ mem.mp hc').symm.trans hc)
    rw [Manager.get?_foldl_insert one, if_pos (mem.mpr hc)]

end Arena

theorem Provider.prepare_id (p : Provider) (config : Config) (content : Option Directory) :
    (p.prepare config content).id = p.id :=
  (p.prepare_revises config content).id

namespace Manager

variable {α : Type} {f : Context → α} {m m' : Manager}

/-! ### Settings -/

theorem Step.settings {events : List Event} (h : Step f m m' events) :
    m'.forum.settings = m.forum.settings := by
  cases h with
  | aside now _ _ hforum => rw [hforum]
  | registered | edited | dropped | ended | opened | turned | switched => rfl

theorem Steps.settings {events : List Event} (h : Steps f m m' events) :
    m'.forum.settings = m.forum.settings ∧ m'.config = m.config := by
  induction h with
  | refl => exact ⟨rfl, rfl⟩
  | head hstep _ ih => exact ⟨ih.1.trans hstep.settings, ih.2.trans hstep.config⟩

theorem register_ok {p : Provider} (h : m.register p = .ok m') :
    m' = { m with
      providers := m.providers.insert p.id p
      defaultProvider := m.defaultProvider <|> some p.id } := by
  rw [register] at h
  split at h
  · exact absurd h (by simp)
  · exact (Except.ok.inj h).symm

/-- Registering touches the providers and the default alone. -/
theorem registerAll_frame (m : Manager) (content : Option Directory) (given : List Provider) :
    ∃ providers defaultProvider,
      (m.registerAll content given).1 = { m with providers, defaultProvider } := by
  induction given generalizing m with
  | nil => exact ⟨m.providers, m.defaultProvider, rfl⟩
  | cons p rest ih =>
    rw [registerAll]
    split
    · rename_i hregister
      obtain rfl := register_ok hregister
      exact ih _
    · exact ⟨m.providers, m.defaultProvider, rfl⟩

theorem restore_frame (h : m.restore = .ok m') : ∃ arena, m' = m.withArena arena := by
  rw [restore] at h
  split at h
  · obtain rfl := Except.ok.inj h
    exact ⟨m.arena, rfl⟩
  · split at h
    · exact ⟨_, (Except.ok.inj h).symm⟩
    · exact absurd h (by simp)

theorem launch_settings (m : Manager) (given : List Provider) (content : Option Directory) :
    (m.launch given content).1.forum.settings = m.forum.settings ∧
      (m.launch given content).1.config = m.config := by
  obtain ⟨providers, defaultProvider, hframe⟩ :=
    m.registerAll_frame content (m.provided given)
  -- A launch may stop at a provider, at the default or at the store.
  rcases m.launch_cases given content with ⟨e, h⟩ | ⟨m', hrestore, h⟩
  · rw [h, hframe]
    exact ⟨rfl, rfl⟩
  · obtain ⟨arena, rfl⟩ := restore_frame hrestore
    rw [h, hframe]
    dsimp only
    split <;> exact ⟨rfl, rfl⟩

/-- The settings are those of the configuration, for good. -/
theorem Reachable.settings (h : m.Reachable) : m.forum.settings = Settings.ofConfig m.config := by
  induction h with
  | new config ids now store sample => rfl
  | @call m c hc hm ih =>
    have kept : (m.perform c).1.forum.settings = m.forum.settings ∧
        (m.perform c).1.config = m.config := by
      cases hlaunch : c.isLaunch with
      | false =>
        exact (perform_steps hm.sound hlaunch fun p hp => ⟨hc p hp, steady_unit _⟩).settings
      | true =>
        cases c with
        | launch given content => exact m.launch_settings given content
        | _ => exact absurd hlaunch (by simp [Call.isLaunch])
    rw [kept.1, kept.2, ih]

/-! ### Saving -/

theorem autosave_replaced {store store' : Store} (hstore : m.store = some store)
    (hreplace : store.replaceActive m.arena.all = .ok store') :
    m.autosave = .ok ({ m with store := some store' }, m.arena.all.length) := by
  rw [autosave, hstore]
  dsimp only
  rw [hreplace]

theorem shutdown_saves (hm : m.Sound f) {store : Store} (hstore : m.store = some store)
    (hworks : store.Works)
    (hstorable : store.isDatabase = true → ∀ id c, m.arena.get? id = some c → c.Storable) :
    ∃ store' saved, m.shutdown = ({ m with maintenance := none, store := some store' }, .ok ()) ∧
      store'.loadActive = .ok saved ∧ saved.Perm m.arena.all := by
  obtain ⟨store', saved, hreplace, hload, hperm⟩ :=
    Store.loadActive_replaceActive hworks (fun c => hm.arena.active_of_mem_all)
      hm.arena.nodup_all_ids fun hdatabase c hc => by
      obtain ⟨id, hheld⟩ := Arena.mem_all.mp hc
      exact hstorable hdatabase id c hheld
  have stopped : autosave { m with maintenance := none } =
      .ok ({ m with maintenance := none, store := some store' }, m.arena.all.length) :=
    autosave_replaced (m := { m with maintenance := none }) hstore hreplace
  refine ⟨store', saved, ?_, hload, hperm⟩
  rw [shutdown, stopped]

/-! ### Registering -/

section Registering

variable {content : Option Directory} {given : List Provider}

/-- What is not given stays as it was. -/
theorem registerAll_other {id : String} (h : id ∉ given.map Provider.id) :
    (m.registerAll content given).1.providers.get? id = m.providers.get? id := by
  induction given generalizing m with
  | nil => rfl
  | cons p rest ih =>
    rw [List.map_cons, List.mem_cons, not_or] at h
    rw [registerAll]
    split
    · rename_i hregister
      obtain rfl := register_ok hregister
      rw [ih h.2]
      exact (Dict.get?_insert _ _ _ _).trans (if_neg (p.prepare_id _ _ ▸ Ne.symm h.1))
    · rfl

/-- Providers with ids of their own are all registered, as they are when prepared. -/
theorem registerAll_get? (hids : (given.map Provider.id).Nodup)
    (hnew : ∀ p ∈ given, m.providers.contains p.id = false) :
    (m.registerAll content given).2 = .ok () ∧
      ∀ p ∈ given, (m.registerAll content given).1.providers.get? p.id =
        some (p.prepare m.config content) := by
  induction given generalizing m with
  | nil => exact ⟨rfl, fun p hp => absurd hp List.not_mem_nil⟩
  | cons p rest ih =>
    obtain ⟨hp, hrest⟩ := List.nodup_cons.mp hids
    have new := hnew p List.mem_cons_self
    have registered : m.register (p.prepare m.config content) = .ok { m with
        providers := m.providers.insert p.id (p.prepare m.config content)
        defaultProvider := m.defaultProvider <|> some p.id } := by
      rw [register, p.prepare_id, new]
      rfl
    rw [registerAll, registered]
    dsimp only
    obtain ⟨hok, hfound⟩ := ih (m := { m with
        providers := m.providers.insert p.id (p.prepare m.config content)
        defaultProvider := m.defaultProvider <|> some p.id }) hrest fun p' hp' => by
      have hne : p.id ≠ p'.id := fun heq => hp (heq ▸ List.mem_map_of_mem hp')
      show (m.providers.insert p.id _).contains p'.id = false
      rw [Dict.contains_insert, hnew p' (List.mem_cons_of_mem p hp')]
      simpa using hne
    refine ⟨hok, fun p' hp' => ?_⟩
    rcases List.mem_cons.mp hp' with rfl | hp'
    -- The first one stays as it is, since nobody after it has its id.
    · rw [registerAll_other hp]
      exact (Dict.get?_insert _ _ _ _).trans (if_pos rfl)
    · exact hfound p' hp'

/-- The default is the one there was, or else one of those given. -/
theorem registerAll_default {id : String}
    (h : (m.registerAll content given).1.defaultProvider = some id) :
    m.defaultProvider = some id ∨ id ∈ given.map Provider.id := by
  induction given generalizing m with
  | nil => exact .inl h
  | cons p rest ih =>
    rw [registerAll] at h
    split at h
    · rename_i hregister
      obtain rfl := register_ok hregister
      rcases ih h with hbefore | hmem
      · dsimp only at hbefore
        rw [p.prepare_id, Option.orElse_eq_orElse, Option.orElse_eq_or,
          Option.or_eq_some_iff] at hbefore
        rcases hbefore with hbefore | ⟨-, hfirst⟩
        · exact .inl hbefore
        · exact .inr (Option.some.inj hfirst ▸ List.mem_cons_self)
      · exact .inr (List.mem_cons_of_mem _ hmem)
    · exact .inl h

end Registering

/-! ### Restarting -/

/-- Everything that was saved is taken up by a manager that holds nothing yet, where all of it
can go on. -/
theorem restore_all {a : Arena} (ha : a.Sound) {store : Store} {saved : List Conversation}
    (hstore : m.store = some store) (hload : store.loadActive = .ok saved)
    (hsaved : saved.Perm a.all) (hempty : m.arena = {})
    (hrestorable : ∀ id c, a.get? id = some c → m.isRestorable c = true) :
    m.restore = .ok (m.withArena a) := by
  have all : saved.filter m.isRestorable = saved := by
    refine List.filter_eq_self.mpr fun c hc => ?_
    obtain ⟨id, hheld⟩ := Arena.mem_all.mp (hsaved.mem_iff.mp hc)
    exact hrestorable id c hheld
  rw [restore, hstore]
  dsimp only
  rw [hload]
  dsimp only
  rw [all, hempty, ha.foldl_insert_all hsaved]

/-- Providers are given in place of those of `m`: of the same ids, and holding the same when
they have been prepared. -/
structure Replaces (m : Manager) (given : List Provider) (content : Option Directory) : Prop where
  ids : (given.map Provider.id).Perm m.providers.keys
  same : ∀ p ∈ given, ∃ old, m.providers.get? p.id = some old ∧
    old.Matches (p.prepare m.config content)

theorem Replaces.twin {given : List Provider} {content : Option Directory}
    (h : m.Replaces given content) (hconfig : m'.config = m.config) (hforum : m'.forum = m.forum)
    (hfound : ∀ p ∈ given, m'.providers.get? p.id = some (p.prepare m.config content))
    (hother : ∀ id, id ∉ given.map Provider.id → m'.providers.get? id = none) : m.Twin m' := by
  refine ⟨hconfig, hforum, fun id => ?_⟩
  by_cases hid : id ∈ given.map Provider.id
  · obtain ⟨p, hp, rfl⟩ := List.mem_map.mp hid
    obtain ⟨old, hold, same⟩ := h.same p hp
    rw [hold, hfound p hp]
    exact .some same
  · have unregistered : m.providers.get? id = none := by
      rw [h.ids.mem_iff, ← Dict.contains_iff, Bool.not_eq_true, Dict.contains_eq_isSome] at hid
      simpa using hid
    rw [unregistered, hother id hid]
    exact .none

/-- A new manager takes the place of `m`, but for the ids that it will draw. -/
theorem launch_replaced (hm : m.Sound f) (hsettings : m.forum.settings = Settings.ofConfig m.config)
    (hregistered : ∃ providerId, m.providers.contains providerId = true)
    (hdefault : ∀ providerId, m.config.defaultProvider = some providerId →
      m.providers.contains providerId = true)
    (hlive : ∀ id c, m.arena.get? id = some c → c.isExpired m.now m.timeout = false)
    {given : List Provider} {content : Option Directory} (hgiven : m.Replaces given content)
    {store : Store} {saved : List Conversation} (hload : store.loadActive = .ok saved)
    (hsaved : saved.Perm m.arena.all) (ids : IdSupply) :
    ∃ launched,
      (Manager.new m.config ids m.now (some store)).launch given content = (launched, .ok ()) ∧
      m.Twin (launched.withSupply m.forum.ids) := by
  let fresh := Manager.new m.config ids m.now (some store)
  have nodup : (given.map Provider.id).Nodup := hgiven.ids.nodup_iff.mpr (Dict.nodup_keys _)
  have hregistering : (fresh.registerAll content given).2 = .ok () ∧
      ∀ p ∈ given, (fresh.registerAll content given).1.providers.get? p.id =
        some (p.prepare m.config content) := registerAll_get? nodup fun _ _ => rfl
  obtain ⟨hok, hfound⟩ := hregistering
  have hother (id : String) (hid : id ∉ given.map Provider.id) :
      (fresh.registerAll content given).1.providers.get? id = none := registerAll_other hid
  have hchoice {id : String} :
      (fresh.registerAll content given).1.defaultProvider = some id →
        m.config.defaultProvider = some id ∨ id ∈ given.map Provider.id := registerAll_default
  obtain ⟨providers, defaultProvider, hframe⟩ := fresh.registerAll_frame content given
  -- The manager before it restores, which holds nothing yet.
  let registered : Manager := { fresh with providers, defaultProvider }
  have launching : fresh.registerAll content given = (registered, .ok ()) := Prod.ext hframe hok
  rw [launching] at hfound hother hchoice
  have forum : m.forum = { registered.forum with arena := m.arena, ids := m.forum.ids } := by
    show m.forum = { m.forum with settings := Settings.ofConfig m.config }
    rw [← hsettings]
  have twins : m.Twin { registered with forum := m.forum } :=
    hgiven.twin rfl rfl hfound hother
  have present {id : String} (h : m.providers.contains id = true) :
      id ∈ given.map Provider.id ∧ registered.providers.contains id = true := by
    rw [hgiven.ids.mem_iff]
    exact ⟨Dict.contains_iff.mp h, (twins.contains_eq id).trans h⟩
  have given_some : fresh.provided given = given := by
    obtain ⟨id, hid⟩ := hregistered
    obtain ⟨p, hp, -⟩ := List.mem_map.mp (present hid).1
    rw [provided, List.isEmpty_eq_false_iff_exists_mem.mpr ⟨p, hp⟩]
    rfl
  have checked : registered.defaultProvider.filter
      (fun providerId => !registered.providers.contains providerId) = none := by
    rw [Option.filter_eq_none_iff]
    intro id hid
    rw [Bool.not_eq_true, Bool.not_eq_false']
    -- The default was configured, or it is one of those given.
    rcases hchoice hid with hconfig | hmem
    · exact (present (hdefault id hconfig)).2
    · exact (present (Dict.contains_iff.mpr (hgiven.ids.mem_iff.mp hmem))).2
  have restored : registered.restore = .ok (registered.withArena m.arena) := by
    refine restore_all hm.arena rfl hload hsaved rfl fun id c hc => ?_
    have live : c.isExpired registered.now registered.timeout = false := by
      show c.isExpired m.now (Settings.ofConfig m.config).timeout = false
      rw [← hsettings]
      exact hlive id c hc
    rw [isRestorable, hm.arena.isActive hc, live, (present (hm.registered id c hc)).2]
    rfl
  refine ⟨(registered.withArena m.arena).startMaintenance, ?_, ?_⟩
  · rw [launch, given_some]
    rw [show Manager.registerAll _ _ _ = _ from launching]
    dsimp only
    rw [checked]
    dsimp only
    rw [restored]
    rfl
  · exact ⟨rfl, forum.symm, twins.providers⟩

theorem Twin.withSupply (h : m.Twin m') (ids : IdSupply) :
    (m.withSupply ids).Twin (m'.withSupply ids) := by
  rw [Manager.withSupply, Manager.withSupply, h.forum]
  exact h.withForum _

/-- A manager with a store that works is shut down, while no conversation is idle and at least
one provider is registered.  Then it has saved, and a new manager, with the same configuration,
time and store and with providers that hold the same, is launched and holds the same
conversations.  Whatever ids are drawn from then on, every list of requests with providers of
their own choice has the answers and announcements that it would have had from the old manager,
and leaves the same conversations.

Rows of a database are texts, so there the conversations have to fit into them. -/
theorem restart (hm : m.Reachable) {store : Store} (hstore : m.store = some store)
    (hworks : store.Works)
    (hstorable : store.isDatabase = true → ∀ id c, m.arena.get? id = some c → c.Storable)
    (hregistered : ∃ providerId, m.providers.contains providerId = true)
    (hdefault : ∀ providerId, m.config.defaultProvider = some providerId →
      m.providers.contains providerId = true)
    (hlive : ∀ id c, m.arena.get? id = some c → c.isExpired m.now m.timeout = false)
    {given : List Provider} {content : Option Directory} (hgiven : m.Replaces given content)
    (ids : IdSupply) :
    m.shutdown.2 = .ok () ∧
    ∃ restarted,
      (Manager.new m.config ids m.now m.shutdown.1.store).launch given content =
        (restarted, .ok ()) ∧
      restarted.arena = m.arena ∧
      ∀ (supply : IdSupply) (requests : List (Instant × Request)),
        (∀ timed ∈ requests, timed.2.isExplicit = true) →
        let before := (m.withSupply supply).serveAll requests
        let after := (restarted.withSupply supply).serveAll requests
        after.2 = before.2 ∧ after.1.arena = before.1.arena := by
  obtain ⟨store', saved, hshutdown, hload, hsaved⟩ :=
    shutdown_saves hm.sound hstore hworks hstorable
  rw [hshutdown]
  obtain ⟨restarted, hlaunch, twins⟩ := launch_replaced hm.sound hm.settings hregistered hdefault
    hlive hgiven hload hsaved ids
  refine ⟨rfl, restarted, hlaunch, twins.arena, fun supply requests hexplicit => ?_⟩
  obtain ⟨twins', same⟩ := (twins.withSupply supply).serveAll hexplicit
  exact ⟨same, twins'.arena⟩

end Manager

namespace Inn

/-- The inn with its cook, and with a database. -/
def larder : Manager :=
  ((Manager.new {} ids Instant.epoch (some (.database []))).perform (.register cook)).1

/-- The same while its first guest looks at the menu. -/
def dining : Manager := (larder.perform (.start diner none)).1

def seated : Conversation :=
  { Conversation.new "" "guest" "cook" "cook" supper Instant.epoch with
    vars := Dict.ofList [("price", .int 3)]
    history := ["menu"] }

theorem larder_reachable : larder.Reachable :=
  .call (.register cook) (fun _ hp => List.mem_singleton.mp hp ▸ cook_authored) (.new _ _ _ _ _)

theorem dining_reachable : dining.Reachable :=
  larder_reachable.perform (.start diner none) rfl

theorem dining_get? {id : String} {c : Conversation} (h : dining.arena.get? id = some c) :
    c = seated := by
  have held : dining.arena = ({} : Arena).insert seated := by decide +kernel
  rw [held, Arena.get?_insert] at h
  split at h
  · exact (Option.some.inj h).symm
  · exact absurd h (by nofun)

theorem seated_storable : seated.Storable := by
  have opening : Instant.epoch.IsValid := ⟨by decide, by decide, by decide⟩
  exact ⟨opening, opening, by decide, ⟨trivial, trivial⟩, ⟨⟨by decide, by decide⟩, trivial⟩,
    by decide⟩

theorem dining_replaces : dining.Replaces [cook] none := by
  have setup : larder.SameSetup dining :=
    Manager.start_setup larder_reachable.sound (by decide +kernel) diner none
  refine ⟨.of_eq (by decide +kernel), fun p hp => ?_⟩
  obtain rfl := List.mem_singleton.mp hp
  rw [setup.providers, setup.config]
  exact ⟨cook, rfl, .refl cook⟩

end Inn

namespace Manager

/-- The guest orders from another cook, and does not notice. -/
theorem restart_dining :
    ∃ restarted,
      (Manager.new Inn.dining.config laterIds Inn.dining.now Inn.dining.shutdown.1.store).launch
        [Inn.cook] none = (restarted, .ok ()) ∧
      restarted.arena.get? "" = some Inn.seated ∧
      let requests := [(Instant.epoch, Request.advance Inn.diner "" "1"),
        (Instant.epoch, .start Inn.diner (some "cook")), (lateEvening, .cleanup)]
      ∀ supply, ((restarted.withSupply supply).serveAll requests).2 =
        ((Inn.dining.withSupply supply).serveAll requests).2 := by
  have stored : Inn.dining.store = some (.database []) := by decide +kernel
  have live : Inn.seated.isExpired Inn.dining.now Inn.dining.timeout = false := by decide +kernel
  have undecided : Inn.dining.config.defaultProvider = none := by decide +kernel
  obtain ⟨-, restarted, hlaunch, harena, hsame⟩ := restart Inn.dining_reachable stored trivial
    (fun _ id c hc => Inn.dining_get? hc ▸ Inn.seated_storable) ⟨"cook", by decide +kernel⟩
    (fun providerId hdefault => absurd (undecided.symm.trans hdefault) (by simp))
    (fun id c hc => Inn.dining_get? hc ▸ live) Inn.dining_replaces laterIds
  refine ⟨restarted, hlaunch, ?_, fun supply => (hsame supply _ (by decide)).1⟩
  rw [harena]
  decide +kernel

end Manager

end Parley
