/-
Saving, time after time.

A store in memory keeps conversations, and a database keeps rows with ids of their own, which it
reads in an order of its own.  For whoever saves and loads they are the same:

* `Store.save`, `Store.saveAll` — saves one after the other, where one that is refused is as if
  it had not been made;
* `Store.Clash` — the ids that a database refuses: `Store.replaceActive_database_error_iff`, and
  `Store.saveAll_database_cases` for what it then holds;
* `Store.saveAll_memory`, `Store.saveAll_agree` — where nothing is refused, both stores hold the
  active conversations of the last save;
* `Manager.Sound.autosave` — an arena gives no cause to refuse, since it holds one conversation
  under an id;
* `Manager.Sound.maintain` — so after maintenance the store has what the arena has;
* `Store.safekeeping` — all of it, in every state;
* `Store.safekeeping_hoard` — and what a database takes without being able to give it back.

Design notes: a database reads a row as far as the reader of documents goes, so a conversation
whose variables are nested too deeply is lost there, with all that is saved beside it.
-/
import Parley.Proofs.Restart

namespace Parley

namespace Store

variable {cs : List Conversation} {saves : List (List Conversation)} {rows : List Row}

/-- Save, if the store takes it.  What is refused leaves everything as it is. -/
def save (s : Store) (cs : List Conversation) : Store :=
  match s.replaceActive cs with
  | .ok s' => s'
  | .error _ => s

def saveAll (s : Store) (saves : List (List Conversation)) : Store := saves.foldl save s

theorem save_of_ok {s s' : Store} (h : s.replaceActive cs = .ok s') : s.save cs = s' := by
  rw [save, h]

theorem save_of_error {s : Store} {e : StoreError} (h : s.replaceActive cs = .error e) :
    s.save cs = s := by
  rw [save, h]

/-! ### Conversations of one id -/

/-- Two conversations that are both to be saved have the same id. -/
def Clash (cs : List Conversation) : Prop :=
  ∃ c c', [c, c'].Sublist cs ∧ c.isActive = true ∧ c'.isActive = true ∧ c.id = c'.id

theorem clash_iff : Clash cs ↔ ¬ ((cs.filter (·.isActive)).map Conversation.id).Nodup := by
  rw [List.nodup_iff_sublist, not_forall]
  simp only [not_not]
  constructor
  · rintro ⟨c, c', hsub, hc, hc', hid⟩
    have kept := (hsub.filter (·.isActive)).map Conversation.id
    rw [List.filter_cons_of_pos hc, List.filter_cons_of_pos hc', List.filter_nil] at kept
    exact ⟨c.id, by simpa [hid] using kept⟩
  · rintro ⟨id, hsub⟩
    obtain ⟨pair, hpair, heq⟩ := List.sublist_map_iff.mp hsub
    obtain ⟨c, rest, rfl, hc, hrest⟩ := List.map_eq_cons_iff.mp heq.symm
    obtain ⟨c', nothing, rfl, hc', hnil⟩ := List.map_eq_cons_iff.mp hrest
    obtain rfl := List.map_eq_nil_iff.mp hnil
    have active : ∀ d ∈ [c, c'], d.isActive = true := fun d hd =>
      (List.mem_filter.mp (hpair.mem hd)).2
    exact ⟨c, c', hpair.trans List.filter_sublist, active c (by simp), active c' (by simp),
      hc.trans hc'.symm⟩

theorem not_clash_of_nodup (h : (cs.map Conversation.id).Nodup) : ¬ Clash cs := by
  rw [clash_iff, not_not]
  exact h.sublist (List.filter_sublist.map Conversation.id)

/-! ### One store after the other -/

/-- The rows of a save. -/
def rowsOf (cs : List Conversation) : List Row :=
  (cs.filter (·.isActive)).map Row.ofConversation

theorem map_conversationId_rowsOf (cs : List Conversation) :
    (rowsOf cs).map Row.conversationId = (cs.filter (·.isActive)).map Conversation.id := by
  rw [rowsOf, List.map_map]
  rfl

/-- A database takes a save whole, or refuses it for its ids. -/
theorem replaceActive_database (rows : List Row) (cs : List Conversation) :
    (Clash cs → (database rows).replaceActive cs = .error .database) ∧
      (¬ Clash cs → (database rows).replaceActive cs = .ok (database (rowsOf cs))) := by
  rw [clash_iff, ← map_conversationId_rowsOf]
  exact ⟨fun h => if_neg h, fun h => if_pos (not_not.mp h)⟩

theorem replaceActive_database_error_iff :
    (∃ e, (database rows).replaceActive cs = .error e) ↔ Clash cs := by
  obtain ⟨hrefused, htaken⟩ := replaceActive_database rows cs
  refine ⟨fun ⟨e, he⟩ => ?_, fun h => ⟨_, hrefused h⟩⟩
  by_contra hclash
  exact absurd (he.symm.trans (htaken hclash)) (by simp)

/-- The rows after a save, whether it was refused or not. -/
def overwrite (rows : List Row) (cs : List Conversation) : List Row :=
  if ((rowsOf cs).map Row.conversationId).Nodup then rowsOf cs else rows

theorem overwrite_eq (rows : List Row) (cs : List Conversation) :
    (¬ Clash cs → overwrite rows cs = rowsOf cs) ∧ (Clash cs → overwrite rows cs = rows) := by
  rw [clash_iff, ← map_conversationId_rowsOf]
  exact ⟨fun h => if_pos (not_not.mp h), fun h => if_neg h⟩

theorem save_database (rows : List Row) (cs : List Conversation) :
    (database rows).save cs = database (overwrite rows cs) := by
  obtain ⟨hrefused, htaken⟩ := replaceActive_database rows cs
  obtain ⟨hwritten, hleft⟩ := overwrite_eq rows cs
  by_cases h : Clash cs
  · rw [save_of_error (hrefused h), hleft h]
  · rw [save_of_ok (htaken h), hwritten h]

theorem saveAll_database (rows : List Row) (saves : List (List Conversation)) :
    (database rows).saveAll saves = database (saves.foldl overwrite rows) := by
  induction saves generalizing rows with
  | nil => rfl
  | cons cs rest ih =>
    rw [saveAll, List.foldl_cons, save_database]
    exact ih (overwrite rows cs)

/-- After any saves, a database holds the last that it did not refuse. -/
theorem saveAll_database_cases (rows : List Row) (saves : List (List Conversation)) :
    (∃ before cs after, saves = before ++ cs :: after ∧ ¬ Clash cs ∧ (∀ cs' ∈ after, Clash cs') ∧
      (database rows).saveAll saves = database (rowsOf cs)) ∨
    (∀ cs ∈ saves, Clash cs) ∧ (database rows).saveAll saves = database rows := by
  rw [saveAll_database]
  have written := foldl_written overwrite id (¬ Clash ·) rowsOf saves
    (fun rows cs _ => (overwrite_eq rows cs).1)
    (fun rows cs _ h => (overwrite_eq rows cs).2 (not_not.mp h)) rows
  simp only [not_not, id_eq] at written
  rcases written with ⟨before, cs, after, hsplit, hcs, hafter, hrows⟩ | ⟨hall, hrows⟩
  · exact .inl ⟨before, cs, after, hsplit, hcs, hafter, congrArg database hrows⟩
  · exact .inr ⟨hall, congrArg database hrows⟩

/-- What the last save leaves: its active conversations, or what there was before any. -/
def kept (saved : List Conversation) (saves : List (List Conversation)) : List Conversation :=
  (saves.getLast?.map fun cs => cs.filter (·.isActive)).getD saved

theorem kept_cons (saved cs : List Conversation) (rest : List (List Conversation)) :
    kept saved (cs :: rest) = kept (cs.filter (·.isActive)) rest := by
  rw [kept, kept, List.getLast?_cons]
  cases rest.getLast? <;> rfl

theorem saveAll_memory (saved : List Conversation) (saves : List (List Conversation)) :
    (memory saved).saveAll saves = memory (kept saved saves) := by
  induction saves generalizing saved with
  | nil => rfl
  | cons cs rest ih =>
    rw [kept_cons]
    exact ih (cs.filter (·.isActive))

/-- As long as nothing is refused, a database has a row for each conversation that a store in
memory has. -/
theorem saveAll_agree (h : ∀ cs ∈ saves, ¬ Clash cs) (saved : List Conversation) :
    (database (saved.map Row.ofConversation)).saveAll saves =
      database ((kept saved saves).map Row.ofConversation) := by
  induction saves generalizing saved with
  | nil => rfl
  | cons cs rest ih =>
    obtain ⟨hcs, hrest⟩ := List.forall_mem_cons.mp h
    rw [kept_cons, saveAll, List.foldl_cons, save_of_ok ((replaceActive_database _ cs).2 hcs)]
    exact ih hrest (cs.filter (·.isActive))

end Store

namespace Manager

variable {α : Type} {f : Context → α} {m : Manager} {store : Store}

/-- A store that works takes what an arena holds. -/
theorem Sound.replaceActive_all (hm : m.Sound f) (hworks : store.Works) :
    store.replaceActive m.arena.all = .ok (store.save m.arena.all) := by
  have hok : ∃ store', store.replaceActive m.arena.all = .ok store' := by
    cases store with
    | memory => exact ⟨_, rfl⟩
    | database rows =>
      exact ⟨_, (Store.replaceActive_database rows _).2
        (Store.not_clash_of_nodup hm.arena.nodup_all_ids)⟩
    | verbatim _ refusesSave refusesLoad =>
      obtain ⟨rfl, rfl⟩ := hworks
      exact ⟨_, rfl⟩
  obtain ⟨store', hstore'⟩ := hok
  rw [hstore', Store.save_of_ok hstore']

theorem Sound.autosave (hm : m.Sound f) (hstore : m.store = some store) (hworks : store.Works) :
    m.autosave = .ok ({ m with store := some (store.save m.arena.all) }, m.arena.all.length) :=
  autosave_replaced hstore (hm.replaceActive_all hworks)

theorem autosave_unsaved (hstore : m.store = none) : m.autosave = .ok (m, 0) := by
  rw [Manager.autosave, hstore]

/-- Nothing is refused for its ids: what fails is a store that does not work. -/
theorem Sound.autosave_error (hm : m.Sound f) {e : DialogueError} (h : m.autosave = .error e) :
    ∃ store, m.store = some store ∧ ¬ store.Works ∧ e = .persistence .poisoned := by
  cases hstore : m.store with
  | none => exact absurd (h.symm.trans (autosave_unsaved hstore)) (by simp)
  | some store =>
    have broken : ¬ store.Works := fun hworks =>
      absurd (h.symm.trans (hm.autosave hstore hworks)) (by simp)
    refine ⟨store, rfl, broken, ?_⟩
    cases store with
    | memory | database => exact absurd trivial broken
    | verbatim _ refusesSave =>
      rw [Manager.autosave, hstore] at h
      cases refusesSave with
      | true => exact (Except.error.inj h).symm
      | false => exact absurd h (by simp [Store.replaceActive])

theorem cleanup_store (m : Manager) : m.cleanup.manager.store = m.store := by
  rw [cleanup_manager]
  rfl

/-- Maintenance is a cleanup, and a save of what it leaves. -/
theorem Sound.maintain (hm : m.Sound f) (hstore : m.store = some store) (hworks : store.Works) :
    m.maintain.1 = { m.cleanup.manager with
      store := some (store.save m.cleanup.manager.arena.all) } := by
  have saved := (hm.steps (cleanup_steps hm)).autosave (m.cleanup_store.trans hstore) hworks
  rw [Manager.maintain, saved]

end Manager

/-- What a store that works has saved is what it loads. -/
theorem Store.loadActive_save {s : Store} {cs : List Conversation} (hs : s.Works)
    (hactive : ∀ c ∈ cs, c.isActive = true) (hids : (cs.map Conversation.id).Nodup)
    (hstorable : s.isDatabase = true → ∀ c ∈ cs, c.Storable) :
    ∃ loaded, (s.save cs).loadActive = .ok loaded ∧ loaded.Perm cs := by
  obtain ⟨s', loaded, hreplace, hload, hperm⟩ :=
    loadActive_replaceActive hs hactive hids hstorable
  exact ⟨loaded, save_of_ok hreplace ▸ hload, hperm⟩

/-- **A store in memory and a database are as good as each other, and lose nothing.**  After any
saves with different ids, none of them refused, both hold the active conversations of the last,
in every field, and load them; a database as long as none of them has variables that are nested
beyond the limit, since a single one that has keeps it from loading any.  A database refuses a
save exactly if two active conversations have one id, and then it has what it had; so after any
saves at all it has the last that it did not refuse.  A manager never saves what would be
refused.  Where it has a store that works, it saves all that is held, and says how many; and
after maintenance the store has what the arena has, which is what was held and had not gone
idle.  Without a store nothing is saved, and that is said too. -/
theorem Store.safekeeping :
    (∀ (saved : List Conversation) (saves : List (List Conversation)),
      (∀ cs ∈ saves, (cs.map Conversation.id).Nodup) →
      let both := (memory saved, database (saved.map Row.ofConversation))
      (∀ before cs after, saves = before ++ cs :: after →
        (∃ s, (both.1.saveAll before).replaceActive cs = .ok s) ∧
        ∃ s, (both.2.saveAll before).replaceActive cs = .ok s) ∧
      (∀ before cs, saves = before ++ [cs] → kept saved saves = cs.filter (·.isActive)) ∧
      (both.1.saveAll saves).loadActive = .ok (kept saved saves) ∧
      both.2.saveAll saves = database ((kept saved saves).map Row.ofConversation) ∧
      ((∀ c ∈ kept saved saves, c.Storable) →
        ∃ loaded, (both.2.saveAll saves).loadActive = .ok loaded ∧
          loaded.Perm (kept saved saves)) ∧
      ((∃ c ∈ kept saved saves, c.Overflows) →
        (both.2.saveAll saves).loadActive = .error .encoding)) ∧
    (∀ (rows : List Row) (cs : List Conversation),
      ((∃ e, (database rows).replaceActive cs = .error e) ↔ Clash cs) ∧
      (Clash cs → (database rows).replaceActive cs = .error .database ∧
        (database rows).save cs = database rows)) ∧
    (∀ (rows : List Row) (saves : List (List Conversation)),
      (∃ before cs after, saves = before ++ cs :: after ∧ ¬ Clash cs ∧
        (∀ cs' ∈ after, Clash cs') ∧ (database rows).saveAll saves = database (rowsOf cs)) ∨
      (∀ cs ∈ saves, Clash cs) ∧ (database rows).saveAll saves = database rows) ∧
    ∀ m : Manager, m.Reachable →
      m.autosave ≠ .error (.persistence .database) ∧
      ((m.arena.all.map Conversation.id).Nodup ∧
        ∀ c, c ∈ m.arena.all ↔ m.arena.get? c.id = some c) ∧
      (m.store = none → m.autosave = .ok (m, 0)) ∧
      ∀ store, m.store = some store → store.Works →
        m.autosave =
          .ok ({ m with store := some (store.save m.arena.all) }, m.arena.all.length) ∧
        m.maintain.1.store = some (store.save m.maintain.1.arena.all) ∧
        (∀ id c, m.maintain.1.arena.get? id = some c ↔
          m.arena.get? id = some c ∧ c.isExpired m.now m.timeout = false) ∧
        ((store.isDatabase = true → ∀ c ∈ m.arena.all, c.Storable) →
          ∃ loaded, (store.save m.maintain.1.arena.all).loadActive = .ok loaded ∧
            loaded.Perm m.maintain.1.arena.all ∧
            ∀ c ∈ loaded, c.isExpired m.now m.timeout = false) := by
  refine ⟨fun saved saves hids => ?_,
    fun rows cs => ⟨replaceActive_database_error_iff, fun h => ?_⟩, saveAll_database_cases,
    fun m hm => ⟨fun h => ?_, ⟨?_, ?_⟩, fun hstore => ?_, fun store hstore hworks => ?_⟩⟩
  · have clear : ∀ cs ∈ saves, ¬ Clash cs := fun cs hcs => not_clash_of_nodup (hids cs hcs)
    refine ⟨?_, ?_, ?_, saveAll_agree clear saved, fun hstorable => ?_, ?_⟩
    · rintro before cs after rfl
      refine ⟨⟨_, by rw [saveAll_memory]; rfl⟩, database (rowsOf cs), ?_⟩
      rw [saveAll_database]
      exact (replaceActive_database _ cs).2 (clear cs (by simp))
    · rintro before cs rfl
      rw [kept, List.getLast?_concat]
      rfl
    · rw [saveAll_memory]
      rfl
    · rw [saveAll_agree clear]
      exact loadActive_rows hstorable
    · rintro ⟨c, hc, hoverflows⟩
      rw [saveAll_agree clear]
      exact loadActive_eq_error hc hoverflows
  · have refused := (replaceActive_database rows cs).1 h
    exact ⟨refused, save_of_error refused⟩
  · obtain ⟨store, -, -, he⟩ := hm.sound.autosave_error h
    exact absurd he (by simp)
  · exact hm.sound.arena.nodup_all_ids
  · exact fun c => Arena.mem_all_held hm.sound.arena
  · exact Manager.autosave_unsaved hstore
  · have sound := hm.sound
    have cleaned := sound.steps (Manager.cleanup_steps sound)
    rw [sound.maintain hstore hworks]
    refine ⟨sound.autosave hstore hworks, rfl, fun id c => Manager.get?_cleanup sound,
      fun hstorable => ?_⟩
    have held {c : Conversation} (hc : c ∈ m.cleanup.manager.arena.all) :
        m.arena.get? c.id = some c ∧ c.isExpired m.now m.timeout = false :=
      (Manager.get?_cleanup sound).mp ((Arena.mem_all_held cleaned.arena).mp hc)
    obtain ⟨loaded, hload, hperm⟩ :=
      loadActive_save hworks (fun c => cleaned.arena.active_of_mem_all) cleaned.arena.nodup_all_ids
        fun hdatabase c hc => hstorable hdatabase c
          ((Arena.mem_all_held sound.arena).mpr (held hc).1)
    exact ⟨loaded, hload, hperm, fun c hc => (held (hperm.mem_iff.mp hc)).2⟩

/-- The guest at the table is saved, whatever was saved before, and who has left is not. -/
theorem Store.safekeeping_dining :
    let saves := [[Inn.evening], [Inn.seated, { Inn.evening with isActive := false }]]
    ((memory []).saveAll saves).loadActive = .ok [Inn.seated] ∧
    ((database []).saveAll saves).loadActive = .ok [Inn.seated] ∧
    (database [Row.ofConversation Inn.seated]).save [Inn.evening, Inn.seated, Inn.seated] =
      database [Row.ofConversation Inn.seated] ∧
    Inn.dining.autosave =
      .ok ({ Inn.dining with store := some ((database []).save [Inn.seated]) }, 1) ∧
    ∃ store, Inn.dining.maintain.1.store = some store ∧ store.loadActive = .ok [Inn.seated] := by
  intro saves
  obtain ⟨hagree, hrefuse, -, hmanagers⟩ := safekeeping
  have different : ∀ cs ∈ saves, (cs.map Conversation.id).Nodup := by decide +kernel
  obtain ⟨-, hlast, hmemory, -, hdatabase, -⟩ := hagree [] saves different
  have last : kept [] saves = [Inn.seated] := hlast [[Inn.evening]] _ rfl
  rw [last] at hmemory hdatabase
  obtain ⟨loaded, hload, hperm⟩ :=
    hdatabase fun c hc => List.mem_singleton.mp hc ▸ Inn.seated_storable
  obtain rfl := List.perm_singleton.mp hperm
  have twice : Clash [Inn.evening, Inn.seated, Inn.seated] :=
    ⟨Inn.seated, Inn.seated, List.sublist_cons_self _ _, rfl, rfl, rfl⟩
  have stored : Inn.dining.store = some (database []) := by decide +kernel
  have all : Inn.dining.arena.all = [Inn.seated] := by decide +kernel
  obtain ⟨-, -, -, hsaves⟩ := hmanagers Inn.dining Inn.dining_reachable
  obtain ⟨hautosave, hstore, -, hloads⟩ := hsaves _ stored trivial
  rw [all] at hautosave hloads
  obtain ⟨loaded, hloaded, hheld, -⟩ :=
    hloads fun _ c hc => List.mem_singleton.mp hc ▸ Inn.seated_storable
  have left : Inn.dining.maintain.1.arena.all = [Inn.seated] := by decide +kernel
  obtain rfl := List.perm_singleton.mp (left ▸ hheld)
  exact ⟨hmemory, hload, ((hrefuse _ _).2 twice).2, hautosave, _, hstore, hloaded⟩

namespace Inn

/-- So many boxes, one inside another. -/
def boxes : Nat → Json
  | 0 => .null
  | n + 1 => .arr [boxes n]

theorem nesting_boxes (n : Nat) : (boxes n).nesting = n := by
  induction n with
  | zero => rfl
  | succ n ih => rw [boxes, Json.nesting, Json.nestingOfItems, Json.nestingOfItems, ih, Nat.max_zero]

theorem boxes_isLegible (n : Nat) : (boxes n).IsLegible := by
  induction n with
  | zero => trivial
  | succ n ih => exact ⟨ih, trivial⟩

/-- The guest at the table has brought a box, which has one inside more than can be read. -/
def hoard : Conversation := { seated with vars := Dict.ofList [("box", boxes 126)] }

theorem hoard_nesting : Json.nestingOfFields hoard.vars.entries + 2 = Document.depthLimit + 1 :=
  congrArg (· + 2) ((Nat.max_zero _).trans (nesting_boxes 126))

theorem hoard_overflows : hoard.Overflows where
  turnCount := by decide
  legible := ⟨boxes_isLegible 126, trivial⟩
  nesting := by
    rw [hoard_nesting]
    exact Nat.lt_succ_self _

end Inn

/-- One level too deep: the store in memory gives the box back, and the database takes it but
cannot be loaded any more.  And the inn without a store says that it has saved nothing, with a
guest at the table. -/
theorem Store.safekeeping_hoard :
    Json.nestingOfFields Inn.hoard.vars.entries + 2 = Document.depthLimit + 1 ∧
    ([Inn.hoard].map Conversation.id).Nodup ∧
    (∃ s, (memory []).replaceActive [Inn.hoard] = .ok s ∧ s.loadActive = .ok [Inn.hoard]) ∧
    (∃ s, (database []).replaceActive [Inn.hoard] = .ok s ∧ s.loadActive = .error .encoding) ∧
    ∃ m : Manager, m.Reachable ∧ m.arena.all.length = 1 ∧ m.autosave = .ok (m, 0) := by
  have single : ([Inn.hoard].map Conversation.id).Nodup := List.nodup_singleton _
  have taken := (replaceActive_database [] [Inn.hoard]).2 (not_clash_of_nodup single)
  have eating := Inn.kitchen_reachable.perform (.start Inn.diner none) rfl
  refine ⟨Inn.hoard_nesting, single, ⟨_, rfl, rfl⟩, ⟨_, taken, ?_⟩, _, eating, by decide +kernel, ?_⟩
  · exact loadActive_eq_error (List.mem_singleton_self Inn.hoard) Inn.hoard_overflows
  · exact Manager.autosave_unsaved (by decide +kernel)

end Parley
