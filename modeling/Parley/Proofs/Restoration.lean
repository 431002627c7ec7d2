/-
How many conversations a launch takes up.

A launch takes up what was saved and can go on, whoever it belongs to.  The limit of
conversations that a player may have is asked when one is started, and not here:

* `Manager.launch_arena` — what a launch leaves in the arena;
* `Manager.restoration` — so a player has as many conversations as were saved, and the limit is
  kept exactly if it was kept by what was saved.
-/
import Parley.Proofs.Custody
import Parley.Proofs.Quota
import Parley.Proofs.Restart

namespace Parley

namespace Manager

variable {m m' : Manager} {given : List Provider} {content : Option Directory} {store : Store}
  {saved : List Conversation}

/-- A launch puts into the arena what was saved and can go on. -/
theorem launch_arena (hstore : m.store = some store) (hload : store.loadActive = .ok saved)
    (h : m.launch given content = (m', .ok ())) :
    m'.arena = (saved.filter m'.isRestorable).foldl Arena.insert m.arena ∧
      m'.config = m.config := by
  obtain ⟨providers, defaultProvider, hframe⟩ :=
    m.registerAll_frame content (m.provided given)
  rcases m.launch_cases given content with ⟨e, hlaunch⟩ | ⟨taken, hrestore, hlaunch⟩
  · rw [hlaunch] at h
    exact absurd (congrArg Prod.snd h) (by simp)
  · rw [hframe, restore] at hrestore
    simp only [hstore, hload] at hrestore
    obtain rfl := Except.ok.inj hrestore
    obtain ⟨rfl, -⟩ := Prod.mk.inj (hlaunch.symm.trans h)
    -- With a store the maintenance begins as well, which changes no conversation.
    split <;> exact ⟨rfl, rfl⟩

/-- The conversations that a launch leaves: those held before and those saved, but for the ones
whose id comes again. -/
def restored (m : Manager) (saved : List Conversation) (m' : Manager) : List Conversation :=
  Conversation.latest (m.arena.all ++ saved.filter m'.isRestorable)

theorem get?_launched {α : Type} {f : Context → α} (hm : m.Sound f)
    (harena : m'.arena = (saved.filter m'.isRestorable).foldl Arena.insert m.arena) {id : String}
    {c : Conversation} :
    m'.arena.get? id = some c ↔ c ∈ m.restored saved m' ∧ c.id = id := by
  have before : m.arena = m.arena.all.foldl Arena.insert {} :=
    (hm.arena.foldl_insert_all (List.Perm.refl _)).symm
  rw [harena, before, ← List.foldl_append, Arena.get?_foldl_insert_empty]
  rfl

/-- A launch that succeeds takes up every saved conversation that can go on, however many a
player has of them, so that the limit is kept by what is held exactly if it was by that. -/
theorem restoration (hm : m.Reachable) (hstore : m.store = some store)
    (hload : store.loadActive = .ok saved) (hgiven : ∀ p ∈ given, p.Authored)
    (h : m.launch given content = (m', .ok ())) :
    (∀ playerId, (m'.conversationsOf playerId).Perm
      ((m.restored saved m').filter (·.playerId == playerId))) ∧
    ((∀ playerId, (m'.conversationsOf playerId).length ≤ m'.config.maxConversationsPerPlayer) ↔
      ∀ playerId, (m.restored saved m').countP (·.playerId == playerId) ≤
        m.config.maxConversationsPerPlayer) := by
  obtain ⟨harena, hconfig⟩ := launch_arena hstore hload h
  have launched : m'.Reachable := by
    have := Reachable.call (.launch given content) hgiven hm
    rwa [perform, h] at this
  have sound := launched.sound
  have perm (playerId : String) : (m'.conversationsOf playerId).Perm
      ((m.restored saved m').filter (·.playerId == playerId)) := by
    refine (List.perm_ext_iff_of_nodup (nodup_conversationsOf sound playerId)
      ((Conversation.nodup_latest _).filter _)).mpr fun c => ?_
    rw [mem_conversationsOf sound, List.mem_filter, beq_iff_eq]
    refine and_congr_left fun _ => ⟨?_, fun hmem => ⟨c.id, ?_⟩⟩
    · rintro ⟨id, hc⟩
      exact ((get?_launched hm.sound harena).mp hc).1
    · exact (get?_launched hm.sound harena).mpr ⟨hmem, rfl⟩
  refine ⟨perm, forall_congr' fun playerId => ?_⟩
  rw [(perm playerId).length_eq, ← List.countP_eq_length_filter, hconfig]

end Manager

namespace Inn

/-- Another conversation of the guest that was saved. -/
def night : Conversation :=
  Conversation.new "night" "guest" "innkeeper" "keeper" greeting Instant.epoch

/-- The inn before it opens, with the conversations that were saved and a limit of its own. -/
def closed (limit : Nat) (saved : List Conversation) : Manager :=
  Manager.new { maxConversationsPerPlayer := limit } ids Instant.epoch (some (.memory saved))

end Inn

namespace Manager

/-- A guest with one conversation saved has one when the inn opens, and nobody has more than
three. -/
theorem restoration_reopened :
    let m := (Inn.closed 3 [Inn.evening]).launch [Inn.keeper] none
    m.2 = .ok () ∧ (m.1.conversationsOf "guest").Perm [Inn.evening] ∧
    ∀ playerId, (m.1.conversationsOf playerId).length ≤ 3 := by
  intro m
  have launched : (Inn.closed 3 [Inn.evening]).launch [Inn.keeper] none = (m.1, .ok ()) := rfl
  have before : (Inn.closed 3 [Inn.evening]).Reachable := .new _ _ _ _ _
  obtain ⟨hperm, hlimit⟩ := restoration before rfl rfl
    (fun p hp => List.mem_singleton.mp hp ▸ Inn.keeper_authored) launched
  have taken : (Inn.closed 3 [Inn.evening]).restored [Inn.evening] m.1 = [Inn.evening] := by
    decide +kernel
  have hguest := hperm "guest"
  rw [taken] at hlimit hguest
  refine ⟨rfl, hguest, hlimit.mpr fun playerId => ?_⟩
  have few := [Inn.evening].countP_le_length (p := (·.playerId == playerId))
  exact few.trans (by decide)

/-- With a limit of one, a guest with two conversations saved has both when the inn opens. -/
theorem restoration_crowded :
    let m := (Inn.closed 1 [Inn.evening, Inn.night]).launch [Inn.keeper] none
    m.2 = .ok () ∧ m.1.config.maxConversationsPerPlayer = 1 ∧
    (m.1.conversationsOf "guest").length = 2 := by
  refine ⟨rfl, rfl, ?_⟩
  rw [length_conversationsOf]
  decide +kernel

end Manager

end Parley
