/-
What the arena holds after each operation.

`Arena.Sound` says that every conversation is held under its own id beside its own
player, has not ended, and that no turn is running.  The operations keep it:

* `Arena.get?_insert`, `Arena.get?_remove`, `Arena.get?_update` — lookups after a
  change;
* `Arena.finishAll_arena`, `Arena.finishAll_ids`, `Arena.finishAll_events` —
  ending several conversations takes out exactly those, and announces each once;
* `Arena.mem_staleIds`, `Arena.mem_idsOfProvider` — which ones a sweep or the end of a
  provider picks;
* `Arena.mem_all`, `Arena.mem_ofPlayer`, `Arena.ofPlayer_perm` — the lists are
  the conversations held;
* `Arena.Sound.finishAll_length`, `Arena.Sound.finishAll_perm` — of those that satisfy a
  condition, each is counted and announced once when they end;
* `Arena.length_ofPlayer`, `Arena.countOfPlayer_insert_le` — the count of a player is
  the length of that list, and no operation but an insertion raises it;
* `Arena.get?_foldl_insert_iff` — of conversations that are put in one after another, the last
  one under each id remains.
-/
import Mathlib.Data.List.Basic
import Mathlib.Data.List.Dedup
import Parley.Arena
import Parley.Proofs.Dict

namespace Parley

/-- The conversation as its end leaves it. -/
def Conversation.ended (c : Conversation) (reason : EndReason) : Conversation :=
  { c with isActive := false, endReason := some reason }

/-- The announcement of the end of a conversation. -/
def Conversation.endEvent (c : Conversation) (reason : EndReason) (now : Instant) : Event :=
  Event.ofConversation c now (.conversationEnded reason)

theorem Conversation.conclude_active {c : Conversation} (h : c.isActive = true)
    (reason : EndReason) (now : Instant) :
    c.conclude reason now = (c.ended reason, [c.endEvent reason now]) := by
  rw [conclude, finish?]
  rw [if_pos h]
  rfl

namespace Arena

/-- An entry in order: the conversation has the id it is held under, its owner is
its player, it is still going on, and no turn holds it. -/
structure Entry.Fits (id : String) (e : Entry) : Prop where
  id_eq : e.conversation.id = id
  owner_eq : e.owner = e.conversation.playerId
  isActive : e.conversation.isActive = true
  free : e.inTurn = false

def Sound (a : Arena) : Prop := ∀ id e, a.entries.get? id = some e → e.Fits id

variable {a : Arena} {c : Conversation} {id : String}

/-! ### Lookups -/

theorem get?_eq_some_iff :
    a.get? id = some c ↔ ∃ e, a.entries.get? id = some e ∧ e.conversation = c :=
  Option.map_eq_some_iff

theorem contains_eq_isSome (a : Arena) (id : String) : a.contains id = (a.get? id).isSome := by
  rw [get?]
  rw [Option.isSome_map]
  rfl

theorem contains_of_get? (h : a.get? id = some c) : a.contains id = true := by
  rw [contains_eq_isSome, h]
  rfl

theorem get?_eq_none_iff : a.get? id = none ↔ a.contains id = false := by
  rw [contains_eq_isSome, Option.isSome_eq_false_iff, Option.isNone_iff_eq_none]

theorem get?_insert (a : Arena) (c : Conversation) (id : String) :
    (a.insert c).get? id = if c.id = id then some c else a.get? id := by
  rw [get?, get?, insert]
  rw [Dict.get?_insert]
  by_cases h : c.id = id
  · rw [if_pos h, if_pos h]
    rfl
  · rw [if_neg h, if_neg h]

theorem get?_remove (a : Arena) (id id' : String) :
    (a.remove id).get? id' = if id = id' then none else a.get? id' := by
  rw [get?, get?, remove]
  rw [Dict.get?_erase]
  by_cases h : id = id'
  · rw [if_pos h, if_pos h]
    rfl
  · rw [if_neg h, if_neg h]

theorem get?_update (a : Arena) (id id' : String) (c : Conversation) :
    (a.update id c).get? id' = if id = id' then (a.get? id').map fun _ => c else a.get? id' := by
  rw [get?, get?, update]
  rw [Dict.get?_modify]
  by_cases h : id = id'
  · rw [if_pos h, if_pos h, Option.map_map, Option.map_map]
    rfl
  · rw [if_neg h, if_neg h]

theorem get?_update_self (h : a.get? id = some c) (c' : Conversation) :
    (a.update id c').get? id = some c' := by
  rw [get?_update, if_pos rfl, h]
  rfl

/-- Replacing a conversation by itself changes nothing. -/
theorem update_self (h : a.get? id = some c) : a.update id c = a := by
  refine congrArg Arena.mk (Dict.ext_get? fun key => ?_)
  rw [Dict.get?_modify]
  split
  · rename_i hkey
    subst hkey
    obtain ⟨e, he, rfl⟩ := get?_eq_some_iff.mp h
    rw [he]
    rfl
  · rfl

theorem contains_insert (a : Arena) (c : Conversation) (id : String) :
    (a.insert c).contains id = (decide (c.id = id) || a.contains id) :=
  Dict.contains_insert _ _ _ _

theorem contains_update (a : Arena) (id id' : String) (c : Conversation) :
    (a.update id c).contains id' = a.contains id' :=
  Dict.contains_modify _ _ _ _

/-- What is taken out need not have been updated. -/
theorem remove_update (a : Arena) (id : String) (c : Conversation) :
    (a.update id c).remove id = a.remove id := by
  refine congrArg Arena.mk (Dict.ext_get? fun key => ?_)
  show ((a.entries.modify id _).erase id).get? key = (a.entries.erase id).get? key
  rw [Dict.get?_erase, Dict.get?_erase]
  by_cases h : id = key
  · rw [if_pos h, if_pos h]
  · rw [if_neg h, if_neg h, Dict.get?_modify, if_neg h]

theorem remove_remove (a : Arena) (id : String) : (a.remove id).remove id = a.remove id := by
  refine congrArg Arena.mk (Dict.ext_get? fun key => ?_)
  show ((a.entries.erase id).erase id).get? key = (a.entries.erase id).get? key
  rw [Dict.get?_erase]
  by_cases h : id = key
  · rw [if_pos h, Dict.get?_erase, if_pos h]
  · rw [if_neg h]

/-- What is held after a change was put there by it or was held before. -/
theorem get?_insert_cases {c' : Conversation} (h : (a.insert c).get? id = some c') :
    c' = c ∨ a.get? id = some c' := by
  rw [get?_insert] at h
  split at h
  · exact .inl (Option.some.inj h).symm
  · exact .inr h

theorem get?_update_cases {id' : String} {c' : Conversation}
    (h : (a.update id c).get? id' = some c') : c' = c ∨ a.get? id' = some c' := by
  rw [get?_update] at h
  split at h
  · obtain ⟨_, -, rfl⟩ := Option.map_eq_some_iff.mp h
    exact .inl rfl
  · exact .inr h

/-! ### Order in the arena -/

namespace Sound

theorem fits (ha : a.Sound) (h : a.get? id = some c) :
    a.entries.get? id = some { owner := c.playerId, conversation := c } ∧ c.id = id ∧
      c.isActive = true := by
  obtain ⟨⟨owner, c', inTurn⟩, he, rfl⟩ := get?_eq_some_iff.mp h
  obtain ⟨hid, howner, hactive, hfree⟩ := ha id _ he
  simp only at hid howner hactive hfree
  subst howner hfree
  exact ⟨he, hid, hactive⟩

theorem id_eq (ha : a.Sound) (h : a.get? id = some c) : c.id = id := (ha.fits h).2.1

theorem isActive (ha : a.Sound) (h : a.get? id = some c) : c.isActive = true := (ha.fits h).2.2

theorem empty : Sound {} := by
  intro id e h
  exact absurd h (by rw [show ({} : Arena).entries = Dict.empty from rfl, Dict.get?_empty]; simp)

theorem insert (ha : a.Sound) (hc : c.isActive = true) : (a.insert c).Sound := by
  intro id e h
  rcases Dict.get?_insert_cases h with ⟨hid, rfl⟩ | h
  · exact ⟨hid, rfl, hc, rfl⟩
  · exact ha id e h

theorem remove (ha : a.Sound) (id : String) : (a.remove id).Sound := by
  intro id' e h
  exact ha id' e (Dict.get?_erase_cases h).2

/-- A conversation may be replaced by one of the same id and player that goes on. -/
theorem update (ha : a.Sound) {c' : Conversation} (hc : a.get? id = some c) (hid : c'.id = c.id)
    (hplayer : c'.playerId = c.playerId) (hactive : c'.isActive = true) :
    (a.update id c').Sound := by
  intro id' e h
  rcases Dict.get?_modify_cases h with ⟨rfl, old, hold, rfl⟩ | h
  · rw [(ha.fits hc).1] at hold
    obtain rfl := Option.some.inj hold
    exact ⟨hid.trans (ha.id_eq hc), hplayer.symm, hactive, rfl⟩
  · exact ha id' e h

end Sound

/-! ### Ending conversations -/

/-- The arena with some ids taken out. -/
def without (a : Arena) (ids : List String) : Arena :=
  ⟨a.entries.filter fun id _ => !ids.contains id⟩

theorem get?_without (a : Arena) (ids : List String) (id : String) :
    (a.without ids).get? id = if id ∈ ids then none else a.get? id := by
  rw [get?, get?, without]
  rw [Dict.get?_filter]
  by_cases h : id ∈ ids <;> cases a.entries.get? id <;> simp [h, Option.filter]

theorem get?_without_cases {ids : List String} (h : (a.without ids).get? id = some c) :
    id ∉ ids ∧ a.get? id = some c := by
  rw [get?_without] at h
  split at h
  · exact absurd h (by simp)
  · rename_i hid
    exact ⟨hid, h⟩

theorem contains_without (a : Arena) (ids : List String) (id : String) :
    (a.without ids).contains id = (!ids.contains id && a.contains id) := by
  rw [contains_eq_isSome, get?_without, contains_eq_isSome]
  by_cases h : id ∈ ids <;> simp [h]

theorem without_nil (a : Arena) : a.without [] = a := by
  refine congrArg Arena.mk (Dict.ext_get? fun key => ?_)
  rw [Dict.get?_filter]
  cases a.entries.get? key <;> simp

theorem without_remove (a : Arena) (id : String) (ids : List String) :
    (a.remove id).without ids = a.without (id :: ids) := by
  refine congrArg Arena.mk (Dict.ext_get? fun key => ?_)
  show ((a.entries.erase id).filter _).get? key = (a.entries.filter _).get? key
  rw [Dict.get?_filter, Dict.get?_filter, Dict.get?_erase]
  by_cases h : id = key
  · subst h
    cases a.entries.get? id <;> simp
  · rw [if_neg h]
    cases a.entries.get? key <;> simp [Ne.symm h]

theorem without_cons_absent (h : a.get? id = none) (ids : List String) :
    a.without (id :: ids) = a.without ids := by
  rw [← without_remove]
  congr 1
  refine congrArg Arena.mk (Dict.ext_get? fun key => ?_)
  rw [Dict.get?_erase]
  by_cases hk : id = key
  · subst hk
    rw [if_pos rfl]
    exact (Option.map_eq_none_iff.mp h).symm
  · rw [if_neg hk]

theorem Sound.without (ha : a.Sound) (ids : List String) : (a.without ids).Sound := by
  intro id e h
  rw [show (a.without ids).entries = a.entries.filter _ from rfl, Dict.get?_filter,
    Option.filter_eq_some_iff] at h
  exact ha id e h.1

theorem finish_absent (h : a.get? id = none) (reason : EndReason) (now : Instant) :
    a.finish id reason now = none := by
  rw [finish]
  rw [h]
  rfl

theorem finish_held (ha : a.Sound) (h : a.get? id = some c) (reason : EndReason)
    (now : Instant) :
    a.finish id reason now = some (a.remove id, c.ended reason, [c.endEvent reason now]) := by
  rw [finish]
  rw [h, Option.map_some, Conversation.conclude_active (ha.isActive h)]

theorem finish_arena (h : a.get? id = some c) (reason : EndReason) (now : Instant) :
    ∃ ended events, a.finish id reason now = some (a.remove id, ended, events) := by
  rw [finish]
  rw [h]
  exact ⟨_, _, rfl⟩

theorem finishAll_cons_absent (h : a.get? id = none) (reason : EndReason) (now : Instant)
    (rest : List String) :
    a.finishAll reason now (id :: rest) = a.finishAll reason now rest := by
  rw [finishAll, finish_absent h]

theorem finishAll_cons_held (ha : a.Sound) (h : a.get? id = some c) (reason : EndReason)
    (now : Instant) (rest : List String) :
    a.finishAll reason now (id :: rest) =
      (((a.remove id).finishAll reason now rest).1,
        id :: ((a.remove id).finishAll reason now rest).2.1,
        c.endEvent reason now :: ((a.remove id).finishAll reason now rest).2.2) := by
  rw [finishAll, finish_held ha h]
  rfl

/-- Ending conversations takes out the named ones. -/
theorem finishAll_arena (a : Arena) (reason : EndReason) (now : Instant) (ids : List String) :
    (a.finishAll reason now ids).1 = a.without ids := by
  -- Each end takes one out, so the rest is ended in another arena.
  induction ids generalizing a with
  | nil => exact (without_nil a).symm
  | cons id rest ih =>
    cases h : a.get? id with
    | none =>
      rw [finishAll_cons_absent h, ih, without_cons_absent h]
    | some c =>
      obtain ⟨ended, events, hfinish⟩ := finish_arena h reason now
      rw [finishAll, hfinish]
      show ((a.remove id).finishAll reason now rest).1 = _
      rw [ih, without_remove]

/-- Taking out one id leaves the others as they were. -/
theorem get?_remove_of_not_mem {rest : List String} (h : id ∉ rest) {id' : String}
    (h' : id' ∈ rest) (a : Arena) : (a.remove id).get? id' = a.get? id' := by
  have hne : id ≠ id' := by
    rintro rfl
    exact h h'
  rw [get?_remove, if_neg hne]

/-- The ids reported are those of the named conversations that were held. -/
theorem finishAll_ids (ha : a.Sound) (reason : EndReason) (now : Instant) {ids : List String}
    (hids : ids.Nodup) : (a.finishAll reason now ids).2.1 = ids.filter a.contains := by
  induction ids generalizing a with
  | nil => rfl
  | cons id rest ih =>
    obtain ⟨hnew, hrest⟩ := List.nodup_cons.mp hids
    cases h : a.get? id with
    | none =>
      rw [finishAll_cons_absent h, ih ha hrest, List.filter_cons_of_neg]
      rw [get?_eq_none_iff.mp h]
      simp
    | some c =>
      rw [finishAll_cons_held ha h, List.filter_cons_of_pos (contains_of_get? h)]
      show id :: _ = _
      rw [ih (ha.remove id) hrest]
      refine congrArg (id :: ·) (List.filter_congr fun id' hmem => ?_)
      rw [contains_eq_isSome, get?_remove_of_not_mem hnew hmem, contains_eq_isSome]

/-- Each of the named conversations that was held is announced, once. -/
theorem finishAll_events (ha : a.Sound) (reason : EndReason) (now : Instant)
    {ids : List String} (hids : ids.Nodup) :
    (a.finishAll reason now ids).2.2 =
      ids.filterMap fun id => (a.get? id).map fun c => c.endEvent reason now := by
  induction ids generalizing a with
  | nil => rfl
  | cons id rest ih =>
    obtain ⟨hnew, hrest⟩ := List.nodup_cons.mp hids
    cases h : a.get? id with
    | none =>
      rw [finishAll_cons_absent h, ih ha hrest, List.filterMap_cons_none]
      rw [h]
      rfl
    | some c =>
      have same : rest.filterMap (fun id' => ((a.remove id).get? id').map fun c =>
            c.endEvent reason now) =
          rest.filterMap fun id' => (a.get? id').map fun c => c.endEvent reason now :=
        List.filterMap_congr fun id' hmem => by rw [get?_remove_of_not_mem hnew hmem]
      rw [finishAll_cons_held ha h, List.filterMap_cons_some (by rw [h]; rfl)]
      show c.endEvent reason now :: _ = _
      rw [ih (ha.remove id) hrest, same]

/-- The ids that a sweep ends. -/
def staleIds (a : Arena) (now : Instant) (timeout : Int) : List String :=
  (a.entries.filter fun _ e => e.isStale now timeout).keys

theorem sweep_eq (a : Arena) (now : Instant) (timeout : Int) :
    a.sweep now timeout = a.finishAll .timeout now (a.staleIds now timeout) := rfl

/-- In an arena in order, nothing is stale but what is idle. -/
theorem mem_staleIds (ha : a.Sound) {now : Instant} {timeout : Int} :
    id ∈ a.staleIds now timeout ↔ ∃ c, a.get? id = some c ∧ c.isExpired now timeout = true := by
  have stale : ∀ e, a.entries.get? id = some e →
      e.isStale now timeout = e.conversation.isExpired now timeout := by
    intro e he
    rw [Entry.isStale, (ha id e he).free, (ha id e he).isActive]
    simp
  rw [staleIds, Dict.mem_keys]
  constructor
  · rintro ⟨e, he⟩
    rw [Dict.get?_filter, Option.filter_eq_some_iff] at he
    exact ⟨e.conversation, get?_eq_some_iff.mpr ⟨e, he.1, rfl⟩, stale e he.1 ▸ he.2⟩
  · rintro ⟨c, hc, hidle⟩
    obtain ⟨e, he, rfl⟩ := get?_eq_some_iff.mp hc
    refine ⟨e, ?_⟩
    rw [Dict.get?_filter, Option.filter_eq_some_iff]
    exact ⟨he, (stale e he).trans hidle⟩

theorem mem_idsOfProvider {providerId : String} :
    id ∈ a.idsOfProvider providerId ↔ ∃ c, a.get? id = some c ∧ c.providerId = providerId := by
  rw [idsOfProvider, Dict.mem_keys]
  constructor
  · rintro ⟨e, he⟩
    rw [Dict.get?_filter, Option.filter_eq_some_iff] at he
    exact ⟨e.conversation, get?_eq_some_iff.mpr ⟨e, he.1, rfl⟩, eq_of_beq he.2⟩
  · rintro ⟨c, hc, hprovider⟩
    obtain ⟨e, he, rfl⟩ := get?_eq_some_iff.mp hc
    refine ⟨e, ?_⟩
    rw [Dict.get?_filter, Option.filter_eq_some_iff]
    exact ⟨he, beq_iff_eq.mpr hprovider⟩

/-! ### Lists of conversations -/

theorem mem_all : c ∈ a.all ↔ ∃ id, a.get? id = some c := by
  rw [all, byStart]
  rw [List.mem_mergeSort, List.mem_map]
  constructor
  · rintro ⟨e, he, rfl⟩
    obtain ⟨id, h⟩ := Dict.mem_values.mp he
    exact ⟨id, get?_eq_some_iff.mpr ⟨e, h, rfl⟩⟩
  · rintro ⟨id, h⟩
    obtain ⟨e, he, heq⟩ := get?_eq_some_iff.mp h
    exact ⟨e, Dict.mem_values.mpr ⟨id, he⟩, heq⟩

/-- The list of a player is what is held of that player, each as often as held. -/
theorem ofPlayer_perm (ha : a.Sound) (playerId : String) :
    (a.ofPlayer playerId).Perm (a.all.filter (·.playerId == playerId)) := by
  -- Owners and players agree, so it is the same to keep by the one or the other.
  have owners : a.entries.values.filter (·.owner == playerId) =
      a.entries.values.filter fun e => e.conversation.playerId == playerId := by
    refine List.filter_congr fun e he => ?_
    obtain ⟨id, h⟩ := Dict.mem_values.mp he
    rw [(ha id e h).owner_eq]
  rw [ofPlayer, all, byStart]
  rw [owners]
  refine (List.mergeSort_perm _ _).trans ?_
  refine List.Perm.trans ?_ ((List.mergeSort_perm _ _).filter _).symm
  rw [List.filter_map]
  exact List.Perm.refl _

theorem Sound.all_ids_perm (ha : a.Sound) : (a.all.map Conversation.id).Perm a.entries.keys := by
  have ids : (a.entries.values.map Entry.conversation).map Conversation.id = a.entries.keys := by
    rw [Dict.values, List.map_map, List.map_map]
    refine List.map_congr_left fun e he => ?_
    exact (ha e.1 e.2 (Dict.get?_eq_some_iff.mpr he)).id_eq
  rw [← ids]
  exact (List.mergeSort_perm _ _).map _

theorem Sound.nodup_all_ids (ha : a.Sound) : (a.all.map Conversation.id).Nodup :=
  ha.all_ids_perm.nodup_iff.mpr (Dict.nodup_keys _)

theorem Sound.active_of_mem_all (ha : a.Sound) (hc : c ∈ a.all) : c.isActive = true := by
  obtain ⟨id, hheld⟩ := mem_all.mp hc
  exact ha.isActive hheld

/-- No conversation is listed twice. -/
theorem Sound.nodup_ofPlayer (ha : a.Sound) (playerId : String) :
    ((a.ofPlayer playerId).map Conversation.id).Nodup := by
  exact ((ofPlayer_perm ha playerId).map _).nodup_iff.mpr
    ((List.filter_sublist.map _).nodup ha.nodup_all_ids)

theorem mem_ofPlayer (ha : a.Sound) {playerId : String} :
    c ∈ a.ofPlayer playerId ↔ (∃ id, a.get? id = some c) ∧ c.playerId = playerId := by
  rw [(ofPlayer_perm ha playerId).mem_iff, List.mem_filter, mem_all, beq_iff_eq]

/-- What is listed is held under its own id. -/
theorem mem_all_held (ha : a.Sound) : c ∈ a.all ↔ a.get? c.id = some c := by
  rw [mem_all]
  constructor
  · rintro ⟨id, hc⟩
    rw [ha.id_eq hc]
    exact hc
  · intro hc
    exact ⟨c.id, hc⟩

theorem mem_ofPlayer_held (ha : a.Sound) {playerId : String} :
    c ∈ a.ofPlayer playerId ↔ a.get? c.id = some c ∧ c.playerId = playerId := by
  rw [(ofPlayer_perm ha playerId).mem_iff, List.mem_filter, mem_all_held ha, beq_iff_eq]

section Filtered

variable {q : Conversation → Bool} {ids : List String}

/-- The ids of the conversations that satisfy `q`, in any order. -/
theorem Sound.ids_perm_filter (ha : a.Sound) (hids : ids.Nodup)
    (hmem : ∀ id, id ∈ ids ↔ ∃ c, a.get? id = some c ∧ q c = true) :
    ids.Perm ((a.all.filter q).map Conversation.id) := by
  have nodup : ((a.all.filter q).map Conversation.id).Nodup :=
    (List.filter_sublist.map _).nodup ha.nodup_all_ids
  refine (List.perm_ext_iff_of_nodup hids nodup).mpr fun id => ?_
  rw [hmem, List.mem_map]
  constructor
  · rintro ⟨c, hc, hq⟩
    obtain rfl := ha.id_eq hc
    exact ⟨c, List.mem_filter.mpr ⟨(mem_all_held ha).mpr hc, hq⟩, rfl⟩
  · rintro ⟨c, hc, rfl⟩
    obtain ⟨hlisted, hq⟩ := List.mem_filter.mp hc
    exact ⟨c, (mem_all_held ha).mp hlisted, hq⟩

/-- Ending the conversations that satisfy `q` counts each of them once. -/
theorem Sound.finishAll_length (ha : a.Sound) (reason : EndReason) (now : Instant)
    (hids : ids.Nodup) (hmem : ∀ id, id ∈ ids ↔ ∃ c, a.get? id = some c ∧ q c = true) :
    (a.finishAll reason now ids).2.1.length = (a.all.filter q).length := by
  -- Whatever is named is held, so every end that is tried is counted.
  have held : ids.filter a.contains = ids := by
    rw [List.filter_eq_self]
    intro id hid
    obtain ⟨c, hc, -⟩ := (hmem id).mp hid
    exact contains_of_get? hc
  rw [finishAll_ids ha reason now hids, held, (ha.ids_perm_filter hids hmem).length_eq,
    List.length_map]

theorem Sound.finishAll_perm (ha : a.Sound) (reason : EndReason) (now : Instant)
    (hids : ids.Nodup) (hmem : ∀ id, id ∈ ids ↔ ∃ c, a.get? id = some c ∧ q c = true) :
    (a.finishAll reason now ids).2.2.Perm
      ((a.all.filter q).map fun c => c.endEvent reason now) := by
  rw [finishAll_events ha reason now hids]
  refine ((ha.ids_perm_filter hids hmem).filterMap _).trans (.of_eq ?_)
  rw [List.filterMap_map, ← List.filterMap_eq_map]
  refine List.filterMap_congr fun c hc => ?_
  rw [Function.comp_apply, (mem_all_held ha).mp (List.mem_filter.mp hc).1]
  rfl

end Filtered

/-! ### Counts -/

theorem length_ofPlayer (a : Arena) (playerId : String) :
    (a.ofPlayer playerId).length = a.countOfPlayer playerId := by
  rw [ofPlayer, byStart, (List.mergeSort_perm _ _).length_eq, List.length_map, countOfPlayer,
    List.countP_eq_length_filter]

theorem countOfPlayer_insert_le (a : Arena) (c : Conversation) (playerId : String) :
    (a.insert c).countOfPlayer playerId ≤
      a.countOfPlayer playerId + (c.playerId == playerId).toNat :=
  Dict.countP_values_insert_le _ _ _ _

theorem countOfPlayer_remove_le (a : Arena) (id playerId : String) :
    (a.remove id).countOfPlayer playerId ≤ a.countOfPlayer playerId :=
  Dict.countP_values_erase_le _ _ _

/-- The owner of a conversation stays when it is replaced. -/
theorem countOfPlayer_update (a : Arena) (id : String) (c : Conversation) (playerId : String) :
    (a.update id c).countOfPlayer playerId = a.countOfPlayer playerId :=
  Dict.countP_values_modify _ _ _ _ fun _ _ => rfl

theorem countOfPlayer_without (a : Arena) (ids : List String) (playerId : String) :
    (a.without ids).countOfPlayer playerId =
      a.entries.entries.countP fun e => !ids.contains e.1 && e.2.owner == playerId :=
  Dict.countP_values_filter _ _ _

theorem countOfPlayer_without_le (a : Arena) (ids : List String) (playerId : String) :
    (a.without ids).countOfPlayer playerId ≤ a.countOfPlayer playerId := by
  rw [countOfPlayer_without, countOfPlayer, Dict.countP_values]
  refine List.countP_mono_left fun e _ h => ?_
  exact (Bool.and_eq_true _ _ ▸ h).2

/-- How many of a player's conversations satisfy `q`. -/
theorem countP_ofPlayer (a : Arena) (playerId : String) (q : Conversation → Bool) :
    (a.ofPlayer playerId).countP q =
      a.entries.entries.countP fun e => q e.2.conversation && e.2.owner == playerId := by
  rw [ofPlayer, byStart, (List.mergeSort_perm _ _).countP_eq, List.countP_map,
    List.countP_filter, Dict.countP_values]
  rfl

end Arena

/-! ### Conversations put in one after another -/

namespace Conversation

/-- The last conversation under each id. -/
def latest (cs : List Conversation) : List Conversation :=
  cs.pwFilter fun c d => c.id ≠ d.id

variable {c head : Conversation} {rest : List Conversation}

theorem latest_ids (cs : List Conversation) : (latest cs).Pairwise fun c d => c.id ≠ d.id :=
  List.pairwise_pwFilter cs

theorem nodup_latest (cs : List Conversation) : (latest cs).Nodup :=
  (latest_ids cs).imp fun hne heq => hne (congrArg id heq)

/-- A conversation remains if none after it has its id. -/
theorem mem_latest_cons :
    c ∈ latest (head :: rest) ↔
      (c = head ∧ ∀ d ∈ rest, head.id ≠ d.id) ∨ c ∈ latest rest := by
  -- It is the same to look for the id in what remains of the others.
  have remaining : (∀ d ∈ latest rest, head.id ≠ d.id) ↔ ∀ d ∈ rest, head.id ≠ d.id := by
    refine List.forall_mem_pwFilter (fun {x y z} hne => ?_) head rest
    rw [or_iff_not_imp_left, not_not]
    intro heq
    exact heq ▸ hne
  by_cases hlast : ∀ d ∈ rest, head.id ≠ d.id
  · rw [latest, List.pwFilter_cons_of_pos (remaining.mpr hlast), List.mem_cons]
    exact or_congr_left (and_iff_left hlast).symm
  · rw [latest, List.pwFilter_cons_of_neg fun h => hlast (remaining.mp h)]
    exact (or_iff_right fun h => hlast h.2).symm

end Conversation

namespace Arena

variable {a : Arena} {c : Conversation} {cs : List Conversation} {id : String}

/-- Under an id there is the last conversation that was put there, or what was there before. -/
theorem get?_foldl_insert_iff :
    (cs.foldl Arena.insert a).get? id = some c ↔
      (c ∈ Conversation.latest cs ∧ c.id = id) ∨
        (∀ d ∈ cs, d.id ≠ id) ∧ a.get? id = some c := by
  induction cs generalizing a with
  | nil => simp [Conversation.latest]
  | cons head rest ih =>
    rw [List.foldl_cons, ih, get?_insert, List.forall_mem_cons, Conversation.mem_latest_cons]
    by_cases hid : head.id = id
    · subst hid
      have last : (∀ d ∈ rest, d.id ≠ head.id) ↔ ∀ d ∈ rest, head.id ≠ d.id :=
        forall₂_congr fun _ _ => ne_comm
      rw [if_pos rfl, last, Option.some.injEq]
      constructor
      · rintro (⟨hmem, hid⟩ | ⟨hlast, rfl⟩)
        · exact .inl ⟨.inr hmem, hid⟩
        · exact .inl ⟨.inl ⟨rfl, hlast⟩, rfl⟩
      · rintro (⟨⟨rfl, hlast⟩ | hmem, hid⟩ | ⟨⟨hne, -⟩, -⟩)
        · exact .inr ⟨hlast, rfl⟩
        · exact .inl ⟨hmem, hid⟩
        · exact absurd rfl hne
    · rw [if_neg hid]
      constructor
      · rintro (⟨hmem, hc⟩ | ⟨hlast, hbefore⟩)
        · exact .inl ⟨.inr hmem, hc⟩
        · exact .inr ⟨⟨hid, hlast⟩, hbefore⟩
      · rintro (⟨⟨rfl, -⟩ | hmem, hc⟩ | ⟨⟨-, hlast⟩, hbefore⟩)
        · exact absurd hc hid
        · exact .inl ⟨hmem, hc⟩
        · exact .inr ⟨hlast, hbefore⟩

/-- An empty arena into which conversations were put holds the last one under each id. -/
theorem get?_foldl_insert_empty :
    (cs.foldl Arena.insert {}).get? id = some c ↔ c ∈ Conversation.latest cs ∧ c.id = id := by
  rw [get?_foldl_insert_iff]
  exact or_iff_left fun h => absurd h.2 (by nofun)

end Arena

end Parley
