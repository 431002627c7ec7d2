/-
What is saved can be loaded.

* `Row.conversation?_ofConversation` — a conversation comes back from the row that holds it, in
  every field;
* `Row.conversation?_eq_none` — unless its variables are nested too deeply;
* `Store.loadActive_rows`, `Store.loadActive_eq_error` — so a database reads back the rows of
  conversations, all of them or none;
* `Store.loadActive_replaceActive` — and a store that works loads the conversations that were
  saved last, in an order of its own.

Design notes: an instant, a count and a value can be more in this library than what a row can
hold, so `Conversation.Storable` says that they are not.
-/
import Parley.Proofs.Document.Content
import Parley.Store

namespace Parley

/-! ### Conversations -/

namespace Conversation

/-- The conversation fits into a row.  Times, counts and whole numbers have their ranges, and
objects list their members in order; beyond that, its floating-point numbers are to be read as
they are printed, and its variables not to be nested too deeply. -/
structure Storable (c : Conversation) : Prop where
  startedAt : c.startedAt.IsValid
  lastActivity : c.lastActivity.IsValid
  turnCount : c.turnCount ≤ Text.uint32Max
  canonical : Json.HaveCanonical c.vars.entries
  legible : Json.HaveLegible c.vars.entries
  /-- The variables stand inside two other containers. -/
  nesting : Json.nestingOfFields c.vars.entries + 2 ≤ Document.depthLimit

/-- The conversation can be written, but its variables are nested too deeply to be read again. -/
structure Overflows (c : Conversation) : Prop where
  turnCount : c.turnCount ≤ Text.uint32Max
  legible : Json.HaveLegible c.vars.entries
  nesting : Document.depthLimit < Json.nestingOfFields c.vars.entries + 2

variable {c : Conversation}

theorem Storable.isSound (h : c.Storable) : c.IsSound where
  startedAt := h.startedAt
  lastActivity := h.lastActivity
  turnCount := h.turnCount
  vars := fun _ hvalue =>
    have ⟨_, hentry, heq⟩ := List.mem_map.mp hvalue
    heq ▸ Json.haveCanonical_iff.mp h.canonical _ hentry

theorem areLegible_strings (items : List String) : Json.AreLegible (items.map Json.str) := by
  induction items with
  | nil => trivial
  | cons item rest ih => exact ⟨trivial, ih⟩

theorem nesting_strings (items : List String) : Json.nestingOfItems (items.map Json.str) = 0 := by
  induction items with
  | nil => rfl
  | cons item rest ih =>
    rw [List.map_cons, Json.nestingOfItems, ih]
    rfl

theorem valuesToJson_eq (d : Dict Json) : valuesToJson d = .obj d.entries := by
  rw [valuesToJson, Json.ofDict]
  exact congrArg Json.obj (List.map_id _)

theorem isLegible_toJson (hturns : c.turnCount ≤ Text.uint32Max)
    (vars : Json.HaveLegible c.vars.entries) : c.toJson.IsLegible := by
  have turnCount : Json.IsLegible (.int c.turnCount) := by
    simp only [Json.IsLegible, Text.int64Min, Text.uint64Max, Text.uint32Max] at hturns ⊢
    omega
  rw [toJson, valuesToJson_eq]
  cases c.endReason <;>
    simpa [Json.IsLegible, Json.HaveLegible, Json.ofStrings, EndReason.toJson, Instant.toJson,
      areLegible_strings, vars] using turnCount

theorem nesting_toJson (h : c.Storable) : c.toJson.nesting ≤ Document.depthLimit := by
  have vars := h.nesting
  rw [toJson, valuesToJson_eq]
  cases c.endReason <;>
    simp only [Json.nesting, Json.nestingOfFields, Json.ofStrings, EndReason.toJson,
      Instant.toJson, nesting_strings, List.cons_append, List.nil_append, Option.toList,
      List.map_nil, List.map_cons] <;>
    omega

/-- Beyond the limit the variables are lost, and the conversation with them. -/
theorem Overflows.decode_eq_none (h : c.Overflows) :
    decode (Document.within 0 c.toJson) = none := by
  have lost : Document.dict? Document.toJson? (Document.within 1 (valuesToJson c.vars)) = none := by
    have nesting := h.nesting
    rw [valuesToJson_eq]
    exact Document.dict?_within_of_lt (by decide) (by omega)
  have written : Entries.get? "variables" c.members = some (valuesToJson c.vars) := by
    rw [members]
    cases c.endReason <;> rfl
  -- Whatever were read would have its variables from the field that is lost.
  rw [Option.eq_none_iff_forall_ne_some]
  intro c' hdecode
  obtain ⟨fields, hfields, read⟩ := exists_readFrom hdecode
  have hvars := read.vars
  rw [toJson_eq, Document.within, Document.limited_of_lt (by decide)] at hfields
  obtain ⟨-, heq⟩ := Option.ite_none_right_eq_some.mp hfields
  obtain rfl := Option.some.inj heq
  rw [Fields.required, Fields.get?, Document.get?_filter (by decide), Document.get?_fieldsWithin,
    written, Option.map_some, Option.bind_some, lost] at hvars
  exact absurd hvars (by simp)

end Conversation

theorem Row.conversation?_ofConversation {c : Conversation} (h : c.Storable) :
    (Row.ofConversation c).conversation? = some c := by
  show (Document.read c.toJson.compact).bind Conversation.decode = some c
  rw [Document.read_compact (Conversation.isLegible_toJson h.turnCount h.legible)
    (Conversation.nesting_toJson h), Option.bind_some]
  exact Conversation.decode_toJson h.isSound

theorem Row.conversation?_eq_none {c : Conversation} (h : c.Overflows) :
    (Row.ofConversation c).conversation? = none := by
  show (Document.read c.toJson.compact).bind Conversation.decode = none
  rw [Document.read_compact_within (Conversation.isLegible_toJson h.turnCount h.legible),
    Option.bind_some]
  exact h.decode_eq_none

/-! ### Stores -/

theorem Document.collect_eq {α β : Type} {f : α → Option β} {items : List α}
    (h : ∀ a ∈ items, (f a).isSome = true) : collect f items = some (items.filterMap f) := by
  induction items with
  | nil => rfl
  | cons a rest ih =>
    obtain ⟨b, hb⟩ := Option.isSome_iff_exists.mp (h a List.mem_cons_self)
    rw [collect, hb, ih fun a' ha' => h a' (List.mem_cons_of_mem a ha'),
      List.filterMap_cons_some hb]

namespace Store

/-- Saving and loading are not refused. -/
def Works : Store → Prop
  | verbatim _ refusesSave refusesLoad => refusesSave = false ∧ refusesLoad = false
  | _ => True

/-- The store takes rows. -/
def isDatabase : Store → Bool
  | database _ => true
  | _ => false

/-- Rows of conversations that fit into them are read back, in an order of their own. -/
theorem loadActive_rows {cs : List Conversation} (h : ∀ c ∈ cs, c.Storable) :
    ∃ loaded, (database (cs.map Row.ofConversation)).loadActive = .ok loaded ∧ loaded.Perm cs := by
  have back : (cs.map Row.ofConversation).filterMap Row.conversation? = cs := by
    rw [List.filterMap_map, ← List.filterMap_some (l := cs), List.filterMap_filterMap]
    exact List.filterMap_congr fun c hc => Row.conversation?_ofConversation (h c hc)
  -- Rows are loaded in the order of their times, which is not that of saving.
  have sorted := List.mergeSort_perm (cs.map Row.ofConversation) Row.le
  have readable : ∀ row ∈ (cs.map Row.ofConversation).mergeSort Row.le,
      row.conversation?.isSome = true := by
    intro row hrow
    obtain ⟨c, hc, rfl⟩ := List.mem_map.mp (sorted.mem_iff.mp hrow)
    rw [Row.conversation?_ofConversation (h c hc)]
    rfl
  refine ⟨((cs.map Row.ofConversation).mergeSort Row.le).filterMap Row.conversation?, ?_, ?_⟩
  · rw [loadActive, Document.collect_eq readable]
  · exact (sorted.filterMap _).trans (.of_eq back)

/-- A conversation that cannot be read again keeps all the others from being loaded. -/
theorem loadActive_eq_error {cs : List Conversation} {c : Conversation} (hc : c ∈ cs)
    (h : c.Overflows) :
    (database (cs.map Row.ofConversation)).loadActive = .error .encoding := by
  have row := (List.mergeSort_perm (cs.map Row.ofConversation) Row.le).mem_iff.mpr
    (List.mem_map_of_mem hc)
  rw [loadActive, Document.collect_eq_none row (Row.conversation?_eq_none h)]

/-- What is saved is loaded, if it is all active and has ids of its own. -/
theorem loadActive_replaceActive {s : Store} {cs : List Conversation} (hs : s.Works)
    (hactive : ∀ c ∈ cs, c.isActive = true) (hids : (cs.map Conversation.id).Nodup)
    (hstorable : s.isDatabase = true → ∀ c ∈ cs, c.Storable) :
    ∃ s' saved, s.replaceActive cs = .ok s' ∧ s'.loadActive = .ok saved ∧ saved.Perm cs := by
  have all : cs.filter (·.isActive) = cs := List.filter_eq_self.mpr hactive
  cases s with
  | memory =>
    refine ⟨.memory cs, cs, ?_, rfl, .refl cs⟩
    rw [replaceActive, all]
  | verbatim saved refusesSave refusesLoad =>
    obtain ⟨rfl, rfl⟩ := hs
    exact ⟨.verbatim cs false false, cs, rfl, rfl, .refl cs⟩
  | database rows =>
    have keys : ((cs.map Row.ofConversation).map Row.conversationId).Nodup := by
      rw [List.map_map]
      exact hids
    obtain ⟨saved, hload, hperm⟩ := loadActive_rows (hstorable rfl)
    refine ⟨_, saved, ?_, hload, hperm⟩
    rw [replaceActive, all]
    exact if_pos keys

end Store

end Parley
