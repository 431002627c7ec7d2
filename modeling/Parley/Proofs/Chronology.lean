/-
Saved conversations are loaded in the order of their last activity.

* `Row.le_iff` — rows are in a total order, of which the text of the time comes first;
* `Conversation.read_back` — a conversation that is read from its row has the id and the last
  activity that were written, whatever its variables are;
* `Store.loadActive_sorted` — so what is loaded are the conversations saved, in the order of those
  texts;
* `Store.chronology` — which is the order of time, as long as the years have four digits.
-/
import Parley.Proofs.Document.Front
import Parley.Proofs.Instant.Order
import Parley.Proofs.Saving

namespace Parley

/-! ### The order of rows -/

namespace Row

theorem le_iff {a b : Row} :
    a.le b = true ↔ toLex (a.lastActivity, a.conversationId) ≤
      toLex (b.lastActivity, b.conversationId) := by
  rw [Prod.Lex.toLex_le_toLex, le, ← not_lt (a := b.conversationId), Bool.or_eq_true,
    Bool.and_eq_true, decide_eq_true_iff, beq_iff_eq, Bool.not_eq_true', decide_eq_false_iff_not]

theorem le_trans (a b c : Row) (hab : a.le b = true) (hbc : b.le c = true) : a.le c = true :=
  le_iff.mpr ((le_iff.mp hab).trans (le_iff.mp hbc))

theorem le_total (a b : Row) : (a.le b || b.le a) = true := by
  rw [Bool.or_eq_true, le_iff, le_iff]
  exact LinearOrder.le_total _ _

theorem lastActivity_le {a b : Row} (h : a.le b = true) : a.lastActivity ≤ b.lastActivity := by
  rcases Prod.Lex.toLex_le_toLex.mp (le_iff.mp h) with hlt | ⟨heq, -⟩
  · exact le_of_lt hlt
  · exact le_of_eq heq

end Row

/-! ### What comes back from a row -/

namespace Conversation

/-- What is written up to the last activity. -/
def front (c : Conversation) : List (String × Json) :=
  [("conversationId", Json.str c.id), ("currentNodeId", .str c.currentNodeId)] ++
    (c.endReason.toList.map fun reason => ("endReason", reason.toJson)) ++
    [("flags", .ofStrings c.flags), ("history", .ofStrings c.history),
    ("isActive", .bool c.isActive), ("lastActivity", c.lastActivity.toJson)]

/-- What is written after it, the variables among it. -/
def back (c : Conversation) : List (String × Json) :=
  [("npcId", Json.str c.npcId), ("playerId", .str c.playerId), ("providerId", .str c.providerId),
    ("startedAt", c.startedAt.toJson), ("treeId", .str c.treeId), ("turnCount", .int c.turnCount),
    ("variables", valuesToJson c.vars)]

theorem toJson_eq_front (c : Conversation) : c.toJson = .obj (c.front ++ c.back) := by
  rw [toJson_eq, members, front, back, List.append_assoc _ _ [_, _, _, _, _, _, _]]
  rfl

theorem haveLegible_front (c : Conversation) : Json.HaveLegible c.front := by
  rw [front]
  cases c.endReason <;>
    simp [Json.HaveLegible, Json.IsLegible, Json.ofStrings, EndReason.toJson, Instant.toJson,
      areLegible_strings]

theorem nesting_front (c : Conversation) :
    Json.nestingOfFields c.front + 1 ≤ Document.depthLimit := by
  rw [front]
  cases c.endReason <;>
    simp [Json.nestingOfFields, Json.nesting, Json.ofStrings, EndReason.toJson, Instant.toJson,
      nesting_strings, Document.depthLimit]

/-- The id and the last activity stand before anything that could fail to be read, so if a row is
read at all, they come back. -/
theorem read_back {c c' : Conversation} (hvalid : c.lastActivity.IsValid)
    (h : (Row.ofConversation c).conversation? = some c') :
    c'.id = c.id ∧ c'.lastActivity = c.lastActivity := by
  obtain ⟨d, hread, h⟩ := Option.bind_eq_some_iff.mp h
  have hread : Document.read (Json.obj (c.front ++ c.back)).compact = some d :=
    c.toJson_eq_front ▸ hread
  obtain ⟨fields, hfields, read⟩ := exists_readFrom h
  have written (name : String) (value : Json) (hname : name ∈ names)
      (hget : Entries.get? name c.front = some value) :
      fields.get? name = some (Document.ofJson value) :=
    Document.get?_of_read_front (by simp [back]) c.haveLegible_front c.nesting_front hread hfields
      hname hget
  have writtenId := written "conversationId" (.str c.id) (by decide) rfl
  have writtenActivity := written "lastActivity" c.lastActivity.toJson (by decide)
    (by rw [front]; cases c.endReason <;> rfl)
  have hid := read.id
  have hlastActivity := read.lastActivity
  rw [Fields.required, writtenId, Option.bind_some] at hid
  rw [Fields.required, writtenActivity, Option.bind_some, Instant.decode_toJson hvalid]
    at hlastActivity
  exact ⟨(Option.some.inj hid).symm, (Option.some.inj hlastActivity).symm⟩

end Conversation

/-! ### What is loaded -/

/-- What every reading keeps, a list that is read keeps in its order. -/
theorem Document.map_of_collect {α β γ δ : Type} {f : β → Option γ} {e : α → β} {g : α → δ}
    {g' : γ → δ} {items : List α} {results : List γ}
    (hkeeps : ∀ a ∈ items, ∀ c, f (e a) = some c → g' c = g a)
    (h : collect f (items.map e) = some results) : results.map g' = items.map g := by
  induction items generalizing results with
  | nil =>
    obtain rfl := Option.some.inj h
    rfl
  | cons a rest ih =>
    obtain ⟨hfirst, hrest⟩ := List.forall_mem_cons.mp hkeeps
    rw [List.map_cons, collect] at h
    split at h
    · rename_i c cs hc hcs
      obtain rfl := Option.some.inj h
      rw [List.map_cons, List.map_cons, hfirst c hc, ih hrest hcs]
    · exact absurd h (by simp)

namespace Store

variable {cs loaded : List Conversation}

/-- What rows are ordered and told apart by. -/
def stamp (c : Conversation) : String × Instant := (c.id, c.lastActivity)

/-- One conversation comes before another as their rows do. -/
def before (c c' : Conversation) : Bool := (Row.ofConversation c).le (Row.ofConversation c')

theorem mergeSort_rows (cs : List Conversation) :
    (cs.map Row.ofConversation).mergeSort Row.le =
      (cs.mergeSort before).map Row.ofConversation :=
  (List.map_mergeSort (r := before) (s := Row.le) (f := Row.ofConversation) fun _ _ _ _ => rfl).symm

theorem pairwise_before (cs : List Conversation) :
    (cs.mergeSort before).Pairwise fun c c' => before c c' = true :=
  List.pairwise_mergeSort
    (fun a b c => Row.le_trans (.ofConversation a) (.ofConversation b) (.ofConversation c))
    (fun a b => Row.le_total (.ofConversation a) (.ofConversation b)) cs

/-- What is loaded are the conversations saved, in the order of the texts of their times. -/
theorem loadActive_sorted (hvalid : ∀ c ∈ cs, c.lastActivity.IsValid)
    (h : (database (cs.map Row.ofConversation)).loadActive = .ok loaded) :
    (loaded.map stamp).Perm (cs.map stamp) ∧
      loaded.Pairwise fun c c' => c.lastActivity.offsetText ≤ c'.lastActivity.offsetText := by
  have perm := List.mergeSort_perm cs before
  have kept : loaded.map stamp = (cs.mergeSort before).map stamp := by
    rw [loadActive, mergeSort_rows] at h
    split at h
    · rename_i results hresults
      obtain rfl := Except.ok.inj h
      refine Document.map_of_collect (fun c hc c' hc' => ?_) hresults
      obtain ⟨hid, hactivity⟩ := Conversation.read_back (hvalid c (perm.mem_iff.mp hc)) hc'
      rw [stamp, stamp, hid, hactivity]
    · exact absurd h (by simp)
  -- The texts are those of the stamps, so their order is that of the rows.
  have sorted : ((cs.mergeSort before).map stamp).Pairwise fun p q =>
      p.2.offsetText ≤ q.2.offsetText :=
    List.pairwise_map.mpr ((pairwise_before cs).imp Row.lastActivity_le)
  rw [← kept, List.pairwise_map] at sorted
  exact ⟨kept ▸ perm.map stamp, sorted⟩

/-- **Saved conversations are loaded in the order of their activity.**  Texts of times in the
years from 0 to 9999 are in the order of time, to the nanosecond.  So whatever active
conversations with ids of their own are saved, each is loaded once with its last activity, and of
two with such times the one that was active earlier comes first; and all that fit into rows are
loaded. -/
theorem chronology :
    (∀ a b : Instant, a.IsValid → b.IsValid → a.InFourDigitYear → b.InFourDigitYear →
      (a.offsetText ≤ b.offsetText ↔ a.le b = true) ∧
      (a.offsetText < b.offsetText ↔ b.le a = false)) ∧
    ∀ (rows : List Row) (cs : List Conversation), (∀ c ∈ cs, c.isActive = true) →
      (cs.map Conversation.id).Nodup → (∀ c ∈ cs, c.lastActivity.IsValid) →
      ∃ s, (database rows).replaceActive cs = .ok s ∧
        (∀ loaded, s.loadActive = .ok loaded →
          (loaded.map stamp).Perm (cs.map stamp) ∧
          loaded.Pairwise fun c c' =>
            c.lastActivity.InFourDigitYear → c'.lastActivity.InFourDigitYear →
              c.lastActivity.le c'.lastActivity = true) ∧
        ((∀ c ∈ cs, c.Storable) → ∃ loaded, s.loadActive = .ok loaded ∧ loaded.Perm cs) := by
  refine ⟨fun a b ha hb hyear hyear' => ⟨Instant.offsetText_le_iff ha hb hyear hyear',
    Instant.offsetText_lt_iff ha hb hyear hyear'⟩, fun rows cs hactive hids hvalid => ?_⟩
  have all : rowsOf cs = cs.map Row.ofConversation := by
    rw [rowsOf, List.filter_eq_self.mpr hactive]
  refine ⟨database (rowsOf cs), (replaceActive_database rows cs).2 (not_clash_of_nodup hids),
    fun loaded hload => ?_, fun hstorable => all ▸ loadActive_rows hstorable⟩
  obtain ⟨perm, sorted⟩ := loadActive_sorted hvalid (all ▸ hload)
  have valid : ∀ c ∈ loaded, c.lastActivity.IsValid := fun c hc => by
    obtain ⟨c', hc', heq⟩ := List.mem_map.mp (perm.mem_iff.mp (List.mem_map_of_mem hc))
    have same : c'.lastActivity = c.lastActivity := congrArg Prod.snd heq
    exact same ▸ hvalid c' hc'
  exact ⟨perm, sorted.imp_of_mem fun {c c'} hc hc' hle hyear hyear' =>
    (Instant.offsetText_le_iff (valid c hc) (valid c' hc') hyear hyear').mp hle⟩

/-- Three guests sit down within a second, and the texts of their times have nine, three and no
digits after the point. -/
theorem chronology_arrivals :
    let arrival (id : String) (nanos : Nat) : Conversation :=
      { Inn.seated with id, lastActivity := ⟨0, nanos⟩ }
    let cs := [arrival "last" 500000001, arrival "second" 500000000, arrival "first" 0]
    Instant.offsetText ⟨0, 500000000⟩ < Instant.offsetText ⟨0, 500000001⟩ ∧
    ∃ s, (database []).replaceActive cs = .ok s ∧ s.loadActive = .ok cs.reverse := by
  intro arrival cs
  obtain ⟨htimes, hsaved⟩ := chronology
  have valid : ∀ c ∈ cs, c.lastActivity.IsValid := fun c hc => by
    simp only [cs, arrival, List.mem_cons, List.not_mem_nil, or_false] at hc
    rcases hc with rfl | rfl | rfl <;> exact ⟨by decide, by decide, by decide⟩
  have years : ∀ c ∈ cs, c.lastActivity.InFourDigitYear := by decide
  have storable : ∀ c ∈ cs, c.Storable := fun c hc => by
    have hactivity := valid c hc
    simp only [cs, arrival, List.mem_cons, List.not_mem_nil, or_false] at hc
    rcases hc with rfl | rfl | rfl <;> exact { Inn.seated_storable with lastActivity := hactivity }
  have later := (htimes ⟨0, 500000000⟩ ⟨0, 500000001⟩ (valid (arrival "second" _) (by simp [cs]))
    (valid (arrival "last" _) (by simp [cs])) (by decide) (by decide)).2.mpr (by decide)
  obtain ⟨s, hreplace, hsorted, hloads⟩ := hsaved [] cs (by decide) (by decide) valid
  obtain ⟨loaded, hload, hperm⟩ := hloads storable
  obtain ⟨-, sorted⟩ := hsorted loaded hload
  have chronological : loaded.Pairwise fun c c' => c.lastActivity.le c'.lastActivity = true :=
    sorted.imp_of_mem fun hc hc' hle =>
      hle (years _ (hperm.mem_iff.mp hc)) (years _ (hperm.mem_iff.mp hc'))
  have distinct : ∀ c ∈ cs, ∀ c' ∈ cs, c.lastActivity.le c'.lastActivity = true →
      c'.lastActivity.le c.lastActivity = true → c = c' := by decide +kernel
  have reversed : loaded = cs.reverse :=
    (hperm.trans (List.reverse_perm cs).symm).eq_of_pairwise
      (fun c c' hc hc' => distinct c (hperm.mem_iff.mp hc) c' (List.mem_reverse.mp hc'))
      chronological (by decide)
  exact ⟨later, s, hreplace, reversed ▸ hload⟩

end Store
end Parley
