/-
Values that are written out read back.

* `Document.within`, `Document.reads_within` — the compact text of a value, wherever it stands,
  is read as the document of that value, but for what is nested beyond the limit;
* `Document.within_of_le`, `Document.toJson?_within_of_lt` — the limit spoils nothing that keeps
  it, and everything around what does not;
* `Document.toJson?_ofJson` — the document of a value means the value again;
* `Document.isReadable_ofJson`, `Document.isCanonical_of_toJson?` — what is written can be read,
  and what is read lists its members in order;
* `Document.read_compact` — so a value within the limit is found again in its text.

Design notes: numbers come back if they are of 64 bits, or floating-point numbers of which the
text is read as the same number again; containers come back exactly if they are not nested
beyond the limit of the reader, which counts the containers around a value as well.
-/
import Parley.Proofs.Dict
import Parley.Proofs.Document.Lexemes

namespace Parley

/-- The text of the number is read as that number. -/
def Decimal.ReadsBack (x : Float) : Prop :=
  Document.readNumber (Decimal.text x).toList = some (.float x, [])

namespace Json

mutual

/-- Every number inside is read back as it is written. -/
def IsLegible : Json → Prop
  | int n => Text.int64Min ≤ n ∧ n ≤ Text.uint64Max
  | float x => Decimal.ReadsBack x
  | arr items => AreLegible items
  | obj fields => HaveLegible fields
  | _ => True

def AreLegible : List Json → Prop
  | [] => True
  | item :: rest => IsLegible item ∧ AreLegible rest

def HaveLegible : List (String × Json) → Prop
  | [] => True
  | (_, value) :: rest => IsLegible value ∧ HaveLegible rest

end

mutual

/-- How many containers are nested in each other. -/
def nesting : Json → Nat
  | arr items => nestingOfItems items + 1
  | obj fields => nestingOfFields fields + 1
  | _ => 0

def nestingOfItems : List Json → Nat
  | [] => 0
  | item :: rest => max (nesting item) (nestingOfItems rest)

def nestingOfFields : List (String × Json) → Nat
  | [] => 0
  | (_, value) :: rest => max (nesting value) (nestingOfFields rest)

end

theorem exists_of_lt_nestingOfFields {n : Nat} {fields : List (String × Json)}
    (h : n < nestingOfFields fields) : ∃ field ∈ fields, n < field.2.nesting := by
  induction fields with
  | nil => exact absurd h (Nat.not_lt_zero n)
  | cons field rest ih =>
    obtain ⟨key, value⟩ := field
    rw [nestingOfFields] at h
    by_cases hvalue : n < value.nesting
    · exact ⟨(key, value), List.mem_cons_self, hvalue⟩
    · obtain ⟨field, hfield, hnesting⟩ := ih (by omega)
      exact ⟨field, List.mem_cons_of_mem _ hfield, hnesting⟩

theorem haveCanonical_iff {fields : List (String × Json)} :
    HaveCanonical fields ↔ ∀ field ∈ fields, field.2.IsCanonical := by
  induction fields with
  | nil => simp [HaveCanonical]
  | cons field rest ih =>
    obtain ⟨key, value⟩ := field
    rw [HaveCanonical, ih, List.forall_mem_cons]

/-! ### The characters of a value -/

/-- Items with commas between them. -/
def itemsText (items : List Json) : List Char :=
  [','].intercalate ((compactItems items).map String.toList)

/-- Members with commas between them. -/
def fieldsText (fields : List (String × Json)) : List Char :=
  [','].intercalate ((compactFields fields).map String.toList)

theorem toList_quote (s : String) :
    (quote s).toList = '"' :: (s.toList.flatMap escape ++ ['"']) := by
  rw [quote, String.toList_ofList]
  rfl

theorem toList_compact_arr (items : List Json) :
    (arr items).compact.toList = '[' :: (itemsText items ++ [']']) := by
  rw [compact, String.toList_append, String.toList_append, String.toList_intercalate]
  rfl

theorem toList_compact_obj (fields : List (String × Json)) :
    (obj fields).compact.toList = '\x7b' :: (fieldsText fields ++ ['\x7d']) := by
  rw [compact, String.toList_append, String.toList_append, String.toList_intercalate]
  rfl

theorem itemsText_cons_cons (item next : Json) (rest : List Json) :
    itemsText (item :: next :: rest) = item.compact.toList ++ ',' :: itemsText (next :: rest) := by
  simp [itemsText, compactItems, List.intercalate_cons_cons]

theorem fieldsText_cons_cons (key : String) (value : Json) (next : String × Json)
    (rest : List (String × Json)) :
    fieldsText ((key, value) :: next :: rest) =
      (quote key).toList ++ ':' :: (value.compact.toList ++ ',' :: fieldsText (next :: rest)) := by
  obtain ⟨key', value'⟩ := next
  simp [fieldsText, compactFields, List.intercalate_cons_cons]

theorem itemsText_singleton (item : Json) : itemsText [item] = item.compact.toList := by
  simp [itemsText, compactItems]

theorem fieldsText_singleton (key : String) (value : Json) :
    fieldsText [(key, value)] = (quote key).toList ++ ':' :: value.compact.toList := by
  simp [fieldsText, compactFields]

end Json

namespace Document

open Json

/-! ### The first character -/

/-- A number begins with a minus sign or a digit. -/
theorem readNumber_head {cs rest : List Char} {d : Document}
    (h : readNumber cs = some (d, rest)) :
    ∃ c cs', cs = c :: cs' ∧ Text.isNumeric c = true := by
  cases cs with
  | nil => exact absurd h (by simp [readNumber, digitSpan])
  | cons c cs =>
    refine ⟨c, cs, rfl, ?_⟩
    by_cases hminus : c = '-'
    · subst hminus
      rfl
    · have unsigned : splitSign (c :: cs) = (false, c :: cs) :=
        splitSign.eq_2 _ fun _ heq => hminus (List.cons.inj heq).1
      cases hdigit : c.isDigit with
      | true => simp [Text.isNumeric, hdigit]
      | false =>
        rw [readNumber_eq, unsigned] at h
        simp [digitSpan, hdigit] at h

theorem skipGaps_cons {c : Char} (h : isGap c = false) (cs : List Char) :
    skipGaps (c :: cs) = c :: cs := by
  rw [skipGaps, List.dropWhile_cons_of_neg (by simp [h])]

theorem isGap_of_isNumeric {c : Char} (h : Text.isNumeric c = true) : isGap c = false := by
  have hcode := Text.toNat_of_isNumeric h
  rw [Bool.eq_false_iff]
  intro hgap
  simp only [isGap, Bool.or_eq_true, beq_iff_eq] at hgap
  rcases hgap with ((rfl | rfl) | rfl) | rfl <;> exact absurd hcode (by decide)

theorem readValue_number {depth budget : Nat} {cs rest : List Char} {d : Document}
    (h : readNumber cs = some (d, rest)) : readValue depth (budget + 1) cs = some (d, rest) := by
  obtain ⟨c, cs, rfl, hnumeric⟩ := readNumber_head h
  rw [readValue, skipGaps_cons (isGap_of_isNumeric hnumeric)]
  split
  · rename_i heq
    exact absurd heq (by simp)
  all_goals first
    | exact h
    | rename_i heq
      obtain ⟨rfl, -⟩ := List.cons.inj heq
      exact absurd hnumeric (by decide)

theorem stops_cons {c : Char} (h : c = ',' ∨ c = ']' ∨ c = '\x7d') (rest : List Char) :
    Stops (c :: rest) := by
  intro c' hc'
  obtain rfl := Option.some.inj hc'
  rcases h with rfl | rfl | rfl <;> decide

theorem stops_nil : Stops [] := fun c hc => absurd hc (by simp)

/-- A value does not begin with a gap, and not with the end of a container either. -/
theorem head_compact {j : Json} (hj : j.IsLegible) :
    ∃ c cs, j.compact.toList = c :: cs ∧ isGap c = false ∧ c ≠ ']' := by
  have number {d : Document} (h : readNumber j.compact.toList = some (d, [])) :
      ∃ c cs, j.compact.toList = c :: cs ∧ isGap c = false ∧ c ≠ ']' := by
    obtain ⟨c, cs, heq, hnumeric⟩ := readNumber_head h
    refine ⟨c, cs, heq, isGap_of_isNumeric hnumeric, ?_⟩
    rintro rfl
    exact absurd hnumeric (by decide)
  cases j with
  | null => exact ⟨'n', _, rfl, by decide, by decide⟩
  | bool b =>
    cases b with
    | true => exact ⟨'t', _, rfl, by decide, by decide⟩
    | false => exact ⟨'f', _, rfl, by decide, by decide⟩
  | int n => exact number (readNumber_toString hj.1 hj.2)
  | float x => exact number hj
  | str s => exact ⟨'"', _, toList_quote s, by decide, by decide⟩
  | arr items => exact ⟨'[', _, toList_compact_arr items, by decide, by decide⟩
  | obj fields => exact ⟨'\x7b', _, toList_compact_obj fields, by decide, by decide⟩

/-! ### Values -/

/-- Members with readable keys make an object. -/
theorem ofMembers_some (members : List (String × Document)) :
    ofMembers (members.map fun member => (some member.1, member.2)) = obj members := by
  rw [ofMembers, if_pos (by simp), List.filterMap_map]
  congr 1
  exact (List.filterMap_congr fun member _ => rfl).trans List.filterMap_some

theorem limited_of_lt {depth : Nat} (h : depth < depthLimit) (d : Document) :
    limited depth d = d := if_pos h

/-- Items do not begin with a gap or a bracket. -/
theorem head_itemsText {item : Json} (h : item.IsLegible) (rest : List Json) :
    ∃ c cs, itemsText (item :: rest) = c :: cs ∧ isGap c = false ∧ c ≠ ']' := by
  obtain ⟨c, cs, heq, hgap, hend⟩ := head_compact h
  cases rest with
  | nil => exact ⟨c, cs, (itemsText_singleton item).trans heq, hgap, hend⟩
  | cons next rest =>
    refine ⟨c, cs ++ ',' :: itemsText (next :: rest), ?_, hgap, hend⟩
    rw [itemsText_cons_cons, heq]
    rfl

theorem head_fieldsText (field : String × Json) (rest : List (String × Json)) :
    ∃ cs, fieldsText (field :: rest) = '"' :: cs := by
  obtain ⟨key, value⟩ := field
  cases rest with
  | nil => exact ⟨_, by rw [fieldsText_singleton, toList_quote]; rfl⟩
  | cons next rest => exact ⟨_, by rw [fieldsText_cons_cons, toList_quote]; rfl⟩

/-- A list of items that is read up to its bracket is an array. -/
theorem readValue_items {depth budget : Nat} {cs rest : List Char} {items : List Document}
    {c : Char} (hgap : isGap c = false) (hend : c ≠ ']')
    (h : readItems (depth + 1) budget (c :: cs) = some (items, rest)) :
    readValue depth (budget + 1) ('[' :: c :: cs) = some (limited depth (arr items), rest) := by
  rw [readValue, skipGaps_cons (by decide)]
  simp only [skipGaps_cons hgap]
  split
  · rename_i heq
    exact absurd (List.cons.inj heq).1 hend
  · rw [h]
    rfl

theorem readValue_members_eq (depth budget : Nat) (cs : List Char) :
    readValue depth (budget + 1) ('\x7b' :: '"' :: cs) =
      (readMembers (depth + 1) budget ('"' :: cs)).map fun (members, rest) =>
        (limited depth (ofMembers members), rest) := by
  rw [readValue, skipGaps_cons (by decide)]
  simp only [skipGaps_cons (show isGap '"' = false by decide)]
  rfl

theorem readValue_members {depth budget : Nat} {cs rest : List Char}
    {members : List (String × Document)}
    (h : readMembers (depth + 1) budget ('"' :: cs) =
      some (members.map fun member => (some member.1, member.2), rest)) :
    readValue depth (budget + 1) ('\x7b' :: '"' :: cs) =
      some (limited depth (obj members), rest) := by
  rw [readValue_members_eq, h]
  simp only [Option.map_some, ofMembers_some]

section Steps

variable {depth budget : Nat} {cs rest : List Char} {d : Document}

theorem readItems_last (h : readValue depth budget cs = some (d, ']' :: rest)) :
    readItems depth (budget + 1) cs = some ([d], rest) := by
  rw [readItems, h]
  rfl

theorem readItems_more {items : List Document} {more : List Char}
    (h : readValue depth budget cs = some (d, ',' :: more))
    (hmore : readItems depth budget more = some (items, rest)) :
    readItems depth (budget + 1) cs = some (d :: items, rest) := by
  rw [readItems, h]
  show (readItems depth budget more).map _ = _
  rw [hmore]
  rfl

theorem readMembers_last {key : String}
    (h : readValue depth budget cs = some (d, '\x7d' :: rest)) :
    readMembers depth (budget + 1) ((quote key).toList ++ ':' :: cs) =
      some ([(some key, d)], rest) := by
  rw [toList_quote, List.cons_append, List.append_assoc, readMembers,
    skipGaps_cons (by decide)]
  simp only [List.cons_append, List.nil_append, readString_escaped,
    skipGaps_cons (show isGap ':' = false by decide), h]
  rfl

theorem readMembers_next {key : String} {more : List Char}
    (h : readValue depth budget cs = some (d, ',' :: more)) :
    readMembers depth (budget + 1) ((quote key).toList ++ ':' :: cs) =
      (readMembers depth budget more).map fun (members, rest) =>
        ((some key, d) :: members, rest) := by
  rw [toList_quote, List.cons_append, List.append_assoc, readMembers,
    skipGaps_cons (by decide)]
  simp only [List.cons_append, List.nil_append, readString_escaped,
    skipGaps_cons (show isGap ':' = false by decide), h]
  rfl

theorem readMembers_more {key : String} {members : List (Option String × Document)}
    {more : List Char} (h : readValue depth budget cs = some (d, ',' :: more))
    (hmore : readMembers depth budget more = some (members, rest)) :
    readMembers depth (budget + 1) ((quote key).toList ++ ':' :: cs) =
      some ((some key, d) :: members, rest) := by
  rw [readMembers_next h, hmore]
  rfl

end Steps

theorem readValue_str (depth budget : Nat) (s : String) (rest : List Char) :
    readValue depth (budget + 1) ((quote s).toList ++ rest) = some (str s, rest) := by
  rw [toList_quote, List.cons_append, List.append_assoc, readValue, skipGaps_cons (by decide)]
  show (readString (s.toList.flatMap escape ++ '"' :: rest)).map _ = _
  rw [readString_escaped]
  rfl

mutual

/-- What is read of a value that stands inside `depth` containers. -/
def within (depth : Nat) : Json → Document
  | .null => null
  | .bool b => bool b
  | .int n => int n
  | .float x => float x
  | .str s => str s
  | .arr items => limited depth (arr (itemsWithin (depth + 1) items))
  | .obj fields => limited depth (obj (fieldsWithin (depth + 1) fields))

def itemsWithin (depth : Nat) : List Json → List Document
  | [] => []
  | item :: rest => within depth item :: itemsWithin depth rest

def fieldsWithin (depth : Nat) : List (String × Json) → List (String × Document)
  | [] => []
  | (key, value) :: rest => (key, within depth value) :: fieldsWithin depth rest

end

/-- The text of the value is read as what its place leaves of it. -/
def Reads (j : Json) : Prop :=
  ∀ (depth budget : Nat) (rest : List Char), 2 * j.compact.toList.length ≤ budget → Stops rest →
    readValue depth budget (j.compact.toList ++ rest) = some (within depth j, rest)

/-- The text of the items is read up to the closing bracket. -/
def ItemsRead (items : List Json) : Prop :=
  ∀ (depth budget : Nat) (rest : List Char), 2 * (itemsText items).length + 1 ≤ budget →
    readItems depth budget (itemsText items ++ ']' :: rest) = some (itemsWithin depth items, rest)

def MembersRead (fields : List (String × Json)) : Prop :=
  ∀ (depth budget : Nat) (rest : List Char), 2 * (fieldsText fields).length + 1 ≤ budget →
    readMembers depth budget (fieldsText fields ++ '\x7d' :: rest) =
      some ((fieldsWithin depth fields).map fun member => (some member.1, member.2), rest)

/-- Every reader needs a budget, and gets one that is spent by one for each part. -/
theorem exists_budget {needed budget : Nat} (h : needed ≤ budget) (hpos : 0 < needed) :
    ∃ n, budget = n + 1 := ⟨budget - 1, by omega⟩

theorem reads_number {j : Json}
    (h : ∀ depth, readNumber j.compact.toList = some (within depth j, [])) : Reads j := by
  intro depth budget rest hbudget hrest
  obtain ⟨c, cs, heq, -⟩ := readNumber_head (h depth)
  obtain ⟨budget, rfl⟩ := exists_budget hbudget (by simp [heq])
  exact readValue_number (readNumber_extends hrest (h depth))

theorem reads_int {n : Int} (h : (Json.int n).IsLegible) : Reads (.int n) := by
  refine reads_number fun depth => ?_
  rw [IsLegible] at h
  rw [compact, within]
  exact readNumber_toString h.1 h.2

theorem reads_float {x : Float} (h : (Json.float x).IsLegible) : Reads (.float x) := by
  refine reads_number fun depth => ?_
  rw [IsLegible] at h
  rw [compact, within]
  exact h

theorem reads_str (s : String) : Reads (.str s) := by
  intro depth budget rest hbudget _
  rw [compact, toList_quote, List.length_cons] at hbudget
  obtain ⟨budget, rfl⟩ := exists_budget hbudget (by omega)
  rw [compact, within]
  exact readValue_str depth budget s rest

theorem reads_arr {items : List Json} (hitems : AreLegible items)
    (h : items ≠ [] → ItemsRead items) : Reads (.arr items) := by
  intro depth budget rest hbudget _
  rw [toList_compact_arr, List.length_cons, List.length_append, List.length_singleton] at hbudget
  rw [toList_compact_arr, List.cons_append, List.append_assoc]
  obtain ⟨budget, rfl⟩ := exists_budget hbudget (by omega)
  rcases items with _ | ⟨item, items⟩
  · rfl
  · have read := h (by simp) (depth + 1) budget rest (by omega)
    obtain ⟨c, cs, heq, hgap, hend⟩ := head_itemsText hitems.1 items
    rw [heq] at read ⊢
    exact readValue_items hgap hend read

theorem reads_obj {fields : List (String × Json)} (h : fields ≠ [] → MembersRead fields) :
    Reads (.obj fields) := by
  intro depth budget rest hbudget _
  rw [toList_compact_obj, List.length_cons, List.length_append, List.length_singleton] at hbudget
  rw [toList_compact_obj, List.cons_append, List.append_assoc]
  obtain ⟨budget, rfl⟩ := exists_budget hbudget (by omega)
  rcases fields with _ | ⟨field, fields⟩
  · rfl
  · have read := h (by simp) (depth + 1) budget rest (by omega)
    obtain ⟨cs, heq⟩ := head_fieldsText field fields
    rw [heq] at read ⊢
    exact readValue_members read

theorem itemsRead_cons {item : Json} {items : List Json} (hitem : Reads item)
    (h : items ≠ [] → ItemsRead items) : ItemsRead (item :: items) := by
  intro depth budget rest hbudget
  obtain ⟨budget, rfl⟩ := exists_budget hbudget (by omega)
  rcases items with _ | ⟨next, items⟩
  · rw [itemsText_singleton] at hbudget ⊢
    exact readItems_last (hitem _ _ _ (by omega) (stops_cons (.inr (.inl rfl)) rest))
  · rw [itemsText_cons_cons, List.length_append, List.length_cons] at hbudget
    rw [itemsText_cons_cons, List.append_assoc]
    exact readItems_more (hitem _ _ _ (by omega) (stops_cons (.inl rfl) _))
      (h (by simp) _ _ _ (by omega))

theorem membersRead_cons {key : String} {value : Json} {fields : List (String × Json)}
    (hvalue : Reads value) (h : fields ≠ [] → MembersRead fields) :
    MembersRead ((key, value) :: fields) := by
  intro depth budget rest hbudget
  obtain ⟨budget, rfl⟩ := exists_budget hbudget (by omega)
  rw [fieldsWithin, List.map_cons]
  rcases fields with _ | ⟨next, fields⟩
  · rw [fieldsText_singleton, List.length_append, List.length_cons] at hbudget
    rw [fieldsText_singleton, List.append_assoc, List.cons_append]
    exact readMembers_last (hvalue _ _ _ (by omega) (stops_cons (.inr (.inr rfl)) rest))
  · rw [fieldsText_cons_cons, List.length_append, List.length_cons, List.length_append,
      List.length_cons] at hbudget
    rw [fieldsText_cons_cons, List.append_assoc, List.cons_append, List.append_assoc]
    exact readMembers_more (hvalue _ _ _ (by omega) (stops_cons (.inl rfl) _))
      (h (by simp) _ _ _ (by omega))

mutual

theorem reads_within : ∀ j : Json, j.IsLegible → Reads j
  | .null, _ | .bool true, _ | .bool false, _ => fun _ _ _ hbudget _ => by
    obtain ⟨budget, rfl⟩ := exists_budget hbudget (by decide)
    rfl
  | .int _, h => reads_int h
  | .float _, h => reads_float h
  | .str s, _ => reads_str s
  | .arr items, h => reads_arr h fun hne => itemsRead items hne h
  | .obj fields, h => reads_obj fun hne => membersRead fields hne h

theorem itemsRead : ∀ items : List Json, items ≠ [] → AreLegible items → ItemsRead items
  | [], hne, _ => absurd rfl hne
  | item :: rest, _, h =>
    itemsRead_cons (reads_within item h.1) fun hne => itemsRead rest hne h.2

theorem membersRead : ∀ fields : List (String × Json), fields ≠ [] → HaveLegible fields →
    MembersRead fields
  | [], hne, _ => absurd rfl hne
  | (_, value) :: rest, _, h =>
    membersRead_cons (reads_within value h.1) fun hne => membersRead rest hne h.2

end

/-- The text of a value is read, and what is nested beyond the limit is lost. -/
theorem read_compact_within {j : Json} (hj : j.IsLegible) :
    read j.compact = some (within 0 j) := by
  have found := reads_within j hj 0 _ [] (Nat.le_add_right _ 2) stops_nil
  rw [List.append_nil] at found
  rw [read]
  simp only [found]
  rfl

/-! ### The limit -/

mutual

/-- Within the limit nothing is lost. -/
theorem within_of_le : ∀ {depth : Nat} (j : Json), depth + j.nesting ≤ depthLimit →
    within depth j = ofJson j
  | _, .null, _ | _, .bool _, _ | _, .int _, _ | _, .float _, _ | _, .str _, _ => rfl
  | depth, .arr items, h => by
    rw [nesting] at h
    rw [within, limited_of_lt (by omega), itemsWithin_of_le items (by omega), ofJson]
  | depth, .obj fields, h => by
    rw [nesting] at h
    rw [within, limited_of_lt (by omega), fieldsWithin_of_le fields (by omega), ofJson]

theorem itemsWithin_of_le : ∀ {depth : Nat} (items : List Json),
    depth + nestingOfItems items ≤ depthLimit → itemsWithin depth items = ofItems items
  | _, [], _ => rfl
  | depth, item :: rest, h => by
    rw [nestingOfItems] at h
    rw [itemsWithin, within_of_le item (by omega), itemsWithin_of_le rest (by omega), ofItems]

theorem fieldsWithin_of_le : ∀ {depth : Nat} (fields : List (String × Json)),
    depth + nestingOfFields fields ≤ depthLimit → fieldsWithin depth fields = ofFields fields
  | _, [], _ => rfl
  | depth, (key, value) :: rest, h => by
    rw [nestingOfFields] at h
    rw [fieldsWithin, within_of_le value (by omega), fieldsWithin_of_le rest (by omega), ofFields]

end

mutual

/-- Beyond the limit a value does not come back. -/
theorem toJson?_within_of_lt : ∀ {depth : Nat} (j : Json), depth ≤ depthLimit →
    depthLimit < depth + j.nesting → (within depth j).toJson? = none
  | _, .null, hdepth, h | _, .bool _, hdepth, h | _, .int _, hdepth, h | _, .float _, hdepth, h
  | _, .str _, hdepth, h => absurd h (Nat.not_lt.mpr hdepth)
  | depth, .arr items, _, h => by
    rw [nesting] at h
    rw [within]
    -- It is an item that goes too deep, or the array is too deep itself.
    by_cases hdepth : depth < depthLimit
    · rw [limited_of_lt hdepth, toJson?, itemsToJson?_within_of_lt items hdepth (by omega)]
      rfl
    · rw [limited, if_neg hdepth]
      rfl
  | depth, .obj fields, _, h => by
    rw [nesting] at h
    rw [within]
    by_cases hdepth : depth < depthLimit
    · rw [limited_of_lt hdepth, toJson?, fieldsToJson?_within_of_lt fields hdepth (by omega)]
      rfl
    · rw [limited, if_neg hdepth]
      rfl

theorem itemsToJson?_within_of_lt : ∀ {depth : Nat} (items : List Json), depth ≤ depthLimit →
    depthLimit < depth + nestingOfItems items → itemsToJson? (itemsWithin depth items) = none
  | _, [], hdepth, h => absurd h (Nat.not_lt.mpr hdepth)
  | depth, item :: rest, hdepth, h => by
    rw [nestingOfItems] at h
    rw [itemsWithin, itemsToJson?]
    by_cases hitem : depthLimit < depth + item.nesting
    · rw [toJson?_within_of_lt item hdepth hitem]
    · rw [itemsToJson?_within_of_lt rest hdepth (by omega)]
      cases (within depth item).toJson? <;> rfl

theorem fieldsToJson?_within_of_lt : ∀ {depth : Nat} (fields : List (String × Json)),
    depth ≤ depthLimit → depthLimit < depth + nestingOfFields fields →
      fieldsToJson? (fieldsWithin depth fields) = none
  | _, [], hdepth, h => absurd h (Nat.not_lt.mpr hdepth)
  | depth, (key, value) :: rest, hdepth, h => by
    rw [nestingOfFields] at h
    rw [fieldsWithin, fieldsToJson?]
    by_cases hvalue : depthLimit < depth + value.nesting
    · rw [toJson?_within_of_lt value hdepth hvalue]
    · rw [fieldsToJson?_within_of_lt rest hdepth (by omega)]
      cases (within depth value).toJson? <;> rfl

end

/-- The text of a value that is not nested too deeply is read as the document of the value. -/
theorem read_compact {j : Json} (hj : j.IsLegible) (hdepth : j.nesting ≤ depthLimit) :
    read j.compact = some (ofJson j) := by
  rw [read_compact_within hj, within_of_le j (by omega)]

/-! ### What a document means -/

mutual

/-- A value written as a document means the same value, if it lists its members in order. -/
theorem toJson?_ofJson : ∀ (j : Json), j.IsCanonical → (ofJson j).toJson? = some j
  | .null, _ | .bool _, _ | .int _, _ | .float _, _ | .str _, _ => rfl
  | .arr items, h => by rw [ofJson, toJson?, itemsToJson?_ofItems items h]; rfl
  | .obj fields, h => by rw [ofJson, toJson?, fieldsToJson?_ofFields fields h.1 h.2]; rfl

theorem itemsToJson?_ofItems : ∀ (items : List Json), AreCanonical items →
    itemsToJson? (ofItems items) = some items
  | [], _ => rfl
  | item :: rest, h => by
    rw [ofItems, itemsToJson?, toJson?_ofJson item h.1, itemsToJson?_ofItems rest h.2]

theorem fieldsToJson?_ofFields : ∀ (fields : List (String × Json)), Entries.Sorted fields →
    HaveCanonical fields → fieldsToJson? (ofFields fields) = some fields
  | [], _, _ => rfl
  | (key, value) :: rest, hsorted, h => by
    obtain ⟨hbefore, hrest⟩ := List.pairwise_cons.mp hsorted
    rw [ofFields, fieldsToJson?, toJson?_ofJson value h.1,
      fieldsToJson?_ofFields rest hrest h.2]
    -- The key comes before the others, so it is put in front of them.
    have new : Entries.get? key rest = none := by
      refine Entries.get?_eq_none_iff.mpr fun hkey => ?_
      obtain ⟨entry, hentry, rfl⟩ := List.mem_map.mp hkey
      exact String.lt_irrefl _ (hbefore entry hentry)
    have first := Entries.insert_front hbefore value
    simp only [new, first]
    rfl

end

mutual

theorem isReadable_ofJson : ∀ j : Json, (ofJson j).isReadable = true
  | .null | .bool _ | .int _ | .float _ | .str _ => rfl
  | .arr items => by
    obtain ⟨values, h⟩ := itemsToJson?_isSome items
    rw [isReadable, ofJson, toJson?, h]
    rfl
  | .obj fields => by
    obtain ⟨values, h⟩ := fieldsToJson?_isSome fields
    rw [isReadable, ofJson, toJson?, h]
    rfl

theorem itemsToJson?_isSome : ∀ items : List Json, ∃ values, itemsToJson? (ofItems items) = some values
  | [] => ⟨[], rfl⟩
  | item :: rest => by
    obtain ⟨value, hvalue⟩ := Option.isSome_iff_exists.mp (isReadable_ofJson item)
    obtain ⟨values, hvalues⟩ := itemsToJson?_isSome rest
    exact ⟨value :: values, by rw [ofItems, itemsToJson?, hvalue, hvalues]⟩

theorem fieldsToJson?_isSome :
    ∀ fields : List (String × Json), ∃ values, fieldsToJson? (ofFields fields) = some values
  | [] => ⟨[], rfl⟩
  | (key, item) :: rest => by
    obtain ⟨value, hvalue⟩ := Option.isSome_iff_exists.mp (isReadable_ofJson item)
    obtain ⟨values, hvalues⟩ := fieldsToJson?_isSome rest
    rw [ofFields, fieldsToJson?, hvalue, hvalues]
    dsimp only
    split
    · exact ⟨_, rfl⟩
    · exact ⟨_, rfl⟩

end

mutual

/-- Members are put in order when a document is read as a value. -/
theorem isCanonical_of_toJson? : ∀ {d : Document} {j : Json}, d.toJson? = some j → j.IsCanonical
  | null, _, h | bool _, _, h | int _, _, h | float _, _, h | str _, _, h => by
    obtain rfl := Option.some.inj h
    trivial
  | arr items, _, h => by
    rw [toJson?] at h
    obtain ⟨values, hvalues, rfl⟩ := Option.map_eq_some_iff.mp h
    exact areCanonical_of_itemsToJson? hvalues
  | obj fields, _, h => by
    rw [toJson?] at h
    obtain ⟨members, hmembers, rfl⟩ := Option.map_eq_some_iff.mp h
    exact haveCanonical_of_fieldsToJson? hmembers

theorem areCanonical_of_itemsToJson? : ∀ {items : List Document} {values : List Json},
    itemsToJson? items = some values → Json.AreCanonical values
  | [], _, h => by
    obtain rfl := Option.some.inj h
    trivial
  | item :: rest, _, h => by
    rw [itemsToJson?] at h
    split at h
    · rename_i value values hvalue hvalues
      obtain rfl := Option.some.inj h
      exact ⟨isCanonical_of_toJson? hvalue, areCanonical_of_itemsToJson? hvalues⟩
    · exact absurd h nofun

theorem haveCanonical_of_fieldsToJson? :
    ∀ {fields : List (String × Document)} {members : List (String × Json)},
      fieldsToJson? fields = some members → Entries.Sorted members ∧ Json.HaveCanonical members
  | [], _, h => by
    obtain rfl := Option.some.inj h
    exact ⟨.nil, trivial⟩
  | (key, item) :: rest, _, h => by
    rw [fieldsToJson?] at h
    split at h
    · rename_i value members hvalue hmembers
      obtain ⟨hsorted, hcanonical⟩ := haveCanonical_of_fieldsToJson? hmembers
      split at h
      · obtain rfl := Option.some.inj h
        exact ⟨hsorted, hcanonical⟩
      · obtain rfl := Option.some.inj h
        refine ⟨Entries.sorted_insert _ _ hsorted, Json.haveCanonical_iff.mpr fun field hfield => ?_⟩
        rcases Entries.mem_insert hfield with rfl | hfield
        · exact isCanonical_of_toJson? hvalue
        · exact Json.haveCanonical_iff.mp hcanonical field hfield
    · exact absurd h nofun

end

end Document

end Parley
