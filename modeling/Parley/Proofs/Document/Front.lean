/-
Objects of which only the first members are known.

A record is read member by member, so what stands in front is read as it was written whatever
follows it, if the record is read at all:

* `Document.readMembers_front` — the first members are read, and then the others;
* `Document.read_front` — so what is read of the whole text begins with them;
* `Document.get?_of_read_front` — and a field that is asked for holds what was written there.
-/
import Parley.Proofs.Document.Records

namespace Parley.Document

open Json

variable {front back : List (String × Json)}

/-- The members in front take what they need of the budget. -/
theorem readMembers_front (hback : back ≠ []) :
    ∀ {front : List (String × Json)} (depth budget : Nat) (rest : List Char),
      HaveLegible front → depth + nestingOfFields front ≤ depthLimit →
      2 * (fieldsText (front ++ back)).length + 1 ≤ budget →
      ∃ budget', readMembers depth budget (fieldsText (front ++ back) ++ rest) =
        (readMembers depth budget' (fieldsText back ++ rest)).map fun (members, rest) =>
          ((ofFields front).map (fun member => (some member.1, member.2)) ++ members, rest)
  | [], _, budget, _, _, _, _ => ⟨budget, by simp [ofFields]⟩
  | (key, value) :: front, depth, budget, rest, hlegible, hdepth, hbudget => by
    obtain ⟨budget, rfl⟩ := exists_budget hbudget (by omega)
    rw [nestingOfFields] at hdepth
    obtain ⟨next, others, hnext⟩ : ∃ next others, front ++ back = next :: others :=
      List.exists_cons_of_ne_nil (by simp [hback])
    rw [List.cons_append, hnext, fieldsText_cons_cons, List.length_append, List.length_cons,
      List.length_append, List.length_cons] at hbudget
    obtain ⟨budget', hrest⟩ := readMembers_front hback depth budget rest
      hlegible.2 (by omega) (by rw [hnext]; omega)
    have first := reads_within value hlegible.1 depth budget
      (',' :: (fieldsText (next :: others) ++ rest)) (by omega) (stops_cons (.inl rfl) _)
    rw [within_of_le value (by omega)] at first
    rw [hnext] at hrest
    refine ⟨budget', ?_⟩
    rw [List.cons_append, hnext, fieldsText_cons_cons, List.append_assoc, List.cons_append,
      List.append_assoc, List.cons_append, readMembers_next first, hrest, Option.map_map]
    rfl

/-- An object has the members in front, unless a key of the others spoils it. -/
theorem ofMembers_front (known : List (String × Document))
    (members : List (Option String × Document)) :
    ofMembers (known.map (fun member => (some member.1, member.2)) ++ members) = unreadable ∨
      ∃ more, ofMembers (known.map (fun member => (some member.1, member.2)) ++ members) =
        obj (known ++ more) := by
  rw [ofMembers]
  split
  · refine .inr ⟨members.filterMap fun member => member.1.map (·, member.2), ?_⟩
    rw [List.filterMap_append, List.filterMap_map]
    congr 2
    exact (List.filterMap_congr fun member _ => rfl).trans List.filterMap_some
  · exact .inl rfl

/-- What is read of an object begins with the members in front. -/
theorem read_front {d : Document} (hback : back ≠ []) (hlegible : HaveLegible front)
    (hdepth : nestingOfFields front + 1 ≤ depthLimit)
    (h : read (Json.obj (front ++ back)).compact = some d) :
    d = unreadable ∨ ∃ more, d = obj (ofFields front ++ more) := by
  obtain ⟨first, others, hcons⟩ : ∃ first others, front ++ back = first :: others :=
    List.exists_cons_of_ne_nil (by simp [hback])
  obtain ⟨cs, hcs⟩ := head_fieldsText first others
  have text : (Json.obj (front ++ back)).compact.toList =
      '\x7b' :: (fieldsText (front ++ back) ++ ['\x7d']) := toList_compact_obj _
  have quoted : fieldsText (front ++ back) ++ ['\x7d'] = '"' :: (cs ++ ['\x7d']) := by
    rw [hcons, hcs, List.cons_append]
  obtain ⟨budget, hbudget⟩ : ∃ budget, 2 * (Json.obj (front ++ back)).compact.toList.length + 2 =
      budget + 1 := ⟨_, rfl⟩
  obtain ⟨budget', hmembers⟩ := readMembers_front hback 1 budget ['\x7d'] hlegible
    (by omega) (by
      rw [text, List.length_cons, List.length_append] at hbudget
      omega)
  have value := readValue_members_eq 0 budget (cs ++ ['\x7d'])
  simp only [limited_of_lt (show 0 < depthLimit by decide)] at value
  rw [← quoted, hmembers, Option.map_map] at value
  rw [read] at h
  simp only [hbudget] at h
  rw [text, value] at h
  cases hback : readMembers 1 budget' (fieldsText back ++ ['\x7d']) with
  | none => exact absurd h (by simp [hback])
  | some found =>
    obtain ⟨members, rest⟩ := found
    rw [hback] at h
    obtain ⟨-, heq⟩ := Option.ite_none_right_eq_some.mp h
    obtain rfl := Option.some.inj heq
    exact ofMembers_front (ofFields front) members

theorem get?_front {name : String} {known : List (String × Document)} {d : Document}
    (h : Entries.get? name known = some d) (more : List (String × Document)) :
    Entries.get? name (known ++ more) = some d := by
  induction known with
  | nil => exact absurd h (by simp)
  | cons entry rest ih =>
    obtain ⟨key, value⟩ := entry
    rw [Entries.get?_cons] at h
    rw [List.cons_append, Entries.get?_cons]
    split at h
    · rename_i hkey
      rw [if_pos hkey]
      exact h
    · rename_i hkey
      rw [if_neg hkey]
      exact ih h

/-- A field that is written in front is found, whatever is written after it. -/
theorem get?_of_read_front {d : Document} {names : List String} {fields : Fields} {name : String}
    {value : Json} (hback : back ≠ []) (hlegible : HaveLegible front)
    (hdepth : nestingOfFields front + 1 ≤ depthLimit)
    (hread : read (Json.obj (front ++ back)).compact = some d)
    (hfields : record? names d = some fields) (hname : name ∈ names)
    (hget : Entries.get? name front = some value) : fields.get? name = some (ofJson value) := by
  obtain rfl | ⟨more, rfl⟩ := read_front hback hlegible hdepth hread
  · exact absurd hfields (by simp [record?, object?])
  · obtain ⟨-, heq⟩ := Option.ite_none_right_eq_some.mp hfields
    obtain rfl := Option.some.inj heq
    have found : Entries.get? name (ofFields front) = some (ofJson value) := by
      rw [get?_ofFields, hget, Option.map_some]
    rw [Fields.get?, get?_filter hname]
    exact get?_front found more

end Parley.Document
