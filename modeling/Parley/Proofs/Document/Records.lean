/-
Records that are written out read back.

A value is handed over as the document that writes it out, and a typed reader takes from it
what it needs.

* `Document.list?_ofJson`, `Document.dict?_ofJson` — lists and tables come back if their items
  do;
* `Document.object?_obj`, `Document.strictObject?_obj`, `Document.record?_obj` — a record that
  names each member once is found with every member that is asked for;
* `Document.Holds.required`, `Document.Holds.optional`, `Document.Holds.nullable` — so a field
  comes back if what it holds does;
* `Fields.exists_of_required`, `Fields.exists_of_optionalList`, … — and what was read anywhere
  was read by the reader for it.
-/
import Parley.Document.Decode
import Parley.Proofs.Dict
import Parley.Proofs.Document.Printed

namespace Parley

namespace Document

variable {α β : Type}

theorem get?_ofFields (name : String) (fields : List (String × Json)) :
    Entries.get? name (ofFields fields) = (Entries.get? name fields).map ofJson := by
  induction fields with
  | nil => rfl
  | cons field rest ih =>
    obtain ⟨key, value⟩ := field
    rw [ofFields, Entries.get?_cons, Entries.get?_cons, ih]
    split <;> rfl

theorem ofItems_eq (items : List Json) : ofItems items = items.map ofJson := by
  induction items with
  | nil => rfl
  | cons item rest ih => rw [ofItems, ih, List.map_cons]

theorem ofFields_eq (fields : List (String × Json)) :
    ofFields fields = fields.map fun field => (field.1, ofJson field.2) := by
  induction fields with
  | nil => rfl
  | cons field rest ih =>
    obtain ⟨key, value⟩ := field
    rw [ofFields, ih, List.map_cons]

theorem get?_fieldsWithin (depth : Nat) (name : String) (fields : List (String × Json)) :
    Entries.get? name (fieldsWithin depth fields) =
      (Entries.get? name fields).map (within depth) := by
  induction fields with
  | nil => rfl
  | cons field rest ih =>
    obtain ⟨key, value⟩ := field
    rw [fieldsWithin, Entries.get?_cons, Entries.get?_cons, ih]
    split <;> rfl

theorem fieldsWithin_eq (depth : Nat) (fields : List (String × Json)) :
    fieldsWithin depth fields = fields.map fun field => (field.1, within depth field.2) := by
  induction fields with
  | nil => rfl
  | cons field rest ih =>
    obtain ⟨key, value⟩ := field
    rw [fieldsWithin, ih, List.map_cons]

theorem keys_ofFields (fields : List (String × Json)) :
    (ofFields fields).map Prod.fst = fields.map Prod.fst := by
  rw [ofFields_eq, List.map_map]
  rfl

/-! ### Lists and tables -/

theorem collect_map {f : β → Option α} {g : α → β} {items : List α}
    (h : ∀ a ∈ items, f (g a) = some a) : collect f (items.map g) = some items := by
  induction items with
  | nil => rfl
  | cons a rest ih =>
    rw [List.map_cons, collect, h a List.mem_cons_self,
      ih fun a' ha' => h a' (List.mem_cons_of_mem a ha')]

theorem collect_eq_none {f : α → Option β} {items : List α} {a : α} (ha : a ∈ items)
    (h : f a = none) : collect f items = none := by
  induction items with
  | nil => exact absurd ha List.not_mem_nil
  | cons first rest ih =>
    rw [collect]
    rcases List.mem_cons.mp ha with rfl | hrest
    · rw [h]
    · rw [ih hrest]
      cases f first <;> rfl

theorem exists_of_collect {f : α → Option β} {items : List α} {results : List β}
    (h : collect f items = some results) : ∀ b ∈ results, ∃ a ∈ items, f a = some b := by
  induction items generalizing results with
  | nil =>
    obtain rfl := Option.some.inj h
    exact fun b hb => absurd hb List.not_mem_nil
  | cons a rest ih =>
    rw [collect] at h
    split at h
    · rename_i b bs hb hbs
      obtain rfl := Option.some.inj h
      intro b' hb'
      rcases List.mem_cons.mp hb' with rfl | hb'
      · exact ⟨a, List.mem_cons_self, hb⟩
      · obtain ⟨a', ha', heq⟩ := ih hbs b' hb'
        exact ⟨a', List.mem_cons_of_mem a ha', heq⟩
    · exact absurd h nofun

variable {decode : Document → Option α} {encode : α → Json}

theorem list?_ofJson {items : List α} (h : ∀ a ∈ items, decode (ofJson (encode a)) = some a) :
    list? decode (ofJson (.arr (items.map encode))) = some items := by
  rw [ofJson, list?, ofItems_eq, List.map_map]
  exact collect_map h

theorem strings?_ofStrings (items : List String) :
    strings? (ofJson (.ofStrings items)) = some items :=
  list?_ofJson fun _ _ => rfl

theorem exists_of_list? {d : Document} {items : List α} (h : list? decode d = some items) :
    ∀ a ∈ items, ∃ d', decode d' = some a := by
  cases d with
  | arr ds =>
    intro a ha
    obtain ⟨d', -, hd'⟩ := exists_of_collect h a ha
    exact ⟨d', hd'⟩
  | _ => exact absurd h nofun

theorem dict?_ofJson {table : Dict α}
    (h : ∀ a ∈ table.values, decode (ofJson (encode a)) = some a) :
    dict? decode (ofJson (.ofDict encode table)) = some table := by
  rw [Json.ofDict, ofJson, dict?, ofFields_eq, List.map_map, collect_map, Option.map_some,
    Dict.ofList_entries]
  intro entry hentry
  show (decode (ofJson (encode entry.2))).map _ = _
  rw [h entry.2 (List.mem_map_of_mem hentry)]
  rfl

/-- One value that is nested beyond the limit keeps a table from being read. -/
theorem dict?_within_of_lt {depth : Nat} {fields : List (String × Json)}
    (hdepth : depth + 1 ≤ depthLimit) (h : depthLimit < depth + 1 + Json.nestingOfFields fields) :
    dict? toJson? (within depth (.obj fields)) = none := by
  have deep : depthLimit - (depth + 1) < Json.nestingOfFields fields := by omega
  obtain ⟨⟨key, value⟩, hfield, hnesting⟩ := Json.exists_of_lt_nestingOfFields deep
  have lost : (within (depth + 1) value).toJson? = none :=
    toJson?_within_of_lt value hdepth (Nat.sub_lt_iff_lt_add' hdepth |>.mp hnesting)
  have read : (key, within (depth + 1) value) ∈ fieldsWithin (depth + 1) fields := by
    rw [fieldsWithin_eq]
    exact List.mem_map_of_mem hfield
  rw [within, limited_of_lt hdepth, dict?, collect_eq_none read, Option.map_none]
  show (toJson? _).map _ = none
  rw [lost, Option.map_none]

theorem exists_of_dict? {d : Document} {table : Dict α} (h : dict? decode d = some table) :
    ∀ a ∈ table.values, ∃ d', decode d' = some a := by
  cases d with
  | obj fields =>
    obtain ⟨entries, hentries, rfl⟩ := Option.map_eq_some_iff.mp h
    intro a ha
    obtain ⟨entry, hentry, rfl⟩ := List.mem_map.mp ha
    obtain ⟨⟨key, d'⟩, -, hd'⟩ := exists_of_collect hentries entry (Entries.mem_ofList hentry)
    obtain ⟨a, hread, rfl⟩ := Option.map_eq_some_iff.mp hd'
    exact ⟨d', hread⟩
  | _ => exact absurd h nofun

theorem nullable?_eq {d : Document} {a : α} (h : decode d = some a) (hnull : d ≠ null) :
    nullable? decode d = some (some a) := by
  cases d with
  | null => exact absurd rfl hnull
  | _ => rw [nullable?, h, Option.map_some]; exact nofun

theorem exists_of_nullable? {d : Document} {o : Option α} (h : nullable? decode d = some o) :
    ∀ a ∈ o, ∃ d', decode d' = some a := by
  rintro a rfl
  cases d with
  | null => exact absurd h (by simp [nullable?])
  | _ =>
    obtain ⟨a, ha, heq⟩ := Option.map_eq_some_iff.mp h
    obtain rfl := Option.some.inj heq
    exact ⟨_, ha⟩

theorem nullable?_ofFloat {x : Float} (h : x.isFinite = true) :
    nullable? number? (ofJson (.ofFloat x)) = some (some x) := by
  rw [Json.ofFloat, if_pos h, ofJson]
  refine nullable?_eq ?_ (by simp)
  rw [number?, Option.filter_some, if_pos h]

theorem isFinite_of_number? {d : Document} {x : Float} (h : number? d = some x) :
    x.isFinite = true :=
  (Option.filter_eq_some_iff.mp h).2

theorem natural?_ofNat {bound n : Nat} (h : n ≤ bound) :
    natural? bound (ofJson (.int n)) = some n := by
  rw [ofJson, natural?, if_pos (by omega)]
  rfl

theorem le_of_natural? {bound n : Nat} {d : Document} (h : natural? bound d = some n) :
    n ≤ bound := by
  cases d with
  | int k =>
    obtain ⟨hk, heq⟩ := Option.ite_none_right_eq_some.mp h
    obtain rfl := Option.some.inj heq
    omega
  | _ => exact absurd h nofun

/-! ### Records -/

theorem get?_filter {names : List String} {name : String} (h : name ∈ names)
    (members : List (String × Document)) :
    Entries.get? name (members.filter fun member => names.contains member.1) =
      Entries.get? name members := by
  induction members with
  | nil => rfl
  | cons member rest ih =>
    obtain ⟨key, d⟩ := member
    cases hkey : names.contains key with
    | true => rw [List.filter_cons, if_pos hkey, Entries.get?_cons, Entries.get?_cons, ih]
    | false =>
      have hne : key ≠ name := by
        rintro rfl
        exact Bool.false_ne_true (hkey.symm.trans (List.contains_iff_mem.mpr h))
      rw [List.filter_cons, if_neg (Bool.not_eq_true _ ▸ hkey), ih, Entries.get?_cons, if_neg hne]

/-- What is written under the names can be looked up. -/
def Holds (names : List String) (members : List (String × Json)) (fields : Fields) : Prop :=
  ∀ name ∈ names, fields.get? name = (Entries.get? name members).map ofJson

variable {names : List String} {members : List (String × Json)}

theorem ofMembers?_ofFields (names : List String) (h : (members.map Prod.fst).Nodup) :
    ∃ fields, Fields.ofMembers? names (ofFields members) = some fields ∧
      Holds names members fields := by
  have known : (((ofFields members).filter fun member => names.contains member.1).map
      Prod.fst).Nodup :=
    (keys_ofFields members ▸ h).sublist (List.filter_sublist.map Prod.fst)
  refine ⟨_, if_pos known, fun name hname => ?_⟩
  rw [Fields.get?, get?_filter hname, get?_ofFields]

theorem object?_obj (names : List String) (h : (members.map Prod.fst).Nodup) :
    ∃ fields, object? names (ofJson (.obj members)) = some fields ∧
      Holds names members fields := by
  rw [ofJson]
  exact ofMembers?_ofFields names h

theorem strictObject?_obj (names : List String) (h : (members.map Prod.fst).Nodup) :
    ∃ fields, strictObject? names (ofJson (.obj members)) = some fields ∧
      Holds names members fields := by
  have readable : (ofFields members).all (·.2.isReadable) = true := by
    rw [ofFields_eq, List.all_map, List.all_eq_true]
    exact fun member _ => isReadable_ofJson member.2
  rw [ofJson, strictObject?, if_pos readable]
  exact ofMembers?_ofFields names h

theorem record?_obj (names : List String) (h : (members.map Prod.fst).Nodup) :
    ∃ fields, record? names (ofJson (.obj members)) = some fields ∧
      Holds names members fields := by
  have asObject : record? names (ofJson (.obj members)) =
      object? names (ofJson (.obj members)) := by rw [ofJson, record?]; exact nofun
  rw [asObject]
  exact object?_obj names h

end Document

namespace Fields

open Document

variable {α : Type} {fields : Fields} {name : String} {default a : α} {o : Option α}
  {decode : Document → Option α}

theorem exists_of_required (h : fields.required name decode = some a) : ∃ d, decode d = some a := by
  obtain ⟨d, -, hd⟩ := Option.bind_eq_some_iff.mp h
  exact ⟨d, hd⟩

theorem exists_of_optional (h : fields.optional name default decode = some a) :
    a = default ∨ ∃ d, decode d = some a := by
  rw [optional] at h
  split at h
  · exact .inr ⟨_, h⟩
  · exact .inl (Option.some.inj h).symm

theorem exists_of_nullable (h : fields.nullable name decode = some o) :
    ∀ a ∈ o, ∃ d, decode d = some a := by
  rcases exists_of_optional h with rfl | ⟨d, hd⟩
  · exact fun a ha => absurd ha nofun
  · exact exists_of_nullable? hd

/-- A list that may be left out consists of what was read. -/
theorem exists_of_optionalList {items : List α}
    (h : fields.optional name [] (list? decode) = some items) :
    ∀ a ∈ items, ∃ d, decode d = some a := by
  rcases exists_of_optional h with rfl | ⟨d, hd⟩
  · exact fun a ha => absurd ha List.not_mem_nil
  · exact exists_of_list? hd

theorem exists_of_optionalDict {table : Dict α}
    (h : fields.optional name ∅ (dict? decode) = some table) :
    ∀ a ∈ table.values, ∃ d, decode d = some a := by
  rcases exists_of_optional h with rfl | ⟨d, hd⟩
  · exact fun a ha => absurd ha List.not_mem_nil
  · exact exists_of_dict? hd

end Fields

namespace Document.Holds

variable {α : Type} {names : List String} {members : List (String × Json)} {fields : Fields}
  {name : String} {v : Json} {default a : α} {decode : Document → Option α} {g : α → Json}

theorem required (h : Holds names members fields) (hname : name ∈ names)
    (hget : Entries.get? name members = some v) (hdecode : decode (ofJson v) = some a) :
    fields.required name decode = some a := by
  rw [Fields.required, h name hname, hget, Option.map_some, Option.bind_some, hdecode]

theorem optional (h : Holds names members fields) (hname : name ∈ names)
    (hget : Entries.get? name members = some v) (hdecode : decode (ofJson v) = some a) :
    fields.optional name default decode = some a := by
  rw [Fields.optional, h name hname, hget, Option.map_some]
  exact hdecode

theorem optional_absent (h : Holds names members fields) (hname : name ∈ names)
    (hget : Entries.get? name members = none) :
    fields.optional name default decode = some default := by
  rw [Fields.optional, h name hname, hget, Option.map_none]

/-- A field that is written only if there is something to write. -/
theorem nullable {o : Option α} (h : Holds names members fields) (hname : name ∈ names)
    (hget : Entries.get? name members = o.map g)
    (hdecode : ∀ a ∈ o, nullable? decode (ofJson (g a)) = some (some a)) :
    fields.nullable name decode = some o := by
  cases o with
  | none => exact h.optional_absent hname hget
  | some a => exact h.optional hname hget (hdecode a rfl)

end Document.Holds
end Parley
