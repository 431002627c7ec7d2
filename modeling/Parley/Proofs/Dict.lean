/-
More laws of tables.

* `Dict.get?_insert_cases`, `Dict.get?_erase_cases`, `Dict.get?_modify_cases` — what
  is found after a change was written by it or was there before;
* `Dict.get?_filter` — a lookup among the bindings kept;
* `Dict.mem_values`, `Dict.forall_get?_iff` — the values are what lookups find;
* `Dict.forall_values_insert` — a property of all values is kept by those that have it;
* `Dict.find?_values` — the first value with a property has the least key;
* `Dict.head?_keys` — the first key is the least one;
* `Dict.values_filter`, `Dict.keys_filter` — lists of what is kept;
* `Dict.modify_self` — writing back what is there changes nothing;
* `Dict.ofList_entries`, `Entries.mem_ofList` — a table is made again from the list of its
  bindings, and has no others than those of the list it is made from;
* `foldl_written` — of steps that write or leave alone, the last that writes decides;
* `Dict.countP_values_insert_le`, `Dict.countP_values_modify` — how many values
  satisfy a predicate after a change.
-/
import Parley.Dict

namespace Parley

/-- Steps that write a value or leave what there is: the last that writes decides. -/
theorem foldl_written {σ β γ : Type} (step : σ → β → σ) (look : σ → γ) (writes : β → Prop)
    (value : β → γ) (bs : List β)
    (hwrites : ∀ s, ∀ b ∈ bs, writes b → look (step s b) = value b)
    (hleaves : ∀ s, ∀ b ∈ bs, ¬ writes b → look (step s b) = look s) (s : σ) :
    (∃ before b after, bs = before ++ b :: after ∧ writes b ∧ (∀ b' ∈ after, ¬ writes b') ∧
      look (bs.foldl step s) = value b) ∨
    (∀ b ∈ bs, ¬ writes b) ∧ look (bs.foldl step s) = look s := by
  induction bs generalizing s with
  | nil => exact .inr ⟨fun _ h => absurd h List.not_mem_nil, rfl⟩
  | cons b rest ih =>
    have later := ih (fun s b' hb' => hwrites s b' (List.mem_cons_of_mem b hb'))
      (fun s b' hb' => hleaves s b' (List.mem_cons_of_mem b hb')) (step s b)
    rcases later with ⟨before, b', after, rfl, hb', hafter, hvalue⟩ | ⟨hnone, hsame⟩
    · exact .inl ⟨b :: before, b', after, rfl, hb', hafter, hvalue⟩
    · by_cases hfirst : writes b
      · exact .inl ⟨[], b, rest, rfl, hfirst, hnone,
          hsame.trans (hwrites s b List.mem_cons_self hfirst)⟩
      · exact .inr ⟨List.forall_mem_cons.mpr ⟨hfirst, hnone⟩,
          hsame.trans (hleaves s b List.mem_cons_self hfirst)⟩

namespace Entries

variable {α : Type}

theorem countP_insert_le (q : α → Bool) (key : String) (value : α) (entries : Entries α) :
    (insert key value entries).countP (fun e => q e.2) ≤
      entries.countP (fun e => q e.2) + (q value).toNat := by
  induction entries with
  | nil => cases h : q value <;> simp [insert, h]
  | cons head rest ih =>
    obtain ⟨k, v⟩ := head
    simp only [insert]
    split
    · cases h : q value <;> simp [List.countP_cons, h]
    · split
      · cases h : q value <;> cases h' : q v <;> simp [h, h']
      · simp only [List.countP_cons]
        omega

theorem countP_modify (q : α → Bool) (key : String) (f : α → α) (entries : Entries α)
    (hf : ∀ v, (key, v) ∈ entries → q (f v) = q v) :
    (modify key f entries).countP (fun e => q e.2) = entries.countP (fun e => q e.2) := by
  induction entries with
  | nil => rfl
  | cons head rest ih =>
    obtain ⟨k, v⟩ := head
    simp only [modify]
    split
    · rename_i hk
      subst hk
      simp [List.countP_cons, hf v List.mem_cons_self]
    · rw [List.countP_cons, List.countP_cons,
        ih fun v hv => hf v (List.mem_cons_of_mem _ hv)]

/-- A key before all others is put in front of them. -/
theorem insert_front {key : String} {entries : Entries α} (h : ∀ e ∈ entries, key < e.1)
    (value : α) : insert key value entries = (key, value) :: entries := by
  cases entries with
  | nil => rfl
  | cons head rest => exact if_pos (h head List.mem_cons_self)

/-- A key after all others is put behind them. -/
theorem insert_back {key : String} {entries : Entries α} (h : ∀ e ∈ entries, e.1 < key)
    (value : α) : insert key value entries = entries ++ [(key, value)] := by
  induction entries with
  | nil => rfl
  | cons head rest ih =>
    obtain ⟨k, v⟩ := head
    have hbefore : k < key := h (k, v) List.mem_cons_self
    have hne : k ≠ key := fun heq => String.lt_irrefl _ (heq ▸ hbefore)
    rw [insert, if_neg (String.lt_asymm hbefore), if_neg hne,
      ih fun e he => h e (List.mem_cons_of_mem _ he)]
    rfl

theorem foldl_insert {before after : Entries α} (h : Sorted (before ++ after)) :
    after.foldl (fun table entry => insert entry.1 entry.2 table) before = before ++ after := by
  induction after generalizing before with
  | nil => exact (List.append_nil before).symm
  | cons entry rest ih =>
    have hlast : ∀ e ∈ before, e.1 < entry.1 := fun e he =>
      (List.pairwise_append.mp h).2.2 e he entry List.mem_cons_self
    have hmoved : before ++ entry :: rest = before ++ [entry] ++ rest := by simp
    rw [List.foldl_cons, insert_back hlast, hmoved]
    exact ih (hmoved ▸ h)

/-- Two ordered tables with the same bindings are the same list. -/
theorem ext_mem {a b : Entries α} (ha : Sorted a) (hb : Sorted b)
    (h : ∀ entry, entry ∈ a ↔ entry ∈ b) : a = b := by
  refine ext_get? ha hb fun key => ?_
  ext value
  rw [get?_eq_some_iff ha, get?_eq_some_iff hb]
  exact h (key, value)

/-- Every binding of a table that was made from a list stands in the list. -/
theorem mem_ofList {entries : List (String × α)} {entry : String × α}
    (h : entry ∈ ofList entries) : entry ∈ entries := by
  suffices ∀ (rest : List (String × α)) (table : Entries α),
      entry ∈ rest.foldl (fun table entry => insert entry.1 entry.2 table) table →
        entry ∈ table ∨ entry ∈ rest from
    (this entries [] h).resolve_left List.not_mem_nil
  intro rest
  induction rest with
  | nil => exact fun _ h => .inl h
  | cons head rest ih =>
    intro table h
    rcases ih _ h with h | h
    · rcases mem_insert h with rfl | h
      · exact .inr List.mem_cons_self
      · exact .inl h
    · exact .inr (List.mem_cons_of_mem head h)

end Entries

namespace Dict

variable {α : Type}

theorem contains_eq_isSome (d : Dict α) (key : String) :
    d.contains key = (d.get? key).isSome := rfl

theorem contains_of_get? {d : Dict α} {key : String} {value : α}
    (h : d.get? key = some value) : d.contains key = true := by
  rw [contains_eq_isSome, h]
  rfl

theorem contains_insert (d : Dict α) (key key' : String) (value : α) :
    (d.insert key value).contains key' = (decide (key = key') || d.contains key') := by
  rw [contains_eq_isSome, get?_insert, contains_eq_isSome]
  by_cases h : key = key' <;> simp [h]

theorem contains_erase (d : Dict α) (key key' : String) :
    (d.erase key).contains key' = (decide (key ≠ key') && d.contains key') := by
  rw [contains_eq_isSome, get?_erase, contains_eq_isSome]
  by_cases heq : key = key' <;> simp [heq]

theorem contains_modify (d : Dict α) (key key' : String) (f : α → α) :
    (d.modify key f).contains key' = d.contains key' := by
  rw [contains_eq_isSome, get?_modify, contains_eq_isSome]
  by_cases h : key = key' <;> simp [h]

theorem get?_insert_cases {d : Dict α} {key key' : String} {value found : α}
    (h : (d.insert key value).get? key' = some found) :
    (key = key' ∧ found = value) ∨ d.get? key' = some found := by
  rw [get?_insert] at h
  by_cases hk : key = key'
  · rw [if_pos hk] at h
    exact .inl ⟨hk, (Option.some.inj h).symm⟩
  · rw [if_neg hk] at h
    exact .inr h

theorem get?_erase_cases {d : Dict α} {key key' : String} {found : α}
    (h : (d.erase key).get? key' = some found) : key ≠ key' ∧ d.get? key' = some found := by
  rw [get?_erase] at h
  by_cases hk : key = key'
  · rw [if_pos hk] at h
    exact absurd h (by simp)
  · rw [if_neg hk] at h
    exact ⟨hk, h⟩

theorem get?_modify_cases {d : Dict α} {key key' : String} {f : α → α} {found : α}
    (h : (d.modify key f).get? key' = some found) :
    (key = key' ∧ ∃ value, d.get? key' = some value ∧ f value = found) ∨
    d.get? key' = some found := by
  rw [get?_modify] at h
  by_cases hk : key = key'
  · rw [if_pos hk] at h
    exact .inl ⟨hk, Option.map_eq_some_iff.mp h⟩
  · rw [if_neg hk] at h
    exact .inr h

theorem get?_filter (d : Dict α) (p : String → α → Bool) (key : String) :
    (d.filter p).get? key = (d.get? key).filter (p key) := by
  ext value
  rw [Option.filter_eq_some_iff, get?_eq_some_iff, get?_eq_some_iff]
  exact List.mem_filter

theorem ofList_entries (d : Dict α) : ofList d.entries = d :=
  ext (Entries.foldl_insert (by simpa using d.sorted))

/-- Writing back the value of a key changes nothing. -/
theorem modify_self {d : Dict α} {key : String} {value : α} (h : d.get? key = some value) :
    (d.modify key fun _ => value) = d := by
  refine ext_get? fun key' => ?_
  rw [get?_modify]
  by_cases hk : key = key'
  · subst hk
    rw [if_pos rfl, h]
    rfl
  · rw [if_neg hk]

theorem mem_values {d : Dict α} {value : α} :
    value ∈ d.values ↔ ∃ key, d.get? key = some value := by
  rw [values]
  rw [List.mem_map]
  constructor
  · rintro ⟨⟨key, v⟩, hmem, rfl⟩
    exact ⟨key, get?_eq_some_iff.mpr hmem⟩
  · rintro ⟨key, h⟩
    exact ⟨(key, value), get?_eq_some_iff.mp h, rfl⟩

/-- What is true of all that is found is true of the values. -/
theorem forall_get?_iff {d : Dict α} {P : α → Prop} :
    (∀ key value, d.get? key = some value → P value) ↔ ∀ value ∈ d.values, P value := by
  constructor
  · intro h value hvalue
    obtain ⟨key, hget⟩ := mem_values.mp hvalue
    exact h key value hget
  · intro h key value hget
    exact h value (mem_values.mpr ⟨key, hget⟩)

theorem forall_values_insert {d : Dict α} {P : α → Prop} (h : ∀ value ∈ d.values, P value)
    (key : String) {value : α} (hvalue : P value) : ∀ other ∈ (d.insert key value).values, P other := by
  refine forall_get?_iff.mp fun key' found hfound => ?_
  rcases get?_insert_cases hfound with ⟨-, rfl⟩ | hold
  · exact hvalue
  · exact forall_get?_iff.mpr h key' found hold

/-- The first value with a property is the one with the least key. -/
theorem find?_values {d : Dict α} {q : α → Bool} {value : α} (h : d.values.find? q = some value) :
    ∃ key, d.get? key = some value ∧ q value = true ∧
      ∀ key' value', d.get? key' = some value' → q value' = true → key ≤ key' := by
  rw [values, List.find?_map] at h
  obtain ⟨⟨key, _⟩, hfound, rfl⟩ := Option.map_eq_some_iff.mp h
  obtain ⟨hq, before, after, hsplit, hbefore⟩ := List.find?_eq_some_iff_append.mp hfound
  refine ⟨key, get?_eq_some_iff.mpr (List.mem_of_find?_eq_some hfound), hq, ?_⟩
  intro key' value' hget hq'
  have hmem := get?_eq_some_iff.mp hget
  have hsorted := d.sorted
  rw [hsplit] at hmem hsorted
  obtain ⟨-, hafter, -⟩ := List.pairwise_append.mp hsorted
  rcases List.mem_append.mp hmem with hmem | hmem
  · exact absurd hq' (by simpa using hbefore _ hmem)
  · rcases List.mem_cons.mp hmem with heq | hmem
    · exact (Prod.mk.inj heq).1 ▸ String.le_refl _
    · have hless := (List.pairwise_cons.mp hafter).1 _ hmem
      exact String.not_lt.mp (String.lt_asymm hless)

theorem mem_keys {d : Dict α} {key : String} : key ∈ d.keys ↔ ∃ value, d.get? key = some value := by
  rw [← contains_iff, contains_eq_isSome, Option.isSome_iff_exists]

theorem keys_increasing (d : Dict α) : d.keys.Pairwise (· < ·) := List.pairwise_map.mpr d.sorted

theorem nodup_keys (d : Dict α) : d.keys.Nodup := by
  refine d.keys_increasing.imp fun {a b} hlt heq => ?_
  subst heq
  exact String.lt_irrefl a hlt

/-- The first key is the least one. -/
theorem head?_keys {d : Dict α} {key : String} :
    d.keys.head? = some key ↔
      d.contains key = true ∧ ∀ other, d.contains other = true → other = key ∨ key < other := by
  have increasing := d.keys_increasing
  simp only [contains_iff]
  cases hkeys : d.keys with
  | nil => exact iff_of_false (by simp) fun h => List.not_mem_nil h.1
  | cons first rest =>
    rw [hkeys, List.pairwise_cons] at increasing
    obtain ⟨hfirst, -⟩ := increasing
    rw [List.head?_cons, Option.some.injEq]
    constructor
    · rintro rfl
      refine ⟨List.mem_cons_self, fun other hother => ?_⟩
      exact (List.mem_cons.mp hother).imp_right (hfirst other)
    · rintro ⟨hmem, hleast⟩
      rcases List.mem_cons.mp hmem with rfl | hrest
      · rfl
      · rcases hleast first List.mem_cons_self with heq | hlt
        · exact heq
        · exact absurd (hfirst key hrest) (String.lt_asymm hlt)

theorem head?_keys_eq_none {d : Dict α} :
    d.keys.head? = none ↔ ∀ key, d.contains key = false := by
  rw [List.head?_eq_none_iff, List.eq_nil_iff_forall_not_mem]
  refine forall_congr' fun key => ?_
  rw [← contains_iff, Bool.not_eq_true]

theorem countP_values (d : Dict α) (q : α → Bool) :
    d.values.countP q = d.entries.countP fun e => q e.2 := by
  rw [values]
  rw [List.countP_map]
  rfl

theorem countP_values_insert_le (d : Dict α) (q : α → Bool) (key : String) (value : α) :
    (d.insert key value).values.countP q ≤ d.values.countP q + (q value).toNat := by
  rw [countP_values, countP_values]
  exact Entries.countP_insert_le q key value d.entries

theorem countP_values_erase_le (d : Dict α) (q : α → Bool) (key : String) :
    (d.erase key).values.countP q ≤ d.values.countP q := by
  rw [countP_values, countP_values]
  exact (Entries.erase_sublist key d.entries).countP_le

theorem countP_values_modify (d : Dict α) (q : α → Bool) (key : String) (f : α → α)
    (hf : ∀ v, d.get? key = some v → q (f v) = q v) :
    (d.modify key f).values.countP q = d.values.countP q := by
  rw [countP_values, countP_values]
  exact Entries.countP_modify q key f d.entries fun v hv => hf v (get?_eq_some_iff.mpr hv)

theorem values_filter (d : Dict α) (q : α → Bool) :
    (d.filter fun _ value => q value).values = d.values.filter q := by
  rw [values, values]
  rw [List.filter_map]
  rfl

/-- Of the keys of what is kept by `p`, those in `q` are the keys of what is kept by both. -/
theorem keys_filter (d : Dict α) (p : String → α → Bool) (q : String → Bool) :
    (d.filter p).keys.filter q = (d.filter fun key value => q key && p key value).keys := by
  rw [keys, keys]
  rw [List.filter_map]
  exact congrArg (List.map Prod.fst) List.filter_filter

/-- The values kept that satisfy `q` are the values that satisfy both. -/
theorem countP_values_filter (d : Dict α) (p : String → α → Bool) (q : α → Bool) :
    (d.filter p).values.countP q = d.entries.countP fun e => p e.1 e.2 && q e.2 := by
  rw [countP_values]
  show (List.filter (fun e => p e.1 e.2) d.entries).countP (fun e => q e.2) = _
  rw [List.countP_filter]
  exact List.countP_congr fun e _ => by rw [Bool.and_comm]

end Dict

end Parley
