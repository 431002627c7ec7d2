/-
Tables keyed by text.

`Entries α` is a list of bindings; its operations keep the keys in strictly
increasing order once they are.  `Dict α` carries that order as a proof, so two
tables with the same bindings are equal.

* `Entries.sorted_insert`, `Entries.sorted_erase` — the operations keep the
  order;
* `Dict.get?_insert`, `Dict.get?_erase` — what a lookup finds after a change;
* `Dict.ext_get?` — a table is determined by its lookups.

Design notes: the raw lists are kept apart from `Dict` because JSON objects are
nested inside their own values and cannot carry the proof there.
-/

namespace Parley

/-- Bindings in a list, at most one of which is looked up for a key. -/
abbrev Entries (α : Type) := List (String × α)

theorem lt_of_not_lt_of_ne {a b : String} (h : ¬ a < b) (hne : b ≠ a) : b < a := by
  by_cases h' : b < a
  · exact h'
  · exact absurd (String.le_antisymm (String.not_lt.mp h) (String.not_lt.mp h')) hne

namespace Entries

variable {α β : Type}

/-- The keys increase strictly from left to right. -/
def Sorted (entries : Entries α) : Prop :=
  entries.Pairwise fun a b => a.1 < b.1

instance (entries : Entries α) : Decidable (Sorted entries) :=
  inferInstanceAs (Decidable (List.Pairwise _ _))

def get? (key : String) : Entries α → Option α
  | [] => none
  | (k, v) :: rest => if k = key then some v else get? key rest

/-- Bind `key`, in place of what it was bound to or at its place in the order. -/
def insert (key : String) (value : α) : Entries α → Entries α
  | [] => [(key, value)]
  | (k, v) :: rest =>
    if key < k then (key, value) :: (k, v) :: rest
    else if k = key then (key, value) :: rest
    else (k, v) :: insert key value rest

def erase (key : String) : Entries α → Entries α
  | [] => []
  | (k, v) :: rest => if k = key then erase key rest else (k, v) :: erase key rest

/-- Keep the bindings that satisfy `p`. -/
def filter (p : String → α → Bool) (entries : Entries α) : Entries α :=
  List.filter (fun entry => p entry.1 entry.2) entries

/-- Replace the value of `key`, if it is bound. -/
def modify (key : String) (f : α → α) : Entries α → Entries α
  | [] => []
  | (k, v) :: rest => if k = key then (k, f v) :: rest else (k, v) :: modify key f rest

/-- Bindings listed in any order; a later one replaces an earlier one. -/
def ofList (entries : List (String × α)) : Entries α :=
  entries.foldl (fun table entry => insert entry.1 entry.2 table) []

@[simp] theorem get?_nil (key : String) : get? key ([] : Entries α) = none := rfl

theorem get?_cons (key k : String) (v : α) (rest : Entries α) :
    get? key ((k, v) :: rest) = if k = key then some v else get? key rest := rfl

theorem mem_insert {key : String} {value : α} {entries : Entries α} {entry : String × α} :
    entry ∈ insert key value entries → entry = (key, value) ∨ entry ∈ entries := by
  induction entries with
  | nil => simp [insert]
  | cons head rest ih =>
    obtain ⟨k, v⟩ := head
    simp only [insert]
    split
    · simp
    · split
      · intro h
        rcases List.mem_cons.mp h with h | h
        · exact .inl h
        · exact .inr (List.mem_cons_of_mem _ h)
      · intro h
        rcases List.mem_cons.mp h with h | h
        · exact .inr (h ▸ List.mem_cons_self)
        · rcases ih h with h | h
          · exact .inl h
          · exact .inr (List.mem_cons_of_mem _ h)

theorem sorted_insert (key : String) (value : α) {entries : Entries α}
    (h : Sorted entries) : Sorted (insert key value entries) := by
  induction entries with
  | nil => simp [insert, Sorted]
  | cons head rest ih =>
    obtain ⟨k, v⟩ := head
    obtain ⟨hhead, hrest⟩ := List.pairwise_cons.mp h
    simp only [insert]
    split
    · rename_i hlt
      -- The key comes before the head, hence before every key of the rest.
      refine List.pairwise_cons.mpr ⟨?_, h⟩
      intro entry hmem
      rcases List.mem_cons.mp hmem with rfl | hmem
      · exact hlt
      · exact String.lt_trans hlt (hhead entry hmem)
    · split
      -- The head has the key, and only its value changes.
      · rename_i heq
        subst heq
        exact List.pairwise_cons.mpr ⟨hhead, hrest⟩
      · rename_i hnlt hne
        refine List.pairwise_cons.mpr ⟨?_, ih hrest⟩
        intro entry hmem
        rcases mem_insert hmem with rfl | hmem
        · exact lt_of_not_lt_of_ne hnlt hne
        · exact hhead entry hmem

theorem erase_sublist (key : String) (entries : Entries α) :
    (erase key entries).Sublist entries := by
  induction entries with
  | nil => exact List.Sublist.slnil
  | cons head rest ih =>
    simp only [erase]
    split
    · exact ih.cons _
    · exact ih.cons_cons _

theorem sorted_erase (key : String) {entries : Entries α} (h : Sorted entries) :
    Sorted (erase key entries) :=
  List.Pairwise.sublist (erase_sublist key entries) h

theorem sorted_filter (p : String → α → Bool) {entries : Entries α} (h : Sorted entries) :
    Sorted (filter p entries) :=
  List.Pairwise.filter _ h

theorem map_fst_modify (key : String) (f : α → α) (entries : Entries α) :
    (modify key f entries).map Prod.fst = entries.map Prod.fst := by
  induction entries with
  | nil => rfl
  | cons head rest ih =>
    simp only [modify]
    split <;> simp [ih]

theorem sorted_modify (key : String) (f : α → α) {entries : Entries α} (h : Sorted entries) :
    Sorted (modify key f entries) := by
  -- Order is a matter of the keys alone, and these stay.
  have keys : (entries.map Prod.fst).Pairwise (· < ·) := List.pairwise_map.mpr h
  rw [← map_fst_modify key f] at keys
  exact List.pairwise_map.mp keys

theorem sorted_ofList (entries : List (String × α)) : Sorted (ofList entries) := by
  suffices ∀ (l : List (String × α)) (table : Entries α), Sorted table →
      Sorted (l.foldl (fun table entry => insert entry.1 entry.2 table) table) from
    this entries [] List.Pairwise.nil
  intro l
  induction l with
  | nil => exact fun _ h => h
  | cons head rest ih => exact fun table h => ih _ (sorted_insert _ _ h)

theorem get?_insert (key key' : String) (value : α) (entries : Entries α) :
    get? key' (insert key value entries) =
      if key = key' then some value else get? key' entries := by
  induction entries with
  | nil => simp [insert, get?]
  | cons head rest ih =>
    obtain ⟨k, v⟩ := head
    simp only [insert]
    split
    · simp [get?_cons]
    · split
      · rename_i heq
        subst heq
        simp only [get?_cons]
        split <;> rfl
      · rename_i hne
        simp only [get?_cons, ih]
        by_cases hk : k = key'
        · subst hk
          simp [Ne.symm hne]
        · simp [hk]

theorem get?_modify (key key' : String) (f : α → α) (entries : Entries α) :
    get? key' (modify key f entries) =
      if key = key' then (get? key' entries).map f else get? key' entries := by
  induction entries with
  | nil => simp [modify]
  | cons head rest ih =>
    obtain ⟨k, v⟩ := head
    simp only [modify]
    by_cases hk : k = key
    · subst hk
      rw [if_pos rfl, get?_cons, get?_cons]
      by_cases h : k = key' <;> simp [h]
    · rw [if_neg hk, get?_cons, get?_cons, ih]
      by_cases h : k = key'
      · subst h
        simp [Ne.symm hk]
      · simp [h]

theorem get?_erase (key key' : String) (entries : Entries α) :
    get? key' (erase key entries) = if key = key' then none else get? key' entries := by
  induction entries with
  | nil => simp [erase]
  | cons head rest ih =>
    obtain ⟨k, v⟩ := head
    simp only [erase, get?_cons]
    by_cases hk : k = key
    · subst hk
      rw [if_pos rfl, ih]
      by_cases h : k = key' <;> simp [h]
    · rw [if_neg hk, get?_cons, ih]
      by_cases h : k = key'
      · subst h
        simp [Ne.symm hk]
      · simp [h]

theorem get?_eq_some_iff {entries : Entries α} (h : Sorted entries) {key : String} {value : α} :
    get? key entries = some value ↔ (key, value) ∈ entries := by
  induction entries with
  | nil => simp
  | cons head rest ih =>
    obtain ⟨k, v⟩ := head
    obtain ⟨hhead, hrest⟩ := List.pairwise_cons.mp h
    rw [get?_cons]
    by_cases hk : k = key
    · subst hk
      simp only [if_true, Option.some.injEq, List.mem_cons, Prod.mk.injEq, true_and]
      constructor
      · exact fun heq => .inl heq.symm
      · rintro (rfl | hmem)
        · rfl
        · exact absurd (hhead _ hmem) (String.lt_irrefl _)
    · simp [hk, Ne.symm hk, ih hrest]

theorem get?_eq_none_iff {entries : Entries α} {key : String} :
    get? key entries = none ↔ key ∉ entries.map Prod.fst := by
  induction entries with
  | nil => simp
  | cons head rest ih =>
    obtain ⟨k, v⟩ := head
    rw [get?_cons]
    by_cases hk : k = key
    · simp [hk]
    · simp [hk, Ne.symm hk, ih]

/-- Two ordered tables that answer every lookup alike are the same list. -/
theorem ext_get? {a b : Entries α} (ha : Sorted a) (hb : Sorted b)
    (h : ∀ key, get? key a = get? key b) : a = b := by
  induction a generalizing b with
  | nil =>
    cases b with
    | nil => rfl
    | cons head rest =>
      obtain ⟨k, v⟩ := head
      simpa [get?_cons] using h k
  | cons x xs ih =>
    cases b with
    | nil =>
      obtain ⟨k, v⟩ := x
      simpa [get?_cons] using h k
    | cons y ys =>
      obtain ⟨hx, hxs⟩ := List.pairwise_cons.mp ha
      obtain ⟨hy, hys⟩ := List.pairwise_cons.mp hb
      have key_eq : x.1 = y.1 := by
        have hmem : (x.1, x.2) ∈ y :: ys := by
          rw [← get?_eq_some_iff hb, ← h, get?_cons]
          simp
        have hmem' : (y.1, y.2) ∈ x :: xs := by
          rw [← get?_eq_some_iff ha, h, get?_cons]
          simp
        rcases List.mem_cons.mp hmem with heq | hlt
        · exact congrArg Prod.fst heq
        · rcases List.mem_cons.mp hmem' with heq | hlt'
          · exact (congrArg Prod.fst heq).symm
          · exact absurd (String.lt_trans (hy _ hlt) (hx _ hlt')) (String.lt_irrefl _)
      have val_eq : x.2 = y.2 := by
        have := h y.1
        obtain ⟨k, v⟩ := x
        obtain ⟨k', v'⟩ := y
        simp only at key_eq
        subst key_eq
        simpa [get?_cons] using this
      have rest_eq : xs = ys := by
        refine ih hxs hys fun key => ?_
        by_cases hk : x.1 = key
        · have hnone : ∀ {l : Entries α}, (∀ e ∈ l, x.1 < e.1) → get? key l = none := by
            intro l hl
            rw [get?_eq_none_iff]
            intro hmem
            obtain ⟨e, he, hek⟩ := List.mem_map.mp hmem
            have := hl e he
            rw [hek, hk] at this
            exact String.lt_irrefl _ this
          rw [hnone hx, hnone (by simpa [key_eq] using hy)]
        · have := h key
          obtain ⟨k, v⟩ := x
          obtain ⟨k', v'⟩ := y
          simp only at key_eq hk
          subst key_eq
          simpa [get?_cons, hk] using this
      rw [rest_eq, show x = y from Prod.ext key_eq val_eq]

end Entries

/-- A finite table from text to `α`, listed in key order. -/
structure Dict (α : Type) where
  entries : Entries α
  sorted : entries.Sorted

namespace Dict

variable {α : Type}

@[ext] theorem ext {a b : Dict α} (h : a.entries = b.entries) : a = b := by
  cases a
  cases b
  cases h
  rfl

instance [DecidableEq α] : DecidableEq (Dict α) := fun a b =>
  decidable_of_iff (a.entries = b.entries) ⟨ext, congrArg entries⟩

def empty : Dict α := ⟨[], List.Pairwise.nil⟩

instance : Inhabited (Dict α) := ⟨empty⟩

instance : EmptyCollection (Dict α) := ⟨empty⟩

def get? (d : Dict α) (key : String) : Option α := Entries.get? key d.entries

def contains (d : Dict α) (key : String) : Bool := (d.get? key).isSome

def insert (d : Dict α) (key : String) (value : α) : Dict α :=
  ⟨Entries.insert key value d.entries, Entries.sorted_insert key value d.sorted⟩

def erase (d : Dict α) (key : String) : Dict α :=
  ⟨Entries.erase key d.entries, Entries.sorted_erase key d.sorted⟩

/-- Keep the bindings that satisfy `p`. -/
def filter (p : String → α → Bool) (d : Dict α) : Dict α :=
  ⟨Entries.filter p d.entries, Entries.sorted_filter p d.sorted⟩

/-- Replace the value of `key`, if it is bound. -/
def modify (d : Dict α) (key : String) (f : α → α) : Dict α :=
  ⟨Entries.modify key f d.entries, Entries.sorted_modify key f d.sorted⟩

/-- A later binding of a key replaces an earlier one. -/
def ofList (entries : List (String × α)) : Dict α :=
  ⟨Entries.ofList entries, Entries.sorted_ofList entries⟩

def keys (d : Dict α) : List String := d.entries.map Prod.fst

def values (d : Dict α) : List α := d.entries.map Prod.snd

def size (d : Dict α) : Nat := d.entries.length

def isEmpty (d : Dict α) : Bool := d.entries.isEmpty

@[simp] theorem get?_empty (key : String) : (empty : Dict α).get? key = none := rfl

theorem get?_insert (d : Dict α) (key key' : String) (value : α) :
    (d.insert key value).get? key' = if key = key' then some value else d.get? key' :=
  Entries.get?_insert key key' value d.entries

theorem get?_erase (d : Dict α) (key key' : String) :
    (d.erase key).get? key' = if key = key' then none else d.get? key' :=
  Entries.get?_erase key key' d.entries

theorem get?_modify (d : Dict α) (key key' : String) (f : α → α) :
    (d.modify key f).get? key' = if key = key' then (d.get? key').map f else d.get? key' :=
  Entries.get?_modify key key' f d.entries

theorem get?_eq_some_iff {d : Dict α} {key : String} {value : α} :
    d.get? key = some value ↔ (key, value) ∈ d.entries :=
  Entries.get?_eq_some_iff d.sorted

theorem ext_get? {a b : Dict α} (h : ∀ key, a.get? key = b.get? key) : a = b :=
  ext (Entries.ext_get? a.sorted b.sorted h)

theorem contains_iff {d : Dict α} {key : String} :
    d.contains key = true ↔ key ∈ d.keys := by
  unfold contains keys
  rw [Option.isSome_iff_ne_none]
  unfold get?
  rw [Ne, Entries.get?_eq_none_iff, Decidable.not_not]

end Dict

end Parley
