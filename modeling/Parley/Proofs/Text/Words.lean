/-
Trimming, words and parts of a text.

* `Text.trimChars_eq_iff` — trimming takes away blanks at both ends and nothing else, until none
  are left there;
* `Text.mem_words_iff` — the words of a text are its blank-free parts that are bounded by blanks
  or by the ends of the text;
* `Text.occursIn_iff` — one text occurs in another if it is a run of its characters.
-/
import Mathlib.Data.List.TakeWhile
import Parley.Text.Blank

namespace Parley.Text

variable {cs ds w : List Char}

/-- Nothing but blanks. -/
def AllBlank (cs : List Char) : Prop := ∀ c ∈ cs, isBlank c = true

instance (cs : List Char) : Decidable (AllBlank cs) := List.decidableBAll _ cs

/-! ### Trimming -/

theorem trimChars_append_left (hds : AllBlank ds) (cs : List Char) :
    trimChars (ds ++ cs) = trimChars cs := by
  rw [trimChars, List.dropWhile_append_of_pos hds, trimChars]

theorem trimChars_append_right (hds : AllBlank ds) (cs : List Char) :
    trimChars (cs ++ ds) = trimChars cs := by
  have reversed : AllBlank ds.reverse := fun c hc => hds c (List.mem_reverse.mp hc)
  rw [trimChars, trimChars, List.dropWhile_append]
  split
  · rename_i hempty
    -- Blanks alone are taken away from the left.
    rw [List.isEmpty_iff.mp hempty, List.dropWhile_eq_nil_iff.mpr hds]
  · rw [List.reverse_append, List.dropWhile_append_of_pos reversed]

theorem trimChars_surrounded {before after : List Char} (hbefore : AllBlank before)
    (hafter : AllBlank after) (cs : List Char) :
    trimChars (before ++ cs ++ after) = trimChars cs := by
  rw [trimChars_append_right hafter, trimChars_append_left hbefore]

theorem exists_trimChars (cs : List Char) :
    ∃ before after, cs = before ++ trimChars cs ++ after ∧ AllBlank before ∧ AllBlank after := by
  refine ⟨cs.takeWhile isBlank, ((cs.dropWhile isBlank).reverse.takeWhile isBlank).reverse, ?_,
    fun c hc => List.mem_takeWhile_imp hc,
    fun c hc => List.mem_takeWhile_imp (List.mem_reverse.mp hc)⟩
  rw [trimChars, List.append_assoc, ← List.reverse_append, List.takeWhile_append_dropWhile,
    List.reverse_reverse, List.takeWhile_append_dropWhile]

theorem isBlank_getLast?_trimChars {c : Char} (h : c ∈ (trimChars cs).getLast?) :
    isBlank c = false := by
  rw [trimChars, List.getLast?_reverse] at h
  have stopped := List.head?_dropWhile_not isBlank (cs.dropWhile isBlank).reverse
  rw [h] at stopped
  exact stopped

theorem isBlank_head?_trimChars {c : Char} (h : c ∈ (trimChars cs).head?) :
    isBlank c = false := by
  -- What is left begins where dropping from the left has stopped.
  have isPrefix : trimChars cs <+: cs.dropWhile isBlank := by
    rw [trimChars, ← List.reverse_suffix, List.reverse_reverse]
    exact List.dropWhile_suffix isBlank
  have stopped := List.head?_dropWhile_not isBlank cs
  obtain ⟨rest, hrest⟩ := isPrefix
  rw [← hrest, List.head?_append, h, Option.some_or] at stopped
  exact stopped

/-- Trimming finds the part between blanks that neither begins nor ends with one. -/
theorem trimChars_eq_iff {name : List Char} :
    trimChars cs = name ↔ ∃ before after, cs = before ++ name ++ after ∧ AllBlank before ∧
      AllBlank after ∧ (∀ c ∈ name.head?, isBlank c = false) ∧
      ∀ c ∈ name.getLast?, isBlank c = false := by
  constructor
  · rintro rfl
    obtain ⟨before, after, heq, hbefore, hafter⟩ := exists_trimChars cs
    exact ⟨before, after, heq, hbefore, hafter, fun _ hc => isBlank_head?_trimChars hc,
      fun _ hc => isBlank_getLast?_trimChars hc⟩
  · rintro ⟨before, after, rfl, hbefore, hafter, hfirst, hlast⟩
    rw [trimChars_surrounded hbefore hafter, trimChars_of_ends hfirst hlast]

/-! ### Words -/

/-- The text is made of `before`, `w` and `after`, and cuts or the ends of the text bound `w`. -/
structure Bounds (cut : Char → Bool) (cs before w after : List Char) : Prop where
  eq : cs = before ++ w ++ after
  last : ∀ c ∈ before.getLast?, cut c = true
  first : ∀ c ∈ after.head?, cut c = true

theorem dropWhile_append_word (hw : ∀ c ∈ w, isBlank c = false) (hne : w ≠ [])
    (before after : List Char) :
    (before ++ w ++ after).dropWhile isBlank = before.dropWhile isBlank ++ w ++ after := by
  have stops : (w ++ after).dropWhile isBlank = w ++ after := by
    obtain ⟨c, rest, rfl⟩ := List.exists_cons_of_ne_nil hne
    exact List.dropWhile_cons_of_neg (by simp [hw c List.mem_cons_self])
  rw [List.append_assoc, List.dropWhile_append, stops]
  split
  · rename_i hempty
    rw [List.isEmpty_iff.mp hempty, List.nil_append]
  · rw [List.append_assoc]

/-- Trimming takes away no word. -/
theorem Bounds.trimmed {before after : List Char} (h : Bounds isBlank cs before w after)
    (hw : ∀ c ∈ w, isBlank c = false) (hne : w ≠ []) :
    ∃ before after, Bounds isBlank (trimChars cs) before w after := by
  obtain ⟨rfl, hlast, hfirst⟩ := h
  have reversed : ∀ c ∈ w.reverse, isBlank c = false := fun c hc => hw c (List.mem_reverse.mp hc)
  refine ⟨before.dropWhile isBlank, (after.reverse.dropWhile isBlank).reverse, ?_, ?_, ?_⟩
  · rw [trimChars, dropWhile_append_word hw hne, List.reverse_append, List.reverse_append,
      ← List.append_assoc, dropWhile_append_word reversed (by simpa using hne)]
    simp
  · intro c hc
    obtain ⟨dropped, heq⟩ := List.dropWhile_suffix (l := before) isBlank
    refine hlast c ?_
    rw [← heq, List.getLast?_append, hc, Option.some_or]
    rfl
  · intro c hc
    obtain ⟨dropped, heq⟩ := List.dropWhile_suffix (l := after.reverse) isBlank
    rw [List.head?_reverse] at hc
    refine hfirst c ?_
    rw [← List.getLast?_reverse, ← heq, List.getLast?_append, hc, Option.some_or]
    rfl

theorem pieces_eq_splitOnP (cut : Char → Bool) (cs : List Char) :
    pieces cut cs = cs.splitOnP cut := by
  induction cs with
  | nil => rfl
  | cons c rest ih =>
    rw [pieces, List.splitOnP_cons_eq_if_modifyHead, ih]
    cases hpieces : rest.splitOnP cut with
    | nil => exact absurd hpieces (List.splitOnP_ne_nil cut rest)
    | cons => rfl

theorem pieces_of_uncut {cut : Char → Bool} (h : ∀ c ∈ cs, cut c = false) :
    pieces cut cs = [cs] := by
  rw [pieces_eq_splitOnP, List.splitOnP_eq_singleton h]

theorem pieces_append_cons {cut : Char → Bool} {c : Char} (hc : cut c = true)
    (cs ds : List Char) : pieces cut (cs ++ c :: ds) = pieces cut cs ++ pieces cut ds := by
  simp only [pieces_eq_splitOnP]
  exact List.splitOnP_append_cons cs ds hc

/-- The piece before the first cut is what has been read when it comes. -/
theorem bounds_of_mem_pieces_append {cut : Char → Bool} (hds : ∀ c ∈ ds, cut c = false)
    (h : w ∈ pieces cut (ds ++ cs)) :
    (∀ c ∈ w, cut c = false) ∧ ∃ before after, Bounds cut (ds ++ cs) before w after := by
  induction cs generalizing ds with
  | nil =>
    rw [List.append_nil, pieces_of_uncut hds] at h
    obtain rfl := List.mem_singleton.mp h
    exact ⟨hds, [], [], by simp, by simp, by simp⟩
  | cons c rest ih =>
    cases hc : cut c with
    | true =>
      rw [pieces_append_cons hc, pieces_of_uncut hds] at h
      rcases List.mem_append.mp h with h | h
      · obtain rfl := List.mem_singleton.mp h
        exact ⟨hds, [], c :: rest, by simp, by simp, by simpa using hc⟩
      · obtain ⟨hw, before, after, heq, hlast, hfirst⟩ := @ih [] (by simp) h
        refine ⟨hw, ds ++ c :: before, after, ?_, ?_, hfirst⟩
        · rw [List.nil_append] at heq
          rw [heq]
          simp
        · cases before with
          | nil => simpa using hc
          | cons c' before =>
            rwa [List.getLast?_append, List.getLast?_cons_cons, Option.or_of_isSome (by simp)]
    | false =>
      have longer : ∀ c' ∈ ds ++ [c], cut c' = false := by
        intro c' hc'
        rcases List.mem_append.mp hc' with hc' | hc'
        · exact hds c' hc'
        · exact List.mem_singleton.mp hc' ▸ hc
      rw [List.append_cons] at h ⊢
      exact ih longer h

theorem bounds_of_mem_pieces {cut : Char → Bool} (h : w ∈ pieces cut cs) :
    (∀ c ∈ w, cut c = false) ∧ ∃ before after, Bounds cut cs before w after :=
  @bounds_of_mem_pieces_append cs [] w cut (by simp) h

theorem mem_pieces_of_bounds {cut : Char → Bool} (hw : ∀ c ∈ w, cut c = false)
    {before after : List Char} (h : Bounds cut cs before w after) : w ∈ pieces cut cs := by
  obtain ⟨rfl, hlast, hfirst⟩ := h
  have ends : w ∈ pieces cut (w ++ after) := by
    cases after with
    | nil =>
      rw [List.append_nil, pieces_of_uncut hw]
      exact List.mem_singleton_self w
    | cons c rest =>
      rw [pieces_append_cons (hfirst c rfl), pieces_of_uncut hw]
      exact List.mem_cons_self
  rcases List.eq_nil_or_concat before with rfl | ⟨before, c, rfl⟩
  · exact ends
  · have last : cut c = true := hlast c (by simp)
    rw [List.concat_eq_append, List.append_assoc, List.append_assoc, List.singleton_append,
      pieces_append_cons last]
    exact List.mem_append_right _ ends

/-- The words of a text. -/
theorem mem_words_iff {word s : String} :
    word ∈ words s ↔ word ≠ "" ∧ (∀ c ∈ word.toList, isBlank c = false) ∧
      ∃ before after, Bounds isBlank s.toList before word.toList after := by
  rw [words, List.mem_map]
  constructor
  · rintro ⟨w, hw, rfl⟩
    obtain ⟨hmem, hnonempty⟩ := List.mem_filter.mp hw
    have nonempty : String.ofList w ≠ "" := by
      intro heq
      have none := congrArg String.toList heq
      rw [String.toList_ofList] at none
      rw [none] at hnonempty
      exact absurd hnonempty (by decide)
    rw [String.toList_ofList]
    exact ⟨nonempty, bounds_of_mem_pieces hmem⟩
  · rintro ⟨hnonempty, hw, before, after, hbounds⟩
    refine ⟨word.toList, List.mem_filter.mpr ⟨mem_pieces_of_bounds hw hbounds, ?_⟩,
      String.ofList_toList⟩
    rw [Bool.not_eq_true', List.isEmpty_eq_false_iff]
    intro hempty
    exact hnonempty (String.toList_eq_nil_iff.mp hempty)

theorem infix_of_mem_words {word s : String} (h : word ∈ words s) :
    word.toList <:+: s.toList := by
  obtain ⟨-, -, before, after, hbounds⟩ := mem_words_iff.mp h
  exact ⟨before, after, hbounds.eq.symm⟩

/-! ### Parts -/

theorem occursInChars_iff : occursInChars w cs = true ↔ w <:+: cs := by
  induction cs with
  | nil => rw [occursInChars, List.isEmpty_iff, List.infix_nil]
  | cons c rest ih =>
    rw [occursInChars, Bool.or_eq_true, List.isPrefixOf_iff_prefix, ih, List.infix_cons_iff]

theorem occursIn_iff {needle text : String} :
    occursIn needle text = true ↔ needle.toList <:+: text.toList :=
  occursInChars_iff

end Parley.Text
