/-
What replacing the placeholders of a text comes to.

The text is read once from the left, but which placeholders stand in it, and where, can be said
without reading it in any order:

* `Placeholder.StandsAt.apart` — no two placeholders of a text overlap, however its braces stand;
* `Placeholder.lookup_eq_some_iff` — what stands between the braces leads to a value exactly if,
  blanks at both ends apart, it is a path through the root;
* `Placeholder.Substitutes` — what is put at each position of the text;
* `Placeholder.substitution` — reading from the left puts that there, so a placeholder is replaced
  exactly if it leads to a value, nothing else is touched, and values are not searched again.
-/
import Parley.Proofs.Placeholder
import Parley.Proofs.Text.Numeral

namespace Parley

namespace Placeholder

variable {root v : Json} {cs ds w content content' : List Char} {i j k : Nat}

/-! ### Where placeholders stand -/

/-- A placeholder with this content begins at the position. -/
structure StandsAt (cs : List Char) (i : Nat) (content : List Char) : Prop where
  braceFree : BraceFree content
  spelled : braced content <+: cs.drop i

theorem length_braced (content : List Char) : (braced content).length = content.length + 4 := by
  simp [braced]

/-- Only at the beginning of a placeholder are there opening braces. -/
theorem lt_two_of_braced (h : BraceFree content) (hk : (braced content)[k]? = some '\x7b') :
    k < 2 := by
  match k with
  | 0 | 1 => decide
  | k + 2 =>
    have hmem : '\x7b' ∈ content ++ ['\x7d', '\x7d'] := List.mem_of_getElem? hk
    rcases List.mem_append.mp hmem with hmem | hmem
    · exact absurd (h _ hmem) (by decide)
    · exact absurd hmem (by decide)

theorem braced_inj (h : braced content = braced content') : content = content' := by
  simpa [braced] using h

namespace StandsAt

theorem char_eq (h : StandsAt cs i content) (hk : k < (braced content).length) :
    cs[i + k]? = (braced content)[k]? := by
  obtain ⟨rest, heq⟩ := h.spelled
  rw [← List.getElem?_drop, ← heq, List.getElem?_append_left hk]

theorem first (h : StandsAt cs i content) : cs[i]? = some '\x7b' :=
  h.char_eq (k := 0) (by rw [length_braced]; omega)

theorem second (h : StandsAt cs i content) : cs[i + 1]? = some '\x7b' :=
  h.char_eq (by rw [length_braced]; omega)

theorem unique (h : StandsAt cs i content) (h' : StandsAt cs i content') :
    content = content' := by
  obtain ⟨rest, heq⟩ := h'.spelled
  have starts := h.spelled
  rw [← heq] at starts
  exact content_eq_of_starts h.braceFree h'.braceFree starts

/-- A placeholder that begins after another begins after its end. -/
theorem apart (h : StandsAt cs i content) (h' : StandsAt cs j content') (hlt : i < j) :
    i + (braced content).length ≤ j := by
  by_contra hinside
  obtain ⟨k, rfl⟩ := Nat.exists_eq_add_of_le hlt.le
  have hlength := length_braced content
  have hfirst := h'.first
  rw [h.char_eq (by omega)] at hfirst
  -- It could only begin with the second brace, which a third one would have to follow.
  have hk := lt_two_of_braced h.braceFree hfirst
  have hsecond := h'.second
  rw [Nat.add_assoc, h.char_eq (by omega)] at hsecond
  have := lt_two_of_braced h.braceFree hsecond
  omega

theorem append_iff : StandsAt (w ++ cs) (w.length + i) content ↔ StandsAt cs i content := by
  have hdrop : (w ++ cs).drop (w.length + i) = cs.drop i := by
    rw [← List.drop_drop, List.drop_left]
  exact ⟨fun h => ⟨h.braceFree, hdrop ▸ h.spelled⟩, fun h => ⟨h.braceFree, hdrop ▸ h.spelled⟩⟩

theorem of_braced (h : BraceFree content) (cs : List Char) :
    StandsAt (braced content ++ cs) 0 content :=
  ⟨h, List.prefix_append _ _⟩

theorem doubled (h : StandsAt cs i content) : ['\x7b', '\x7b'] <:+: cs := by
  have opened : ['\x7b', '\x7b'] <+: braced content := ⟨content ++ ['\x7d', '\x7d'], rfl⟩
  exact (opened.trans h.spelled).isInfix.trans (List.drop_suffix i cs).isInfix

end StandsAt

/-! ### Where paths lead -/

/-- The path leads from one value to the other, through objects by key and through arrays by
position. -/
inductive Walks : Json → List String → Json → Prop where
  | here {v : Json} : Walks v [] v
  | member {fields : List (String × Json)} {key : String} {path : List String} {u v : Json}
      (hget : Entries.get? key fields = some u) (h : Walks u path v) :
      Walks (.obj fields) (key :: path) v
  | item {items : List Json} {position : String} {path : List String} {u v : Json} {i : Nat}
      (hsign : position.toList.head? ≠ some '-') (hposition : Text.Denotes position.toList i)
      (hsize : i ≤ Text.uint64Max) (hget : items[i]? = some u) (h : Walks u path v) :
      Walks (.arr items) (position :: path) v

theorem walk_eq_some_iff {path : List String} : walk root path = some v ↔ Walks root path v := by
  constructor
  · intro h
    induction path generalizing root with
    | nil =>
      rw [walk] at h
      exact Option.some.inj h ▸ .here
    | cons key path ih =>
      cases root with
      | obj fields =>
        obtain ⟨u, hget, h⟩ := Option.bind_eq_some_iff.mp h
        exact .member hget (ih h)
      | arr items =>
        obtain ⟨u, hget, h⟩ := Option.bind_eq_some_iff.mp h
        obtain ⟨i, hi, hget⟩ := Option.bind_eq_some_iff.mp hget
        obtain ⟨hi, hsize⟩ := Option.filter_eq_some_iff.mp hi
        obtain ⟨hsign, hposition⟩ := Text.unsigned?_eq_some_iff.mp hi
        rw [decide_eq_true_iff] at hsize
        exact .item hsign hposition hsize hget (ih h)
      | _ => exact absurd h (by simp [walk])
  · intro h
    induction h with
    | here => rw [walk]
    | member hget _ ih => rw [walk, hget, Option.bind_some, ih]
    | @item items position path u v i hsign hposition hsize hget _ ih =>
      have read : Text.natural? Text.uint64Max position = some i := by
        rw [Text.natural?, Option.filter_eq_some_iff, decide_eq_true_iff]
        exact ⟨Text.unsigned?_eq_some_iff.mpr ⟨hsign, hposition⟩, hsize⟩
      rw [walk, read, Option.bind_some, hget, Option.bind_some, ih]

/-- Between blanks the content names a path through the root, its keys joined by dots. -/
def Leads (root : Json) (content : List Char) (v : Json) : Prop :=
  ∃ before name after path, content = before ++ name ++ after ∧
    Text.AllBlank before ∧ Text.AllBlank after ∧ name ≠ [] ∧
    (∀ c ∈ name.head?, Text.isBlank c = false) ∧ (∀ c ∈ name.getLast?, Text.isBlank c = false) ∧
    name = ['.'].intercalate (path.map String.toList) ∧ (∀ key ∈ path, '.' ∉ key.toList) ∧
    Walks root path v

theorem splitOn_eq_iff {path : List String} (hne : path ≠ []) :
    Text.splitOn '.' (String.ofList cs) = path ↔
      cs = ['.'].intercalate (path.map String.toList) ∧ ∀ key ∈ path, '.' ∉ key.toList := by
  have pieces : Text.splitOn '.' (String.ofList cs) = (cs.splitOn '.').map String.ofList := by
    rw [Text.splitOn, String.toList_ofList, Text.pieces_eq_splitOnP, List.splitOn]
  rw [pieces]
  constructor
  · rintro rfl
    refine ⟨?_, fun key hkey => ?_⟩
    · rw [List.map_map, show String.toList ∘ String.ofList = id from funext fun _ =>
        String.toList_ofList, List.map_id, List.intercalate_splitOn]
    · obtain ⟨piece, hpiece, rfl⟩ := List.mem_map.mp hkey
      rw [List.splitOn, ← Text.pieces_eq_splitOnP] at hpiece
      have uncut := (Text.bounds_of_mem_pieces hpiece).1
      rw [String.toList_ofList]
      exact fun hdot => absurd (uncut '.' hdot) (by decide)
  · rintro ⟨rfl, hdots⟩
    rw [List.splitOn_intercalate '.' (by simpa using hdots) (by simpa using hne), List.map_map,
      show String.ofList ∘ String.toList = id from funext fun _ => String.ofList_toList,
      List.map_id]

theorem lookup_eq_some_iff : lookup root content = some v ↔ Leads root content v := by
  rw [lookup]
  constructor
  · intro h
    split at h
    · exact absurd h (by simp)
    · rename_i hne
      rw [List.isEmpty_iff] at hne
      obtain ⟨before, after, heq, hbefore, hafter, hfirst, hlast⟩ := Text.trimChars_eq_iff.mp rfl
      have hpath : Text.splitOn '.' (String.ofList (Text.trimChars content)) ≠ [] := by
        rw [Text.splitOn, Text.pieces_eq_splitOnP, ne_eq, List.map_eq_nil_iff]
        exact List.splitOnP_ne_nil _ _
      obtain ⟨hname, hdots⟩ := (splitOn_eq_iff hpath).mp rfl
      exact ⟨before, _, after, _, heq, hbefore, hafter, hne, hfirst, hlast, hname, hdots,
        walk_eq_some_iff.mp h⟩
  · rintro ⟨before, name, after, path, heq, hbefore, hafter, hne, hfirst, hlast, hname, hdots, h⟩
    have trimmed := Text.trimChars_eq_iff.mpr ⟨before, after, heq, hbefore, hafter, hfirst, hlast⟩
    have hpath : path ≠ [] := by
      rintro rfl
      exact hne hname
    rw [trimmed, if_neg (by rwa [List.isEmpty_iff]), (splitOn_eq_iff hpath).mpr ⟨hname, hdots⟩]
    exact walk_eq_some_iff.mpr h

theorem lookup_eq_none_iff : lookup root content = none ↔ ∀ v, ¬ Leads root content v := by
  rw [Option.eq_none_iff_forall_ne_some]
  exact forall_congr' fun v => not_congr lookup_eq_some_iff

/-! ### What is put at each position -/

/-- At each position of the text stands the piece that belongs there: a value where a placeholder
begins that leads to it, nothing in the rest of that placeholder, and everywhere else the
character that stood there. -/
structure Substitutes (root : Json) (cs : List Char) (piece : Nat → List Char) : Prop where
  value : ∀ {i content v}, StandsAt cs i content → Leads root content v →
    piece i = (render v).toList
  gone : ∀ {i content v}, StandsAt cs i content → Leads root content v →
    ∀ j, i < j → j < i + (braced content).length → piece j = []
  kept : ∀ {j c}, cs[j]? = some c →
    (∀ i content v, StandsAt cs i content → Leads root content v →
      j < i ∨ i + (braced content).length ≤ j) → piece j = [c]

/-- The pieces of a first part, and then those of the rest. -/
def follow (first : Nat → List Char) (n : Nat) (piece : Nat → List Char) (i : Nat) : List Char :=
  if i < n then first i else piece (i - n)

theorem follow_of_lt {first piece : Nat → List Char} {n : Nat} (h : i < n) :
    follow first n piece i = first i := if_pos h

theorem follow_add (first : Nat → List Char) (n : Nat) (piece : Nat → List Char) (i : Nat) :
    follow first n piece (n + i) = piece i := by
  rw [follow, if_neg (by omega), Nat.add_sub_cancel_left]

theorem flatMap_follow (first : Nat → List Char) (n : Nat) (piece : Nat → List Char) (m : Nat) :
    (List.range (n + m)).flatMap (follow first n piece) =
      (List.range n).flatMap first ++ (List.range m).flatMap piece := by
  have early : (List.range n).flatMap (follow first n piece) = (List.range n).flatMap first :=
    List.flatMap_congr fun i hi => follow_of_lt (List.mem_range.mp hi)
  rw [List.range_add, List.flatMap_append, List.flatMap_map, early]
  simp only [follow_add]

/-- Reading on: a first part in which no placeholder begins but with it, and that is done with
before the rest. -/
theorem Substitutes.follow {first piece : Nat → List Char} (h : Substitutes root cs piece)
    (hends : ∀ {i content}, StandsAt (w ++ cs) i content → i < w.length →
      i = 0 ∧ braced content = w)
    (hvalue : ∀ {content v}, braced content = w → Leads root content v →
      first 0 = (render v).toList ∧ ∀ j, 0 < j → j < w.length → first j = [])
    (hkept : (∀ content v, BraceFree content → braced content = w → ¬ Leads root content v) →
      ∀ j c, w[j]? = some c → first j = [c]) :
    Substitutes root (w ++ cs) (Placeholder.follow first w.length piece) := by
  refine ⟨fun {i _ _} hstands hleads => ?_, fun {i _ _} hstands hleads j hlow hhigh => ?_,
    fun {j c} hc hfree => ?_⟩
  · by_cases hi : i < w.length
    · obtain ⟨rfl, hw⟩ := hends hstands hi
      rw [follow_of_lt hi]
      exact (hvalue hw hleads).1
    · obtain ⟨i, rfl⟩ := Nat.exists_eq_add_of_le (Nat.le_of_not_lt hi)
      rw [follow_add]
      exact h.value (StandsAt.append_iff.mp hstands) hleads
  · by_cases hi : i < w.length
    · obtain ⟨rfl, hw⟩ := hends hstands hi
      rw [hw, Nat.zero_add] at hhigh
      rw [follow_of_lt hhigh]
      exact (hvalue hw hleads).2 j hlow hhigh
    · obtain ⟨i, rfl⟩ := Nat.exists_eq_add_of_le (Nat.le_of_not_lt hi)
      obtain ⟨j, rfl⟩ := Nat.exists_eq_add_of_le ((Nat.le_of_not_lt hi).trans hlow.le)
      rw [follow_add]
      exact h.gone (StandsAt.append_iff.mp hstands) hleads j (by omega) (by omega)
  · by_cases hj : j < w.length
    · rw [List.getElem?_append_left hj] at hc
      rw [follow_of_lt hj]
      refine hkept (fun content v hcontent hw hleads => ?_) j c hc
      -- The placeholder that the first part would be is not one of those the position is free of.
      have stands := StandsAt.of_braced hcontent cs
      rw [hw] at stands
      have outside := hfree 0 content v stands hleads
      rw [hw] at outside
      omega
    · obtain ⟨j, rfl⟩ := Nat.exists_eq_add_of_le (Nat.le_of_not_lt hj)
      rw [List.getElem?_append_right (Nat.le_add_right _ _), Nat.add_sub_cancel_left] at hc
      rw [follow_add]
      refine h.kept hc fun i content v hstands hleads => ?_
      have outside := hfree _ content v (StandsAt.append_iff.mpr hstands) hleads
      omega

/-- What a part puts at its positions. -/
def Part.piece (root : Json) : Part → Nat → List Char
  | plain c, _ => [c]
  | placeholder content, j =>
    match lookup root content with
    | some v => if j = 0 then (render v).toList else []
    | none => (braced content)[j]?.toList

theorem flatMap_getElem? (cs : List Char) :
    (List.range cs.length).flatMap (fun j => cs[j]?.toList) = cs := by
  induction cs with
  | nil => rfl
  | cons c rest ih =>
    rw [List.length_cons, List.range_succ_eq_map, List.flatMap_cons, List.flatMap_map]
    simp only [List.getElem?_cons_zero, List.getElem?_cons_succ, Nat.succ_eq_add_one, ih]
    rfl

theorem Part.piece_of_none (h : lookup root content = none) :
    (placeholder content).piece root = fun j => (braced content)[j]?.toList := by
  funext j
  rw [piece, h]

theorem Part.piece_of_some (h : lookup root content = some v) :
    (placeholder content).piece root = fun j => if j = 0 then (render v).toList else [] := by
  funext j
  rw [piece, h]

theorem Part.flatMap_piece (root : Json) (part : Part) :
    (List.range part.written.length).flatMap (part.piece root) = part.resolved root := by
  cases part with
  | plain c => rfl
  | placeholder content =>
    rw [resolved, written]
    cases hlookup : lookup root content with
    | none => rw [piece_of_none hlookup, flatMap_getElem?]
    | some v =>
      rw [piece_of_some hlookup, length_braced, List.range_succ_eq_map, List.flatMap_cons,
        List.flatMap_map]
      simp

theorem braceFree_of_content? (h : content? cs = some (content, ds)) : BraceFree content := by
  induction cs generalizing content with
  | nil => exact absurd h (by simp [content?])
  | cons c rest ih =>
    rw [content?.eq_def] at h
    dsimp only at h
    split at h
    · split at h
      · obtain ⟨rfl, -⟩ := Prod.mk.inj (Option.some.inj h)
        exact fun c hc => absurd hc List.not_mem_nil
      · exact absurd h (by simp)
    · rename_i hclosing
      split at h
      · exact absurd h (by simp)
      · rename_i hopening
        obtain ⟨⟨content', ds'⟩, hrest, heq⟩ := Option.map_eq_some_iff.mp h
        obtain ⟨rfl, rfl⟩ := Prod.mk.inj heq
        refine List.forall_mem_cons.mpr ⟨?_, ih hrest⟩
        simp [isBrace, hopening, hclosing]

/-- Reading from the left finds every placeholder. -/
theorem substitutes_parts (root : Json) (cs : List Char) :
    ∃ piece, Substitutes root cs piece ∧
      (parts cs).flatMap (Part.resolved root) = (List.range cs.length).flatMap piece := by
  fun_induction parts cs with
  | case1 =>
    have nowhere {i : Nat} {content : List Char} : ¬ StandsAt [] i content := fun h =>
      absurd h.first (by simp)
    exact ⟨fun _ => [], ⟨fun h => absurd h nowhere, fun h => absurd h nowhere, by simp⟩, rfl⟩
  | case2 c rest content after h ih =>
    obtain ⟨piece, hpiece, heq⟩ := ih
    split at h
    case isFalse => exact absurd h (by simp)
    rename_i hopen
    obtain ⟨rfl, hhead⟩ := hopen
    have hcontent := braceFree_of_content? h
    have hcs : '\x7b' :: rest = braced content ++ after := by
      obtain ⟨tail, rfl⟩ := List.head?_eq_some_iff.mp hhead
      rw [braced_append, ← content?_eq_some h]
      rfl
    refine ⟨follow ((Part.placeholder content).piece root) (braced content).length piece, ?_, ?_⟩
    · rw [hcs]
      refine hpiece.follow (fun {i content'} hstands hi => ?_) (fun {content' v} hw hleads => ?_)
        (fun hnowhere j c hc => ?_)
      · have first := StandsAt.of_braced hcontent after
        rcases Nat.eq_zero_or_pos i with rfl | hpos
        · exact ⟨rfl, by rw [first.unique hstands]⟩
        · have := first.apart hstands hpos
          omega
      · obtain rfl := braced_inj hw
        rw [Part.piece_of_some (lookup_eq_some_iff.mpr hleads)]
        exact ⟨rfl, fun j hlow _ => if_neg hlow.ne'⟩
      · have hnone := lookup_eq_none_iff.mpr fun v => hnowhere content v hcontent rfl
        rw [Part.piece_of_none hnone]
        exact congrArg Option.toList hc
    · rw [List.flatMap_cons, heq, hcs, List.length_append, flatMap_follow, ← Part.flatMap_piece]
      rfl
  | case3 c rest h ih =>
    obtain ⟨piece, hpiece, heq⟩ := ih
    have nowhere {content : List Char} : ¬ StandsAt (c :: rest) 0 content := by
      rintro ⟨hcontent, after, hcs⟩
      rw [braced_append, List.drop_zero] at hcs
      obtain ⟨rfl, rfl⟩ := List.cons.inj hcs
      rw [dif_pos ⟨rfl, rfl⟩, List.tail_cons, content?_braceFree hcontent] at h
      exact absurd h (by simp)
    refine ⟨follow ((Part.plain c).piece root) 1 piece, ?_, ?_⟩
    · refine hpiece.follow (w := [c]) (fun hstands hi => ?_) (fun hw _ => ?_)
        (fun _ j c' hc' => ?_)
      · obtain rfl := Nat.lt_one_iff.mp hi
        exact absurd hstands nowhere
      · exact absurd (congrArg List.length hw) (by simp [length_braced])
      · obtain rfl := List.mem_singleton.mp (List.mem_of_getElem? hc')
        rfl
    · rw [List.flatMap_cons, heq, List.length_cons, Nat.add_comm, flatMap_follow,
        ← Part.flatMap_piece]
      rfl

/-- Without two opening braces in a row there is no placeholder. -/
theorem resolve_eq_resolveIn (ctx : Context) (text : String) :
    resolve ctx text = resolveIn ctx.toJson text := by
  rw [resolve]
  split
  · rfl
  · rename_i hnone
    have nowhere {i : Nat} {content : List Char} : ¬ StandsAt text.toList i content := fun h =>
      hnone (Text.occursIn_iff.mpr h.doubled)
    obtain ⟨piece, hpiece, heq⟩ := substitutes_parts ctx.toJson text.toList
    have unchanged : (List.range text.toList.length).flatMap piece = text.toList := by
      calc (List.range text.toList.length).flatMap piece
          = (List.range text.toList.length).flatMap fun j => text.toList[j]?.toList := by
            refine List.flatMap_congr fun j hj => ?_
            have hc := List.getElem?_eq_getElem (List.mem_range.mp hj)
            rw [hpiece.kept hc fun i content v hstands _ => absurd hstands nowhere, hc]
            rfl
        _ = text.toList := flatMap_getElem? text.toList
    rw [resolveIn, heq, unchanged, String.ofList_toList]

/-- However the braces of a text stand, its placeholders do not overlap, and the text is resolved
by replacing each of them that leads to a value under the root, and nothing else.  What is put in
is not looked at, and the shortcut for texts without double braces makes no difference. -/
theorem substitution (root : Json) (text : String) :
    (∀ i j content content', StandsAt text.toList i content → StandsAt text.toList j content' →
      (i = j ∧ content = content') ∨ i + (braced content).length ≤ j ∨
        j + (braced content').length ≤ i) ∧
    (∃ piece, Substitutes root text.toList piece ∧
      (resolveIn root text).toList = (List.range text.toList.length).flatMap piece) ∧
    ∀ ctx : Context, resolve ctx text = resolveIn ctx.toJson text := by
  refine ⟨fun i j content content' h h' => ?_, ?_, fun ctx => resolve_eq_resolveIn ctx text⟩
  · rcases Nat.lt_trichotomy i j with hlt | rfl | hlt
    · exact .inr (.inl (h.apart h' hlt))
    · exact .inl ⟨rfl, h.unique h'⟩
    · exact .inr (.inr (h'.apart h hlt))
  · obtain ⟨piece, hpiece, heq⟩ := substitutes_parts root text.toList
    exact ⟨piece, hpiece, by rw [resolveIn, String.toList_ofList, heq]⟩

/-- The value of one placeholder is spelled like another, and braces stand around both. -/
theorem substitution_nested :
    let root : Json := .obj [("a", .str "\x7b\x7bb\x7d\x7d"), ("b", .int 1)]
    let text := "\x7b\x7b\x7ba\x7d\x7d\x7d \x7b\x7b \x7b\x7bb\x7d\x7d \x7d\x7d"
    StandsAt text.toList 1 ['a'] ∧ StandsAt text.toList 11 ['b'] ∧
      (∃ piece, piece 1 = "\x7b\x7bb\x7d\x7d".toList ∧ piece 2 = [] ∧ piece 11 = ['1'] ∧
        (resolveIn root text).toList = (List.range text.toList.length).flatMap piece) ∧
      resolveIn root text = "\x7b\x7b\x7bb\x7d\x7d\x7d \x7b\x7b 1 \x7d\x7d" := by
  intro root text
  have first : StandsAt text.toList 1 ['a'] := ⟨by decide, by decide⟩
  have second : StandsAt text.toList 11 ['b'] := ⟨by decide, by decide⟩
  have value : Leads root ['a'] (.str "\x7b\x7bb\x7d\x7d") := lookup_eq_some_iff.mp rfl
  have number : Leads root ['b'] (.int 1) := lookup_eq_some_iff.mp rfl
  obtain ⟨piece, hpiece, heq⟩ := (substitution root text).2.1
  refine ⟨first, second, ⟨piece, ?_, ?_, ?_, heq⟩, ?_⟩
  · exact hpiece.value first value
  · exact hpiece.gone first value 2 (by decide) (by decide)
  · exact hpiece.value second number
  · decide +kernel

end Placeholder
end Parley
