/-
What is left of the placeholders of a text.

* `Placeholder.Tidy` — every brace of the text belongs to a placeholder;
* `Placeholder.Settled` — every two opening braces begin a placeholder that leads nowhere;
* `Placeholder.settled_resolve` — a tidy text is settled once it has been resolved, if the values
  put in have no braces in their strings;
* `Placeholder.unresolvedIn_append_iff` — in a settled text nothing stands that could have
  been resolved, nor across the end of it.

Design notes: values that are no strings are put in as JSON, which has braces of its own.  An
opening brace of an object is followed by a quote or by the closing brace, never by another
opening brace, so `Placeholder.Loose` is what is known of the text of a value.
-/
import Parley.Placeholder
import Parley.Proofs.Document.Printed

namespace Parley

namespace Placeholder

def isBrace (c : Char) : Bool := c == '\x7b' || c == '\x7d'

def BraceFree (cs : List Char) : Prop := ∀ c ∈ cs, isBrace c = false

-- Characters are finite in number, but only those of the text are to be looked at.
instance (cs : List Char) : Decidable (BraceFree cs) := List.decidableBAll _ cs

/-- Every brace of the text belongs to a placeholder. -/
inductive Tidy : List Char → Prop where
  | nil : Tidy []
  | plain {c : Char} {cs : List Char} (hc : isBrace c = false) (h : Tidy cs) : Tidy (c :: cs)
  | placeholder {content cs : List Char} (hcontent : BraceFree content) (h : Tidy cs) :
      Tidy (braced content ++ cs)

/-- Somewhere among the characters stands a placeholder that leads to a value, and so could have
been resolved. -/
def UnresolvedIn (root : Json) (cs : List Char) : Prop :=
  ∃ content, BraceFree content ∧ (lookup root content).isSome = true ∧ braced content <:+: cs

def Unresolved (root : Json) (text : String) : Prop := UnresolvedIn root text.toList

end Placeholder

namespace Json

open Placeholder (BraceFree)

mutual

/-- No string inside has a brace, and no key either. -/
def IsBraceFree : Json → Prop
  | str s => BraceFree s.toList
  | arr items => AreBraceFree items
  | obj fields => HaveBraceFree fields
  | _ => True

def AreBraceFree : List Json → Prop
  | [] => True
  | item :: rest => IsBraceFree item ∧ AreBraceFree rest

def HaveBraceFree : List (String × Json) → Prop
  | [] => True
  | (key, value) :: rest => BraceFree key.toList ∧ IsBraceFree value ∧ HaveBraceFree rest

end

mutual

def decideBraceFree : ∀ j : Json, Decidable j.IsBraceFree
  | null | bool _ | int _ | float _ => isTrue trivial
  | str s => inferInstanceAs (Decidable (BraceFree s.toList))
  | arr items => decideAreBraceFree items
  | obj fields => decideHaveBraceFree fields

def decideAreBraceFree : ∀ items : List Json, Decidable (AreBraceFree items)
  | [] => isTrue trivial
  | item :: rest =>
    have := decideBraceFree item
    have := decideAreBraceFree rest
    inferInstanceAs (Decidable (IsBraceFree item ∧ AreBraceFree rest))

def decideHaveBraceFree : ∀ fields : List (String × Json), Decidable (HaveBraceFree fields)
  | [] => isTrue trivial
  | (key, value) :: rest =>
    have := decideBraceFree value
    have := decideHaveBraceFree rest
    inferInstanceAs (Decidable (BraceFree key.toList ∧ IsBraceFree value ∧ HaveBraceFree rest))

end

instance : DecidablePred IsBraceFree := decideBraceFree

end Json

namespace Placeholder

variable {root : Json} {cs ds content : List Char}

/-! ### Texts without two opening braces in a row -/

/-- Every opening brace is followed by something else in the text. -/
inductive Loose : List Char → Prop where
  | nil : Loose []
  | plain {c : Char} {cs : List Char} (hc : c ≠ '\x7b') (h : Loose cs) : Loose (c :: cs)
  | brace {c : Char} {cs : List Char} (hc : c ≠ '\x7b') (h : Loose (c :: cs)) :
      Loose ('\x7b' :: c :: cs)

namespace Loose

theorem of_not_mem (h : '\x7b' ∉ cs) : Loose cs := by
  induction cs with
  | nil => exact .nil
  | cons c rest ih =>
    have hc : c ≠ '\x7b' := fun heq => h (heq ▸ List.mem_cons_self)
    exact .plain hc (ih fun hmem => h (List.mem_cons_of_mem c hmem))

theorem of_braceFree (h : BraceFree cs) : Loose cs :=
  of_not_mem fun hmem => Bool.false_ne_true (h _ hmem).symm

theorem append (h : Loose cs) (h' : Loose ds) : Loose (cs ++ ds) := by
  induction h with
  | nil => exact h'
  | plain hc _ ih => exact .plain hc ih
  | brace hc _ ih => exact .brace hc ih

end Loose

/-! ### The text of a value -/

theorem not_mem_toDigits (n : Nat) : '\x7b' ∉ Nat.toDigits 10 n := fun hmem =>
  absurd (Nat.isDigit_of_mem_toDigits (by decide) (by decide) hmem) (by decide)

theorem not_mem_toString (n : Int) : '\x7b' ∉ (toString n).toList := fun hmem =>
  absurd (Text.isNumeric_toString hmem) (by decide)

theorem not_mem_append {cs ds : List Char} (h : '\x7b' ∉ cs) (h' : '\x7b' ∉ ds) :
    '\x7b' ∉ cs ++ ds := fun hmem => (List.mem_append.mp hmem).elim h h'

theorem not_mem_zeros (n : Nat) : '\x7b' ∉ List.replicate n '0' := fun hmem =>
  absurd (List.eq_of_mem_replicate hmem) (by decide)

/-- Laying out digits adds zeros, a point and an exponent. -/
theorem not_mem_layOut {digits : List Char} (h : '\x7b' ∉ digits) (exponent : Int) :
    '\x7b' ∉ (Decimal.layOut digits exponent).toList := by
  rw [Decimal.layOut.eq_def]
  dsimp only
  split
  · rw [String.toList_append, String.toList_ofList]
    exact not_mem_append (not_mem_append h (not_mem_zeros _)) (by decide)
  · split
    · rw [String.toList_ofList]
      refine not_mem_append (fun hmem => h (List.mem_of_mem_take hmem)) fun hmem => ?_
      rcases List.mem_cons.mp hmem with heq | hmem
      · exact absurd heq (by decide)
      · exact h (List.mem_of_mem_drop hmem)
    · split
      · simp only [String.toList_append, String.toList_ofList]
        exact not_mem_append (by decide) (not_mem_append (not_mem_zeros _) h)
      · rw [String.toList_append, String.toList_append, String.toList_ofList]
        refine not_mem_append (not_mem_append ?_ ?_) (not_mem_toString _)
        · cases digits with
          | nil => exact h
          | cons d rest =>
            cases rest with
            | nil => exact h
            | cons d' rest =>
              simp only [List.mem_cons, not_or] at h ⊢
              exact ⟨h.1, by decide, h.2⟩
        · split <;> decide

theorem not_mem_float (x : Float) : '\x7b' ∉ (Decimal.text x).toList := by
  have digits := not_mem_layOut (not_mem_toDigits (Decimal.Binary.ofFloat x).shortest.coefficient)
    (Decimal.Binary.ofFloat x).shortest.exponent
  have magnitude : '\x7b' ∉ (if x == 0.0 then "0.0" else
      Decimal.layOut (Nat.toDigits 10 (Decimal.Binary.ofFloat x).shortest.coefficient)
        (Decimal.Binary.ofFloat x).shortest.exponent).toList := by
    split
    · decide
    · exact digits
  rw [Decimal.text]
  dsimp only
  split
  · rw [String.toList_append]
    exact fun hmem => (List.mem_append.mp hmem).elim (by decide) magnitude
  · exact magnitude

theorem not_mem_escape {c : Char} (h : isBrace c = false) : '\x7b' ∉ Json.escape c := by
  have hex : ∀ n < 16, '\x7b' ≠ Json.hexDigit n := by decide
  have hc : '\x7b' ≠ c := fun heq => absurd (heq ▸ h) (by decide)
  rw [Json.escape]
  repeat' split
  · decide
  · decide
  · decide
  · decide
  · decide
  · decide
  · decide
  · rename_i hcontrol
    have high := hex (c.toNat / 16) (by omega)
    have low := hex (c.toNat % 16) (Nat.mod_lt _ (by decide))
    simp [high, low]
  · exact fun hmem => hc (List.mem_singleton.mp hmem)

theorem loose_quote {s : String} (h : BraceFree s.toList) : Loose (Json.quote s).toList := by
  refine .of_not_mem fun hmem => ?_
  rw [Json.toList_quote] at hmem
  rcases List.mem_cons.mp hmem with heq | hmem
  · exact absurd heq (by decide)
  · rcases List.mem_append.mp hmem with hmem | hmem
    · obtain ⟨c, hc, hmem⟩ := List.mem_flatMap.mp hmem
      exact not_mem_escape (h c hc) hmem
    · exact absurd hmem (by decide)

mutual

/-- Braces come into the text of a value around members, which begin with a quote. -/
theorem loose_compact : ∀ j : Json, j.IsBraceFree → Loose j.compact.toList
  | .null, _ | .bool true, _ | .bool false, _ => .of_not_mem (by decide)
  | .int n, _ => .of_not_mem (not_mem_toString n)
  | .float x, _ => .of_not_mem (not_mem_float x)
  | .str s, h => loose_quote h
  | .arr items, h => by
    rw [Json.toList_compact_arr]
    exact .plain (by decide) ((loose_itemsText items h).append (.plain (by decide) .nil))
  | .obj fields, h => by
    have inner : Loose (Json.fieldsText fields ++ ['\x7d']) :=
      (loose_fieldsText fields h).append (.plain (by decide) .nil)
    rw [Json.toList_compact_obj]
    cases fields with
    | nil => exact .brace (by decide) inner
    | cons field rest =>
      obtain ⟨cs, hhead⟩ := Document.head_fieldsText field rest
      rw [hhead] at inner ⊢
      exact .brace (by decide) inner

theorem loose_itemsText : ∀ items : List Json, Json.AreBraceFree items →
    Loose (Json.itemsText items)
  | [], _ => .nil
  | [item], h => by
    rw [Json.itemsText_singleton]
    exact loose_compact item h.1
  | item :: next :: rest, h => by
    rw [Json.itemsText_cons_cons]
    exact (loose_compact item h.1).append
      (.plain (by decide) (loose_itemsText (next :: rest) h.2))

theorem loose_fieldsText : ∀ fields : List (String × Json), Json.HaveBraceFree fields →
    Loose (Json.fieldsText fields)
  | [], _ => .nil
  | [(key, value)], h => by
    rw [Json.fieldsText_singleton]
    exact (loose_quote h.1).append (.plain (by decide) (loose_compact value h.2.1))
  | (key, value) :: next :: rest, h => by
    rw [Json.fieldsText_cons_cons]
    exact (loose_quote h.1).append (.plain (by decide) ((loose_compact value h.2.1).append
      (.plain (by decide) (loose_fieldsText (next :: rest) h.2.2))))

end

theorem loose_render {j : Json} (h : j.IsBraceFree) : Loose (render j).toList := by
  cases j with
  | str s => exact .of_braceFree h
  | _ => exact loose_compact _ h

/-! ### Tidy texts -/

theorem content?_braceFree (h : BraceFree content) (cs : List Char) :
    content? (content ++ '\x7d' :: '\x7d' :: cs) = some (content, cs) := by
  induction content with
  | nil => rfl
  | cons c rest ih =>
    obtain ⟨hc, hrest⟩ := List.forall_mem_cons.mp h
    simp only [isBrace, Bool.or_eq_false_iff, beq_eq_false_iff_ne] at hc
    rw [List.cons_append, content?.eq_def]
    dsimp only
    rw [if_neg hc.2, if_neg hc.1, ih hrest]
    rfl

theorem braced_append (content cs : List Char) :
    braced content ++ cs = '\x7b' :: '\x7b' :: (content ++ '\x7d' :: '\x7d' :: cs) := by
  simp [braced]

theorem parts_plain {c : Char} (h : isBrace c = false) (cs : List Char) :
    parts (c :: cs) = .plain c :: parts cs := by
  have hc : c ≠ '\x7b' := fun heq => absurd (heq ▸ h) (by decide)
  rw [parts]
  split
  · rename_i hfound
    rw [if_neg fun hopen => hc hopen.1] at hfound
    exact absurd hfound (by simp)
  · rfl

theorem parts_braced (h : BraceFree content) (cs : List Char) :
    parts (braced content ++ cs) = .placeholder content :: parts cs := by
  have found := content?_braceFree h cs
  rw [braced_append, parts]
  split
  · rename_i hfound
    rw [if_pos ⟨rfl, rfl⟩] at hfound
    obtain ⟨rfl, rfl⟩ := Prod.mk.inj (Option.some.inj (found.symm.trans hfound))
    rfl
  · rename_i hfound
    rw [if_pos ⟨rfl, rfl⟩] at hfound
    exact absurd (found.symm.trans hfound) (by simp)

/-- A part that brings no brace but those around a placeholder. -/
def Part.IsTidy : Part → Prop
  | plain c => isBrace c = false
  | placeholder content => BraceFree content

instance : DecidablePred Part.IsTidy := fun part =>
  match part with
  | .plain c => inferInstanceAs (Decidable (isBrace c = false))
  | .placeholder content => inferInstanceAs (Decidable (BraceFree content))

theorem tidy_iff : Tidy cs ↔ ∀ part ∈ parts cs, part.IsTidy := by
  constructor
  · intro h
    induction h with
    | nil =>
      rw [parts]
      exact fun part hpart => absurd hpart List.not_mem_nil
    | plain hc _ ih =>
      rw [parts_plain hc]
      exact List.forall_mem_cons.mpr ⟨hc, ih⟩
    | placeholder hcontent _ ih =>
      rw [parts_braced hcontent]
      exact List.forall_mem_cons.mpr ⟨hcontent, ih⟩
  · intro h
    rw [← written_parts cs]
    generalize parts cs = found at h
    induction found with
    | nil => exact .nil
    | cons part rest ih =>
      obtain ⟨hpart, hrest⟩ := List.forall_mem_cons.mp h
      rw [List.flatMap_cons]
      cases part with
      | plain c => exact .plain hpart (ih hrest)
      | placeholder content => exact .placeholder hpart (ih hrest)

instance (cs : List Char) : Decidable (Tidy cs) := decidable_of_iff _ tidy_iff.symm

/-- A tidy text without two opening braces in a row has no braces. -/
theorem Tidy.braceFree (h : Tidy cs)
    (hnone : Text.occursInChars ['\x7b', '\x7b'] cs = false) : BraceFree cs := by
  induction h with
  | nil => exact fun c hc => absurd hc List.not_mem_nil
  | plain hc _ ih =>
    rw [Text.occursInChars, Bool.or_eq_false_iff] at hnone
    exact List.forall_mem_cons.mpr ⟨hc, ih hnone.2⟩
  | placeholder => exact absurd hnone (by simp [braced, Text.occursInChars])

/-! ### Settled texts -/

/-- Every two opening braces in a row begin a placeholder that leads nowhere. -/
inductive Settled (root : Json) : List Char → Prop where
  | nil : Settled root []
  | plain {c : Char} {cs : List Char} (hc : c ≠ '\x7b') (h : Settled root cs) :
      Settled root (c :: cs)
  | brace {c : Char} {cs : List Char} (hc : c ≠ '\x7b') (h : Settled root (c :: cs)) :
      Settled root ('\x7b' :: c :: cs)
  | placeholder {content cs : List Char} (hcontent : BraceFree content)
      (hlookup : lookup root content = none) (h : Settled root cs) :
      Settled root (braced content ++ cs)

namespace Settled

theorem loose_append (h : Loose cs) (h' : Settled root ds) : Settled root (cs ++ ds) := by
  induction h with
  | nil => exact h'
  | plain hc _ ih => exact .plain hc ih
  | brace hc _ ih => exact .brace hc ih

end Settled

/-! ### Values under a root -/

theorem isBraceFree_of_mem {items : List Json} (h : Json.AreBraceFree items) :
    ∀ item ∈ items, item.IsBraceFree := by
  induction items with
  | nil => exact fun item hitem => absurd hitem List.not_mem_nil
  | cons item rest ih => exact List.forall_mem_cons.mpr ⟨h.1, ih h.2⟩

theorem isBraceFree_of_get? {fields : List (String × Json)} {key : String} {value : Json}
    (h : Json.HaveBraceFree fields) (hget : Entries.get? key fields = some value) :
    value.IsBraceFree := by
  induction fields with
  | nil => exact absurd hget (by simp)
  | cons field rest ih =>
    obtain ⟨key', value'⟩ := field
    rw [Entries.get?_cons] at hget
    split at hget
    · exact Option.some.inj hget ▸ h.2.1
    · exact ih h.2.2 hget

theorem isBraceFree_walk {path : List String} {value : Json} (hroot : root.IsBraceFree)
    (h : walk root path = some value) : value.IsBraceFree := by
  induction path generalizing root with
  | nil =>
    rw [walk] at h
    exact Option.some.inj h ▸ hroot
  | cons key path ih =>
    cases root with
    | obj fields =>
      obtain ⟨value', hget, h⟩ := Option.bind_eq_some_iff.mp h
      exact ih (isBraceFree_of_get? hroot hget) h
    | arr items =>
      obtain ⟨value', hget, h⟩ := Option.bind_eq_some_iff.mp h
      obtain ⟨i, -, hitem⟩ := Option.bind_eq_some_iff.mp hget
      exact ih (isBraceFree_of_mem hroot _ (List.mem_of_getElem? hitem)) h
    | _ => exact absurd h nofun

theorem isBraceFree_lookup {value : Json} (hroot : root.IsBraceFree)
    (h : lookup root content = some value) : value.IsBraceFree := by
  rw [lookup] at h
  split at h
  · exact absurd h (by simp)
  · exact isBraceFree_walk hroot h

/-! ### What is left -/

/-- A tidy text is settled once its placeholders have been replaced. -/
theorem settled_resolved (hroot : root.IsBraceFree) (h : Tidy cs) :
    Settled root ((parts cs).flatMap (Part.resolved root)) := by
  induction h with
  | nil =>
    rw [parts]
    exact .nil
  | @plain c _ hc _ ih =>
    have hne : c ≠ '\x7b' := fun heq => absurd (heq ▸ hc) (by decide)
    rw [parts_plain hc, List.flatMap_cons]
    exact .plain hne ih
  | @placeholder content cs hcontent _ ih =>
    rw [parts_braced hcontent, List.flatMap_cons, Part.resolved]
    cases hlookup : lookup root content with
    | none => exact .placeholder hcontent hlookup ih
    | some value => exact .loose_append (loose_render (isBraceFree_lookup hroot hlookup)) ih

theorem settled_resolve {ctx : Context} {text : String} (hroot : ctx.toJson.IsBraceFree)
    (h : Tidy text.toList) : Settled ctx.toJson (resolve ctx text).toList := by
  rw [resolve]
  split
  · rw [resolveIn, String.toList_ofList]
    exact settled_resolved hroot h
  · rename_i hnone
    have braceFree := h.braceFree (Bool.eq_false_iff.mpr hnone)
    have loose : Settled ctx.toJson (text.toList ++ []) :=
      .loose_append (.of_braceFree braceFree) .nil
    rwa [List.append_nil] at loose

/-- Placeholders begin with an opening brace. -/
theorem infix_of_cons {c : Char} (hc : c ≠ '\x7b') (h : braced content <:+: c :: cs) :
    braced content <:+: cs := by
  rcases List.infix_cons_iff.mp h with hfirst | hlater
  · exact absurd (List.cons_prefix_cons.mp hfirst).1.symm hc
  · exact hlater

theorem infix_of_append {ds : List Char} (hcs : '\x7b' ∉ cs) (h : braced content <:+: cs ++ ds) :
    braced content <:+: ds := by
  induction cs with
  | nil => exact h
  | cons c rest ih =>
    have hc : c ≠ '\x7b' := fun heq => hcs (heq ▸ List.mem_cons_self)
    exact ih (fun hmem => hcs (List.mem_cons_of_mem c hmem)) (infix_of_cons hc h)

/-- Placeholders begin with two. -/
theorem infix_of_brace {c : Char} (hc : c ≠ '\x7b') (h : braced content <:+: '\x7b' :: c :: cs) :
    braced content <:+: cs := by
  rcases List.infix_cons_iff.mp h with hfirst | hlater
  · have hsecond := (List.cons_prefix_cons.mp hfirst).2
    exact absurd (List.cons_prefix_cons.mp hsecond).1.symm hc
  · exact infix_of_cons hc hlater

/-- What begins with a placeholder begins with no other. -/
theorem content_eq_of_starts {content' : List Char} (h : BraceFree content)
    (h' : BraceFree content') (hfirst : braced content <+: braced content' ++ cs) :
    content = content' := by
  obtain ⟨rest, heq⟩ := hfirst
  have tails : content ++ '\x7d' :: '\x7d' :: rest = content' ++ '\x7d' :: '\x7d' :: cs := by
    simpa [braced_append] using heq
  have found := content?_braceFree h rest
  rw [tails, content?_braceFree h' cs] at found
  exact (Prod.mk.inj (Option.some.inj found)).1.symm

/-- A placeholder that leads to a value is not found in a settled text, nor across its end. -/
theorem Settled.infix_of_append (hcs : Settled root cs) (h : BraceFree content)
    (hlookup : (lookup root content).isSome = true) (hshown : braced content <:+: cs ++ ds) :
    braced content <:+: ds := by
  induction hcs with
  | nil => exact hshown
  | plain hc _ ih => exact ih (infix_of_cons hc hshown)
  | brace hc h' ih => exact ih ((infix_of_brace hc hshown).trans (List.infix_cons List.infix_rfl))
  | @placeholder content' cs' hcontent' hnowhere _ ih =>
    rw [List.append_assoc] at hshown
    have braceless : '\x7b' ∉ content' := fun hmem => Bool.false_ne_true (hcontent' _ hmem).symm
    rw [braced_append] at hshown
    rcases List.infix_cons_iff.mp hshown with hfirst | hlater
    · rw [← braced_append] at hfirst
      obtain rfl := content_eq_of_starts h hcontent' hfirst
      rw [hnowhere] at hlookup
      exact absurd hlookup Bool.false_ne_true
    · refine ih ?_
      cases content' with
      | nil => exact infix_of_cons (by decide) (infix_of_brace (by decide) hlater)
      | cons c rest =>
        have hc : c ≠ '\x7b' := fun heq => braceless (heq ▸ List.mem_cons_self)
        have closed := Placeholder.infix_of_append
          (fun hmem => braceless (List.mem_cons_of_mem c hmem)) (infix_of_brace hc hlater)
        exact infix_of_cons (by decide) (infix_of_cons (by decide) closed)

/-- A settled text adds nothing to what a text after it shows. -/
theorem unresolvedIn_append_iff (h : Settled root cs) : UnresolvedIn root (cs ++ ds) ↔ UnresolvedIn root ds := by
  constructor
  · rintro ⟨content, hcontent, hlookup, hshown⟩
    exact ⟨content, hcontent, hlookup, h.infix_of_append hcontent hlookup hshown⟩
  · rintro ⟨content, hcontent, hlookup, hshown⟩
    exact ⟨content, hcontent, hlookup, hshown.trans (List.suffix_append cs ds).isInfix⟩

theorem not_unresolvedIn (h : Settled root cs) : ¬ UnresolvedIn root cs := by
  rw [← List.append_nil cs, unresolvedIn_append_iff h]
  rintro ⟨content, -, -, hshown⟩
  exact absurd (List.infix_nil.mp hshown) nofun

end Placeholder
end Parley
