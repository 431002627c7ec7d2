/-
Placeholders in authored text.

A placeholder is a path between double braces, with no brace inside.  It stands
for the value that the path leads to: a string as it is, anything else as compact
JSON.  A placeholder that leads nowhere stays as it is written, and what is put in
is not searched again.

* `parts` — a text as characters and placeholders;
* `written_parts` — the parts of a text spell the text;
* `resolveIn`, `resolve` — the text with its placeholders replaced.
-/
import Parley.Context
import Parley.Json.Printer

namespace Parley.Placeholder

/-- The brace-free characters before the next two closing braces, and what follows
these. -/
def content? : List Char → Option (List Char × List Char)
  | [] => none
  | c :: rest =>
    if c = '\x7d' then
      match rest with
      | '\x7d' :: rest => some ([], rest)
      | _ => none
    else if c = '\x7b' then none
    else (content? rest).map fun (content, rest) => (c :: content, rest)

def braced (content : List Char) : List Char :=
  '\x7b' :: '\x7b' :: content ++ ['\x7d', '\x7d']

theorem content?_eq_some {cs content rest : List Char} (h : content? cs = some (content, rest)) :
    cs = content ++ '\x7d' :: '\x7d' :: rest := by
  induction cs generalizing content with
  | nil => simp [content?] at h
  | cons c cs ih =>
    rw [content?.eq_def] at h
    simp only at h
    split at h
    -- The first closing brace must be followed by the second.
    · rename_i hc
      split at h
      · simp only [Option.some.injEq, Prod.mk.injEq] at h
        obtain ⟨rfl, rfl⟩ := h
        simp [hc]
      · exact absurd h (by simp)
    -- Any other character but an opening brace belongs to the content.
    · split at h
      · exact absurd h (by simp)
      · obtain ⟨⟨content', rest'⟩, hrest, heq⟩ := Option.map_eq_some_iff.mp h
        simp only [Prod.mk.injEq] at heq
        obtain ⟨rfl, rfl⟩ := heq
        simp [ih hrest]

inductive Part where
  | plain (c : Char)
  | placeholder (content : List Char)

/-- Read from the left; a brace that opens no placeholder is a plain character. -/
def parts : List Char → List Part
  | [] => []
  | c :: rest =>
    match _h : (if c = '\x7b' ∧ rest.head? = some '\x7b' then content? rest.tail else none) with
    | some (content, after) => .placeholder content :: parts after
    | none => .plain c :: parts rest
  termination_by cs => cs.length
  decreasing_by
    · split at _h
      · have := congrArg List.length (content?_eq_some _h)
        simp at this ⊢
        omega
      · exact absurd _h (by simp)
    · simp

/-- How a part is spelled in the text. -/
def Part.written : Part → List Char
  | plain c => [c]
  | placeholder content => braced content

theorem written_parts (cs : List Char) : (parts cs).flatMap Part.written = cs := by
  fun_induction parts cs with
  | case1 => rfl
  | case2 c rest content after h ih =>
    split at h
    · rename_i hc
      obtain ⟨hc, hhead⟩ := hc
      cases rest with
      | nil => simp at hhead
      | cons d rest =>
        simp only [List.head?_cons, Option.some.injEq] at hhead
        have := content?_eq_some h
        simp only [List.tail_cons] at this
        simp [Part.written, braced, ih, hc, hhead, this]
    · exact absurd h (by simp)
  | case3 c rest h ih => simp [Part.written, ih]

/-- Follow a path through objects by key and through arrays by position. -/
def walk : Json → List String → Option Json
  | v, [] => some v
  | .obj fields, key :: path => (Entries.get? key fields).bind (walk · path)
  | .arr items, position :: path =>
    ((Text.natural? Text.uint64Max position).bind fun i => items[i]?).bind (walk · path)
  | _, _ :: _ => none

/-- The value meant by what stands between the braces. -/
def lookup (root : Json) (content : List Char) : Option Json :=
  let path := Text.trimChars content
  if path.isEmpty then none else walk root (Text.splitOn '.' (String.ofList path))

def render : Json → String
  | .str s => s
  | v => v.compact

def Part.resolved (root : Json) : Part → List Char
  | plain c => [c]
  | placeholder content =>
    match lookup root content with
    | some v => (render v).toList
    | none => braced content

/-- The text with its placeholders replaced by values under `root`. -/
def resolveIn (root : Json) (text : String) : String :=
  String.ofList ((parts text.toList).flatMap (Part.resolved root))

/-- The text with its placeholders replaced by values of the context.  A text
without double braces needs no look at the context. -/
def resolve (ctx : Context) (text : String) : String :=
  if Text.occursIn "\x7b\x7b" text then resolveIn ctx.toJson text else text

end Parley.Placeholder
