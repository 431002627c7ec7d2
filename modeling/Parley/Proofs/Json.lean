/-
When two JSON values count as the same.

`Json.same` is the equality that decides whether a variable has changed.  It is symmetric
and transitive but not reflexive, since a value that is not a number is not even the same as
itself; `Json.Alike` adds what is missing.

* `Json.same_comm`, `Json.same_trans` — floating-point numbers included;
* `Json.Alike.symm`, `Json.Alike.trans` — so `Json.Alike` is an equivalence.
-/
import Mathlib
import Parley.Json.Basic

namespace Parley

namespace Json

/-- Comparing floating-point numbers does not depend on the order. -/
theorem float_beq_comm (x y : Float) : (x == y) = (y == x) := by
  rw [Bool.eq_iff_iff, Float.beq_iff_ne_nan_and_eq, Float.beq_iff_ne_nan_and_eq]
  constructor <;> grind

theorem float_beq_trans {x y z : Float} (h : (x == y) = true) (h' : (y == z) = true) :
    (x == z) = true := by
  rw [Float.beq_iff_ne_nan_and_eq] at *
  grind

mutual

theorem same_comm : ∀ a b : Json, a.same b = b.same a
  | null, b | bool _, b | int _, b | str _, b => by
    cases b <;> simp [same, Bool.beq_comm]
  | float x, b => by
    cases b with
    | float y => exact float_beq_comm x y
    | _ => rfl
  | arr as, b => by
    cases b with
    | arr bs => exact sameItems_comm as bs
    | _ => rfl
  | obj as, b => by
    cases b with
    | obj bs => exact sameFields_comm as bs
    | _ => rfl

theorem sameItems_comm : ∀ as bs : List Json, sameItems as bs = sameItems bs as
  | [], [] | [], _ :: _ | _ :: _, [] => rfl
  | a :: as, b :: bs => by rw [sameItems, sameItems, same_comm a b, sameItems_comm as bs]

theorem sameFields_comm :
    ∀ as bs : List (String × Json), sameFields as bs = sameFields bs as
  | [], [] | [], _ :: _ | _ :: _, [] => rfl
  | (k, a) :: as, (l, b) :: bs => by
    rw [sameFields, sameFields, same_comm a b, sameFields_comm as bs, Bool.beq_comm (a := k)]

end

mutual

theorem same_trans : ∀ a b c : Json, a.same b = true → b.same c = true → a.same c = true
  | null, b, c | bool _, b, c | int _, b, c | str _, b, c => by
    cases b <;> cases c <;> simp_all [same]
  | float x, b, c => by
    cases b with
    | float y =>
      cases c with
      | float z => exact float_beq_trans
      | _ => exact fun _ h' => absurd h' (by simp [same])
    | _ => exact fun h => absurd h (by simp [same])
  | arr as, b, c => by
    cases b with
    | arr bs =>
      cases c with
      | arr cs => exact sameItems_trans as bs cs
      | _ => exact fun _ h' => absurd h' (by simp [same])
    | _ => exact fun h => absurd h (by simp [same])
  | obj as, b, c => by
    cases b with
    | obj bs =>
      cases c with
      | obj cs => exact sameFields_trans as bs cs
      | _ => exact fun _ h' => absurd h' (by simp [same])
    | _ => exact fun h => absurd h (by simp [same])

theorem sameItems_trans : ∀ as bs cs : List Json,
    sameItems as bs = true → sameItems bs cs = true → sameItems as cs = true
  | [], [], [] => fun _ _ => rfl
  | [], _ :: _, _ | _ :: _, [], _ => fun h => absurd h (by simp [sameItems])
  | _, [], _ :: _ | _, _ :: _, [] => fun _ h' => absurd h' (by simp [sameItems])
  | a :: as, b :: bs, c :: cs => by
    simp only [sameItems, Bool.and_eq_true]
    rintro ⟨h, hs⟩ ⟨h', hs'⟩
    exact ⟨same_trans a b c h h', sameItems_trans as bs cs hs hs'⟩

theorem sameFields_trans : ∀ as bs cs : List (String × Json),
    sameFields as bs = true → sameFields bs cs = true → sameFields as cs = true
  | [], [], [] => fun _ _ => rfl
  | [], _ :: _, _ | _ :: _, [], _ => fun h => absurd h (by simp [sameFields])
  | _, [], _ :: _ | _, _ :: _, [] => fun _ h' => absurd h' (by simp [sameFields])
  | (k, a) :: as, (l, b) :: bs, (_, c) :: cs => by
    simp only [sameFields, Bool.and_eq_true, beq_iff_eq]
    rintro ⟨⟨rfl, h⟩, hs⟩ ⟨⟨rfl, h'⟩, hs'⟩
    exact ⟨⟨rfl, same_trans a b c h h'⟩, sameFields_trans as bs cs hs hs'⟩

end

/-- Identical values, or values that compare as the same. -/
def Alike (a b : Json) : Prop := a = b ∨ a.same b = true

namespace Alike

variable {a b c : Json}

theorem refl (a : Json) : a.Alike a := .inl rfl

theorem symm (h : a.Alike b) : b.Alike a := by
  rcases h with rfl | h
  · exact .refl a
  · exact .inr (same_comm a b ▸ h)

theorem trans (h : a.Alike b) (h' : b.Alike c) : a.Alike c := by
  rcases h with rfl | h
  · exact h'
  · rcases h' with rfl | h'
    · exact .inr h
    · exact .inr (same_trans a b c h h')

end Alike

end Json

end Parley
