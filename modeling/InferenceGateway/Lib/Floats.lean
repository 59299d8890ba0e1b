import Mathlib
/-!
# Numbers with a value that is not one

What a program that compares floating point numbers can rely on: a comparison with a NaN
is false, and the others are ordered. Nothing is said of sums and products.
-/

namespace InferenceGateway.Lib

class Floats (F : Type) where
  zero : F
  one : F
  add : F → F → F
  mul : F → F → F
  lt : F → F → Bool
  isNaN : F → Bool
  lt_numbers : ∀ a b, lt a b = true → isNaN a = false ∧ isNaN b = false
  lt_asymm : ∀ a b, lt a b = true → lt b a = false
  lt_or_lt : ∀ a b c, lt a b = true → isNaN c = false → lt a c = true ∨ lt c b = true

/-- Exact numbers, and `none` for the NaN. -/
instance : Floats (Option ℚ) where
  zero := some 0
  one := some 1
  add := Option.map₂ (· + ·)
  mul := Option.map₂ (· * ·)
  lt
    | some a, some b => decide (a < b)
    | _, _ => false
  isNaN := Option.isNone
  lt_numbers a b h := by
    cases a with
    | none => cases h
    | some a =>
      cases b with
      | none => cases h
      | some b => exact ⟨rfl, rfl⟩
  lt_asymm a b h := by
    rcases a with _ | a <;> rcases b with _ | b <;> simp_all [le_of_lt]
  lt_or_lt a b c h hc := by
    rcases a with _ | a <;> rcases b with _ | b <;> rcases c with _ | c <;> simp_all
    exact lt_or_ge a c |>.imp_right fun hca => lt_of_le_of_lt hca h

/-- With the other operations of an arithmetic, of which nothing is said either. -/
class FloatArith (F : Type) extends Floats F where
  ofInt : Int → F
  sub : F → F → F
  div : F → F → F
  /-- The nearest integer, or what the conversion makes of a NaN. -/
  round : F → Int

/-- Half a unit is rounded away from zero. -/
instance : FloatArith (Option ℚ) where
  ofInt n := some n
  sub := Option.map₂ (· - ·)
  div := Option.map₂ (· / ·)
  round
    | some a => if 0 ≤ a then (a + 1 / 2).floor else -(-a + 1 / 2).floor
    | none => -(2 ^ 63)

end InferenceGateway.Lib
