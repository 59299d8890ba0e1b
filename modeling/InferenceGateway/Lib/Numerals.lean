import Mathlib
/-!
# Numbers as they are written

The number that a list of bytes stands for, most significant byte first, and the bytes of
a number; the exact value of a number written in decimal, and the binary64 number nearest
to a value, with ties to the even one.
-/

namespace InferenceGateway.Lib

open List

/-! ## Bytes -/

def beNat (bytes : List UInt8) : Nat := bytes.foldl (fun n b => n * 256 + b.toNat) 0

/-- The last `k` bytes of a number. -/
def beBytes : Nat → Nat → List UInt8
  | 0, _ => []
  | k + 1, n => beBytes k (n / 256) ++ [UInt8.ofNat n]

theorem beNat_append_singleton (bytes : List UInt8) (b : UInt8) : beNat (bytes ++ [b]) = beNat bytes * 256 + b.toNat := by
  rw [beNat, foldl_append]
  rfl

@[simp] theorem length_beBytes (k : Nat) : ∀ n, (beBytes k n).length = k := by
  induction k with
  | zero => exact fun _ => rfl
  | succ k ih => intro n; rw [beBytes, length_append, ih]; rfl

theorem beNat_lt (bytes : List UInt8) : beNat bytes < 256 ^ bytes.length := by
  induction bytes using List.reverseRecOn with
  | nil => decide
  | append_singleton bytes b ih =>
    rw [beNat_append_singleton, length_append, length_singleton, pow_succ]
    have := b.toNat_lt
    omega

/-- A number that fits is read back. -/
theorem beNat_beBytes (k : Nat) : ∀ n, n < 256 ^ k → beNat (beBytes k n) = n := by
  induction k with
  | zero => intro n h; rw [pow_zero, Nat.lt_one_iff] at h; rw [h]; rfl
  | succ k ih =>
    intro n h
    rw [beBytes, beNat_append_singleton, ih (n / 256) (by rw [pow_succ] at h; omega), UInt8.toNat_ofNat']
    omega

/-! ## Decimals -/

def digitsValue (digits : List Char) : ℕ := digits.foldl (fun n c => 10 * n + (c.toNat - '0'.toNat)) 0

def exponentValue : List Char → ℤ
  | '-' :: digits => -digitsValue digits
  | '+' :: digits => digitsValue digits
  | digits => digitsValue digits

/-- Digits that may have a fraction and an exponent. -/
def unsignedValue (text : List Char) : ℚ :=
  let mantissa := text.takeWhile fun c => c ≠ 'e' ∧ c ≠ 'E'
  let exponent := text.drop (mantissa.length + 1)
  let whole := mantissa.takeWhile (· ≠ '.')
  let fraction := mantissa.drop (whole.length + 1)
  digitsValue (whole ++ fraction) * 10 ^ (exponentValue exponent - fraction.length)

/-- What a number literal stands for. -/
def literalValue (literal : String) : ℚ :=
  match literal.toList with
  | '-' :: text => -unsignedValue text
  | text => unsignedValue text

example : literalValue "-12.5e-1" = -5/4 ∧ literalValue "9007199254740993" = 2 ^ 53 + 1 := by decide +kernel

/-- The nearest integer, the even one of two. -/
def roundHalfEven (q : ℚ) : ℤ :=
  if q - ⌊q⌋ < 1/2 ∨ q - ⌊q⌋ = 1/2 ∧ ⌊q⌋ % 2 = 0 then ⌊q⌋ else ⌊q⌋ + 1

/-- The distance of the binary64 numbers about `q`: 52 digits after the first, which is
that of `2 ^ -1022` or a greater one. -/
def spacing (q : ℚ) : ℚ := 2 ^ (max (Int.log 2 |q|) (-1022) - 52)

/-- `none` when that is out of range. -/
def nearestBinary64 (q : ℚ) : Option ℚ :=
  let x := roundHalfEven (q / spacing q) * spacing q
  if |x| < 2 ^ 1024 then some x else none

example : nearestBinary64 (2 ^ 53 + 1) = some (2 ^ 53) ∧ nearestBinary64 (2 ^ 53 + 3) = some (2 ^ 53 + 4) ∧
    nearestBinary64 (10 ^ 400) = none := by decide +kernel

end InferenceGateway.Lib
