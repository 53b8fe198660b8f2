/-!
# Double-precision numbers

The finite numbers of the 64-bit binary format as exact data: a sign, a mantissa below `2 ^ 53` and
a power of two. Products and quotients are exact rationals rounded once, to the nearest number and
to the even mantissa on a tie, so nothing here rests on the machine's arithmetic. Powers of two and
ten come first; the ranges of other numbers are made from them, too.
-/

namespace Supervision.Number

/-- Two to the power of a number. -/
def twoTo (n : Nat) : Nat :=
  Nat.pow 2 n

/-- Ten to the power of a number. -/
def tenTo (n : Nat) : Nat :=
  Nat.pow 10 n

/-- The nearest natural number to `num / den`; of two equally near, the even one. -/
def roundDiv (num den : Nat) : Nat :=
  let quotient := num / den
  let remainder := num % den
  if den < 2 * remainder ∨ (2 * remainder = den ∧ quotient % 2 = 1) then quotient + 1 else quotient

/-- The number `± mantissa * 2 ^ exponent`. Kept normalized: the mantissa is below `2 ^ 53`, and it
is at least `2 ^ 52` unless the exponent is the least one, `-1074`. -/
structure Binary64 where
  negative : Bool
  mantissa : Nat
  exponent : Int
  deriving DecidableEq, Repr, Inhabited

namespace Binary64

def minExponent : Int := -1074

def maxExponent : Int := 971

def zero (negative : Bool) : Binary64 :=
  ⟨negative, 0, minExponent⟩

/-- `num / den` over the power of two `2 ^ e`, as a quotient of natural numbers. -/
def overPowerOfTwo (num den : Nat) (e : Int) : Nat × Nat :=
  if 0 ≤ e then (num, den * twoTo e.toNat) else (num * twoTo (-e).toNat, den)

/-- The exponent at which the mantissa of `num / den` has 53 bits, or the least exponent if that is
greater. -/
def exponentFor (num den : Nat) : Int :=
  let estimate : Int := (num.log2 : Int) - (den.log2 : Int) - 52
  let (n, d) := overPowerOfTwo num den estimate
  let e := if n / d < twoTo 52 then estimate - 1 else estimate
  max e minExponent

/-- The nearest number to `± num / den`, or `none` when it lies beyond the greatest. -/
def ofRatio (negative : Bool) (num den : Nat) : Option Binary64 :=
  if num = 0 then some (zero negative)
  else
    let e := exponentFor num den
    let (n, d) := overPowerOfTwo num den e
    let m := roundDiv n d
    let (m, e) := if m = twoTo 53 then (twoTo 52, e + 1) else (m, e)
    if maxExponent < e then none else some ⟨negative, m, e⟩

/-- The magnitude as a quotient of natural numbers. -/
def toRatio (x : Binary64) : Nat × Nat :=
  if 0 ≤ x.exponent then (x.mantissa * twoTo x.exponent.toNat, 1)
  else (x.mantissa, twoTo (-x.exponent).toNat)

def isZero (x : Binary64) : Bool :=
  x.mantissa == 0

/-- The product, rounded once. -/
def mul (x y : Binary64) : Option Binary64 :=
  let (a, b) := x.toRatio
  let (c, d) := y.toRatio
  ofRatio (x.negative != y.negative) (a * c) (b * d)

/-- The quotient by a number other than zero, rounded once. -/
def div (x y : Binary64) : Option Binary64 :=
  let (a, b) := x.toRatio
  let (c, d) := y.toRatio
  ofRatio (x.negative != y.negative) (a * d) (b * c)

/-- The nearest number to `10 ^ k`. -/
def powerOfTen (k : Nat) : Option Binary64 :=
  ofRatio false (tenTo k) 1

/-- The greatest power of ten that is a number. -/
def maxPowerOfTen : Nat := 308

/-- Divides by `10 ^ 308` until the exponent that is left is at least `-308`. -/
def scaleDown (x : Binary64) (exponent : Int) : Option Binary64 :=
  if x.isZero then some x
  else if _far : exponent < -(maxPowerOfTen : Int) then do
    let y ← x.div (← powerOfTen maxPowerOfTen)
    scaleDown y (exponent + maxPowerOfTen)
  else do
    x.div (← powerOfTen (-exponent).toNat)
  termination_by (-exponent).toNat
  decreasing_by simp only [maxPowerOfTen] at *; omega

/-- The number written as a significand and a power of ten. The significand is rounded first and
then multiplied or divided by the rounded power, so the result may differ from the nearest number by
its last bits. `none` when it lies beyond the greatest number. -/
def ofDecimal (negative : Bool) (significand : Nat) (exponent : Int) : Option Binary64 := do
  let x ← ofRatio negative significand 1
  if x.isZero then some x
  else if exponent < 0 then x.scaleDown exponent
  else if (maxPowerOfTen : Int) < exponent then none
  else x.mul (← powerOfTen exponent.toNat)

end Binary64

end Supervision.Number
