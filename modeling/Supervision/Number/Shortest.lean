import Supervision.Number.Binary64

/-!
# Shortest decimals

The fewest decimal digits that read back as a given double, nearest to it among those. For each
number of digits the two neighbours of the value on that decimal grid are tested against the
interval of reals that round to it: if any point of the grid lies in the interval, one of the two
does. Where the digits are put is a separate matter, decided by a `Layout`.
-/

namespace Supervision.Number

/-- The decimal `digits * 10 ^ exponent`. -/
structure Decimal where
  digits : Nat
  exponent : Int
  deriving DecidableEq, Repr, Inhabited

namespace Decimal

/-- `a * 2 ^ p ≤ b * 10 ^ q`, decided in natural numbers. -/
def binaryLeDecimal (a : Nat) (p : Int) (b : Nat) (q : Int) : Bool :=
  a * twoTo p.toNat * tenTo (-q).toNat ≤ b * tenTo q.toNat * twoTo (-p).toNat

/-- `b * 10 ^ q ≤ a * 2 ^ p`, decided in natural numbers. -/
def decimalLeBinary (b : Nat) (q : Int) (a : Nat) (p : Int) : Bool :=
  b * tenTo q.toNat * twoTo (-p).toNat ≤ a * twoTo p.toNat * tenTo (-q).toNat

/-- The reals that round to `mantissa * 2 ^ exponent`: a quarter of the unit is the scale, the lower
half-gap is shorter below a power of two, and the ends belong to it when the mantissa is even. -/
structure Interval where
  low : Nat
  high : Nat
  exponent : Int
  closed : Bool

/-- The interval of a double other than zero. -/
def Interval.of (x : Binary64) : Interval where
  low :=
    if x.mantissa = twoTo 52 ∧ Binary64.minExponent < x.exponent then 4 * x.mantissa - 1
    else 4 * x.mantissa - 2
  high := 4 * x.mantissa + 2
  exponent := x.exponent - 2
  closed := x.mantissa % 2 == 0

def Interval.contains (i : Interval) (d : Decimal) : Bool :=
  if i.closed then
    binaryLeDecimal i.low i.exponent d.digits d.exponent
      && decimalLeBinary d.digits d.exponent i.high i.exponent
  else
    !decimalLeBinary d.digits d.exponent i.low i.exponent
      && !binaryLeDecimal i.high i.exponent d.digits d.exponent

/-- The greatest `k` with `10 ^ k` at most the magnitude of a double other than zero. -/
def floorLogTen (x : Binary64) : Int :=
  let estimate := ((x.mantissa.log2 : Int) + x.exponent) * 30103 / 100000
  let fits (k : Int) := decimalLeBinary 1 k x.mantissa x.exponent
  if fits (estimate + 1) then estimate + 1
  else if fits estimate then estimate
  else estimate - 1

/-- The value's lower neighbour on the grid of multiples of `10 ^ q`, and whether the upper one is
nearer: compared by twice the distance, the even one on a tie. -/
def neighbour (x : Binary64) (q : Int) : Nat × Bool :=
  let num := x.mantissa * twoTo x.exponent.toNat * tenTo (-q).toNat
  let den := tenTo q.toNat * twoTo (-x.exponent).toNat
  let below := num / den
  (below, roundDiv num den ≠ below)

/-- The decimal with `n` significant digits that reads back as `x` and is nearest to it, if any. -/
def withDigits? (x : Binary64) (i : Interval) (k : Int) (n : Nat) : Option Decimal :=
  let q := k - (n - 1 : Nat)
  let (below, upperNearer) := neighbour x q
  let lower : Decimal := ⟨below, q⟩
  let upper : Decimal := ⟨below + 1, q⟩
  match i.contains lower, i.contains upper with
  | true, true => some (if upperNearer then upper else lower)
  | true, false => some lower
  | false, true => some upper
  | false, false => none

/-- The shortest decimal that reads back as a double other than zero. Seventeen digits always do. -/
def shortest (x : Binary64) : Decimal :=
  let i := Interval.of x
  let k := floorLogTen x
  match (List.range 17).findSome? (fun n => withDigits? x i k (n + 1)) with
  | some d => d
  | none => ⟨0, 0⟩

end Decimal

/-- Where the digits of a decimal go. Positional between two bounds on the exponent of the first
digit, scientific outside them. -/
structure Layout where
  /-- The least exponent of the first digit that is written positionally. -/
  positionalFrom : Int
  /-- The least exponent of the first digit above that which is not. -/
  positionalBelow : Int
  /-- A whole number ends in a point and a zero. -/
  wholeEnds : String
  /-- What stands before a positive exponent. -/
  positiveExponent : String
  deriving Repr

namespace Layout

def zeros (n : Nat) : List Char :=
  List.replicate n '0'

/-- Digits written out with the point in its place; `exponent` is that of the first digit. -/
def positional (l : Layout) (digits : List Char) (exponent : Int) : List Char :=
  if exponent < 0 then
    '0' :: '.' :: zeros (-exponent - 1).toNat ++ digits
  else
    let whole := exponent.toNat + 1
    if digits.length ≤ whole then
      digits ++ zeros (whole - digits.length) ++ l.wholeEnds.toList
    else digits.take whole ++ '.' :: digits.drop whole

/-- One digit before the point, and the exponent after it. -/
def scientific (l : Layout) (digits : List Char) (exponent : Int) : List Char :=
  let fraction :=
    match digits with
    | first :: second :: rest => first :: '.' :: second :: rest
    | short => short
  let sign := if exponent < 0 then ['-'] else l.positiveExponent.toList
  fraction ++ 'e' :: sign ++ Nat.toDigits 10 exponent.natAbs

/-- The digits of a decimal without the zeros at their end, and the exponent of the first digit. -/
def significant (d : Decimal) : List Char × Int :=
  let all := Nat.toDigits 10 d.digits
  ((all.reverse.dropWhile (· == '0')).reverse, d.exponent + all.length - 1)

def render (l : Layout) (x : Binary64) : String :=
  let sign := if x.negative then ['-'] else []
  let body :=
    if x.isZero then '0' :: l.wholeEnds.toList
    else
      let (digits, exponent) := significant (Decimal.shortest x)
      if l.positionalFrom ≤ exponent ∧ exponent < l.positionalBelow then
        l.positional digits exponent
      else l.scientific digits exponent
  String.ofList (sign ++ body)

end Layout

end Supervision.Number
