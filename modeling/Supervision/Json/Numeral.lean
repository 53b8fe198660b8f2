import Supervision.Json.Basic
import Supervision.Number.Binary64

/-!
# Numerals

The numbers of JSON text. A numeral without fraction and exponent that fits in 64 bits is a whole
number; any other is a double. The digits of a double are collected while they fit in 64 bits, the
others only count for the exponent, and the rest is one multiplication or division by a power of
ten.
-/

namespace Supervision.Json

open Number

/-- Why a text is not a JSON value: it ends too early, or no continuation would make it one. -/
inductive ReadError
  | truncated
  | malformed
  deriving DecidableEq, Repr

/-- What a reading step yields: a result and the bytes after it. -/
abbrev Reading (α : Type) := Except ReadError (α × List UInt8)

def digit? (b : UInt8) : Option Nat :=
  if 0x30 ≤ b ∧ b ≤ 0x39 then some (b.toNat - 0x30) else none

/-- The digits at the start, and the bytes after them. -/
def takeDigits : List UInt8 → List Nat × List UInt8
  | [] => ([], [])
  | b :: rest =>
    match digit? b with
    | some d =>
      let (ds, rest) := takeDigits rest
      (d :: ds, rest)
    | none => ([], b :: rest)

/-- The significand's bound: it is kept below `2 ^ 64`. -/
def significandLimit : Nat := Number.twoTo 64

/-- Appends digits to a significand while they fit, and returns the digits that are left. -/
def appendDigits (significand : Nat) : List Nat → Nat × List Nat
  | [] => (significand, [])
  | d :: ds =>
    if significand * 10 + d < significandLimit then appendDigits (significand * 10 + d) ds
    else (significand, d :: ds)

/-- A numeral as written: its sign, the digits before and after the point, and the exponent. -/
structure Numeral where
  negative : Bool
  whole : List Nat
  fraction : Option (List Nat)
  exponent : Option Int
  deriving DecidableEq, Repr

namespace Numeral

/-- The double a numeral stands for; `none` beyond the greatest one. -/
def toFloat? (n : Numeral) : Option Binary64 :=
  let (significand, dropped) := appendDigits 0 n.whole
  let fraction := n.fraction.getD []
  let (significand, unread) := appendDigits significand fraction
  let shift : Int := dropped.length - (fraction.length - unread.length : Nat)
  Binary64.ofDecimal n.negative significand (shift + n.exponent.getD 0)

/-- The value a numeral stands for. A negative one must be at least `-2 ^ 63` to be a whole number,
and minus zero is a double. -/
def value? (n : Numeral) : Option Json :=
  match n.fraction, n.exponent, appendDigits 0 n.whole with
  | none, none, (significand, []) =>
    if !n.negative then some (.int significand)
    else if 0 < significand ∧ significand ≤ Number.twoTo 63 then some (.int (-(significand : Int)))
    else n.toFloat?.map .float
  | _, _, _ => n.toFloat?.map .float

end Numeral

/-- The digits before the point: a zero stands alone. -/
def readWhole : List UInt8 → Reading (List Nat)
  | [] => .error .truncated
  | b :: rest =>
    match digit? b with
    | none => .error .malformed
    | some 0 =>
      match rest with
      | [] => .ok ([0], [])
      | c :: _ => if (digit? c).isSome then .error .malformed else .ok ([0], rest)
    | some d =>
      let (ds, rest) := takeDigits rest
      .ok (d :: ds, rest)

/-- A point and the digits after it, if a point comes next. -/
def readFraction : List UInt8 → Reading (Option (List Nat))
  | 0x2E :: rest =>
    match takeDigits rest with
    | ([], []) => .error .truncated
    | ([], _ :: _) => .error .malformed
    | (ds, rest) => .ok (some ds, rest)
  | rest => .ok (none, rest)

def ofDigits (ds : List Nat) : Nat :=
  ds.foldl (fun n d => n * 10 + d) 0

def readExponent : List UInt8 → Reading (Option Int)
  | [] => .ok (none, [])
  | b :: rest =>
    if b = 0x65 ∨ b = 0x45 then
      let (negative, rest) : Bool × List UInt8 :=
        match rest with
        | 0x2B :: rest => (false, rest)
        | 0x2D :: rest => (true, rest)
        | rest => (false, rest)
      match takeDigits rest with
      | ([], []) => .error .truncated
      | ([], _ :: _) => .error .malformed
      | (ds, rest) =>
        let n : Int := ofDigits ds
        .ok (some (if negative then -n else n), rest)
    else .ok (none, b :: rest)

def readNumeral (bytes : List UInt8) : Except ReadError (Numeral × List UInt8) := do
  let (negative, rest) : Bool × List UInt8 :=
    match bytes with
    | 0x2D :: rest => (true, rest)
    | rest => (false, rest)
  let (whole, rest) ← readWhole rest
  let (fraction, rest) ← readFraction rest
  let (exponent, rest) ← readExponent rest
  return (⟨negative, whole, fraction, exponent⟩, rest)

def readNumber (bytes : List UInt8) : Except ReadError (Json × List UInt8) := do
  let (n, rest) ← readNumeral bytes
  match n.value? with
  | some v => .ok (v, rest)
  | none => .error .malformed

end Supervision.Json
