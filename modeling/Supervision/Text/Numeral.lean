import Supervision.Number.Binary64

/-!
# Counts and spans of time in text

A count is an unsigned whole number below a bound, written in decimal with an optional plus sign.
The first character that is no digit, or at which the number no longer fits, decides the fault.

A span of time is a number of milliseconds. It is shown in the largest unit that is at least one of
it: seconds with as many decimals as it takes, or milliseconds. No time at all is shown in
nanoseconds.
-/

namespace Supervision.Text

/-! ## Counts -/

/-- Why a text is not a count. -/
inductive CountError
  | empty
  | notADigit
  | tooLarge
  deriving DecidableEq, Repr

def CountError.message : CountError → String
  | .empty => "cannot parse integer from empty string"
  | .notADigit => "invalid digit found in string"
  | .tooLarge => "number too large to fit in target type"

def digitValue? (c : Char) : Option Nat :=
  if '0' ≤ c ∧ c ≤ '9' then some (c.toNat - '0'.toNat) else none

/-- Appends digits to a number that has to stay below `limit`. -/
def readDigits (limit n : Nat) : List Char → Except CountError Nat
  | [] => .ok n
  | c :: rest =>
    match digitValue? c with
    | none => .error .notADigit
    | some d => if n * 10 + d < limit then readDigits limit (n * 10 + d) rest else .error .tooLarge

/-- Reads a count below `limit`. A sign alone is not a number. -/
def readCount (limit : Nat) : List Char → Except CountError Nat
  | [] => .error .empty
  | ['+'] => .error .notADigit
  | '+' :: rest => readDigits limit 0 rest
  | cs => readDigits limit 0 cs

/-- The number of sizes of a 64-bit machine. -/
def sizeLimit : Nat := Number.twoTo 64

/-! ## Spans of time -/

/-- The decimals of so many thousandths, without zeros at the end. -/
def decimals (thousandths : Nat) : List Char :=
  let digit (n : Nat) : Char := Char.ofNat (48 + n % 10)
  [digit (thousandths / 100), digit (thousandths / 10), digit thousandths].reverse.dropWhile
    (· == '0') |>.reverse

def renderSpan (ms : Nat) : String :=
  if ms = 0 then "0ns"
  else if ms < 1000 then s!"{ms}ms"
  else
    match decimals (ms % 1000) with
    | [] => s!"{ms / 1000}s"
    | ds => s!"{ms / 1000}.{String.ofList ds}s"

end Supervision.Text
