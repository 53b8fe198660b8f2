import Supervision.Number.Binary64
import Supervision.Text.Numeral
import Supervision.Toml.Basic

/-!
# Bare values of a document

Numbers, dates and truth values, which are written without quotes. `Toml.ofBare?` reads a whole one.
-/

namespace Supervision.Toml

open Text Number

/-- The value of a digit in any base up to sixteen. -/
def digitOf? (c : Char) : Option Nat :=
  if '0' ≤ c ∧ c ≤ '9' then some (c.toNat - 48)
  else if 'a' ≤ c ∧ c ≤ 'f' then some (c.toNat - 87)
  else if 'A' ≤ c ∧ c ≤ 'F' then some (c.toNat - 55)
  else none

/-- Digits of a base, with single underscores between them: their values. `started` is true right
after a digit. -/
def digitRun (base : Nat) (started : Bool) : List Char → Option (List Nat)
  | [] => if started then some [] else none
  | '_' :: rest => if started then digitRun base false rest else none
  | c :: rest => do
    let d ← digitOf? c
    if d < base then (digitRun base true rest).map (d :: ·) else none

def ofDigits (base : Nat) (digits : List Nat) : Nat :=
  digits.foldl (fun n d => n * base + d) 0

/-- A sign before a number, and what follows it. -/
def splitSign : List Char → Bool × List Char
  | '+' :: rest => (false, rest)
  | '-' :: rest => (true, rest)
  | cs => (false, cs)

/-- The digits of a whole decimal number: no zero stands before another digit. -/
def wholeDigits? (cs : List Char) : Option (List Nat) :=
  match digitRun 10 false cs with
  | some [d] => some [d]
  | some (0 :: _) => none
  | r => r

/-- Whole numbers lie in the range of 128 bits, with or without a sign. -/
def bounded? (i : Int) : Option Toml :=
  if -(twoTo 127 : Int) ≤ i ∧ i < twoTo 128 then some (.int i) else none

/-- A whole number. A base is named without a sign before it. -/
def integer? : List Char → Option Toml
  | '0' :: 'x' :: cs => (digitRun 16 false cs).bind (fun ds => bounded? (ofDigits 16 ds))
  | '0' :: 'o' :: cs => (digitRun 8 false cs).bind (fun ds => bounded? (ofDigits 8 ds))
  | '0' :: 'b' :: cs => (digitRun 2 false cs).bind (fun ds => bounded? (ofDigits 2 ds))
  | cs =>
    let (negative, cs) := splitSign cs
    (wholeDigits? cs).bind fun ds =>
      let n : Int := ofDigits 10 ds
      bounded? (if negative then -n else n)

/-- Splits at the first character that satisfies a test, which is dropped. -/
def splitAtFirst (p : Char → Bool) (cs : List Char) : List Char × Option (List Char) :=
  match cs.dropWhile (fun c => !p c) with
  | [] => (cs, none)
  | _ :: rest => (cs.takeWhile (fun c => !p c), some rest)

/-- True of a decimal number that is no greater than the greatest double. -/
def isFinite (digits : List Nat) (exponent : Int) : Bool :=
  let n := ofDigits 10 digits
  let size : Int := (digits.dropWhile (· == 0)).length + exponent
  if n = 0 ∨ size < 300 then true
  else if 310 < size then false
  else if 0 ≤ exponent then (Binary64.ofRatio false (n * tenTo exponent.toNat) 1).isSome
  else (Binary64.ofRatio false n (tenTo (-exponent).toNat)).isSome

/-- A number with a fraction, an exponent, or both. -/
def float? (cs : List Char) : Option Toml :=
  let (_, cs) := splitSign cs
  if cs = ['i', 'n', 'f'] ∨ cs = ['n', 'a', 'n'] then some .float
  else do
    let (number, exponent) := splitAtFirst (fun c => c == 'e' || c == 'E') cs
    let (whole, fraction) := splitAtFirst (· == '.') number
    if exponent.isNone ∧ fraction.isNone then none
    let ws ← wholeDigits? whole
    let fs ← match fraction with
      | some f => digitRun 10 false f
      | none => some []
    let e ← match exponent with
      | some e =>
        let (negative, ds) := splitSign e
        (digitRun 10 false ds).map fun ds =>
          let n : Int := ofDigits 10 ds
          if negative then -n else n
      | none => some 0
    if isFinite (ws ++ fs) (e - fs.length) then some .float else none

/-- A number of exactly so many digits, and what follows it. -/
def fixedDigits? : Nat → List Char → Option (Nat × List Char)
  | n, cs => do
    let ds ← (cs.take n).mapM digitValue?
    if ds.length = n then some (ofDigits 10 ds, cs.drop n) else none

/-- Drops one of several characters at the front. -/
def skipOneOf? (allowed : List Char) : List Char → Option (List Char)
  | c :: rest => if allowed.contains c then some rest else none
  | [] => none

/-- The number of days of a month. -/
def daysOf (year month : Nat) : Nat :=
  if month = 2 then
    if year % 4 = 0 ∧ (year % 100 ≠ 0 ∨ year % 400 = 0) then 29 else 28
  else if month = 4 ∨ month = 6 ∨ month = 9 ∨ month = 11 then 30
  else 31

def skipDay? (cs : List Char) : Option (List Char) := do
  let (year, cs) ← fixedDigits? 4 cs
  let cs ← skipOneOf? ['-'] cs
  let (month, cs) ← fixedDigits? 2 cs
  let cs ← skipOneOf? ['-'] cs
  let (day, cs) ← fixedDigits? 2 cs
  if 1 ≤ month ∧ month ≤ 12 ∧ 1 ≤ day ∧ day ≤ daysOf year month then some cs else none

def skipClock? (cs : List Char) : Option (List Char) := do
  let (hour, cs) ← fixedDigits? 2 cs
  let cs ← skipOneOf? [':'] cs
  let (minute, cs) ← fixedDigits? 2 cs
  if hour ≤ 23 ∧ minute ≤ 59 then some cs else none

/-- Skips seconds and their fraction, if there are any. -/
def skipSeconds? : List Char → Option (List Char)
  | ':' :: cs => do
    let (second, cs) ← fixedDigits? 2 cs
    if second ≤ 60 then
      match cs with
      | '.' :: c :: rest =>
        if c.isDigit then some (rest.dropWhile Char.isDigit) else none
      | ['.'] => none
      | _ => some cs
    else none
  | cs => some cs

def skipTime? (cs : List Char) : Option (List Char) := do
  skipSeconds? (← skipClock? cs)

/-- Skips an offset from universal time, if there is any. -/
def skipOffset? : List Char → Option (List Char)
  | 'Z' :: cs => some cs
  | 'z' :: cs => some cs
  | '+' :: cs => skipClock? cs
  | '-' :: cs => skipClock? cs
  | cs => some cs

/-- A day, a time of day, or both; with both there may be an offset. -/
def date? (cs : List Char) : Option Toml :=
  match skipDay? cs with
  | some [] => some .date
  | some rest => do
    let rest ← skipOneOf? ['T', 't', ' '] rest
    let rest ← skipOffset? (← skipTime? rest)
    if rest.isEmpty then some .date else none
  | none => do
    if (← skipTime? cs).isEmpty then some .date else none

/-- A value without quotes. -/
def ofBare? (cs : List Char) : Option Toml :=
  if cs = "true".toList then some (.bool true)
  else if cs = "false".toList then some (.bool false)
  else integer? cs <|> float? cs <|> date? cs

end Supervision.Toml
