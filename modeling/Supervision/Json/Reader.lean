import Supervision.Json.Numeral
import Supervision.Text.Utf8

/-!
# Reading JSON

Bytes to a value. Nothing but blanks may follow the value, arrays and objects nest at most 127 deep,
and of two members with one name the later counts. A text that is not JSON either ends too early or
is malformed; the reader stops at the first fault, and which of the two it is depends on that fault
alone. A string is checked to be UTF-8 only at its closing quote.
-/

namespace Supervision.Json

/-- How deep arrays and objects may lie in one another. -/
def maxDepth : Nat := 127

def isSpace (b : UInt8) : Bool :=
  b == 0x20 || b == 0x0A || b == 0x0D || b == 0x09

def skipSpace (bytes : List UInt8) : List UInt8 :=
  bytes.dropWhile isSpace

/-- The value of a hexadecimal digit of either case. -/
def hexValue? (b : UInt8) : Option Nat :=
  if 0x30 ≤ b ∧ b ≤ 0x39 then some (b.toNat - 0x30)
  else if 0x61 ≤ b ∧ b ≤ 0x66 then some (b.toNat - 0x57)
  else if 0x41 ≤ b ∧ b ≤ 0x46 then some (b.toNat - 0x37)
  else none

/-- The number that four hexadecimal digits denote. -/
def hexUnit? (a b c d : UInt8) : Option Nat := do
  return (((← hexValue? a) * 16 + (← hexValue? b)) * 16 + (← hexValue? c)) * 16 + (← hexValue? d)

/-- The byte that a one-letter escape stands for. -/
def shortEscape? (b : UInt8) : Option UInt8 :=
  if b = 0x22 ∨ b = 0x5C ∨ b = 0x2F then some b
  else if b = 0x62 then some 0x08
  else if b = 0x66 then some 0x0C
  else if b = 0x6E then some 0x0A
  else if b = 0x72 then some 0x0D
  else if b = 0x74 then some 0x09
  else none

def isHighSurrogate (n : Nat) : Bool :=
  0xD800 ≤ n && n ≤ 0xDBFF

def isLowSurrogate (n : Nat) : Bool :=
  0xDC00 ≤ n && n ≤ 0xDFFF

/-- The character of a pair of units. -/
def pairChar (high low : Nat) : Char :=
  Char.ofNat ((high - 0xD800) * 0x400 + (low - 0xDC00) + 0x10000)

/-- The bytes of a string up to its closing quote, escapes resolved. `acc` holds what was read, last
byte first. -/
def readStringBytes (acc : List UInt8) : List UInt8 → Reading (List UInt8)
  | [] => .error .truncated
  | b :: rest =>
    if b = 0x22 then .ok (acc.reverse, rest)
    else if b < 0x20 then .error .malformed
    else if b ≠ 0x5C then readStringBytes (b :: acc) rest
    else
      match rest with
      | [] => .error .truncated
      | e :: rest =>
        if e ≠ 0x75 then
          match shortEscape? e with
          | some c => readStringBytes (c :: acc) rest
          | none => .error .malformed
        else
          match rest with
          | h₁ :: h₂ :: h₃ :: h₄ :: rest =>
            match hexUnit? h₁ h₂ h₃ h₄ with
            | none => .error .malformed
            | some n =>
              if isLowSurrogate n then .error .malformed
              else if !isHighSurrogate n then
                readStringBytes ((String.utf8EncodeChar (Char.ofNat n)).reverse ++ acc) rest
              else
                match rest with
                | [] => .error .truncated
                | s :: rest =>
                  if s ≠ 0x5C then .error .malformed
                  else
                    match rest with
                    | [] => .error .truncated
                    | u :: rest =>
                      if u ≠ 0x75 then .error .malformed
                      else
                        match rest with
                        | l₁ :: l₂ :: l₃ :: l₄ :: rest =>
                          match hexUnit? l₁ l₂ l₃ l₄ with
                          | none => .error .malformed
                          | some m =>
                            if isLowSurrogate m then
                              readStringBytes
                                ((String.utf8EncodeChar (pairChar n m)).reverse ++ acc) rest
                            else .error .malformed
                        | _ => .error .truncated
          | _ => .error .truncated

/-- A string after its opening quote. -/
def readString (bytes : List UInt8) : Except ReadError (String × List UInt8) := do
  let (content, rest) ← readStringBytes [] bytes
  match Text.Utf8.decode? content with
  | some s => .ok (s, rest)
  | none => .error .malformed

def readLiteral (value : Json) : List UInt8 → List UInt8 → Reading Json
  | [], rest => .ok (value, rest)
  | _ :: _, [] => .error .truncated
  | e :: expected, b :: rest => if b = e then readLiteral value expected rest else .error .malformed

mutual

/-- A value, blanks before it skipped. `depth` more levels may open. The fuel bounds the number of
values and separators still to come; the length of the input is always enough. -/
def readValue : Nat → Nat → List UInt8 → Reading Json
  | 0, _, _ => .error .truncated
  | fuel + 1, depth, bytes =>
    match skipSpace bytes with
    | [] => .error .truncated
    | b :: rest =>
      if b = 0x6E then readLiteral .null [0x75, 0x6C, 0x6C] rest
      else if b = 0x74 then readLiteral (.bool true) [0x72, 0x75, 0x65] rest
      else if b = 0x66 then readLiteral (.bool false) [0x61, 0x6C, 0x73, 0x65] rest
      else if b = 0x22 then (readString rest).map (fun r => (.str r.1, r.2))
      else if b = 0x5B then
        match depth with
        | 0 => .error .malformed
        | depth + 1 => readItems fuel depth [] rest
      else if b = 0x7B then
        match depth with
        | 0 => .error .malformed
        | depth + 1 => readMembers fuel depth [] true rest
      else if b = 0x2D ∨ (digit? b).isSome then readNumber (b :: rest)
      else .error .malformed

/-- The items of an array up to its closing bracket; `acc` holds those read, last first. -/
def readItems : Nat → Nat → List Json → List UInt8 → Reading Json
  | 0, _, _, _ => .error .truncated
  | fuel + 1, depth, acc, bytes =>
    match skipSpace bytes with
    | [] => .error .truncated
    | b :: rest =>
      if b = 0x5D then .ok (.arr acc.reverse, rest)
      else
        let next : Except ReadError (List UInt8) :=
          if acc.isEmpty then .ok (b :: rest)
          else if b ≠ 0x2C then .error .malformed
          else
            match skipSpace rest with
            | [] => .error .truncated
            | c :: rest => if c = 0x5D then .error .malformed else .ok (c :: rest)
        match next with
        | .error e => .error e
        | .ok bytes =>
          match readValue fuel depth bytes with
          | .error e => .error e
          | .ok (v, rest) => readItems fuel depth (v :: acc) rest

/-- The members of an object up to its closing brace; `first` before any has been read. -/
def readMembers : Nat → Nat → Members → Bool → List UInt8 → Reading Json
  | 0, _, _, _, _ => .error .truncated
  | fuel + 1, depth, ms, first, bytes =>
    match skipSpace bytes with
    | [] => .error .truncated
    | b :: rest =>
      if b = 0x7D then .ok (.obj ms, rest)
      else
        let next : Except ReadError (List UInt8) :=
          if first then (if b = 0x22 then .ok rest else .error .malformed)
          else if b ≠ 0x2C then .error .malformed
          else
            match skipSpace rest with
            | [] => .error .truncated
            | c :: rest => if c = 0x22 then .ok rest else .error .malformed
        match next with
        | .error e => .error e
        | .ok bytes =>
          match readString bytes with
          | .error e => .error e
          | .ok (key, rest) =>
            match skipSpace rest with
            | [] => .error .truncated
            | c :: rest =>
              if c ≠ 0x3A then .error .malformed
              else
                match readValue fuel depth rest with
                | .error e => .error e
                | .ok (v, rest) => readMembers fuel depth (Members.insert key v ms) false rest

end

/-- Reads a whole byte sequence as one value. -/
def read (bytes : List UInt8) : Except ReadError Json := do
  let (v, rest) ← readValue (2 * bytes.length + 2) maxDepth bytes
  if (skipSpace rest).isEmpty then .ok v else .error .malformed

end Supervision.Json
