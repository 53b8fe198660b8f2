import Supervision.Json.Basic
import Supervision.Number.Shortest
import Supervision.Text.Utf8

/-!
# Writing JSON

Two forms: `render` writes a value without any blank, `renderIndented` with one item or member to a
line. Both write a string in one way, its controls escaped and everything above ASCII as it is, and
a double as the shortest decimal that reads back.
-/

namespace Supervision.Json

open Number

/-- Doubles are positional from `1e-5` up to below `1e16`, whole ones end in `.0`, and an exponent
has a sign. -/
def floatLayout : Layout where
  positionalFrom := -5
  positionalBelow := 16
  wholeEnds := ".0"
  positiveExponent := "+"

/-- A hexadecimal digit, lower case. -/
def hexDigit (n : Nat) : Char :=
  Nat.digitChar (n % 16)

/-- How one character is written inside a string. -/
def escape (c : Char) : List Char :=
  if c = '"' then ['\\', '"']
  else if c = '\\' then ['\\', '\\']
  else if c = '\n' then ['\\', 'n']
  else if c = '\r' then ['\\', 'r']
  else if c = '\t' then ['\\', 't']
  else if c.toNat = 0x08 then ['\\', 'b']
  else if c.toNat = 0x0C then ['\\', 'f']
  else if c.toNat < 0x20 then ['\\', 'u', '0', '0', hexDigit (c.toNat / 16), hexDigit c.toNat]
  else [c]

def renderString (s : String) : List Char :=
  '"' :: s.toList.flatMap escape ++ ['"']

def renderInt (i : Int) : List Char :=
  if i < 0 then '-' :: Nat.toDigits 10 i.natAbs else Nat.toDigits 10 i.natAbs

def renderLeaf : Json → List Char
  | .null => "null".toList
  | .bool b => if b then "true".toList else "false".toList
  | .int i => renderInt i
  | .float x => (floatLayout.render x).toList
  | .str s => renderString s
  | .arr _ => "[]".toList
  | .obj _ => "\x7b\x7d".toList

mutual

/-- A value without blanks, as characters. -/
def renderChars : Json → List Char
  | .arr xs => '[' :: renderItems xs ++ [']']
  | .obj ms => '\x7b' :: renderMembers ms ++ ['\x7d']
  | v => renderLeaf v

def renderItems : List Json → List Char
  | [] => []
  | [v] => renderChars v
  | v :: rest => renderChars v ++ ',' :: renderItems rest

def renderMembers : List (String × Json) → List Char
  | [] => []
  | [(k, v)] => renderString k ++ ':' :: renderChars v
  | (k, v) :: rest => renderString k ++ ':' :: renderChars v ++ ',' :: renderMembers rest

end

/-- A value without blanks. -/
def render (v : Json) : String :=
  String.ofList (renderChars v)

/-- The bytes of a value without blanks. -/
def encode (v : Json) : List UInt8 :=
  Text.Utf8.encode (render v)

/-- A new line indented by two blanks for each level. -/
def newline (level : Nat) : List Char :=
  '\n' :: List.replicate (2 * level) ' '

mutual

/-- A value with one item or member to a line, as characters. -/
def indentChars (level : Nat) : Json → List Char
  | .arr (x :: xs) =>
    '[' :: newline (level + 1) ++ indentItems (level + 1) (x :: xs) ++ newline level ++ [']']
  | .obj (m :: ms) =>
    '\x7b' :: newline (level + 1) ++ indentMembers (level + 1) (m :: ms) ++
      newline level ++ ['\x7d']
  | v => renderLeaf v

def indentItems (level : Nat) : List Json → List Char
  | [] => []
  | [v] => indentChars level v
  | v :: rest => indentChars level v ++ ',' :: newline level ++ indentItems level rest

def indentMembers (level : Nat) : List (String × Json) → List Char
  | [] => []
  | [(k, v)] => renderString k ++ ": ".toList ++ indentChars level v
  | (k, v) :: rest =>
    renderString k ++ ": ".toList ++ indentChars level v ++ ',' :: newline level
      ++ indentMembers level rest

end

/-- A value with one item or member to a line. -/
def renderIndented (v : Json) : String :=
  String.ofList (indentChars 0 v)

end Supervision.Json
