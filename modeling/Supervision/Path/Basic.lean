import Supervision.Text.Character
import Supervision.Text.Utf8

/-!
# Paths

A path is a sequence of bytes, of which a message shows as much as is UTF-8. `join` puts a relative
path below a directory. In the URI of a directory, bytes that have a meaning of their own in a URI,
and those that are not visible ASCII, are written by their value.

Why a file could not be used is said by a `FileFault`, in the words of the system.
-/

namespace Supervision

open Text

/-- The name of a file or directory. -/
structure Path where
  bytes : List UInt8
  deriving DecidableEq, Repr, Inhabited

namespace Path

def separator : UInt8 := 0x2F

def ofString (s : String) : Path :=
  ⟨Utf8.encode s⟩

/-- The path as text, with replacement characters for what is not UTF-8. -/
def text (p : Path) : String :=
  Utf8.decodeLossy p.bytes

/-- True of a path that starts at the root. -/
def isAbsolute (p : Path) : Bool :=
  p.bytes.head? == some separator

/-- A path below a directory; an absolute one stands for itself. -/
def join (dir p : Path) : Path :=
  if p.isAbsolute || dir.bytes.isEmpty then p
  else if dir.bytes.getLast? = some separator then ⟨dir.bytes ++ p.bytes⟩
  else ⟨dir.bytes ++ separator :: p.bytes⟩

/-- The parts between separators, empty ones among them. -/
def split : List UInt8 → List (List UInt8)
  | [] => [[]]
  | b :: rest =>
    if b = separator then [] :: split rest
    else
      match split rest with
      | [] => [[b]]
      | part :: parts => (b :: part) :: parts

/-- The parts that name something: empty parts and `.` do not. -/
def components (p : Path) : List (List UInt8) :=
  (split p.bytes).filter (fun part => !part.isEmpty && part != [0x2E])

/-- The hexadecimal digits of a byte, upper case, two of them. -/
def hexByte (b : UInt8) : List Char :=
  let digit (n : Nat) : Char := if n < 10 then Char.ofNat (48 + n) else Char.ofNat (55 + n)
  [digit (b.toNat / 16), digit (b.toNat % 16)]

/-- Quoted text of bytes: characters as in quoted text, other bytes by their value. `held` are the
bytes of an open character. -/
def quotedFrom (s : Utf8.State) (held : List UInt8) : List UInt8 → List Char
  | [] => held.flatMap raw
  | b :: rest =>
    match s.step b with
    | ([], next) => quotedFrom next (held ++ [b]) rest
    | ([.char c], next) => Quoted.escape c ++ quotedFrom next [] rest
    | ([.fault _], next) =>
      if held.isEmpty then raw b ++ quotedFrom next [] rest
      else held.flatMap raw ++ quotedFrom next [b] rest
    | (_ :: .char c :: _, next) => held.flatMap raw ++ Quoted.escape c ++ quotedFrom next [] rest
    | (_, next) => (held ++ [b]).flatMap raw ++ quotedFrom next [] rest
where
  raw (b : UInt8) : List Char := ['\\', 'x'] ++ hexByte b

/-- The path in quotes, as messages show it. -/
def quoted (p : Path) : String :=
  String.ofList ('"' :: quotedFrom .between [] p.bytes ++ ['"'])

/-! ## As a URI -/

/-- The bytes that a part of a URI's path cannot hold as they are. -/
def isReserved (b : UInt8) : Bool :=
  b ≤ 0x20 || 0x7F ≤ b || ("\"#%<>?`\x7b\x7d\\/".toList.any (fun c => c.toNat = b.toNat))

/-- A part of a path, written as a part of a URI. -/
def encodePart (part : List UInt8) : List Char :=
  part.flatMap (fun b => if isReserved b then '%' :: hexByte b else [Char.ofNat b.toNat])

/-- The URI of a directory; a relative path has none. `..` stays as it is. -/
def directoryUri? (p : Path) : Option String :=
  if p.isAbsolute then
    let parts := p.components.flatMap (fun part => '/' :: encodePart part)
    some ("file://" ++ String.ofList (parts ++ ['/']))
  else none

end Path

/-! ## What can be wrong with a file -/

/-- Why a file or directory could not be used. -/
inductive FileFault
  | notFound
  | exists
  | notADirectory
  | isADirectory
  | notUtf8
  deriving DecidableEq, Repr

def FileFault.message : FileFault → String
  | .notFound => "No such file or directory (os error 2)"
  | .exists => "File exists (os error 17)"
  | .notADirectory => "Not a directory (os error 20)"
  | .isADirectory => "Is a directory (os error 21)"
  | .notUtf8 => "stream did not contain valid UTF-8"

end Supervision
