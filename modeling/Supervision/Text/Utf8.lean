/-!
# UTF-8

Bytes to characters and back, one byte at a time. `State.step` is the machine: between characters
it waits for a leading byte, and inside one it knows how many bytes are owed and which values the
next may have. An ill-formed sequence ends at the first byte that no character continues with, and
that byte starts afresh; so the machine is total and the two readings differ only in what they make
of a fault. `decode` stops at the first fault and says where it lies, `decodeLossy` writes one
replacement character for it.
-/

namespace Supervision.Text.Utf8

/-- Where the machine stands between two bytes. -/
inductive State
  /-- No character is open. -/
  | between
  /-- A character is open: `owed + 1` bytes are missing, the next lies in `[low, high]`, the bits
  read so far are `bits`, and `width` bytes have been read. -/
  | within (owed : Nat) (low high : UInt8) (bits width : Nat)
  deriving DecidableEq, Repr

/-- What a byte settles: a character, or that the `width` bytes before some point are ill-formed. -/
inductive Piece
  | char (c : Char)
  | fault (width : Nat)
  deriving DecidableEq, Repr

/-- A byte between characters is a character of its own, opens a longer one, or is a fault. -/
def State.first (b : UInt8) : List Piece × State :=
  if b < 0x80 then ([.char (Char.ofNat b.toNat)], .between)
  else if b < 0xC2 then ([.fault 1], .between)
  else if b < 0xE0 then ([], .within 0 0x80 0xBF (b.toNat - 0xC0) 1)
  else if b = 0xE0 then ([], .within 1 0xA0 0xBF 0 1)
  else if b = 0xED then ([], .within 1 0x80 0x9F 0xD 1)
  else if b < 0xF0 then ([], .within 1 0x80 0xBF (b.toNat - 0xE0) 1)
  else if b = 0xF0 then ([], .within 2 0x90 0xBF 0 1)
  else if b < 0xF4 then ([], .within 2 0x80 0xBF (b.toNat - 0xF0) 1)
  else if b = 0xF4 then ([], .within 2 0x80 0x8F 4 1)
  else ([.fault 1], .between)

/-- One byte. A byte that cannot continue the open character closes it as a fault and is then read
as a first byte. -/
def State.step : State → UInt8 → List Piece × State
  | .between, b => State.first b
  | .within owed low high bits width, b =>
    if low ≤ b ∧ b ≤ high then
      let bits := bits * 64 + (b.toNat - 0x80)
      match owed with
      | 0 => ([.char (Char.ofNat bits)], .between)
      | owed + 1 => ([], .within owed 0x80 0xBF bits (width + 1))
    else
      let (pieces, next) := State.first b
      (.fault width :: pieces, next)

/-- The first ill-formed place of a byte sequence: its index, and how many bytes it spans, or
`none` when the sequence merely ends too early. -/
structure Fault where
  index : Nat
  width : Option Nat
  deriving DecidableEq, Repr

def Fault.message (f : Fault) : String :=
  match f.width with
  | some n => s!"invalid utf-8 sequence of {n} bytes from index {f.index}"
  | none => s!"incomplete utf-8 byte sequence from index {f.index}"

/-- Strict reading from state `s`; `index` counts the bytes already read. -/
def decodeFrom (s : State) (index : Nat) : List UInt8 → Except Fault (List Char)
  | [] =>
    match s with
    | .between => .ok []
    | .within _ _ _ _ width => .error ⟨index - width, none⟩
  | b :: rest =>
    match s.step b with
    | ([], next) => decodeFrom next (index + 1) rest
    | (.char c :: _, next) => (decodeFrom next (index + 1) rest).map (c :: ·)
    | (.fault width :: _, _) =>
      match s with
      | .between => .error ⟨index, some width⟩
      | .within .. => .error ⟨index - width, some width⟩

/-- Reads a whole byte sequence, or names its first fault. -/
def decode (bytes : List UInt8) : Except Fault String :=
  (decodeFrom .between 0 bytes).map String.ofList

/-- Reads a whole byte sequence; `none` when any of it is ill-formed. -/
def decode? (bytes : List UInt8) : Option String :=
  (decode bytes).toOption

def replacement : Char := '\uFFFD'

/-- A piece as text: a fault is one replacement character. -/
def Piece.toChar : Piece → Char
  | .char c => c
  | .fault _ => replacement

/-- Lossy reading from state `s`. -/
def decodeLossyFrom (s : State) : List UInt8 → List Char
  | [] =>
    match s with
    | .between => []
    | .within .. => [replacement]
  | b :: rest =>
    let (pieces, next) := s.step b
    pieces.map Piece.toChar ++ decodeLossyFrom next rest

/-- Reads a whole byte sequence, with one replacement character for each ill-formed part. -/
def decodeLossy (bytes : List UInt8) : String :=
  String.ofList (decodeLossyFrom .between bytes)

def encode (s : String) : List UInt8 :=
  s.toList.flatMap String.utf8EncodeChar

end Supervision.Text.Utf8
