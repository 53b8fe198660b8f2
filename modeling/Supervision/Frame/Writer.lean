import Supervision.Frame.Basic

/-!
# Writing frames

A sink takes bytes a few at a time, may fail for good once it is full, and may fail to flush. A
frame is written as its header, then its body, then a flush; the first of the three that fails is
named. What the sink has taken is always a beginning of what was written to it.
-/

namespace Supervision.Frame

/-- A receiver of bytes. -/
structure Sink where
  /-- How many bytes the write with a given number takes at most, less one. -/
  pace : Nat → Nat
  /-- How many bytes are still taken before every write fails. -/
  room : Option Nat
  /-- The text of a write to a full sink. -/
  writeFault : String
  /-- The text of every flush, if flushes fail. -/
  flushFault : Option String
  /-- The number of writes so far. -/
  writes : Nat
  /-- The number of flushes so far, failed ones among them. -/
  flushes : Nat
  taken : List UInt8

/-- A part of writing a frame. -/
inductive Part
  | header
  | body
  | flush
  deriving DecidableEq, Repr

/-- The text of a failure in a part. -/
def Part.message : Part → String
  | .header => "writing frame header"
  | .body => "writing frame body"
  | .flush => "flushing frame"

/-- A failed write: in which part, and with which text the sink failed. -/
structure WriteError where
  part : Part
  cause : String
  deriving DecidableEq, Repr

namespace Sink

/-- How many of `n + 1` bytes the next write takes; `none` when it fails. -/
def accepts (s : Sink) (n : Nat) : Option Nat :=
  let most := min n (s.pace s.writes)
  match s.room with
  | none => some most
  | some 0 => none
  | some (room + 1) => some (min most room)

/-- The sink after a write that took some bytes. -/
def take (s : Sink) (bytes : List UInt8) : Sink :=
  { s with
    room := s.room.map (· - bytes.length)
    writes := s.writes + 1
    taken := s.taken ++ bytes }

/-- Writes bytes until all are taken or a write fails. -/
def writeAll (s : Sink) (bytes : List UInt8) : Bool × Sink :=
  match bytes with
  | [] => (true, s)
  | b :: rest =>
    match s.accepts rest.length with
    | none => (false, s)
    | some k => (s.take (b :: rest.take k)).writeAll (rest.drop k)
  termination_by bytes.length
  decreasing_by simp only [List.length_drop, List.length_cons]; omega

/-- Flushes the sink; the result is the text of a failure. -/
def flush (s : Sink) : Option String × Sink :=
  (s.flushFault, { s with flushes := s.flushes + 1 })

end Sink

def writeFrame (s : Sink) (v : Json) : Except WriteError Unit × Sink :=
  let body := v.encode
  match s.writeAll (header body.length) with
  | (false, s) => (.error ⟨.header, s.writeFault⟩, s)
  | (true, s) =>
    match s.writeAll body with
    | (false, s) => (.error ⟨.body, s.writeFault⟩, s)
    | (true, s) =>
      match s.flush with
      | (some fault, s) => (.error ⟨.flush, fault⟩, s)
      | (none, s) => (.ok (), s)

/-- Writes one frame after the other, also after a failure. -/
def writeFrames : Sink → List Json → List (Except WriteError Unit) × Sink
  | s, [] => ([], s)
  | s, v :: vs =>
    let (r, s) := writeFrame s v
    let (rs, s) := writeFrames s vs
    (r :: rs, s)

end Supervision.Frame
