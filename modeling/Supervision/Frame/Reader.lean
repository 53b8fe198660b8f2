import Supervision.Frame.Basic
import Supervision.Json.Reader

/-!
# Reading frames

A stream arrives in pieces of any size. `readFrame` takes one frame off its front: it ends cleanly
only between frames, and any other end is a fault. How the bytes were cut into pieces never matters.

Of a stream of which more may come, `arrival` is what is at the front: a frame, a fault, or the
beginning of a frame, with which a reader has to wait.
-/

namespace Supervision.Frame

open Text

/-- A stream of bytes that is still to be read: the pieces in which it arrives, and whether it then
fails, with which text, or ends. -/
structure Source where
  pieces : List (List UInt8)
  failure : Option String

namespace Source

/-- Cuts bytes into pieces of `size + 1`. -/
def cut (size : Nat) (bytes : List UInt8) : List (List UInt8) :=
  match bytes with
  | [] => []
  | b :: rest => (b :: rest.take size) :: cut size (rest.drop size)
  termination_by bytes.length
  decreasing_by simp only [List.length_drop, List.length_cons]; omega

def bytes (s : Source) : List UInt8 :=
  s.pieces.flatten

/-- The number of bytes that are left. -/
def size (s : Source) : Nat :=
  s.bytes.length

/-- The error of a stream without bytes: its failure, or else what its end means here. -/
def endError (s : Source) (atEnd : SourceError) : SourceError :=
  match s.failure with
  | some text => .failed text
  | none => atEnd

end Source

/-- The line at the front of a piece, with its newline, and the bytes after it. -/
def splitLine : List UInt8 → Option (List UInt8 × List UInt8)
  | [] => none
  | b :: rest =>
    if b = 0x0A then some ([b], rest)
    else (splitLine rest).map (fun p => (b :: p.1, p.2))

/-- The line at the front of a stream, whether its newline was found, and what is left. -/
def takeLine : List (List UInt8) → List UInt8 × Bool × List (List UInt8)
  | [] => ([], false, [])
  | piece :: pieces =>
    match splitLine piece with
    | some (line, rest) => (line, true, rest :: pieces)
    | none =>
      let (line, found, rest) := takeLine pieces
      (piece ++ line, found, rest)

/-- The next `n` bytes of a stream, fewer if it is shorter, and what is left. -/
def takeBytes : Nat → List (List UInt8) → List UInt8 × List (List UInt8)
  | _, [] => ([], [])
  | n, piece :: pieces =>
    if n ≤ piece.length then (piece.take n, piece.drop n :: pieces)
    else
      let (bytes, rest) := takeBytes (n - piece.length) pieces
      (piece ++ bytes, rest)

/-- Taking a line loses no byte. -/
theorem takeLine_flatten (pieces : List (List UInt8)) :
    (takeLine pieces).1 ++ (takeLine pieces).2.2.flatten = pieces.flatten := by
  induction pieces with
  | nil => rfl
  | cons piece pieces ih =>
    have split : ∀ (p line rest : List UInt8),
        splitLine p = some (line, rest) → line ++ rest = p := by
      intro p
      induction p with
      | nil => intro line rest h; simp [splitLine] at h
      | cons b p ih =>
        intro line rest h
        unfold splitLine at h
        split at h
        · simp only [Option.some.injEq, Prod.mk.injEq] at h
          obtain ⟨rfl, rfl⟩ := h
          rfl
        · obtain ⟨q, hq, h⟩ := Option.map_eq_some_iff.1 h
          simp only [Prod.mk.injEq] at h
          obtain ⟨rfl, rfl⟩ := h
          simp [ih q.1 q.2 hq]
    unfold takeLine
    split
    · next line rest h => simp [← split _ _ _ h]
    · simp [ih]

/-- What a header line says about the stream: the text of the line, or why there is none. `none`
when nothing is left. -/
def readLine (s : Source) : Except ReadError (Option (List Char)) × Source :=
  let (line, found, rest) := takeLine s.pieces
  let after : Source := { s with pieces := rest }
  if !found ∧ s.failure.isSome then (.error (.header (s.endError .earlyEnd)), after)
  else if line.isEmpty then (.ok none, after)
  else
    match Utf8.decode line with
    | .error fault => (.error (.header (.notUtf8 fault)), after)
    | .ok text => (.ok (some (trimBlanks text.toList)), after)

/-- A line that was read shortens the stream. -/
theorem readLine_size {s after : Source} {line : List Char}
    (h : readLine s = (.ok (some line), after)) : after.size < s.size := by
  have total := congrArg List.length (takeLine_flatten s.pieces)
  unfold readLine at h
  simp only [Source.size, Source.bytes] at *
  split at h
  · simp at h
  · split at h
    · simp at h
    · next hne =>
      have pos : 0 < (takeLine s.pieces).1.length := by
        cases hl : (takeLine s.pieces).1 with
        | nil => simp [hl] at hne
        | cons _ _ => simp
      split at h
      · simp at h
      · simp only [Prod.mk.injEq, Except.ok.injEq, Option.some.injEq] at h
        obtain ⟨_, rfl⟩ := h
        simp only [List.length_append] at total
        show (takeLine s.pieces).2.2.flatten.length < s.pieces.flatten.length
        omega

/-- Reads header lines up to the empty one. `length` is what the last header that counts said,
`started` whether a line has been read. The result is `none` when the stream ended before any. -/
def readHeader (length : Option Nat) (started : Bool) (s : Source) :
    Except ReadError (Option Nat) × Source :=
  match _h : readLine s with
  | (.error e, after) => (.error e, after)
  | (.ok none, after) => (if started then .error .endInHeader else .ok none, after)
  | (.ok (some line), after) =>
    if line.isEmpty then
      match length with
      | some n => (.ok (some n), after)
      | none => (.error .noLength, after)
    else
      match lineLength line with
      | .error e => (.error e, after)
      | .ok none => readHeader length true after
      | .ok (some n) => readHeader (some n) true after
  termination_by s.size
  decreasing_by all_goals exact readLine_size (by assumption)

/-- Reads a body of `n` bytes and decodes it. -/
def readBody (n : Nat) (s : Source) : Except ReadError Json × Source :=
  let (body, rest) := takeBytes n s.pieces
  let after : Source := { s with pieces := rest }
  if body.length < n then (.error (.body (s.endError .earlyEnd)), after)
  else
    match Json.read body with
    | .ok v => (.ok v, after)
    | .error e => (.error (.decoding e), after)

/-- Takes one frame off a stream. The result is `none` when nothing is left. -/
def readFrame (s : Source) : Except ReadError (Option Json) × Source :=
  match readHeader none false s with
  | (.error e, after) => (.error e, after)
  | (.ok none, after) => (.ok none, after)
  | (.ok (some n), after) =>
    if maxBytes < n then (.error (.tooLong n), after)
    else
      match readBody n after with
      | (.ok v, after) => (.ok (some v), after)
      | (.error e, after) => (.error e, after)

/-- How a stream of frames ended. -/
inductive Ending
  | clean
  | fault (e : ReadError)
  deriving DecidableEq, Repr

/-- Reads frames up to the end or the first fault. Every frame takes a byte at least, so the size of
the stream bounds their number. -/
def readFrames : Nat → Source → List Json × Ending
  | 0, _ => ([], .clean)
  | fuel + 1, s =>
    match readFrame s with
    | (.error e, _) => ([], .fault e)
    | (.ok none, _) => ([], .clean)
    | (.ok (some v), after) =>
      let (vs, ending) := readFrames fuel after
      (v :: vs, ending)

/-- All frames of a stream, and how it ended. -/
def readAll (s : Source) : List Json × Ending :=
  readFrames (s.size + 1) s

/-! ## Frames that arrive -/

/-- What is at the front of a stream. -/
inductive Arrival
  /-- A frame, and the bytes after it. -/
  | frame (v : Json) (rest : List UInt8)
  | fault (e : ReadError)
  /-- The beginning of a frame, or nothing. -/
  | incomplete

/-- The failure of a read that finds no more bytes for now. -/
def dry : String := "no bytes for now"

/-- Whether an error is that there are no more bytes for now. -/
def ReadError.isDry : ReadError → Bool
  | .header (.failed text) => text == dry
  | .body (.failed text) => text == dry
  | _ => false

/-- What is at the front of a stream of which these bytes have come. -/
def arrival (bytes : List UInt8) : Arrival :=
  match readFrame ⟨[bytes], some dry⟩ with
  | (.ok (some v), after) => .frame v after.bytes
  | (.ok none, _) => .incomplete
  | (.error e, _) => if e.isDry then .incomplete else .fault e

end Supervision.Frame
