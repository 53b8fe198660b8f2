import Supervision.Frame.Reader
import Supervision.Proofs.Text.RoundTrip

/-!
# What a stream brings

A stream is its bytes and what comes behind them: how they were cut into pieces does not show in any
line or body that is read from it (`Source.Brings`). What the reader of a header line and of a body
make of a stream is said here for bytes alone. A line without a newline is a line only at the end of the stream, so no
header ends there, and the frame is a fault.
-/

namespace Supervision.Frame

open Text

/-- The stream brings these bytes and then ends, or fails with a text. -/
structure Source.Brings (s : Source) (bytes : List UInt8) (failure : Option String) : Prop where
  bytes : s.bytes = bytes
  ends : s.failure = failure

/-! ## Lines -/

theorem splitLine_of_not_mem {line : List UInt8} (one : (0x0A : UInt8) ∉ line)
    (rest : List UInt8) : splitLine (line ++ 0x0A :: rest) = some (line ++ [0x0A], rest) := by
  induction line with
  | nil => rfl
  | cons b line ih =>
    have other : b ≠ 0x0A := by
      rintro rfl
      exact one List.mem_cons_self
    rw [List.cons_append, splitLine, if_neg other, ih fun mem => one (List.mem_cons_of_mem b mem)]
    rfl

theorem splitLine_none {bytes : List UInt8} (none : (0x0A : UInt8) ∉ bytes) :
    splitLine bytes = .none := by
  induction bytes with
  | nil => rfl
  | cons b bytes ih =>
    have other : b ≠ 0x0A := by
      rintro rfl
      exact none List.mem_cons_self
    rw [splitLine, if_neg other, ih fun mem => none (List.mem_cons_of_mem b mem)]
    rfl

/-- Every stream with a newline starts with a line. -/
theorem exists_line {bytes : List UInt8} (mem : (0x0A : UInt8) ∈ bytes) :
    ∃ line rest, bytes = line ++ 0x0A :: rest ∧ (0x0A : UInt8) ∉ line :=
  List.eq_append_cons_of_mem mem

/-- A line is taken from pieces as from their bytes. -/
theorem takeLine_of_line {pieces : List (List UInt8)} {line rest : List UInt8}
    (one : (0x0A : UInt8) ∉ line) (bytes : pieces.flatten = line ++ 0x0A :: rest) :
    ∃ left, takeLine pieces = (line ++ [0x0A], true, left) ∧ left.flatten = rest := by
  induction pieces generalizing line with
  | nil => exact absurd bytes.symm (by simp)
  | cons piece pieces ih =>
    rw [List.flatten_cons] at bytes
    by_cases mem : (0x0A : UInt8) ∈ piece
    · obtain ⟨front, back, rfl, first⟩ := exists_line mem
      rw [List.append_assoc, List.cons_append] at bytes
      have split := congrArg splitLine bytes
      rw [splitLine_of_not_mem first, splitLine_of_not_mem one] at split
      have same := Option.some.inj split
      have line_eq := congrArg Prod.fst same
      have rest_eq := congrArg Prod.snd same
      refine ⟨back :: pieces, ?_, rest_eq⟩
      rw [takeLine, splitLine_of_not_mem first]
      exact congrArg (·, true, back :: pieces) line_eq
    · obtain ⟨more, rfl, after⟩ : ∃ more, line = piece ++ more ∧
          pieces.flatten = more ++ 0x0A :: rest := by
        rcases List.append_eq_append_iff.1 bytes with ⟨more, line_eq, after⟩ | ⟨more, piece_eq, after⟩
        · exact ⟨more, line_eq, after⟩
        · cases more with
          | nil => exact ⟨[], by rw [piece_eq, List.append_nil, List.append_nil], after.symm⟩
          | cons b more =>
            have newline : b = 0x0A := (List.cons.inj after).1.symm
            rw [piece_eq, newline] at mem
            exact absurd (List.mem_append_right line List.mem_cons_self) mem
      obtain ⟨left, taken, left_eq⟩ := ih (fun m => one (List.mem_append_right piece m)) after
      refine ⟨left, ?_, left_eq⟩
      rw [takeLine, splitLine_none mem]
      simp only [taken, List.append_assoc]

/-- Without a newline all bytes are taken. -/
theorem takeLine_none {pieces : List (List UInt8)} (none : (0x0A : UInt8) ∉ pieces.flatten) :
    takeLine pieces = (pieces.flatten, false, []) := by
  induction pieces with
  | nil => rfl
  | cons piece pieces ih =>
    rw [List.flatten_cons] at none ⊢
    rw [takeLine, splitLine_none fun mem => none (List.mem_append_left _ mem)]
    simp only [ih fun mem => none (List.mem_append_right _ mem)]

variable {s : Source} {failure : Option String}

/-- Nothing is read from a stream that has ended. -/
theorem readLine_end (brings : s.Brings [] none) : (readLine s).1 = .ok none := by
  have flat : s.pieces.flatten = [] := brings.bytes
  have taken := takeLine_none (flat ▸ List.not_mem_nil)
  rw [flat] at taken
  simp only [readLine, taken, brings.ends, Option.isSome_none, List.isEmpty_nil]
  rfl

/-- A line of text is read without the blanks at its ends. -/
theorem readLine_text {cs : List Char} {rest : List UInt8} (one : (0x0A : UInt8) ∉ Utf8.ofChars cs)
    (brings : s.Brings (Utf8.ofChars cs ++ 0x0A :: rest) failure) :
    ∃ after, readLine s = (.ok (some (trimBlanks (cs ++ ['\n']))), after) ∧
      after.Brings rest failure := by
  obtain ⟨left, taken, left_eq⟩ := takeLine_of_line one brings.bytes
  have bytes : Utf8.ofChars cs ++ [0x0A] = Utf8.ofChars (cs ++ ['\n']) := by
    rw [Utf8.ofChars_append]
    rfl
  have some : (Utf8.ofChars (cs ++ ['\n'])).isEmpty = false := by
    rw [← bytes]
    simp
  have decoded : Utf8.decode (Utf8.ofChars (cs ++ ['\n'])) = .ok (String.ofList (cs ++ ['\n'])) := by
    have read := Utf8.decode_encode (String.ofList (cs ++ ['\n']))
    rw [Utf8.encode, String.toList_ofList] at read
    exact read
  rw [bytes] at taken
  refine ⟨{ s with pieces := left }, ?_, left_eq, brings.ends⟩
  simp only [readLine, taken, some, decoded, Bool.not_true, Bool.false_eq_true, false_and, if_false,
    String.toList_ofList]

/-- What is read as the last line when no newline comes any more. -/
theorem readLine_rest {bytes : List UInt8} (unended : (0x0A : UInt8) ∉ bytes) (some : bytes ≠ [])
    (brings : s.Brings bytes none) :
    (∃ e, (readLine s).1 = .error e) ∨
      ∃ line after, readLine s = (.ok (.some line), after) ∧ after.Brings [] none := by
  have flat : s.pieces.flatten = bytes := brings.bytes
  have taken := takeLine_none (flat.symm ▸ unended)
  have begun : bytes.isEmpty = false := List.isEmpty_eq_false_iff.2 some
  rw [flat] at taken
  cases decoded : Utf8.decode bytes with
  | error fault =>
    refine .inl ⟨.header (.notUtf8 fault), ?_⟩
    simp only [readLine, taken, brings.ends, begun, decoded, Option.isSome_none, Bool.false_eq_true,
      and_false, if_false]
  | ok text =>
    refine .inr ⟨trimBlanks text.toList, { s with pieces := [] }, ?_, rfl, brings.ends⟩
    simp only [readLine, taken, brings.ends, begun, decoded, Option.isSome_none, Bool.false_eq_true,
      and_false, if_false]

/-! ## Headers -/

variable {length : Option Nat} {started : Bool}

/-- A header goes on with a line that was read. -/
theorem readHeader_line {line : List Char} {after : Source}
    (read : readLine s = (.ok (some line), after)) :
    readHeader length started s =
      if line.isEmpty then
        match length with
        | some n => (.ok (some n), after)
        | none => (.error .noLength, after)
      else
        match lineLength line with
        | .error e => (.error e, after)
        | .ok none => readHeader length true after
        | .ok (some n) => readHeader (some n) true after := by
  rw [readHeader]
  split
  · next same =>
    rw [read] at same
    cases same
  · next same =>
    rw [read] at same
    cases same
  · next same =>
    rw [read] at same
    cases same
    rfl

theorem readHeader_error {e : ReadError} (read : (readLine s).1 = .error e) :
    (readHeader length started s).1 = .error e := by
  rw [readHeader]
  split
  · next same =>
    rw [same] at read
    cases read
    rfl
  · next same =>
    rw [same] at read
    cases read
  · next same =>
    rw [same] at read
    cases read

/-- A stream that has ended has no header, and ends none that has begun. -/
theorem readHeader_end (brings : s.Brings [] none) :
    (readHeader length started s).1 = if started then .error .endInHeader else .ok none := by
  have read := readLine_end brings
  rw [readHeader]
  split
  · next same =>
    rw [same] at read
    cases read
  · rfl
  · next same =>
    rw [same] at read
    cases read

/-- A stream that brings no newline ends no header, except that what is left may be an empty line of
which the newline is missing. -/
theorem readHeader_rest {bytes : List UInt8} (unended : (0x0A : UInt8) ∉ bytes) (begun : bytes ≠ [])
    (brings : s.Brings bytes none) :
    (∃ e, (readHeader length started s).1 = .error e) ∨
      ∃ n after, length = some n ∧ readHeader length started s = (.ok (some n), after) ∧
        after.Brings [] none := by
  rcases readLine_rest unended begun brings with ⟨e, read⟩ | ⟨line, after, read, ended⟩
  · exact .inl ⟨e, readHeader_error read⟩
  · rw [readHeader_line read]
    by_cases blank : line.isEmpty = true
    · rw [if_pos blank]
      cases length with
      | none => exact .inl ⟨.noLength, rfl⟩
      | some n => exact .inr ⟨n, after, rfl, rfl, ended⟩
    · rw [if_neg blank]
      refine .inl ?_
      cases lineLength line with
      | error e => exact ⟨e, rfl⟩
      | ok said =>
        cases said with
        | none => exact ⟨.endInHeader, readHeader_end ended⟩
        | some n => exact ⟨.endInHeader, readHeader_end ended⟩

/-! ## Bodies -/

/-- Bytes are taken from pieces as from what the pieces hold together. -/
theorem takeBytes_eq (n : Nat) (pieces : List (List UInt8)) :
    (takeBytes n pieces).1 = pieces.flatten.take n ∧
      (takeBytes n pieces).2.flatten = pieces.flatten.drop n := by
  induction pieces generalizing n with
  | nil => exact ⟨List.take_nil.symm, List.drop_nil.symm⟩
  | cons piece pieces ih =>
    rw [List.flatten_cons, takeBytes]
    by_cases within : n ≤ piece.length
    · rw [if_pos within, List.take_append_of_le_length within,
        List.drop_append_of_le_length within]
      exact ⟨rfl, rfl⟩
    · obtain ⟨taken, left⟩ := ih (n - piece.length)
      rw [if_neg within, List.take_append, List.drop_append, List.take_of_length_le (by omega),
        List.drop_of_length_le (i := n) (l := piece) (by omega)]
      exact ⟨congrArg (piece ++ ·) taken, left⟩

/-- A body is taken from the bytes that are left, and they are all it depends on. -/
theorem readBody_eq (n : Nat) (s : Source) :
    (readBody n s).1 = (if s.bytes.length < n then .error (.body (s.endError .earlyEnd))
      else (Json.read (s.bytes.take n)).mapError .decoding) ∧
      (readBody n s).2.Brings (s.bytes.drop n) s.failure := by
  obtain ⟨taken, left⟩ := takeBytes_eq n s.pieces
  have size : (takeBytes n s.pieces).1.length < n ↔ s.bytes.length < n := by
    rw [taken, List.length_take]
    show min n s.bytes.length < n ↔ _
    omega
  unfold readBody
  simp only [size]
  by_cases short : s.bytes.length < n
  · rw [if_pos short, if_pos short]
    exact ⟨rfl, left, rfl⟩
  · rw [if_neg short, if_neg short]
    have body : Json.read (takeBytes n s.pieces).1 = Json.read (s.bytes.take n) :=
      congrArg Json.read taken
    rw [body]
    cases Json.read (s.bytes.take n) <;> exact ⟨rfl, left, rfl⟩

/-- A body that is JSON is taken off the stream. -/
theorem readBody_value {body rest : List UInt8} {v : Json} (read : Json.read body = .ok v)
    (brings : s.Brings (body ++ rest) failure) :
    ∃ after, readBody body.length s = (.ok v, after) ∧ after.Brings rest failure := by
  obtain ⟨value, left⟩ := readBody_eq body.length s
  have enough : ¬(body ++ rest).length < body.length := by
    rw [List.length_append]
    omega
  rw [brings.bytes, if_neg enough, List.take_left, read] at value
  rw [brings.bytes, brings.ends, List.drop_left] at left
  exact ⟨_, Prod.ext value rfl, left⟩

/-- A stream that is shorter than the body ends inside it. -/
theorem readBody_short {bytes : List UInt8} {n : Nat} (short : bytes.length < n)
    (brings : s.Brings bytes none) : (readBody n s).1 = .error (.body .earlyEnd) := by
  have fault := (readBody_eq n s).1
  rw [brings.bytes, if_pos short, Source.endError, brings.ends] at fault
  exact fault

end Supervision.Frame
