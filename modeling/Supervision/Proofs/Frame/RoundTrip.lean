import Supervision.Frame.Reader
import Supervision.Frame.Writer
import Supervision.Proofs.Frame.Source
import Supervision.Proofs.Json.RoundTrip

/-!
# Frames are read back, up to any cut

What the writer of frames has written is cut somewhere, arrives in pieces of any size, and ends. The
reader yields the values whose frames lie wholly before the cut, in their order; then it ends cleanly
if the cut lies between frames, and otherwise it reports a fault.

A cut inside the header leaves a first line without a newline, nothing after the first line, or the
empty line without its newline. The last of these is read as a whole header, and the fault is the
missing body: no value has an empty text. The values are those that a text can stand for
(`Json.Writable`), which for doubles is an assumption; of a stream that fails, nothing is said.
-/

namespace Supervision.Frame

open Text
open Text.Utf8 (ofChars ofChars_append newline_not_mem_ofChars)

/-! ## The header line -/

/-- The header line of a body of `n` bytes, without blanks at its ends. -/
def lengthLine (n : Nat) : List Char :=
  lengthKey.toList ++ [':', ' '] ++ Nat.toDigits 10 n

theorem header_eq (n : Nat) :
    header n = ofChars (lengthLine n ++ ['\r']) ++ 0x0A :: ofChars ['\r'] ++ [0x0A] := by
  have text : (s!"{lengthKey}: {n}\r\n\r\n").toList =
      lengthLine n ++ ['\r'] ++ '\n' :: ['\r', '\n'] := by
    simp only [String.toList_append, toString, Nat.toList_repr, lengthLine, List.append_assoc]
    rfl
  rw [header, Utf8.encode, text]
  show ofChars (lengthLine n ++ ['\r'] ++ '\n' :: ['\r', '\n']) = _
  rw [ofChars_append, List.append_assoc]
  rfl

theorem lineLength_lengthLine {n : Nat} (below : n < sizeLimit) :
    lineLength (lengthLine n) = .ok (some n) := by
  have colon : splitColon (lengthLine n) = some (lengthKey.toList, ' ' :: Nat.toDigits 10 n) := rfl
  have key : sameLetters (trimBlanks lengthKey.toList) lengthKey.toList = true := by decide
  have value : trimBlanks (' ' :: Nat.toDigits 10 n) = Nat.toDigits 10 n := by
    have trimmed : trimBlanks ([' '] ++ Nat.toDigits 10 n ++ []) = Nat.toDigits 10 n :=
      trimBlanks_of_solid
        (fun c first => isBlank_of_isDigit (isDigit_of_mem_toDigits (List.mem_of_head? first)))
        (fun c last => isBlank_of_isDigit (isDigit_of_mem_toDigits (List.mem_of_getLast? last)))
        (fun c mem => List.mem_singleton.mp mem ▸ rfl) nofun
    rwa [List.append_nil] at trimmed
  simp only [lineLength, colon, key, if_true, value, readCount_toDigits below]

variable {s : Source} {failure : Option String}

theorem lengthLine_newline (n : Nat) : (0x0A : UInt8) ∉ ofChars (lengthLine n ++ ['\r']) := by
  refine newline_not_mem_ofChars fun mem => ?_
  rcases List.mem_append.1 mem with mem | mem
  · rcases List.mem_append.1 mem with mem | mem
    · exact absurd mem (by decide)
    · exact absurd (isDigit_of_mem_toDigits mem) (by decide)
  · exact absurd mem (by decide)

/-- The line of a header is what is left of it when it is trimmed. -/
theorem trimBlanks_lengthLine (n : Nat) :
    trimBlanks (lengthLine n ++ ['\r'] ++ ['\n']) = lengthLine n := by
  have last : ∀ c, (lengthLine n).getLast? = some c → isBlank c = false := by
    intro c last
    rw [lengthLine, List.getLast?_append_of_ne_nil _ Nat.toDigits_ne_nil] at last
    exact isBlank_of_isDigit (isDigit_of_mem_toDigits (List.mem_of_getLast? last))
  have trimmed : trimBlanks ([] ++ lengthLine n ++ ['\r', '\n']) = lengthLine n :=
    trimBlanks_of_solid (by intro c first; cases first; rfl) last nofun (by
      intro c mem
      rcases List.mem_pair.mp mem with rfl | rfl
      · rfl
      · rfl)
  rwa [List.nil_append, List.append_cons] at trimmed

/-- The line that sets the length is read first. -/
theorem readHeader_first {n : Nat} (below : n < sizeLimit) {rest : List UInt8}
    (brings : s.Brings (ofChars (lengthLine n ++ ['\r']) ++ 0x0A :: rest) failure) :
    ∃ after, readHeader none false s = readHeader (some n) true after ∧
      after.Brings rest failure := by
  obtain ⟨after, read, brought⟩ := readLine_text (lengthLine_newline n) brings
  rw [trimBlanks_lengthLine] at read
  refine ⟨after, ?_, brought⟩
  have some : (lengthLine n).isEmpty = false := rfl
  rw [readHeader_line read, some, lineLength_lengthLine below]
  rfl

/-- The empty line ends the header. -/
theorem readHeader_empty {n : Nat} {rest : List UInt8}
    (brings : s.Brings (ofChars ['\r'] ++ 0x0A :: rest) failure) :
    ∃ after, readHeader (some n) true s = (.ok (some n), after) ∧ after.Brings rest failure := by
  obtain ⟨after, read, brought⟩ := readLine_text (newline_not_mem_ofChars (by decide)) brings
  refine ⟨after, ?_, brought⟩
  rw [readHeader_line read]
  rfl

/-! ## One frame -/

variable {v : Json}

theorem encode_eq (v : Json) :
    encode v = ofChars (lengthLine v.encode.length ++ ['\r']) ++
      0x0A :: (ofChars ['\r'] ++ 0x0A :: v.encode) := by
  rw [encode, enclose, header_eq, List.append_assoc, List.append_assoc, List.cons_append]
  rfl

/-- **A frame is read** as what its body says, and nothing after it is touched. -/
theorem readFrame_encode {w : Json} (read : Json.read v.encode = .ok w)
    (fits : v.encode.length ≤ maxBytes) {rest : List UInt8}
    (brings : s.Brings (encode v ++ rest) failure) :
    ∃ after, readFrame s = (.ok (some w), after) ∧ after.Brings rest failure := by
  have below : v.encode.length < sizeLimit := Nat.lt_of_le_of_lt fits (by decide)
  rw [encode_eq, List.append_assoc, List.cons_append, List.append_assoc, List.cons_append] at brings
  obtain ⟨s₁, first, brings⟩ := readHeader_first below brings
  obtain ⟨s₂, second, brings⟩ := readHeader_empty (n := v.encode.length) brings
  obtain ⟨s₃, body, brings⟩ := readBody_value read brings
  refine ⟨s₃, ?_, brings⟩
  simp only [readFrame, first, second, if_neg (Nat.not_lt.2 fits), body]

/-- A stream that has ended has no frame. -/
theorem readFrame_end (brings : s.Brings [] none) : (readFrame s).1 = .ok none := by
  have read : (readHeader none false s).1 = .ok none := readHeader_end brings
  unfold readFrame
  split
  · next same => rw [same] at read; cases read
  · rfl
  · next same => rw [same] at read; cases read

theorem readFrame_error {e : ReadError} (read : (readHeader none false s).1 = .error e) :
    (readFrame s).1 = .error e := by
  unfold readFrame
  split
  · next same => rw [same] at read; cases read; rfl
  · next same => rw [same] at read; cases read
  · next same => rw [same] at read; cases read

/-- A stream that ends before the body does has a fault for a frame. -/
theorem readFrame_short {n : Nat} {after : Source} {bytes : List UInt8}
    (read : readHeader none false s = (.ok (some n), after)) (short : bytes.length < n)
    (brings : after.Brings bytes none) : ∃ e, (readFrame s).1 = .error e := by
  by_cases long : maxBytes < n
  · refine ⟨.tooLong n, ?_⟩
    simp only [readFrame, read, if_pos long]
  · refine ⟨.body .earlyEnd, ?_⟩
    have body := readBody_short short brings
    simp only [readFrame, read, if_neg long]
    cases taken : readBody n after with
    | mk r left =>
      rw [taken] at body
      cases r with
      | ok v => cases body
      | error e => exact congrArg _ (Except.error.inj body)

/-- A prefix of bytes around a mark has the mark or does not reach it. -/
theorem prefix_cases {bytes front back : List UInt8} {b : UInt8}
    (cut : bytes <+: front ++ b :: back) :
    bytes <+: front ∨ ∃ more, bytes = front ++ b :: more ∧ more <+: back := by
  by_cases short : bytes.length ≤ front.length
  · exact .inl (List.prefix_of_prefix_length_le cut (List.prefix_append front _) short)
  · have whole : front ++ [b] <+: bytes := by
      refine List.prefix_of_prefix_length_le ⟨back, by simp⟩ cut ?_
      rw [List.length_append, List.length_singleton]
      omega
    obtain ⟨more, rfl⟩ := whole
    refine .inr ⟨more, by simp, ?_⟩
    rw [List.append_assoc, List.singleton_append, List.prefix_append_right_inj] at cut
    exact (List.cons_prefix_cons.1 cut).2

/-- **A frame that is cut off is a fault.** -/
theorem readFrame_part (solid : v.encode ≠ []) (below : v.encode.length < sizeLimit)
    {bytes : List UInt8} (cut : bytes <+: encode v) (begun : bytes ≠ [])
    (short : bytes.length < (encode v).length) (brings : s.Brings bytes none) :
    ∃ e, (readFrame s).1 = .error e := by
  have size := List.length_pos_iff.2 solid
  rw [encode_eq] at cut
  rcases prefix_cases cut with part | ⟨more, rfl, behind⟩
  · -- The cut lies in the first line.
    have none : (0x0A : UInt8) ∉ bytes := fun mem => lengthLine_newline _ (part.subset mem)
    rcases readHeader_rest none begun brings with ⟨e, read⟩ | ⟨n, _, said, _⟩
    · exact ⟨e, readFrame_error read⟩
    · cases said
  obtain ⟨after, first, brings⟩ := readHeader_first below brings
  rcases prefix_cases behind with part | ⟨body, rfl, _⟩
  · by_cases ended : more = []
    · -- The cut lies behind the first line.
      subst ended
      refine ⟨.endInHeader, readFrame_error ?_⟩
      rw [first]
      exact readHeader_end brings
    · -- The cut lies in the empty line.
      have none : (0x0A : UInt8) ∉ more := fun mem => absurd (part.subset mem) (by decide)
      rcases readHeader_rest none ended brings with ⟨e, read⟩ | ⟨n, left, said, read, brings⟩
      · exact ⟨e, readFrame_error (by rw [first]; exact read)⟩
      · cases said
        exact readFrame_short (by rw [first]; exact read) size brings
  · -- The cut lies in the body.
    obtain ⟨left, second, brings⟩ := readHeader_empty (n := v.encode.length) brings
    refine readFrame_short (by rw [first]; exact second) ?_ brings
    rw [encode_eq] at short
    simp only [List.length_append, List.length_cons] at short
    omega

/-! ## Frames that have come -/

/-- These bytes are the frames of these values, and nothing more. -/
inductive Carries : List UInt8 → List Json → Prop
  | nothing : Carries [] []
  | frame {bytes rest : List UInt8} {v : Json} {vs : List Json}
    (arrives : arrival bytes = .frame v rest) (more : Carries rest vs) : Carries bytes (v :: vs)

theorem carries_nil {bytes : List UInt8} : Carries bytes [] ↔ bytes = [] := by
  refine ⟨fun carries => ?_, fun nothing => nothing ▸ .nothing⟩
  cases carries
  rfl

theorem carries_cons {bytes : List UInt8} {v : Json} {vs : List Json} :
    Carries bytes (v :: vs) ↔ ∃ rest, arrival bytes = .frame v rest ∧ Carries rest vs := by
  refine ⟨fun carries => ?_, fun ⟨rest, arrives, more⟩ => .frame arrives more⟩
  cases carries with
  | frame arrives more => exact ⟨_, arrives, more⟩

/-- A reader with nothing before it waits. -/
theorem arrival_nil : arrival [] = .incomplete := by
  have read : readHeader none false ⟨[[]], some dry⟩ =
      (.error (.header (.failed dry)), ⟨[], some dry⟩) := by
    rw [readHeader]
    rfl
  simp only [arrival, readFrame, read, ReadError.isDry, beq_self_eq_true, if_true]

/-- A frame that has come is taken off what has come. -/
theorem arrival_encode {w : Json} (read : Json.read v.encode = .ok w)
    (fits : v.encode.length ≤ maxBytes) (rest : List UInt8) :
    arrival (encode v ++ rest) = .frame w rest := by
  have brings : Source.Brings ⟨[encode v ++ rest], some dry⟩ (encode v ++ rest) (some dry) :=
    ⟨List.append_nil _, rfl⟩
  obtain ⟨after, taken, brought⟩ := readFrame_encode read fits brings
  simp only [arrival, taken, brought.bytes]

theorem carries_encode {vs : List Json} (read : ∀ v ∈ vs, Json.read v.encode = .ok v)
    (fits : ∀ v ∈ vs, v.encode.length ≤ maxBytes) : Carries (vs.flatMap encode) vs := by
  induction vs with
  | nil => exact .nothing
  | cons v vs ih =>
    rw [List.flatMap_cons]
    exact .frame (arrival_encode (read v List.mem_cons_self) (fits v List.mem_cons_self) _)
      (ih (fun w mem => read w (List.mem_cons_of_mem v mem))
        fun w mem => fits w (List.mem_cons_of_mem v mem))

theorem Carries.ne_nil {bytes : List UInt8} {vs : List Json} (carries : Carries bytes (v :: vs)) :
    bytes ≠ [] := by
  obtain ⟨rest, arrives, -⟩ := carries_cons.1 carries
  rintro rfl
  rw [arrival_nil] at arrives
  cases arrives

/-! ## Writing -/

/-- A sink that never fails. -/
structure Sink.Faultless (s : Sink) : Prop where
  room : s.room = none
  flush : s.flushFault = none

/-- A sink that never fails takes all bytes, however many at a time. -/
theorem Sink.Faultless.writeAll {s : Sink} (faultless : s.Faultless) (bytes : List UInt8) :
    ∃ s', s.writeAll bytes = (true, s') ∧ s'.Faultless ∧ s'.taken = s.taken ++ bytes := by
  induction s, bytes using Sink.writeAll.induct with
  | case1 s =>
    refine ⟨s, ?_, faultless, (List.append_nil _).symm⟩
    rw [Sink.writeAll]
  | case2 s b rest full =>
    rw [Sink.accepts, faultless.room] at full
    cases full
  | case3 s b rest k accepted ih =>
    have next : (s.take (b :: rest.take k)).Faultless :=
      ⟨by simp only [Sink.take, faultless.room, Option.map_none], faultless.flush⟩
    obtain ⟨s', written, faultless', taken⟩ := ih next
    refine ⟨s', ?_, faultless', ?_⟩
    · rw [Sink.writeAll, accepted]
      exact written
    · rw [taken]
      show s.taken ++ b :: rest.take k ++ rest.drop k = _
      rw [List.append_assoc, List.cons_append, List.take_append_drop]

theorem Sink.Faultless.writeFrame {s : Sink} (faultless : s.Faultless) (v : Json) :
    ∃ s', writeFrame s v = (.ok (), s') ∧ s'.Faultless ∧ s'.taken = s.taken ++ encode v := by
  obtain ⟨s₁, first, faultless₁, taken₁⟩ := faultless.writeAll (header v.encode.length)
  obtain ⟨s₂, second, faultless₂, taken₂⟩ := faultless₁.writeAll v.encode
  refine ⟨s₂.flush.2, ?_, ⟨faultless₂.room, faultless₂.flush⟩, ?_⟩
  · simp only [Frame.writeFrame, first, second, Sink.flush, faultless₂.flush]
  · show s₂.taken = _
    rw [taken₂, taken₁, List.append_assoc]
    rfl

/-- A sink that never fails takes one frame after the other. -/
theorem Sink.Faultless.writeFrames {s : Sink} (faultless : s.Faultless) (vs : List Json) :
    (∀ r ∈ (writeFrames s vs).1, r = .ok ()) ∧
      (writeFrames s vs).2.taken = s.taken ++ vs.flatMap encode := by
  induction vs generalizing s with
  | nil => exact ⟨fun r mem => absurd mem List.not_mem_nil, (List.append_nil _).symm⟩
  | cons v vs ih =>
    obtain ⟨s', written, faultless', taken⟩ := faultless.writeFrame v
    obtain ⟨others, taken'⟩ := ih faultless'
    simp only [Frame.writeFrames, written, List.flatMap_cons]
    refine ⟨fun r mem => ?_, by rw [taken', taken, List.append_assoc]⟩
    rcases List.mem_cons.1 mem with rfl | mem
    · rfl
    · exact others r mem

/-! ## Any cut -/

/-- Frames read one after the other, each from what the one before it left. -/
inductive Reads : Source → List Json → Source → Prop
  | nothing (s : Source) : Reads s [] s
  | frame {s after left : Source} {v : Json} {vs : List Json}
    (read : readFrame s = (.ok (some v), after)) (rest : Reads after vs left) : Reads s (v :: vs) left

/-- What is read of frames that are cut off at a stream's end: the values `before` the cut, and then
no frame, or a fault if a `part` of the next frame is left. -/
structure CutOff (s : Source) (vs before : List Json) (bytes part : List UInt8) : Prop where
  /-- The bytes are the frames before the cut and a part of the next that is not the whole of it. -/
  bytes : bytes = before.flatMap encode ++ part
  values : ∃ after, vs = before ++ after ∧ part <+: after.flatMap encode ∧
    ∀ v, after.head? = some v → part.length < (encode v).length
  read : ∃ left, Reads s before left ∧
    (part = [] → (readFrame left).1 = .ok none) ∧ (part ≠ [] → ∃ e, (readFrame left).1 = .error e)

/-- Frames that are cut off are read up to the cut. -/
theorem exists_cutOff {vs : List Json} (read : ∀ v ∈ vs, Json.read v.encode = .ok v)
    (solid : ∀ v ∈ vs, v.encode ≠ []) (fits : ∀ v ∈ vs, v.encode.length ≤ maxBytes)
    {bytes : List UInt8} (cut : bytes <+: vs.flatMap encode) {s : Source}
    (brings : s.Brings bytes none) : ∃ before part, CutOff s vs before bytes part := by
  induction vs generalizing bytes s with
  | nil =>
    obtain rfl := List.prefix_nil.1 cut
    exact ⟨[], [], rfl, ⟨[], rfl, cut, fun v first => by cases first⟩,
      s, .nothing s, fun _ => readFrame_end brings, fun begun => absurd rfl begun⟩
  | cons v vs ih =>
    by_cases short : bytes.length < (encode v).length
    · -- The cut lies in the first frame, or before it.
      have first : bytes <+: encode v := by
        refine List.prefix_of_prefix_length_le cut (List.prefix_append _ _) (Nat.le_of_lt short)
      have below : v.encode.length < sizeLimit :=
        Nat.lt_of_le_of_lt (fits v List.mem_cons_self) (by decide)
      refine ⟨[], bytes, rfl, ⟨v :: vs, rfl, cut, fun w head => ?_⟩, s, .nothing s, ?_, ?_⟩
      · cases head
        exact short
      · rintro rfl
        exact readFrame_end brings
      · intro begun
        exact readFrame_part (solid v List.mem_cons_self) below first begun short brings
    · have whole : encode v <+: bytes :=
        List.prefix_of_prefix_length_le (List.prefix_append _ _) cut (Nat.not_lt.1 short)
      obtain ⟨more, rfl⟩ := whole
      rw [List.flatMap_cons, List.prefix_append_right_inj] at cut
      obtain ⟨after, frame, brings⟩ :=
        readFrame_encode (read v List.mem_cons_self) (fits v List.mem_cons_self) brings
      obtain ⟨before, part, bytes_eq, ⟨others, values, rest, next⟩, left, reads, ended⟩ :=
        ih (fun w mem => read w (List.mem_cons_of_mem v mem))
          (fun w mem => solid w (List.mem_cons_of_mem v mem))
          (fun w mem => fits w (List.mem_cons_of_mem v mem)) cut brings
      refine ⟨v :: before, part, ?_, ⟨others, ?_, rest, next⟩, left, .frame frame reads, ended⟩
      · rw [bytes_eq, List.flatMap_cons, List.append_assoc]
      · rw [values, List.cons_append]

/-- **Frames are read back up to any cut.** Writing them puts one after the other, and of whatever
pieces bring a beginning of that, the values whose frames are whole are read, in their order, before
the stream ends or is found to be broken. -/
theorem reads_of_cut {vs : List Json} (writable : ∀ v ∈ vs, v.Writable)
    (shallow : ∀ v ∈ vs, v.depth ≤ Json.maxDepth) (fits : ∀ v ∈ vs, v.encode.length ≤ maxBytes)
    {sink : Sink} (faultless : sink.Faultless) :
    (∀ r ∈ (writeFrames sink vs).1, r = .ok ()) ∧
      (writeFrames sink vs).2.taken = sink.taken ++ vs.flatMap encode ∧
      ∀ pieces : List (List UInt8), pieces.flatten <+: vs.flatMap encode →
        ∃ before part, CutOff ⟨pieces, none⟩ vs before pieces.flatten part := by
  obtain ⟨written, taken⟩ := faultless.writeFrames vs
  refine ⟨written, taken, fun pieces cut => ?_⟩
  have solid : ∀ v ∈ vs, v.encode ≠ [] := by
    intro v mem
    obtain ⟨b, more, bytes, -⟩ := Json.first_of_writable (writable v mem)
    rw [Json.encode_eq_ofChars, bytes]
    exact List.cons_ne_nil b more
  exact exists_cutOff (fun v mem => Json.read_encode (writable v mem) (shallow v mem)) solid fits cut
    ⟨rfl, rfl⟩

section Cut

open Json

/-- One and a half. -/
def oneAndHalf : Number.Binary64 :=
  ⟨false, 6755399441055744, -52⟩

theorem writable_oneAndHalf : Writable (.float oneAndHalf) := by
  refine .float ?_
  have text : Json.encode (.float oneAndHalf) = [0x31, 0x2E, 0x35] := by decide +kernel
  have value : Numeral.toFloat? ⟨false, [1], some [5], none⟩ = some oneAndHalf := by decide +kernel
  rw [text, readNumber_eq_ok]
  refine ⟨[1], some [5], none, [0x2E, 0x35], [], rfl, rfl, rfl, ?_⟩
  show (Numeral.toFloat? ⟨false, [1], some [5], none⟩).map Json.float = _
  rw [value]
  rfl

/-- An object whose members are in order. -/
def smallObject : Json :=
  .obj [("a", .int (-3)), ("b", .arr [.str "\n", .null])]

theorem writable_smallObject : Writable smallObject := by
  refine .obj (by decide) fun m mem => ?_
  rcases List.mem_pair.1 mem with rfl | rfl
  · exact .int (by decide) (by decide)
  · refine .arr fun v mem => ?_
    rcases List.mem_pair.1 mem with rfl | rfl
    · exact .str _
    · exact .null

/-- Two frames, the second cut off behind its first nine bytes. -/
theorem reads_of_cut_second :
    ∃ before part, CutOff ⟨[encode (.float oneAndHalf), (encode smallObject).take 9], none⟩
      [.float oneAndHalf, smallObject] before
      (encode (.float oneAndHalf) ++ (encode smallObject).take 9) part := by
  have writable : ∀ v ∈ [.float oneAndHalf, smallObject], v.Writable := by
    intro v mem
    rcases List.mem_pair.1 mem with rfl | rfl
    · exact writable_oneAndHalf
    · exact writable_smallObject
  have shallow : ∀ v ∈ [.float oneAndHalf, smallObject], v.depth ≤ maxDepth := by
    intro v mem
    rcases List.mem_pair.1 mem with rfl | rfl <;> decide
  have fits : ∀ v ∈ [.float oneAndHalf, smallObject], v.encode.length ≤ maxBytes := by
    intro v mem
    rcases List.mem_pair.1 mem with rfl | rfl <;> decide +kernel
  have sink : Sink.Faultless ⟨fun n => n % 3, none, "", none, 0, 0, []⟩ := ⟨rfl, rfl⟩
  have cut : encode (.float oneAndHalf) ++ (encode smallObject).take 9 <+:
      [.float oneAndHalf, smallObject].flatMap encode := by
    rw [List.flatMap_cons, List.flatMap_cons, List.flatMap_nil, List.append_nil,
      List.prefix_append_right_inj]
    exact List.take_prefix 9 _
  have read := (reads_of_cut writable shallow fits sink).2.2
    [encode (.float oneAndHalf), (encode smallObject).take 9]
  rw [List.flatten_cons, List.flatten_cons, List.flatten_nil, List.append_nil] at read
  exact read cut

end Cut

end Supervision.Frame
