import Supervision.Proofs.Frame.RoundTrip
import Supervision.Proofs.Text.Recognition

/-!
# The grammar of frames

What a frame is, said of bytes and apart from the reader (`Framed`): a header block of lines that
end in a newline, the first of them with nothing but blanks closing it, and a body of as many bytes
as the last line with the key `Content-Length` sets. The reader of frames recognizes exactly these
(`recognized_of_source`): it returns nothing only where nothing is left, it returns a value exactly
if a frame of it comes first, and then it has taken that frame and no more; anything else is a
fault.

A line that is not closed by a newline is read as a line too, and it may even be the blank one that
ends the header. Nothing follows it, though, so the body is missing or empty, and no text of a value
is empty. What a value's text is belongs to the reader of JSON, and which fault is reported for
bytes that are no frame is not said.
-/

namespace Supervision.Frame

open Text
open Text.Utf8 (ofChars ofChars_append newline_not_mem_ofChars newline_mem_ofChars
  of_ofChars_newline)

/-! ## The grammar -/

/-- The bytes of a line and of the newline that ends it. -/
def lineBytes (line : List Char) : List UInt8 :=
  ofChars line ++ [0x0A]

/-- What stands before the first colon of a line, without blanks at its ends. -/
def key (line : List Char) : List Char :=
  trimBlanks (line.takeWhile (· ≠ ':'))

/-- What stands behind the first colon of a line, without blanks at its ends. -/
def value (line : List Char) : List Char :=
  trimBlanks (line.dropWhile (· ≠ ':')).tail

/-- The key of a line is `Content-Length`, its ASCII letters in any case. -/
def SetsLength (line : List Char) : Prop :=
  (key line).map Char.toLower = lengthKey.toList.map Char.toLower

/-- These are the lines of a header before the one that closes it, and `n` is what they set. -/
structure Heads (lines : List (List Char)) (n : Nat) : Prop where
  solid : ∀ line ∈ lines, trimBlanks line ≠ []
  colon : ∀ line ∈ lines, ':' ∈ trimBlanks line
  /-- Every line that sets a length sets it to a size. -/
  counts : ∀ line ∈ lines, SetsLength (trimBlanks line) →
    ∃ m, Denotes (value (trimBlanks line)) m ∧ m < sizeLimit
  /-- The last line that sets a length sets it to `n`. -/
  last : ∃ front line back, lines = front ++ line :: back ∧ SetsLength (trimBlanks line) ∧
    (Denotes (value (trimBlanks line)) n ∧ n < sizeLimit) ∧
    ∀ later ∈ back, ¬SetsLength (trimBlanks later)

/-- The bytes of a header block that sets the length of the body to `n`. -/
inductive Block : List UInt8 → Nat → Prop
  | intro {lines : List (List Char)} {last : List Char} {n : Nat} (heads : Heads lines n)
    (single : ∀ line ∈ lines, '\n' ∉ line) (ends : '\n' ∉ last) (blank : trimBlanks last = []) :
    Block (lines.flatMap lineBytes ++ lineBytes last) n

/-- The bytes start with the frame of a value, and `rest` is what follows it. -/
inductive Framed : List UInt8 → Json → List UInt8 → Prop
  | intro {block body rest : List UInt8} {v : Json} (header : Block block body.length)
    (fits : body.length ≤ maxBytes) (reads : Json.read body = .ok v) :
    Framed (block ++ (body ++ rest)) v rest

/-! ## One line -/

theorem splitColon_eq (line : List Char) :
    splitColon line =
      if ':' ∈ line then some (line.takeWhile (· ≠ ':'), (line.dropWhile (· ≠ ':')).tail)
      else none := by
  induction line with
  | nil => rfl
  | cons c line ih =>
    by_cases colon : c = ':'
    · subst colon
      rw [splitColon, if_pos rfl, if_pos List.mem_cons_self]
      rfl
    · have same : ':' ∈ c :: line ↔ ':' ∈ line :=
        ⟨fun mem => (List.mem_cons.1 mem).resolve_left (Ne.symm colon), List.mem_cons_of_mem c⟩
      have goes : (fun d : Char => decide (d ≠ ':')) c = true := decide_eq_true colon
      rw [splitColon, if_neg colon, ih, List.takeWhile_cons_of_pos (p := (· ≠ ':')) goes,
        List.dropWhile_cons_of_pos (p := (· ≠ ':')) goes]
      by_cases mem : ':' ∈ line
      · rw [if_pos mem, if_pos (same.2 mem)]
        rfl
      · rw [if_neg mem, if_neg (mt same.1 mem)]
        rfl

/-- A header line is looked into as far as its key asks for it. -/
theorem lineLength_eq (line : List Char) :
    lineLength line =
      if ':' ∈ line then
        if sameLetters (key line) lengthKey.toList then
          match readCount sizeLimit (value line) with
          | .ok n => .ok (some n)
          | .error why => .error (.badLength (String.ofList (value line)) why)
        else .ok none
      else .error (.malformedLine (String.ofList line)) := by
  rw [lineLength, splitColon_eq]
  by_cases colon : ':' ∈ line
  · rw [if_pos colon, if_pos colon]
    rfl
  · rw [if_neg colon, if_neg colon]

theorem sameLetters_iff {line : List Char} :
    sameLetters (key line) lengthKey.toList = true ↔ SetsLength line :=
  beq_iff_eq

/-- A line sets a length exactly if its key says so and its value is a size. -/
theorem lineLength_eq_some {line : List Char} {n : Nat} :
    lineLength line = .ok (some n) ↔
      ':' ∈ line ∧ SetsLength line ∧ Denotes (value line) n ∧ n < sizeLimit := by
  have bound : 0 < sizeLimit := by decide
  rw [← readCount_eq_ok bound, ← sameLetters_iff, lineLength_eq]
  by_cases colon : ':' ∈ line
  · by_cases sets : sameLetters (key line) lengthKey.toList = true
    · rw [if_pos colon, if_pos sets]
      cases readCount sizeLimit (value line) with
      | error why => simp only [reduceCtorEq, and_false]
      | ok m => simp only [Except.ok.injEq, Option.some.injEq, colon, sets, true_and]
    · rw [if_pos colon, if_neg sets]
      simp only [Except.ok.injEq, reduceCtorEq, sets, false_and, and_false]
  · rw [if_neg colon]
    simp only [reduceCtorEq, colon, false_and]

/-- A line is another header exactly if it has a colon and another key. -/
theorem lineLength_eq_none {line : List Char} :
    lineLength line = .ok none ↔ ':' ∈ line ∧ ¬SetsLength line := by
  rw [← sameLetters_iff, lineLength_eq]
  by_cases colon : ':' ∈ line
  · by_cases sets : sameLetters (key line) lengthKey.toList = true
    · rw [if_pos colon, if_pos sets]
      cases readCount sizeLimit (value line) with
      | error why => simp only [reduceCtorEq, sets, not_true_eq_false, and_false]
      | ok m => simp only [Except.ok.injEq, reduceCtorEq, sets, not_true_eq_false, and_false]
    · rw [if_pos colon, if_neg sets]
      exact ⟨fun _ => ⟨colon, sets⟩, fun _ => rfl⟩
  · rw [if_neg colon]
    simp only [reduceCtorEq, colon, false_and]

/-! ## The lines of a header -/

/-- These lines are read as headers, and they turn a length that was set before into another. -/
inductive Lines : Option Nat → List (List Char) → Option Nat → Prop
  | nil (length : Option Nat) : Lines length [] length
  | cons {length said length' : Option Nat} {line : List Char} {lines : List (List Char)}
    (solid : trimBlanks line ≠ []) (means : lineLength (trimBlanks line) = .ok said)
    (more : Lines (said.or length) lines length') : Lines length (line :: lines) length'

variable {length length' : Option Nat} {lines : List (List Char)} {n : Nat}

theorem Lines.append {between : Option Nat} {more : List (List Char)}
    (front : Lines length lines between) (back : Lines between more length') :
    Lines length (lines ++ more) length' := by
  induction front with
  | nil => exact back
  | cons solid means _ ih => exact .cons solid means (ih back)

/-- Headers that set no length leave it as it was. -/
theorem Lines.of_others (solid : ∀ line ∈ lines, trimBlanks line ≠ [])
    (colon : ∀ line ∈ lines, ':' ∈ trimBlanks line)
    (others : ∀ line ∈ lines, ¬SetsLength (trimBlanks line)) : Lines length lines length := by
  induction lines with
  | nil => exact .nil length
  | cons line lines ih =>
    rw [List.forall_mem_cons] at solid colon others
    exact .cons solid.1 (lineLength_eq_none.2 ⟨colon.1, others.1⟩) (ih solid.2 colon.2 others.2)

/-- Lines that are headers, each in itself, are read as headers. -/
theorem Lines.of_counts (solid : ∀ line ∈ lines, trimBlanks line ≠ [])
    (colon : ∀ line ∈ lines, ':' ∈ trimBlanks line)
    (counts : ∀ line ∈ lines, SetsLength (trimBlanks line) →
      ∃ m, Denotes (value (trimBlanks line)) m ∧ m < sizeLimit) :
    ∃ length', Lines length lines length' := by
  induction lines generalizing length with
  | nil => exact ⟨length, .nil length⟩
  | cons line lines ih =>
    rw [List.forall_mem_cons] at solid colon counts
    obtain ⟨said, means⟩ : ∃ said, lineLength (trimBlanks line) = .ok said := by
      by_cases sets : SetsLength (trimBlanks line)
      · obtain ⟨m, size⟩ := counts.1 sets
        exact ⟨some m, lineLength_eq_some.2 ⟨colon.1, sets, size⟩⟩
      · exact ⟨none, lineLength_eq_none.2 ⟨colon.1, sets⟩⟩
    obtain ⟨length', more⟩ : ∃ length', Lines (said.or length) lines length' :=
      ih solid.2 colon.2 counts.2
    exact ⟨length', .cons solid.1 means more⟩

/-- The lines of a header set the length, whatever was set before them. -/
theorem Heads.read (heads : Heads lines n) : Lines length lines (some n) := by
  obtain ⟨solid, colon, counts, front, line, back, rfl, sets, size, others⟩ := heads
  rw [List.forall_mem_append, List.forall_mem_cons] at solid colon counts
  obtain ⟨between, before⟩ : ∃ between, Lines length front between :=
    Lines.of_counts solid.1 colon.1 counts.1
  have means := lineLength_eq_some.2 ⟨colon.2.1, sets, size⟩
  exact before.append (.cons solid.2.1 means (.of_others solid.2.2 colon.2.2 others))

/-- What is read as headers is headers, and the last of them that sets a length has set it. -/
theorem Lines.heads (read : Lines length lines (some n)) :
    Heads lines n ∨ length = some n ∧ (∀ line ∈ lines, trimBlanks line ≠ []) ∧
      (∀ line ∈ lines, ':' ∈ trimBlanks line) ∧ ∀ line ∈ lines, ¬SetsLength (trimBlanks line) := by
  generalize last : some n = length' at read
  induction read with
  | nil => exact .inr ⟨rfl, nofun, nofun, nofun⟩
  | @cons length said _ line lines solid means _ ih =>
    rcases ih last with ⟨solids, colons, counts, front, other, back, rfl, sets, size, others⟩ |
      ⟨set, solids, colons, others⟩
    · -- A later line has the last word.
      refine .inl ⟨List.forall_mem_cons.2 ⟨solid, solids⟩, ?_, ?_, line :: front, other, back, rfl,
        sets, size, others⟩
      · refine List.forall_mem_cons.2 ⟨?_, colons⟩
        cases said with
        | none => exact (lineLength_eq_none.1 means).1
        | some m => exact (lineLength_eq_some.1 means).1
      · refine List.forall_mem_cons.2 ⟨fun here => ?_, counts⟩
        cases said with
        | none => exact absurd here (lineLength_eq_none.1 means).2
        | some m => exact ⟨m, (lineLength_eq_some.1 means).2.2⟩
    · cases said with
      | none =>
        obtain ⟨colon, other⟩ := lineLength_eq_none.1 means
        exact .inr ⟨set, List.forall_mem_cons.2 ⟨solid, solids⟩,
          List.forall_mem_cons.2 ⟨colon, colons⟩, List.forall_mem_cons.2 ⟨other, others⟩⟩
      | some m =>
        -- This line has it.
        obtain ⟨colon, sets, size⟩ := lineLength_eq_some.1 means
        obtain rfl : m = n := Option.some.inj (set.trans last.symm)
        refine .inl ⟨List.forall_mem_cons.2 ⟨solid, solids⟩, List.forall_mem_cons.2 ⟨colon, colons⟩,
          List.forall_mem_cons.2 ⟨fun _ => ⟨m, size⟩, fun later mem sets => ?_⟩,
          [], line, lines, rfl, sets, size, others⟩
        exact absurd sets (others later mem)

/-! ## The loop over the lines -/

/-- What becomes of a line that was asked for. -/
theorem readLine_cases (s : Source) :
    (∃ e, (readLine s).1 = .error e) ∨ (s.Brings [] none ∧ (readLine s).1 = .ok none) ∨
      (∃ line rest after, '\n' ∉ line ∧ s.bytes = lineBytes line ++ rest ∧
        readLine s = (.ok (some (trimBlanks line)), after) ∧ after.Brings rest s.failure) ∨
      s.bytes ≠ [] ∧
        ∃ line after, readLine s = (.ok (some line), after) ∧ after.Brings [] none := by
  by_cases ended : (0x0A : UInt8) ∈ s.bytes
  · obtain ⟨line, rest, bytes, one⟩ := exists_line ended
    obtain ⟨left, taken, flat⟩ := takeLine_of_line one bytes
    cases decoded : Utf8.decode (line ++ [0x0A]) with
    | error fault =>
      refine .inl ⟨.header (.notUtf8 fault), ?_⟩
      simp [readLine, taken, decoded]
    | ok text =>
      obtain ⟨cs, chars, rfl⟩ := of_ofChars_newline (Utf8.decode_eq_ok.1 decoded).symm
      refine .inr (.inr (.inl ⟨cs, rest, { s with pieces := left },
        fun mem => one (newline_mem_ofChars mem), ?_, ?_, flat, rfl⟩))
      · rw [bytes, lineBytes, List.append_assoc]
        rfl
      · simp [readLine, taken, decoded, chars, trimBlanks_newline]
  · cases failing : s.failure with
    | some text =>
      refine .inl ⟨.header (s.endError .earlyEnd), ?_⟩
      simp [readLine, takeLine_none ended, failing]
    | none =>
      by_cases none : s.bytes = []
      · exact .inr (.inl ⟨⟨none, failing⟩, readLine_end ⟨none, failing⟩⟩)
      · rcases readLine_rest ended none ⟨rfl, failing⟩ with fault | line
        · exact .inl fault
        · exact .inr (.inr (.inr ⟨none, line⟩))

/-- One turn of the loop: it ends with a result, or it goes on with what the line says. -/
def headerTurn (length : Option Nat) (started : Bool) (s : Source) :
    (Except ReadError (Option Nat) × Source) ⊕ (Option Nat × Source) :=
  match readLine s with
  | (.error e, after) => .inl (.error e, after)
  | (.ok none, after) => .inl (if started then .error .endInHeader else .ok none, after)
  | (.ok (some line), after) =>
    if line.isEmpty then
      .inl (match length with | some n => .ok (some n) | none => .error .noLength, after)
    else
      match lineLength line with
      | .error e => .inl (.error e, after)
      | .ok said => .inr (said.or length, after)

variable {started : Bool} {s : Source}

theorem readHeader_eq :
    readHeader length started s =
      match headerTurn length started s with
      | .inl result => result
      | .inr (length', after) => readHeader length' true after := by
  rw [readHeader]
  unfold headerTurn
  split
  · next read => rw [read]
  · next read => rw [read]
  · next line after read =>
    rw [read]
    dsimp only
    by_cases blank : line.isEmpty = true
    · rw [if_pos blank, if_pos blank]
      cases length <;> rfl
    · rw [if_neg blank, if_neg blank]
      cases lineLength line with
      | error e => rfl
      | ok said => cases said <;> rfl

/-- The loop reaches a result after so many turns. -/
inductive HeaderRun :
    Nat → Option Nat → Bool → Source → Except ReadError (Option Nat) × Source → Prop
  | ends {length : Option Nat} {started : Bool} {s : Source}
    {result : Except ReadError (Option Nat) × Source}
    (stops : headerTurn length started s = .inl result) : HeaderRun 1 length started s result
  | next {length length' : Option Nat} {started : Bool} {s after : Source} {turns : Nat}
    {result : Except ReadError (Option Nat) × Source}
    (goes : headerTurn length started s = .inr (length', after))
    (run : HeaderRun turns length' true after result) :
    HeaderRun (turns + 1) length started s result

/-- A turn after which the loop goes on has read a line, blanks around it dropped, that is a
header. -/
theorem of_headerTurn {after : Source}
    (goes : headerTurn length started s = .inr (length', after)) :
    ∃ line said, readLine s = (.ok (some line), after) ∧ line ≠ [] ∧ lineLength line = .ok said ∧
      length' = said.or length := by
  unfold headerTurn at goes
  split at goes
  · cases goes
  · cases goes
  · next line left read =>
    by_cases blank : line.isEmpty = true
    · rw [if_pos blank] at goes
      cases goes
    · rw [if_neg blank] at goes
      split at goes
      · cases goes
      · next said means =>
        cases goes
        exact ⟨line, said, read, fun none => blank (List.isEmpty_iff.2 none), means, rfl⟩

/-- **The loop ends** on every stream, at the latest one turn after its bytes are used up. -/
theorem headerRun_of_source (length : Option Nat) (started : Bool) (s : Source) :
    ∃ turns ≤ s.size + 1, HeaderRun turns length started s (readHeader length started s) := by
  induction size : s.size using Nat.strong_induction_on generalizing length started s with
  | h k ih =>
    subst size
    rw [readHeader_eq]
    cases turn : headerTurn length started s with
    | inl result => exact ⟨1, by omega, .ends turn⟩
    | inr next =>
      obtain ⟨length', after⟩ := next
      obtain ⟨line, said, read, -⟩ := of_headerTurn turn
      have shorter := readLine_size read
      obtain ⟨turns, few, run⟩ := ih after.size shorter length' true after rfl
      exact ⟨turns + 1, by omega, .next turn run⟩

/-! ## A header block -/

variable {line : List Char} {after : Source} {rest : List UInt8} {failure : Option String}

/-- The empty line ends the header with the length that was set. -/
theorem readHeader_blank (taken : readLine s = (.ok (some []), after)) :
    readHeader length started s =
      (match length with | some n => .ok (some n) | none => .error .noLength, after) := by
  rw [readHeader_line taken, if_pos (List.isEmpty_iff.2 rfl)]
  cases length <;> rfl

theorem readHeader_malformed {e : ReadError} (taken : readLine s = (.ok (some line), after))
    (solid : line ≠ []) (wrong : lineLength line = .error e) :
    readHeader length started s = (.error e, after) := by
  rw [readHeader_line taken, if_neg (mt List.isEmpty_iff.1 solid), wrong]

theorem readHeader_means {said : Option Nat} (taken : readLine s = (.ok (some line), after))
    (solid : line ≠ []) (means : lineLength line = .ok said) :
    readHeader length started s = readHeader (said.or length) true after := by
  rw [readHeader_line taken, if_neg (mt List.isEmpty_iff.1 solid), means]
  cases said <;> rfl

theorem readLine_lineBytes (single : '\n' ∉ line)
    (brings : s.Brings (lineBytes line ++ rest) failure) :
    ∃ after, readLine s = (.ok (some (trimBlanks line)), after) ∧ after.Brings rest failure := by
  rw [lineBytes, List.append_assoc, List.singleton_append] at brings
  have read := readLine_text (newline_not_mem_ofChars single) brings
  rwa [trimBlanks_newline] at read

/-- Lines that are headers are taken one after the other. -/
theorem Lines.readHeader (read : Lines length lines length') (started : Bool)
    (single : ∀ line ∈ lines, '\n' ∉ line)
    (brings : s.Brings (lines.flatMap lineBytes ++ rest) failure) :
    ∃ started' after, readHeader length started s = readHeader length' started' after ∧
      after.Brings rest failure := by
  induction read generalizing started s with
  | nil => exact ⟨started, s, rfl, brings⟩
  | cons solid means _ ih =>
    rw [List.forall_mem_cons] at single
    rw [List.flatMap_cons, List.append_assoc] at brings
    obtain ⟨next, taken, brings⟩ := readLine_lineBytes single.1 brings
    obtain ⟨started', after, same, brings⟩ := ih true single.2 brings
    exact ⟨started', after, (readHeader_means taken solid means).trans same, brings⟩

/-- **A header block is read**, and nothing after it is touched. -/
theorem Block.readHeader {block : List UInt8} (header : Block block n)
    (brings : s.Brings (block ++ rest) failure) :
    ∃ after, readHeader none false s = (.ok (some n), after) ∧ after.Brings rest failure := by
  obtain ⟨heads, single, ends, blank⟩ := header
  rw [List.append_assoc] at brings
  obtain ⟨started, left, same, brings⟩ := heads.read.readHeader false single brings
  obtain ⟨after, taken, brings⟩ := readLine_lineBytes ends brings
  rw [blank] at taken
  exact ⟨after, same.trans (readHeader_blank taken), brings⟩

/-- What is read as a header is a header block, or the last bytes of the stream. -/
theorem of_readHeader (read : readHeader length started s = (.ok (some n), after)) :
    (∃ lines last, Lines length lines (some n) ∧ (∀ line ∈ lines, '\n' ∉ line) ∧ '\n' ∉ last ∧
      trimBlanks last = [] ∧ s.bytes = lines.flatMap lineBytes ++ lineBytes last ++ after.bytes ∧
      after.failure = s.failure) ∨ after.Brings [] none := by
  induction size : s.size using Nat.strong_induction_on generalizing length started s with
  | h k ih =>
    subst size
    rcases readLine_cases s with ⟨e, fault⟩ | ⟨ended, -⟩ |
      ⟨line, rest, next, single, bytes, taken, brings⟩ | ⟨-, line, next, taken, brings⟩
    · have wrong : (readHeader length started s).1 = .error e := readHeader_error fault
      rw [read] at wrong
      cases wrong
    · have closed : (readHeader length started s).1 = _ := readHeader_end ended
      rw [read] at closed
      cases started <;> cases closed
    · by_cases blank : trimBlanks line = []
      · rw [blank] at taken
        rw [readHeader_blank taken] at read
        cases length with
        | none => cases read
        | some m =>
          cases read
          refine .inl ⟨[], line, .nil _, nofun, single, blank, ?_, brings.ends⟩
          rw [bytes, brings.bytes]
          rfl
      · cases means : lineLength (trimBlanks line) with
        | error e =>
          rw [readHeader_malformed taken blank means] at read
          cases read
        | ok said =>
          rw [readHeader_means taken blank means] at read
          rcases ih next.size (readLine_size taken) read rfl with
            ⟨lines, last, more, singles, ends, empty, later, failing⟩ | closed
          · refine .inl ⟨line :: lines, last, .cons blank means more,
              List.forall_mem_cons.2 ⟨single, singles⟩, ends, empty, ?_, failing.trans brings.ends⟩
            rw [bytes, ← brings.bytes, later, List.flatMap_cons]
            simp only [List.append_assoc]
          · exact .inr closed
    · -- The last line, of which the newline is missing.
      by_cases blank : line = []
      · rw [blank] at taken
        rw [readHeader_blank taken] at read
        cases length with
        | none => cases read
        | some m =>
          cases read
          exact .inr brings
      · cases means : lineLength line with
        | error e =>
          rw [readHeader_malformed taken blank means] at read
          cases read
        | ok said =>
          rw [readHeader_means taken blank means] at read
          have closed : (readHeader (said.or length) true next).1 = _ := readHeader_end brings
          rw [read] at closed
          cases closed

/-- A header ends without a length only where no byte was left before it. -/
theorem of_readHeader_none (read : readHeader length started s = (.ok none, after)) :
    started = false ∧ s.Brings [] none := by
  induction size : s.size using Nat.strong_induction_on generalizing length started s with
  | h k ih =>
    subst size
    -- A line, ended or not, never ends the loop that way.
    have goes : ∀ line next, readLine s ≠ (.ok (some line), next) := by
      intro line next taken
      by_cases blank : line = []
      · rw [blank] at taken
        rw [readHeader_blank taken] at read
        cases length <;> cases read
      · cases means : lineLength line with
        | error e =>
          rw [readHeader_malformed taken blank means] at read
          cases read
        | ok said =>
          rw [readHeader_means taken blank means] at read
          cases (ih next.size (readLine_size taken) read rfl).1
    rcases readLine_cases s with ⟨e, fault⟩ | ⟨ended, -⟩ | ⟨_, _, _, _, _, taken, _⟩ |
      ⟨-, _, _, taken, _⟩
    · have wrong : (readHeader length started s).1 = .error e := readHeader_error fault
      rw [read] at wrong
      cases wrong
    · have closed : (readHeader length started s).1 = _ := readHeader_end ended
      rw [read] at closed
      cases started with
      | false => exact ⟨rfl, ended⟩
      | true => cases closed
    · exact absurd taken (goes _ _)
    · exact absurd taken (goes _ _)

/-- The block that is read from the start of a stream. -/
theorem block_of_readHeader (read : readHeader none false s = (.ok (some n), after)) :
    (∃ block, Block block n ∧ s.bytes = block ++ after.bytes ∧ after.failure = s.failure) ∨
      after.Brings [] none := by
  rcases of_readHeader read with
    ⟨lines, last, headers, single, ends, blank, bytes, failing⟩ | closed
  · rcases headers.heads with heads | ⟨unset, -⟩
    · exact .inl ⟨_, .intro heads single ends blank, bytes, failing⟩
    · cases unset
  · exact .inr closed

/-! ## One frame -/

/-- After a header that is not too long comes a body, and it is all that is left to read. -/
theorem readFrame_eq (read : readHeader none false s = (.ok (some n), after)) :
    readFrame s = if maxBytes < n then (.error (.tooLong n), after)
      else ((readBody n after).1.map some, (readBody n after).2) := by
  simp only [readFrame, read]
  by_cases long : maxBytes < n
  · rw [if_pos long, if_pos long]
  · rw [if_neg long, if_neg long]
    cases body : readBody n after with
    | mk result left => cases result <;> rfl

variable {v : Json}

/-- A frame that comes first is read. -/
theorem Framed.readFrame (framed : Framed s.bytes v rest) :
    ∃ after, readFrame s = (.ok (some v), after) ∧ after.Brings rest s.failure := by
  generalize bytes : s.bytes = all at framed
  obtain ⟨header, fits, reads⟩ := framed
  obtain ⟨next, read, brings⟩ := header.readHeader ⟨bytes, rfl⟩
  obtain ⟨after, body, brings⟩ := readBody_value reads brings
  refine ⟨after, ?_, brings⟩
  rw [readFrame_eq read, if_neg (Nat.not_lt.2 fits), body]
  rfl

theorem read_nil : ∃ e, Json.read [] = .error e :=
  ⟨_, rfl⟩

/-- A value that is read comes from a frame. -/
theorem of_readFrame (taken : readFrame s = (.ok (some v), after)) :
    Framed s.bytes v after.bytes ∧ after.failure = s.failure := by
  cases read : readHeader none false s with
  | mk result next =>
    cases result with
    | error e =>
      have wrong := readFrame_error (congrArg Prod.fst read)
      rw [taken] at wrong
      cases wrong
    | ok length =>
      cases length with
      | none =>
        simp only [Frame.readFrame, read, Prod.mk.injEq, Except.ok.injEq, reduceCtorEq, false_and]
          at taken
      | some n =>
        rw [readFrame_eq read] at taken
        obtain ⟨value, left⟩ := readBody_eq n next
        by_cases long : maxBytes < n
        · rw [if_pos long] at taken
          cases taken
        rw [if_neg long, value] at taken
        by_cases short : next.bytes.length < n
        · rw [if_pos short] at taken
          cases taken
        rw [if_neg short] at taken
        cases body : Json.read (next.bytes.take n) with
        | error e =>
          rw [body] at taken
          cases taken
        | ok w =>
          rw [body] at taken
          cases taken
          rcases block_of_readHeader read with ⟨block, header, bytes, failing⟩ | closed
          · have size : (next.bytes.take n).length = n :=
              List.length_take_of_le (Nat.not_lt.1 short)
            have whole : Framed (block ++ (next.bytes.take n ++ next.bytes.drop n)) v
                (next.bytes.drop n) :=
              .intro (by rw [size]; exact header) (by rw [size]; exact Nat.not_lt.1 long) body
            rw [List.take_append_drop] at whole
            refine ⟨?_, left.ends.trans failing⟩
            rw [bytes, left.bytes]
            exact whole
          · -- Nothing is left, so the body would be the empty text.
            obtain ⟨e, empty⟩ := read_nil
            rw [closed.bytes, List.take_nil, empty] at body
            cases body

/-- Nothing is returned only where nothing is left. -/
theorem readFrame_eq_none : (readFrame s).1 = .ok none ↔ s.bytes = [] ∧ s.failure = none := by
  refine ⟨fun none => ?_, fun ended => readFrame_end ⟨ended.1, ended.2⟩⟩
  cases read : readHeader .none false s with
  | mk result next =>
    cases result with
    | error e =>
      rw [readFrame_error (congrArg Prod.fst read)] at none
      cases none
    | ok length =>
      cases length with
      | none =>
        obtain ⟨-, ended⟩ := of_readHeader_none read
        exact ⟨ended.bytes, ended.ends⟩
      | some n =>
        rw [readFrame_eq read] at none
        by_cases long : maxBytes < n
        · rw [if_pos long] at none
          cases none
        · rw [if_neg long] at none
          cases body : (readBody n next).1 <;> rw [body] at none <;> cases none

/-- What comes after a header block is read alike, whichever block it is that sets the length. -/
theorem Block.readFrame {block more : List UInt8} (header : Block block n)
    (brings : s.Brings (block ++ more) failure) :
    (readFrame s).1 = (if maxBytes < n then .error (.tooLong n)
      else if more.length < n then .error (.body ((⟨[more], failure⟩ : Source).endError .earlyEnd))
      else ((Json.read (more.take n)).mapError .decoding).map some) ∧
      (readFrame s).2.Brings (if maxBytes < n then more else more.drop n) failure := by
  obtain ⟨next, read, brings⟩ := header.readHeader brings
  obtain ⟨value, left⟩ := readBody_eq n next
  have same : next.endError .earlyEnd = (⟨[more], failure⟩ : Source).endError .earlyEnd := by
    simp only [Source.endError, brings.ends]
  rw [brings.bytes, same] at value
  rw [brings.bytes, brings.ends] at left
  rw [readFrame_eq read]
  by_cases long : maxBytes < n
  · rw [if_pos long, if_pos long, if_pos long]
    exact ⟨rfl, brings⟩
  · rw [if_neg long, if_neg long, if_neg long, value]
    refine ⟨?_, left⟩
    by_cases short : more.length < n
    · rw [if_pos short, if_pos short]
      rfl
    · rw [if_neg short, if_neg short]

/-! ## The reader recognizes the grammar -/

/-- What the reader of frames makes of a stream is what the grammar makes of its bytes. -/
structure Recognized (s : Source) : Prop where
  /-- It returns nothing exactly at the end of the stream. -/
  nothing : (readFrame s).1 = .ok none ↔ s.bytes = [] ∧ s.failure = none
  /-- A value that it returns is that of the frame at the front, and this frame is taken off. -/
  sound : ∀ v after, readFrame s = (.ok (some v), after) →
    Framed s.bytes v after.bytes ∧ after.failure = s.failure
  /-- The value of a frame at the front is returned. -/
  complete : ∀ v rest, Framed s.bytes v rest →
    ∃ after, readFrame s = (.ok (some v), after) ∧ after.Brings rest s.failure
  /-- All else is a fault. -/
  fault : (∃ e, (readFrame s).1 = .error e) ↔
    ¬(s.bytes = [] ∧ s.failure = none) ∧ ¬∃ v rest, Framed s.bytes v rest
  /-- Of a header block nothing counts but the length it sets: not what other headers it has, in
  which order, nor the case of their letters. -/
  alike : ∀ {block other more : List UInt8} {n : Nat}, s.bytes = block ++ more → Block block n →
    Block other n → ∀ t : Source, t.Brings (other ++ more) s.failure →
      (readFrame t).1 = (readFrame s).1 ∧ (readFrame t).2.Brings (readFrame s).2.bytes s.failure
  /-- The loop over the lines ends. -/
  ends : ∃ turns ≤ s.size + 1, HeaderRun turns none false s (readHeader none false s)

/-- **The reader accepts exactly the grammar**, of every stream of bytes, in pieces of any size,
that ends or fails. -/
theorem recognized_of_source (s : Source) : Recognized s := by
  have sound : ∀ v after, readFrame s = (.ok (some v), after) →
      Framed s.bytes v after.bytes ∧ after.failure = s.failure := fun v after taken =>
    of_readFrame taken
  refine ⟨readFrame_eq_none, sound, fun v rest framed => framed.readFrame, ⟨?_, ?_⟩, ?_,
    headerRun_of_source none false s⟩
  · rintro ⟨e, fault⟩
    refine ⟨fun ended => ?_, fun ⟨v, rest, framed⟩ => ?_⟩
    · rw [readFrame_eq_none.2 ended] at fault
      cases fault
    · obtain ⟨after, taken, -⟩ := framed.readFrame
      rw [taken] at fault
      cases fault
  · rintro ⟨more, unframed⟩
    cases taken : readFrame s with
    | mk result after =>
      cases result with
      | error e => exact ⟨e, rfl⟩
      | ok returned =>
        cases returned with
        | none => exact absurd (readFrame_eq_none.1 (congrArg Prod.fst taken)) more
        | some v => exact absurd ⟨v, after.bytes, (sound v after taken).1⟩ unframed
  · intro block other more n bytes header header' t brings
    obtain ⟨result, left⟩ := header.readFrame ⟨bytes, rfl⟩
    obtain ⟨result', left'⟩ := header'.readFrame brings
    refine ⟨result'.trans result.symm, ?_⟩
    rw [left.bytes]
    exact left'

end Supervision.Frame
