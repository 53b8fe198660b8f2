import Supervision.Proofs.Message.RoundTrip

/-!
# Frames on a sink that fails

A sink may take a few bytes at a time, may fail for good at any byte, and may fail to flush. Messages
are written to it one after the other, also after a failure. What it takes is the beginning of their
frames for which it has room, however the writes were cut (`Sink.Takes`), so a frame that failed is
never followed by another one: whatever is reported as written stands whole and undisturbed in front
of it, and can be read back (`Spared`).

Messages come back as what they are read as (`Json.reread`), each double as the one that its own text
stands for; that this need not be the double itself is said at the end (`lost_of_double`). Of a
message that is beyond the limits of a reader, and of those behind it, nothing is said.
-/

namespace Supervision.Frame

open Message (Fits)

namespace Sink

variable {s s' : Sink} {front back : List UInt8}

/-! ## What a sink takes -/

/-- The bytes for which a sink has room, of those that come next. -/
def fit (s : Sink) (bytes : List UInt8) : List UInt8 :=
  match s.room with
  | none => bytes
  | some room => bytes.take room

/-- What becomes of a sink to which bytes are written: it takes those for which it has room. -/
structure Takes (s : Sink) (bytes : List UInt8) (s' : Sink) : Prop where
  taken : s'.taken = s.taken ++ s.fit bytes
  room : s'.room = s.room.map (· - bytes.length)
  flush : s'.flushFault = s.flushFault

theorem fit_prefix (s : Sink) (bytes : List UInt8) : s.fit bytes <+: bytes := by
  unfold fit
  split
  · exact List.prefix_rfl
  · exact List.take_prefix _ _

theorem fit_of_full (full : s.room = some 0) (bytes : List UInt8) : s.fit bytes = [] := by
  rw [fit, full]
  exact List.take_zero

theorem Takes.nothing (s : Sink) : s.Takes [] s := by
  refine ⟨?_, ?_, rfl⟩
  · rw [List.prefix_nil.1 (s.fit_prefix []), List.append_nil]
  · cases s.room <;> rfl

theorem Takes.of_full (full : s.room = some 0) (bytes : List UInt8) : s.Takes bytes s := by
  refine ⟨?_, ?_, rfl⟩
  · rw [fit_of_full full, List.append_nil]
  · rw [full, Option.map_some, Nat.zero_sub]

/-- What comes later finds the room that is left. -/
theorem Takes.fit_append (h : s.Takes front s') (back : List UInt8) :
    s.fit (front ++ back) = s.fit front ++ s'.fit back := by
  unfold fit
  rw [h.room]
  cases s.room with
  | none => rfl
  | some room => exact List.take_append

theorem Takes.trans {s'' : Sink} (h : s.Takes front s') (k : s'.Takes back s'') :
    s.Takes (front ++ back) s'' := by
  refine ⟨?_, ?_, k.flush.trans h.flush⟩
  · rw [k.taken, h.taken, h.fit_append, List.append_assoc]
  · rw [k.room, h.room, Option.map_map, List.length_append]
    cases s.room with
    | none => rfl
    | some room => exact congrArg some (Nat.sub_sub room front.length back.length)

/-- A sink that did not take everything takes nothing more. -/
theorem Takes.full (h : s.Takes front s') (short : s.fit front ≠ front) : s'.room = some 0 := by
  rw [h.room]
  unfold fit at short
  cases room : s.room with
  | none =>
    rw [room] at short
    exact absurd rfl short
  | some n =>
    rw [room] at short
    have less : n < front.length := by
      refine Nat.lt_of_not_le fun enough => short ?_
      exact List.take_of_length_le enough
    exact congrArg some (Nat.sub_eq_zero_of_le (Nat.le_of_lt less))

/-- Bytes are taken whole if both their parts are. -/
theorem Takes.fit_append_eq_iff (h : s.Takes front s') (back : List UInt8) :
    s.fit (front ++ back) = front ++ back ↔ s.fit front = front ∧ s'.fit back = back := by
  rw [h.fit_append]
  refine ⟨fun whole => ?_, fun ⟨first, second⟩ => by rw [first, second]⟩
  have sizes := congrArg List.length whole
  have least := (s.fit_prefix front).length_le
  have most := (s'.fit_prefix back).length_le
  rw [List.length_append, List.length_append] at sizes
  exact List.append_inj whole (by omega)

/-- Something behind other bytes is taken whole if it finds room after them. -/
theorem Takes.append_prefix_iff (h : s.Takes front s') {more : List UInt8} (some : more ≠ [])
    (back : List UInt8) : front ++ more <+: s.fit (front ++ back) ↔ more <+: s'.fit back := by
  rw [h.fit_append]
  by_cases whole : s.fit front = front
  · rw [whole, List.prefix_append_right_inj]
  · rw [fit_of_full (h.full whole), List.append_nil, List.prefix_nil]
    refine ⟨fun within => absurd within.length_le ?_, fun none => absurd none some⟩
    have most := (s.fit_prefix front).length_le
    have size := List.length_pos_iff.2 some
    rw [List.length_append]
    omega

/-- One write takes a few bytes, and there is room for them. -/
theorem takes_take {b : UInt8} {rest : List UInt8} {k : Nat}
    (accepted : s.accepts rest.length = some k) :
    s.Takes (b :: rest.take k) (s.take (b :: rest.take k)) ∧
      s.fit (b :: rest.take k) = b :: rest.take k := by
  have whole : s.fit (b :: rest.take k) = b :: rest.take k := by
    unfold fit accepts at *
    cases room : s.room with
    | none => rfl
    | some n =>
      rw [room] at accepted
      cases n with
      | zero => cases accepted
      | succ n =>
        obtain rfl := Option.some.inj accepted
        refine List.take_of_length_le ?_
        rw [List.length_cons, List.length_take]
        omega
  exact ⟨⟨by rw [whole]; rfl, rfl, rfl⟩, whole⟩

/-- **Bytes are taken as far as there is room**, however many at a time, and it is known whether all
of them were. -/
theorem writeAll_takes (s : Sink) (bytes : List UInt8) :
    ∃ s', s.writeAll bytes = (decide (s.fit bytes = bytes), s') ∧ s.Takes bytes s' := by
  induction s, bytes using Sink.writeAll.induct with
  | case1 s =>
    refine ⟨s, ?_, .nothing s⟩
    rw [writeAll, List.prefix_nil.1 (s.fit_prefix []), decide_eq_true rfl]
  | case2 s b rest refused =>
    have full : s.room = some 0 := by
      unfold accepts at refused
      split at refused
      · cases refused
      · assumption
      · cases refused
    refine ⟨s, ?_, .of_full full _⟩
    rw [writeAll, refused, fit_of_full full, decide_eq_false (List.cons_ne_nil b rest).symm]
  | case3 s b rest k accepted ih =>
    obtain ⟨first, whole⟩ := takes_take (b := b) accepted
    obtain ⟨s', written, second⟩ := ih
    have parts : b :: rest.take k ++ rest.drop k = b :: rest := by
      rw [List.cons_append, List.take_append_drop]
    refine ⟨s', ?_, parts ▸ first.trans second⟩
    have both := first.fit_append_eq_iff (rest.drop k)
    rw [parts] at both
    rw [writeAll, accepted]
    refine written.trans (congrArg (·, s') (decide_eq_decide.2 ?_))
    exact (both.trans (and_iff_right whole)).symm

end Sink

/-! ## Messages, one after the other -/

open Sink (Takes)

variable {s s' : Sink} {v : Json}

theorem encode_ne_nil (v : Json) : encode v ≠ [] := by
  rw [encode_eq]
  simp

/-- **A frame is written as far as there is room**, and reported as written if all of it was and
flushes work. -/
theorem writeFrame_takes (s : Sink) (v : Json) :
    ∃ r s', writeFrame s v = (r, s') ∧ s.Takes (encode v) s' ∧
      (r = .ok () ↔ s.fit (encode v) = encode v ∧ s.flushFault = none) := by
  obtain ⟨s₁, header, first⟩ := s.writeAll_takes (header v.encode.length)
  obtain ⟨s₂, body, second⟩ := s₁.writeAll_takes v.encode
  have parts := first.fit_append_eq_iff v.encode
  have failed (e : WriteError) : (.error e : Except WriteError Unit) ≠ .ok () := by
    intro same
    cases same
  by_cases begun : s.fit (Frame.header v.encode.length) = Frame.header v.encode.length
  · by_cases ended : s₁.fit v.encode = v.encode
    · have both := first.trans second
      cases fault : s₂.flushFault with
      | none =>
        refine ⟨.ok (), s₂.flush.2, ?_, ⟨both.taken, both.room, both.flush⟩, ?_⟩
        · simp only [writeFrame, header, begun, body, ended, decide_true, Sink.flush, fault]
        · exact iff_of_true rfl ⟨parts.2 ⟨begun, ended⟩, both.flush.symm.trans fault⟩
      | some text =>
        refine ⟨.error ⟨.flush, text⟩, s₂.flush.2, ?_, ⟨both.taken, both.room, both.flush⟩, ?_⟩
        · simp only [writeFrame, header, begun, body, ended, decide_true, Sink.flush, fault]
        · refine iff_of_false (failed _) ?_
          rintro ⟨-, flushes⟩
          rw [← both.flush, fault] at flushes
          cases flushes
    · refine ⟨.error ⟨.body, s₂.writeFault⟩, s₂, ?_, first.trans second, ?_⟩
      · simp only [writeFrame, header, begun, body, ended, decide_true, decide_false]
      · exact iff_of_false (failed _) fun both => ended (parts.1 both.1).2
  · -- The body is not tried, and there would be no room for it.
    have full := first.full begun
    refine ⟨.error ⟨.header, s₁.writeFault⟩, s₁, ?_, first.trans (.of_full full _), ?_⟩
    · simp only [writeFrame, header, begun, decide_false]
    · exact iff_of_false (failed _) fun both => begun (parts.1 both.1).1

theorem writeFrames_takes (s : Sink) (vs : List Json) :
    s.Takes (vs.flatMap encode) (writeFrames s vs).2 := by
  induction vs generalizing s with
  | nil => exact .nothing s
  | cons v vs ih =>
    obtain ⟨r, s', frame, takes, -⟩ := writeFrame_takes s v
    simp only [writeFrames, frame, List.flatMap_cons]
    exact takes.trans (ih s')

/-- What is reported of a message depends on the bytes of those before it and on its own. -/
theorem reported_iff (s : Sink) (front : List Json) (v : Json) (back : List Json) :
    (writeFrames s (front ++ v :: back)).1[front.length]? = some (.ok ()) ↔
      (front ++ [v]).flatMap encode <+: s.fit ((front ++ v :: back).flatMap encode) ∧
        s.flushFault = none := by
  induction front generalizing s with
  | nil =>
    obtain ⟨r, s', frame, takes, reported⟩ := writeFrame_takes s v
    have whole : encode v <+: s.fit (encode v ++ back.flatMap encode) ↔
        s.fit (encode v) = encode v := by
      rw [takes.fit_append]
      refine ⟨fun within => ?_, fun whole => whole.symm ▸ List.prefix_append _ _⟩
      by_contra short
      rw [Sink.fit_of_full (takes.full short), List.append_nil] at within
      exact short ((s.fit_prefix _).eq_of_length_le within.length_le)
    simp only [List.nil_append, List.length_nil, writeFrames, frame, List.getElem?_cons_zero,
      List.flatMap_cons, List.flatMap_nil, List.append_nil, Option.some.injEq]
    rw [whole]
    exact reported
  | cons w front ih =>
    obtain ⟨r, s', frame, takes, -⟩ := writeFrame_takes s w
    have some : (front ++ [v]).flatMap encode ≠ [] := by
      rw [List.flatMap_append, List.flatMap_singleton]
      exact fun none => encode_ne_nil v (List.append_eq_nil_iff.1 none).2
    simp only [List.cons_append, List.length_cons, writeFrames, frame, List.getElem?_cons_succ,
      List.flatMap_cons]
    rw [ih, takes.append_prefix_iff some, takes.flush]

/-- The messages that were reported as written. -/
def written (s : Sink) (vs : List Json) : List Json :=
  ((vs.zip (writeFrames s vs).1).filter fun p => p.2.isOk).map Prod.fst

theorem written_cons {r : Except WriteError Unit} (frame : writeFrame s v = (r, s'))
    (vs : List Json) :
    written s (v :: vs) = if r.isOk then v :: written s' vs else written s' vs := by
  simp only [written, writeFrames, frame, List.zip_cons_cons, List.filter_cons]
  split <;> rfl

/-- A sink that is full, or does not flush, gets nothing more written. -/
theorem written_eq_nil (stuck : s.room = some 0 ∨ s.flushFault ≠ none) (vs : List Json) :
    written s vs = [] := by
  induction vs generalizing s with
  | nil => rfl
  | cons v vs ih =>
    obtain ⟨r, s', frame, takes, reported⟩ := writeFrame_takes s v
    have failed : r.isOk = false := by
      cases r with
      | error => rfl
      | ok =>
        obtain ⟨whole, flushes⟩ := reported.1 rfl
        rcases stuck with full | fault
        · rw [Sink.fit_of_full full] at whole
          exact absurd whole.symm (encode_ne_nil v)
        · exact absurd flushes fault
    have still : s'.room = some 0 ∨ s'.flushFault ≠ none := by
      rw [takes.room, takes.flush]
      exact stuck.imp_left fun full => by rw [full, Option.map_some, Nat.zero_sub]
    rw [written_cons frame, failed]
    exact ih still

/-- What is reported as written stands in front of all else. -/
theorem written_prefix (s : Sink) (vs : List Json) :
    (written s vs).flatMap encode <+: s.fit (vs.flatMap encode) := by
  induction vs generalizing s with
  | nil => exact List.nil_prefix
  | cons v vs ih =>
    obtain ⟨r, s', frame, takes, reported⟩ := writeFrame_takes s v
    rw [written_cons frame]
    by_cases ok : r = .ok ()
    · subst ok
      show encode v ++ (written s' vs).flatMap encode <+: s.fit (encode v ++ vs.flatMap encode)
      rw [takes.fit_append, (reported.1 rfl).1, List.prefix_append_right_inj]
      exact ih s'
    · have failed : r.isOk = false := by
        cases r with
        | error => rfl
        | ok => exact absurd rfl ok
      have stuck : s'.room = some 0 ∨ s'.flushFault ≠ none := by
        by_cases whole : s.fit (encode v) = encode v
        · exact .inr fun flushes => ok (reported.2 ⟨whole, takes.flush.symm.trans flushes⟩)
        · exact .inl (takes.full whole)
      rw [failed, written_eq_nil stuck]
      exact List.nil_prefix

/-! ## What is read back -/

/-- Frames at the front of a stream are read, one after the other, as what they are read as. -/
theorem reads_encode {vs : List Json} (sound : ∀ v ∈ vs, v.Sound) (fits : ∀ v ∈ vs, Fits v)
    {source : Source} {rest : List UInt8} {failure : Option String}
    (brings : source.Brings (vs.flatMap encode ++ rest) failure) :
    ∃ left, Reads source (vs.map Json.reread) left ∧ left.Brings rest failure := by
  induction vs generalizing source with
  | nil => exact ⟨source, .nothing source, brings⟩
  | cons v vs ih =>
    have here := fits v List.mem_cons_self
    have read := Json.read_encode_of_settle (Json.settle_of_sound (sound v List.mem_cons_self))
      here.shallow
    rw [List.flatMap_cons, List.append_assoc] at brings
    obtain ⟨after, frame, brings⟩ := readFrame_encode read here.short brings
    obtain ⟨left, reads, brings⟩ := ih (fun w mem => sound w (List.mem_cons_of_mem v mem))
      (fun w mem => fits w (List.mem_cons_of_mem v mem)) brings
    exact ⟨left, .frame frame reads, brings⟩

/-- What a sink has of messages that were written to it, and what it told of them. -/
structure Spared (sink : Sink) (vs : List Json) (got : List UInt8) : Prop where
  /-- It has taken a beginning of their frames, -/
  taken : (writeFrames sink vs).2.taken = sink.taken ++ got
  beginning : got <+: vs.flatMap encode
  /-- which ends only where its room does. -/
  ample : sink.room = none → got = vs.flatMap encode
  bounded : ∀ room, sink.room = some room → got = (vs.flatMap encode).take room
  /-- Every message is reported, as written exactly if all its bytes were taken, after those of the
  messages before it, and flushes work. -/
  every : (writeFrames sink vs).1.length = vs.length
  reported : ∀ front v back, vs = front ++ v :: back →
    ((writeFrames sink vs).1[front.length]? = some (.ok ()) ↔
      (front ++ [v]).flatMap encode <+: got ∧ sink.flushFault = none)
  /-- However the bytes come back, the messages that were reported as written are read first, in
  their order, up to one that is beyond the limits of a reader; -/
  read : ∀ front, front <+: written sink vs → (∀ v ∈ front, v.Sound) → (∀ v ∈ front, Fits v) →
    ∀ pieces : List (List UInt8), pieces.flatten = got →
      ∃ left, Reads ⟨pieces, none⟩ (front.map Json.reread) left
  /-- as themselves, if they are what their own text stands for. -/
  same : ∀ v ∈ vs, v.Writable → v.Sound → v.reread = v

theorem length_writeFrames (s : Sink) (vs : List Json) :
    (writeFrames s vs).1.length = vs.length := by
  induction vs generalizing s with
  | nil => rfl
  | cons v vs ih => exact congrArg (· + 1) (ih (writeFrame s v).2)

/-- **A sink that fails spoils nothing.** It has a beginning of what was written, it is known which
messages are in it, and these are read back. -/
theorem spared_of_failing (sink : Sink) (vs : List Json) :
    Spared sink vs (sink.fit (vs.flatMap encode)) where
  taken := (writeFrames_takes sink vs).taken
  beginning := sink.fit_prefix _
  ample ample := by rw [Sink.fit, ample]
  bounded room bounded := by rw [Sink.fit, bounded]
  every := length_writeFrames sink vs
  reported front v back split := by
    subst split
    exact reported_iff sink front v back
  read front first sound fits pieces flat := by
    obtain ⟨others, all⟩ := first
    obtain ⟨rest, bytes⟩ := written_prefix sink vs
    have brings : Source.Brings ⟨pieces, none⟩
        (front.flatMap encode ++ (others.flatMap encode ++ rest)) none := by
      refine ⟨?_, rfl⟩
      rw [← List.append_assoc, ← List.flatMap_append, all, bytes]
      exact flat
    obtain ⟨left, reads, -⟩ := reads_encode sound fits brings
    exact ⟨left, reads⟩
  same _ _ := Json.reread_of_writable

/-- A sink that takes one byte at a time and never fails. -/
def Sink.plain : Sink :=
  ⟨fun _ => 0, none, "", none, 0, 0, []⟩

/-- A double that is reported as written need not be what is read back. -/
theorem lost_of_double : (Json.float Message.great).Sound ∧ Fits (.float Message.great) ∧
    (writeFrames .plain [.float Message.great]).1 = [.ok ()] ∧
    ∀ pieces : List (List UInt8),
      pieces.flatten = (writeFrames .plain [.float Message.great]).2.taken →
      ∀ left, ¬Reads ⟨pieces, none⟩ [.float Message.great] left := by
  have fits : Fits (.float Message.great) := ⟨by decide, by decide +kernel⟩
  have faultless : Sink.plain.Faultless := ⟨rfl, rfl⟩
  obtain ⟨after, frame, -, taken⟩ := faultless.writeFrame (.float Message.great)
  refine ⟨.float Message.finite_great, fits, ?_, fun pieces flat left reads => ?_⟩
  · simp only [writeFrames, frame]
  · have bytes : pieces.flatten = encode (.float Message.great) ++ [] := by
      rw [flat, List.append_nil]
      simp only [writeFrames, frame, taken]
      rfl
    have read := Json.read_encode_of_settle Message.settle_great fits.shallow
    have brings : Source.Brings ⟨pieces, none⟩ (encode (.float Message.great) ++ []) none :=
      ⟨bytes, rfl⟩
    obtain ⟨next, first, -⟩ := readFrame_encode read fits.short brings
    cases reads with
    | frame found _ =>
      rw [first] at found
      have same := Json.float.inj (Option.some.inj (Except.ok.inj (congrArg Prod.fst found)))
      exact absurd same (by decide)

end Supervision.Frame
