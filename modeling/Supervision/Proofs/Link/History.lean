import Supervision.Link.Basic
import Mathlib.Data.List.Nodup

/-!
# What a link has been through

A `History` is what happened to a link from its start, the latest first. What a call has been told
follows from it (`Heard`): nothing as long as the table was not cleared and no answer with its
number arrived since the call entered the table, and otherwise whichever of the two came first.

The invariant behind it (`Sound`) says that the table holds exactly the calls that entered it and
have been told nothing, under the numbers they took. A call that was given up may stay in the table;
nobody asks what it is told.
-/

namespace Supervision.Link

open Message

/-- A history from the start: the steps that were taken, the latest first, and the link then. -/
inductive History : List Step → Link → Prop
  | start : History [] .start
  | next {past : List Step} {l l' : Link} {s : Step} (history : History past l)
      (taken : l.step s = some l') : History (s :: past) l'

/-- A run goes through its steps. -/
theorem history_of_run {past steps : List Step} {l l' : Link} (history : History past l)
    (run : l.run steps = some l') : History (steps.reverse ++ past) l' := by
  induction steps generalizing past l with
  | nil =>
    cases run
    exact history
  | cons s steps ih =>
    obtain ⟨next, taken, run⟩ := Option.bind_eq_some_iff.mp run
    rw [List.reverse_cons, List.append_assoc]
    exact ih (history.next taken) run

/-! ## Numbers -/

/-- The calls that took a number, in the order in which they did. -/
def numbers : List Step → List CallId
  | [] => []
  | .number c :: past => numbers past ++ [c]
  | _ :: past => numbers past

/-- Which call took a number. -/
def Assigned (past : List Step) (id : Nat) (c : CallId) : Prop :=
  ∃ k, id = k + 1 ∧ (numbers past)[k]? = some c

theorem Assigned.unique {past : List Step} {id : Nat} {c c' : CallId} (h : Assigned past id c)
    (h' : Assigned past id c') : c = c' := by
  obtain ⟨k, rfl, hk⟩ := h
  obtain ⟨k', heq, hk'⟩ := h'
  cases heq
  exact Option.some.inj (hk.symm.trans hk')

/-- A number is taken once and for all. -/
theorem Assigned.cons {past : List Step} {id : Nat} {c : CallId} (h : Assigned past id c)
    (s : Step) : Assigned (s :: past) id c := by
  obtain ⟨k, rfl, hk⟩ := h
  refine ⟨k, rfl, ?_⟩
  cases s with
  | number d =>
    rw [numbers, List.getElem?_append_left (List.getElem?_eq_some_iff.mp hk).1]
    exact hk
  | _ => exact hk

/-! ## What a call has heard -/

/-- Whether a frame is an answer to the call with a number. -/
def Answers (frame : Json) (id : Nat) : Prop :=
  ∃ outcome, Incoming.ofFrame? frame = some (.response id outcome)

/-- Since a call entered the table, the table was not cleared and no answer to it arrived. -/
def Unheard (past : List Step) (c : CallId) (id : Nat) : Prop :=
  ∃ after before, past = after ++ .enter c :: before ∧ .clear ∉ after ∧
    ∀ frame, .arrive frame ∈ after → ¬ Answers frame id

/-- After a call entered the table, and not before it did again, an answer to it arrived. -/
def Answered (past : List Step) (c : CallId) (id : Nat) (outcome : Outcome) : Prop :=
  ∃ after frame before, past = after ++ .arrive frame :: before ∧ .enter c ∉ after ∧
    .enter c ∈ before ∧ Incoming.ofFrame? frame = some (.response id outcome)

/-- After a call entered the table, and not before it did again, the table was cleared. -/
def Cleared (past : List Step) (c : CallId) : Prop :=
  ∃ after before, past = after ++ .clear :: before ∧ .enter c ∉ after ∧ .enter c ∈ before

/-- What a call has been told, and why. -/
def Heard (past : List Step) (c : CallId) (id : Nat) : Slot → Prop
  | .empty => Unheard past c id
  | .told outcome => Answered past c id outcome
  | .lost => Cleared past c

/-- What a call without a limit may come to: that the link is closed, or an answer to it. -/
def Settled (past : List Step) (c : CallId) (r : Except TransportError Json) : Prop :=
  r = .error .closed ∨ ∃ id outcome, r = resultOf outcome ∧ Answered past c id outcome

variable {past : List Step} {c : CallId} {id : Nat} {s : Step}

/-- Steps that tell no call anything, and by which no call enters the table. -/
def Step.isMild : Step → Bool
  | .enter _ | .arrive _ | .clear => false
  | _ => true

theorem Answered.cons {outcome : Outcome} (h : Answered past c id outcome) (once : s ≠ .enter c) :
    Answered (s :: past) c id outcome := by
  obtain ⟨after, frame, before, rfl, notAfter, entered, answers⟩ := h
  refine ⟨s :: after, frame, before, rfl, fun hmem => ?_, entered, answers⟩
  exact (List.mem_cons.mp hmem).elim (fun heq => once heq.symm) notAfter

theorem Cleared.cons (h : Cleared past c) (once : s ≠ .enter c) : Cleared (s :: past) c := by
  obtain ⟨after, before, rfl, notAfter, entered⟩ := h
  refine ⟨s :: after, before, rfl, fun hmem => ?_, entered⟩
  exact (List.mem_cons.mp hmem).elim (fun heq => once heq.symm) notAfter

theorem Unheard.cons (h : Unheard past c id) (notClear : s ≠ .clear)
    (silent : ∀ frame, s = .arrive frame → ¬ Answers frame id) : Unheard (s :: past) c id := by
  obtain ⟨after, before, rfl, clear, answers⟩ := h
  refine ⟨s :: after, before, rfl, fun hmem => ?_, fun frame hmem => ?_⟩
  · rcases List.mem_cons.mp hmem with heq | hmem
    · exact notClear heq.symm
    · exact clear hmem
  · rcases List.mem_cons.mp hmem with heq | hmem
    · exact silent frame heq.symm
    · exact answers frame hmem

theorem Unheard.entered (h : Unheard past c id) : .enter c ∈ past := by
  obtain ⟨after, before, rfl, -⟩ := h
  exact List.mem_append_right _ List.mem_cons_self

/-- What a call has been told stays told, and what tells it nothing tells it nothing. -/
theorem Heard.cons {slot : Slot} (h : Heard past c id slot) (notClear : s ≠ .clear)
    (once : s ≠ .enter c)
    (silent : slot = .empty → ∀ frame, s = .arrive frame → ¬ Answers frame id) :
    Heard (s :: past) c id slot := by
  cases slot with
  | empty => exact Unheard.cons h notClear (silent rfl)
  | told => exact Answered.cons h once
  | lost => exact Cleared.cons h once

theorem Heard.cons_of_told {slot : Slot} (h : Heard past c id slot) (told : slot ≠ .empty)
    (once : s ≠ .enter c) : Heard (s :: past) c id slot := by
  cases slot with
  | empty => exact absurd rfl told
  | told => exact Answered.cons h once
  | lost => exact Cleared.cons h once

theorem Settled.cons {r : Except TransportError Json} (h : Settled past c r) (once : s ≠ .enter c) :
    Settled (s :: past) c r :=
  h.imp_right fun ⟨id, outcome, heq, answered⟩ => ⟨id, outcome, heq, answered.cons once⟩

/-- A call that has heard nothing was not told anything. -/
theorem Unheard.eq_empty {slot : Slot} (h : Unheard past c id) (heard : Heard past c id slot) :
    slot = .empty := by
  obtain ⟨after, before, rfl, notClear, silent⟩ := h
  cases slot with
  | empty => rfl
  -- The call entered once for both accounts: what told it came after that, where nothing did.
  | told outcome =>
    obtain ⟨after', frame, before', heq, notAfter, -, answers⟩ := heard
    rcases List.append_eq_append_iff.mp heq with ⟨mid, rfl, hmid⟩ | ⟨mid, rfl, hmid⟩
    · cases mid with
      | nil => cases hmid
      | cons s mid =>
        obtain ⟨rfl, -⟩ := List.cons.inj hmid
        exact absurd (List.mem_append_right _ List.mem_cons_self) notAfter
    · cases mid with
      | nil => cases hmid
      | cons s mid =>
        obtain ⟨rfl, -⟩ := List.cons.inj hmid
        exact absurd ⟨outcome, answers⟩
          (silent frame (List.mem_append_right _ List.mem_cons_self))
  | lost =>
    obtain ⟨after', before', heq, notAfter, -⟩ := heard
    rcases List.append_eq_append_iff.mp heq with ⟨mid, rfl, hmid⟩ | ⟨mid, rfl, hmid⟩
    · cases mid with
      | nil => cases hmid
      | cons s mid =>
        obtain ⟨rfl, -⟩ := List.cons.inj hmid
        exact absurd (List.mem_append_right _ List.mem_cons_self) notAfter
    · cases mid with
      | nil => cases hmid
      | cons s mid =>
        obtain ⟨rfl, -⟩ := List.cons.inj hmid
        exact absurd (List.mem_append_right _ List.mem_cons_self) notClear

/-! ## The invariant of the table -/

/-- The number of a call that has one and still has to do with it. -/
def Phase.id? : Phase → Option Nat
  | .numbered id | .entered id | .waiting id | .refused id | .expired id => some id
  | _ => none

/-- The number under which a call entered the table, while it still has to do with it. -/
def Phase.entry? : Phase → Option Nat
  | .entered id | .waiting id | .refused id | .expired id => some id
  | _ => none

/-- True of a call that has not entered the table. -/
def Phase.isNew : Phase → Bool
  | .begun | .numbered _ => true
  | _ => false

theorem Phase.id?_of_entry? {p : Phase} (h : p.entry? = some id) : p.id? = some id := by
  cases p <;> first | exact h | cases h

theorem Phase.isNew_of_entry? {p : Phase} (h : p.entry? = some id) : p.isNew = false := by
  cases p <;> first | rfl | cases h

/-- What is true of one call. -/
structure Call.Sound (past : List Step) (pending : List (Nat × CallId)) (c : CallId) (call : Call) :
    Prop where
  named : ∀ id, call.phase.id? = some id → Assigned past id c
  new : call.phase.isNew = true → call.slot = .empty
  entry : ∀ id, (id, c) ∈ pending → call.phase.entry? = some id ∨ call.phase = .abandoned
  slot : ∀ id, call.phase.entry? = some id →
    (call.slot = .empty ↔ (id, c) ∈ pending) ∧ Heard past c id call.slot
  expired : ∀ id, call.phase = .expired id → call.limit.isSome = true
  done : ∀ r, call.phase = .finished r → call.limit = none → Settled past c r

/-- The table holds exactly the calls that entered it and have been told nothing. -/
structure Sound (past : List Step) (l : Link) : Prop where
  next : l.nextId = (numbers past).length + 1
  keys : (l.pending.map (·.1)).Nodup
  assigned : ∀ id c, (id, c) ∈ l.pending → Assigned past id c
  known : ∀ id c, (id, c) ∈ l.pending → c < l.calls.length
  calls : ∀ c (call : Call), l.calls[c]? = some call → call.Sound past l.pending c

theorem sound_start : Sound [] .start where
  next := rfl
  keys := List.nodup_nil
  assigned := nofun
  known := nofun
  calls := nofun

namespace Call.Sound

variable {pending pending' : List (Nat × CallId)} {call : Call}

/-- A call that is told nothing in a step, and does nothing, and keeps its place in the table. -/
theorem quiet (h : call.Sound past pending c) (notClear : s ≠ .clear) (once : s ≠ .enter c)
    (silent : ∀ id, (id, c) ∈ pending → ∀ frame, s = .arrive frame → ¬ Answers frame id)
    (same : ∀ id, (id, c) ∈ pending' ↔ (id, c) ∈ pending) : call.Sound (s :: past) pending' c where
  named id hid := (h.named id hid).cons s
  new := h.new
  entry id hmem := h.entry id ((same id).mp hmem)
  slot id hid := by
    obtain ⟨empty, heard⟩ := h.slot id hid
    exact ⟨empty.trans (same id).symm,
      heard.cons notClear once fun untold => silent id (empty.mp untold)⟩
  expired := h.expired
  done r hr unlimited := (h.done r hr unlimited).cons once

/-- A call that moves on, without being told anything. -/
theorem move (h : call.Sound past pending c) {phase : Phase} (mild : s.isMild = true)
    (named : ∀ id, phase.id? = some id → Assigned (s :: past) id c)
    (new : phase.isNew = true → call.phase.isNew = true)
    (entered : ∀ id, phase.entry? = some id → call.phase.entry? = some id)
    (left : ∀ id, (id, c) ∈ pending' → (id, c) ∈ pending ∧
      (phase.entry? = some id ∨ phase = .abandoned))
    (kept : ∀ id, phase.entry? = some id → (id, c) ∈ pending → (id, c) ∈ pending')
    (expired : ∀ id, phase = .expired id → call.limit.isSome = true)
    (done : ∀ r, phase = .finished r → call.limit = none → Settled (s :: past) c r) :
    ({ call with phase := phase } : Call).Sound (s :: past) pending' c where
  named := named
  new isNew := h.new (new isNew)
  entry id hmem := (left id hmem).2
  slot id hid := by
    obtain ⟨empty, heard⟩ := h.slot id (entered id hid)
    refine ⟨empty.trans ⟨kept id hid, fun hmem => (left id hmem).1⟩, heard.cons ?_ ?_ ?_⟩
    · exact fun heq => by rw [heq] at mild; cases mild
    · exact fun heq => by rw [heq] at mild; cases mild
    · exact fun _ frame heq => by rw [heq] at mild; cases mild
  expired := expired
  done := done

end Call.Sound

theorem Call.phase_lose (call : Call) : call.lose.phase = call.phase := by
  unfold Call.lose
  split <;> rfl

theorem Call.limit_lose (call : Call) : call.lose.limit = call.limit := by
  unfold Call.lose
  split <;> rfl

theorem Call.slot_lose (call : Call) :
    call.lose.slot = match call.slot with | .empty => .lost | slot => slot := by
  cases h : call.slot <;> simp [Call.lose, h]

/-- A call in the table when it is cleared. -/
theorem Call.Sound.lose {pending : List (Nat × CallId)} {call : Call}
    (h : call.Sound past pending c) (hmem : (id, c) ∈ pending) :
    call.lose.Sound (.clear :: past) [] c where
  named n hn := (h.named n (call.phase_lose ▸ hn)).cons _
  new isNew := by
    rw [call.phase_lose] at isNew
    rcases h.entry id hmem with heq | heq
    · rw [Phase.isNew_of_entry? heq] at isNew
      cases isNew
    · rw [heq] at isNew
      cases isNew
  entry := nofun
  slot n hn := by
    rw [call.phase_lose] at hn
    obtain ⟨empty, heard⟩ := h.slot n hn
    rw [call.slot_lose]
    split
    next untold =>
      rw [untold] at heard
      exact ⟨⟨nofun, nofun⟩, [], past, rfl, List.not_mem_nil, Unheard.entered heard⟩
    next told =>
      refine ⟨⟨fun untold => absurd untold told, nofun⟩, ?_⟩
      exact heard.cons_of_told told nofun
  expired n hn := by
    rw [call.limit_lose]
    exact h.expired n (call.phase_lose ▸ hn)
  done r hr unlimited :=
    (h.done r (call.phase_lose ▸ hr) (call.limit_lose ▸ unlimited)).cons nofun

/-- The calls after one of them has changed. -/
theorem calls_modify (l : Link) (c k : CallId) (f : Call → Call) :
    (l.modify c f).calls[k]? = if c = k then l.calls[k]?.map f else l.calls[k]? := by
  simp only [modify, List.getElem?_modify]
  split <;> simp

/-- A call after one of them has moved on is another one, or that one. -/
theorem of_getElem?_setPhase {l : Link} {c k : CallId} {phase : Phase} {call call' : Call}
    (found : l.calls[c]? = some call) (h : (l.setPhase c phase).calls[k]? = some call') :
    c ≠ k ∧ l.calls[k]? = some call' ∨ c = k ∧ call' = { call with phase := phase } := by
  rw [setPhase, calls_modify] at h
  split at h
  next same =>
    subst same
    rw [found] at h
    exact .inr ⟨rfl, (Option.some.inj h).symm⟩
  next other => exact .inl ⟨other, h⟩

namespace Sound

variable {l l' : Link}

/-- A step that touches neither calls nor table. -/
theorem quiet (h : Sound past l) (calls : l'.calls = l.calls) (pending : l'.pending = l.pending)
    (next : l'.nextId = l.nextId) (notNumber : numbers (s :: past) = numbers past)
    (notClear : s ≠ .clear) (once : ∀ c, s ≠ .enter c)
    (silent : ∀ id c, (id, c) ∈ l.pending → ∀ frame, s = .arrive frame → ¬ Answers frame id) :
    Sound (s :: past) l' where
  next := by rw [next, notNumber, h.next]
  keys := by rw [pending]; exact h.keys
  assigned id c hmem := (h.assigned id c (pending ▸ hmem)).cons s
  known id c hmem := by rw [calls]; exact h.known id c (pending ▸ hmem)
  calls c call found := (h.calls c call (calls ▸ found)).quiet notClear (once c)
    (fun id => silent id c) fun id => by rw [pending]

/-- A call that moves on in the table or out of it. -/
theorem move (h : Sound past l) {call : Call} {phase : Phase} (found : l.calls[c]? = some call)
    (calls : l'.calls = (l.setPhase c phase).calls) (sub : l'.pending.Sublist l.pending)
    (others : ∀ id k, k ≠ c → (id, k) ∈ l.pending → (id, k) ∈ l'.pending)
    (next : l'.nextId = (numbers (s :: past)).length + 1) (mild : s.isMild = true)
    (sound : ({ call with phase := phase } : Call).Sound (s :: past) l'.pending c) :
    Sound (s :: past) l' where
  next := next
  keys := h.keys.sublist (sub.map _)
  assigned id k hmem := (h.assigned id k (sub.subset hmem)).cons s
  known id k hmem := by
    rw [calls]
    simpa only [setPhase, modify, List.length_modify] using h.known id k (sub.subset hmem)
  calls k other hother := by
    rcases of_getElem?_setPhase found (calls ▸ hother) with ⟨ne, hother⟩ | ⟨rfl, rfl⟩
    · refine (h.calls k other hother).quiet ?_ ?_ (fun _ _ frame heq => ?_)
        fun id => ⟨fun hmem => sub.subset hmem, others id k (Ne.symm ne)⟩
      · exact fun heq => by rw [heq] at mild; cases mild
      · exact fun heq => by rw [heq] at mild; cases mild
      · rw [heq] at mild
        cases mild
    · exact sound

variable {call : Call}

/-- A call in the table is where its number says, or was given up. -/
theorem phase_of_mem (h : Sound past l) (found : l.calls[c]? = some call)
    (hmem : (id, c) ∈ l.pending) : call.phase.entry? = some id ∨ call.phase = .abandoned :=
  (h.calls c call found).entry id hmem

theorem number (h : Sound past l) (found : l.calls[c]? = some call)
    (taken : l.number c call = some l') : Sound (.number c :: past) l' := by
  unfold Link.number at taken
  split at taken
  next begun =>
    cases taken
    refine h.move found rfl (.refl _) (fun _ _ _ hmem => hmem) ?_ rfl ?_
    · simp only [numbers, List.length_append, List.length_singleton, h.next]
    · refine (h.calls c call found).move rfl (fun id hid => ?_) (fun _ => by rw [begun]; rfl)
        nofun (fun id hmem => ?_) nofun nofun nofun
      · cases hid
        refine ⟨(numbers past).length, h.next, ?_⟩
        simp only [numbers, List.getElem?_concat_length]
      · have phase := h.phase_of_mem found hmem
        rw [begun] at phase
        rcases phase with phase | phase <;> cases phase
  next => cases taken

/-- A call that goes on under its number. -/
theorem goOn (h : Sound past l) (found : l.calls[c]? = some call) {phase : Phase}
    (calls : l'.calls = (l.setPhase c phase).calls) (pending : l'.pending = l.pending)
    (next : l'.nextId = l.nextId) (notNumber : numbers (s :: past) = numbers past)
    (mild : s.isMild = true)
    (was : call.phase.entry? = some id) (is : phase.entry? = some id)
    (expired : ∀ id, phase = .expired id → call.limit.isSome = true) : Sound (s :: past) l' := by
  have only (k : Nat) (hk : phase.entry? = some k) : k = id := Option.some.inj (hk.symm.trans is)
  refine h.move found calls (pending ▸ .refl _) (fun _ _ _ hmem => pending ▸ hmem)
    (by rw [next, notNumber, h.next]) mild ?_
  refine (h.calls c call found).move mild (fun k hk => ?_) (fun isNew => ?_) (fun k hk => ?_)
    (fun k hmem => ?_) (fun k _ hmem => pending ▸ hmem) expired (fun r hr => ?_)
  · have heq : phase.id? = phase.entry? := by rw [is, Phase.id?_of_entry? is]
    obtain rfl := only k (heq ▸ hk)
    exact ((h.calls c call found).named k (Phase.id?_of_entry? was)).cons s
  · rw [Phase.isNew_of_entry? is] at isNew
    cases isNew
  · rw [only k hk]
    exact was
  · refine ⟨pending ▸ hmem, .inl ?_⟩
    rcases h.phase_of_mem found (pending ▸ hmem) with heq | heq
    · rw [is, ← was, heq]
    · rw [heq] at was
      cases was
  · rw [hr] at is
    cases is

theorem hand (h : Sound past l) (found : l.calls[c]? = some call)
    (taken : l.hand c call = some l') : Sound (.hand c :: past) l' := by
  unfold Link.hand at taken
  split at taken
  next id entered =>
    have was : call.phase.entry? = some id := by rw [entered]; rfl
    split at taken
    · cases taken
      exact h.goOn found rfl rfl rfl rfl rfl was rfl nofun
    · obtain ⟨posted, hpost, heq⟩ := Option.map_eq_some_iff.mp taken
      subst heq
      unfold Link.post? at hpost
      split at hpost
      · cases hpost
        exact h.goOn found rfl rfl rfl rfl rfl was rfl nofun
      · split at hpost
        · cases hpost
          exact h.goOn found rfl rfl rfl rfl rfl was rfl nofun
        · cases hpost
  next => cases taken

theorem expire (h : Sound past l) (found : l.calls[c]? = some call)
    (taken : l.expire c call = some l') : Sound (.expire c :: past) l' := by
  unfold Link.expire at taken
  split at taken
  next id limit waiting _ limited =>
    cases taken
    have was : call.phase.entry? = some id := by rw [waiting]; rfl
    refine h.goOn found rfl rfl rfl rfl rfl was rfl fun _ _ => ?_
    rw [limited]
    rfl
  next => cases taken

/-- A call that is over and not in the table. -/
theorem finish (h : Sound past l) (found : l.calls[c]? = some call)
    {r : Except TransportError Json} (calls : l'.calls = (l.setPhase c (.finished r)).calls)
    (sub : l'.pending.Sublist l.pending)
    (others : ∀ id k, k ≠ c → (id, k) ∈ l.pending → (id, k) ∈ l'.pending)
    (next : l'.nextId = l.nextId) (notNumber : numbers (s :: past) = numbers past)
    (mild : s.isMild = true)
    (out : ∀ id, (id, c) ∉ l'.pending) (settled : call.limit = none → Settled (s :: past) c r) :
    Sound (s :: past) l' := by
  refine h.move found calls sub others (by rw [next, notNumber, h.next]) mild ?_
  refine (h.calls c call found).move mild nofun nofun nofun
    (fun id hmem => absurd hmem (out id)) nofun nofun fun r' hr unlimited => ?_
  cases hr
  exact settled unlimited

theorem collect (h : Sound past l) (found : l.calls[c]? = some call)
    (taken : l.collect c call = some l') : Sound (.collect c :: past) l' := by
  have sound := h.calls c call found
  have out (id : Nat) (waiting : call.phase = .waiting id) (told : call.slot ≠ .empty) (k : Nat) :
      (k, c) ∉ l.pending := fun hmem => by
    rcases h.phase_of_mem found hmem with heq | heq
    · exact told ((sound.slot k heq).1.mpr hmem)
    · rw [waiting] at heq
      cases heq
  unfold Link.collect at taken
  split at taken
  next id outcome waiting told =>
    cases taken
    have heard := (sound.slot id (by rw [waiting]; rfl)).2
    rw [told] at heard
    exact h.finish found rfl (.refl _) (fun _ _ _ hmem => hmem) rfl rfl rfl
      (out id waiting (by rw [told]; nofun))
      fun _ => .inr ⟨id, outcome, rfl, Answered.cons heard nofun⟩
  next id waiting lost =>
    cases taken
    exact h.finish found rfl (.refl _) (fun _ _ _ hmem => hmem) rfl rfl rfl
      (out id waiting (by rw [lost]; nofun)) fun _ => .inl rfl
  next => cases taken

/-- What is left in the table after a number was struck. -/
theorem mem_strike {l : Link} {id k : Nat} {c : CallId} :
    (k, c) ∈ (l.strike id).pending ↔ (k, c) ∈ l.pending ∧ k ≠ id := by
  simp only [strike, List.mem_filter, decide_eq_true_eq]

/-- Striking the number of a call concerns no other call. -/
theorem mem_strike_of_ne (h : Sound past l) {k : CallId} {n : Nat} (named : Assigned past id c)
    (ne : k ≠ c) (hmem : (n, k) ∈ l.pending) : (n, k) ∈ (l.strike id).pending := by
  refine mem_strike.mpr ⟨hmem, fun heq => ne ?_⟩
  exact (h.assigned n k hmem).unique (heq ▸ named)

theorem withdraw (h : Sound past l) (found : l.calls[c]? = some call)
    (taken : l.withdraw c call = some l') : Sound (.withdraw c :: past) l' := by
  have sound := h.calls c call found
  have withdrawn (id : Nat) (was : call.phase.entry? = some id) (r : Except TransportError Json)
      (settled : call.limit = none → Settled (.withdraw c :: past) c r)
      (heq : l' = (l.strike id).setPhase c (.finished r)) : Sound (.withdraw c :: past) l' := by
    subst heq
    refine h.finish found rfl List.filter_sublist (fun n k ne hmem => ?_) rfl rfl rfl
      (fun k hmem => ?_) settled
    · exact h.mem_strike_of_ne (sound.named id (Phase.id?_of_entry? was)) ne hmem
    · obtain ⟨hmem, ne⟩ := mem_strike.mp hmem
      rcases h.phase_of_mem found hmem with heq | heq
      · exact ne (Option.some.inj (heq.symm.trans was))
      · rw [heq] at was
        cases was
  unfold Link.withdraw at taken
  split at taken
  next id refused =>
    cases taken
    exact withdrawn id (by rw [refused]; rfl) _ (fun _ => .inl rfl) rfl
  next id expired =>
    cases taken
    refine withdrawn id (by rw [expired]; rfl) _ (fun unlimited => ?_) rfl
    have limited := sound.expired id expired
    rw [unlimited] at limited
    cases limited
  next => cases taken

theorem abandon (h : Sound past l) (found : l.calls[c]? = some call)
    (taken : l.abandon c call = some l') : Sound (.abandon c :: past) l' := by
  unfold Link.abandon at taken
  split at taken
  next => cases taken
  next =>
    cases taken
    refine h.move found rfl (.refl _) (fun _ _ _ hmem => hmem) h.next rfl ?_
    exact (h.calls c call found).move rfl nofun nofun nofun
      (fun _ hmem => ⟨hmem, .inr rfl⟩) nofun nofun nofun

/-- A call enters the table under its number, which no other call in the table has. -/
theorem enter (h : Sound past l) (found : l.calls[c]? = some call)
    (taken : l.enter c call = some l') : Sound (.enter c :: past) l' := by
  unfold Link.enter at taken
  split at taken
  next id numbered =>
    cases taken
    have named := (h.calls c call found).named id (by rw [numbered]; rfl)
    have out (k : Nat) : (k, c) ∉ l.pending := fun hmem => by
      have phase := h.phase_of_mem found hmem
      rw [numbered] at phase
      rcases phase with phase | phase <;> cases phase
    -- The number is its own, so nothing is struck when it enters.
    have none : l.pending.filter (fun e => e.1 ≠ id) = l.pending :=
      List.filter_eq_self.mpr fun e he => by
        obtain ⟨k, d⟩ := e
        refine decide_eq_true fun heq => ?_
        obtain rfl : k = id := heq
        obtain rfl := (h.assigned k d he).unique named
        exact out k he
    have pending : ∀ k d, (k, d) ∈ (l.strike id).pending ++ [(id, c)] ↔
        (k, d) ∈ l.pending ∨ k = id ∧ d = c := fun k d => by
      simp only [strike, none, List.mem_append, List.mem_singleton, Prod.mk.injEq]
    refine ⟨h.next, ?_, fun k d hmem => ?_, fun k d hmem => ?_, fun k other hother => ?_⟩
    · simp only [setPhase, modify, strike, none, List.map_append, List.map_cons, List.map_nil]
      refine List.nodup_append.mpr ⟨h.keys, List.nodup_singleton _, fun k hk n hn => ?_⟩
      obtain ⟨⟨k, d⟩, hmem, rfl⟩ := List.mem_map.mp hk
      rw [List.mem_singleton.mp hn]
      rintro rfl
      obtain rfl := (h.assigned k d hmem).unique named
      exact out k hmem
    · rcases (pending k d).mp hmem with hmem | ⟨rfl, rfl⟩
      · exact (h.assigned k d hmem).cons _
      · exact named.cons _
    · simp only [setPhase, modify, strike, List.length_modify]
      rcases (pending k d).mp hmem with hmem | ⟨rfl, rfl⟩
      · exact h.known k d hmem
      · exact (List.getElem?_eq_some_iff.mp found).1
    · rcases of_getElem?_setPhase (l := l.strike id) found hother with ⟨ne, hother⟩ | ⟨rfl, rfl⟩
      · refine (h.calls k other hother).quiet nofun (fun heq => ne (Step.enter.inj heq)) nofun
          fun n => (pending n k).trans ?_
        exact or_iff_left fun heq => ne heq.2.symm
      · have sound := h.calls c call found
        refine ⟨fun k hk => ?_, nofun, fun k hmem => ?_, fun k hk => ?_, nofun, nofun⟩
        · cases hk
          exact named.cons _
        · rcases (pending k c).mp hmem with hmem | ⟨rfl, -⟩
          · exact absurd hmem (out k)
          · exact .inl rfl
        · cases hk
          have untold : call.slot = .empty := sound.new (by rw [numbered]; rfl)
          rw [untold]
          exact ⟨⟨fun _ => (pending id c).mpr (.inr ⟨rfl, rfl⟩), fun _ => rfl⟩,
            ⟨[], past, rfl, List.not_mem_nil, nofun⟩⟩
  next => cases taken

/-- A call that begins has heard nothing, and has no number. -/
theorem begin (h : Sound past l) (method : String) (params : Option Json) (limit : Option Nat) :
    Sound (.begin method params limit :: past) (l.call method params limit).2 where
  next := h.next
  keys := h.keys
  assigned id c hmem := (h.assigned id c hmem).cons _
  known id c hmem := by
    simp only [Link.call, List.length_append]
    exact Nat.lt_add_right _ (h.known id c hmem)
  calls c call found := by
    simp only [Link.call, List.getElem?_append] at found
    split at found
    · exact (h.calls c call found).quiet nofun nofun nofun fun _ => .rfl
    next late =>
      obtain rfl := List.mem_singleton.mp (List.mem_of_getElem? found)
      refine ⟨nofun, fun _ => rfl, fun id hmem => ?_, nofun, nofun, nofun⟩
      exact absurd (h.known id _ hmem) late

/-- An answer is told to the call in the table under its number, and to no other. -/
theorem route (h : Sound past l) {frame : Json} {outcome : Outcome}
    (answers : Incoming.ofFrame? frame = some (.response id outcome)) :
    Sound (.arrive frame :: past) (l.route id outcome) := by
  have other (n : Nat) (ne : n ≠ id) : ¬ Answers frame n := fun ⟨o, heq⟩ => by
    rw [answers] at heq
    cases heq
    exact ne rfl
  unfold Link.route
  split
  next d found =>
    have hmem : (id, d) ∈ l.pending := by
      obtain ⟨before, after, heq, -⟩ := List.lookup_eq_some_iff.mp found
      rw [heq]
      exact List.mem_append_right _ List.mem_cons_self
    -- Numbers are taken once, so no other call is in the table under this one.
    have only (n : Nat) (k : CallId) (hk : (n, k) ∈ l.pending) (ne : k ≠ d) : n ≠ id := fun heq =>
      ne ((h.assigned n k hk).unique (heq ▸ h.assigned id d hmem))
    refine ⟨h.next, h.keys.sublist (List.filter_sublist.map _), fun n k hk => ?_, fun n k hk => ?_,
      fun k call hcall => ?_⟩
    · exact (h.assigned n k (mem_strike.mp hk).1).cons _
    · simpa only [modify, strike, List.length_modify] using h.known n k (mem_strike.mp hk).1
    · rw [calls_modify] at hcall
      split at hcall
      next same =>
        subst same
        obtain ⟨old, hold, rfl⟩ := Option.map_eq_some_iff.mp hcall
        have sound := h.calls d old hold
        refine ⟨fun n hn => (sound.named n hn).cons _, fun isNew => ?_,
          fun n hn => sound.entry n (mem_strike.mp hn).1, fun n hn => ?_, sound.expired,
          fun r hr unlimited => (sound.done r hr unlimited).cons nofun⟩
        · simp only at isNew
          rcases h.phase_of_mem hold hmem with heq | heq
          · rw [Phase.isNew_of_entry? heq] at isNew
            cases isNew
          · rw [heq] at isNew
            cases isNew
        · simp only at hn
          obtain rfl : n = id := by
            rcases h.phase_of_mem hold hmem with heq | heq
            · exact Option.some.inj (hn.symm.trans heq)
            · rw [heq] at hn
              cases hn
          obtain ⟨empty, heard⟩ := sound.slot n hn
          rw [empty.mpr hmem] at heard
          refine ⟨⟨nofun, fun hn => absurd rfl (mem_strike.mp hn).2⟩, ?_⟩
          exact ⟨[], frame, past, rfl, List.not_mem_nil, Unheard.entered heard, answers⟩
      next ne =>
        have hcall : l.calls[k]? = some call := hcall
        refine (h.calls k call hcall).quiet nofun nofun (fun n hn f hf => ?_) fun n => ?_
        · cases hf
          exact other n (only n k hn (Ne.symm ne))
        · exact mem_strike.trans (and_iff_left_of_imp fun hn => only n k hn (Ne.symm ne))
  next none =>
    refine h.quiet rfl rfl rfl rfl nofun nofun fun n k hmem f hf => ?_
    cases hf
    refine other n fun heq => ?_
    exact absurd (List.lookup_eq_none_iff.mp none (n, k) hmem) (by simp [heq])

/-- The calls after the table was cleared. -/
theorem getElem?_foldl_lose (pending : List (Nat × CallId)) (l : Link) (k : CallId) :
    (pending.foldl (fun l e => l.modify e.2 Call.lose) l).calls[k]? =
      if k ∈ pending.map (·.2) then l.calls[k]?.map Call.lose else l.calls[k]? := by
  have twice (call : Call) : call.lose.lose = call.lose := by
    unfold Call.lose
    cases h : call.slot <;> simp [h]
  induction pending generalizing l with
  | nil => simp
  | cons e pending ih =>
    rw [List.foldl_cons, ih, calls_modify]
    simp only [List.map_cons, List.mem_cons]
    by_cases hk : k = e.2
    · subst hk
      by_cases hmem : e.2 ∈ pending.map (·.2)
      · simp only [hmem, if_true, or_true, Option.map_map, Function.comp_def, twice]
      · simp [hmem]
    · rw [if_neg (Ne.symm hk)]
      exact if_congr (or_iff_right hk).symm rfl rfl

/-- When the table is cleared, whoever was told nothing is told that nothing will come. -/
theorem clear (h : Sound past l) :
    Sound (.clear :: past) { l.clearTable with reader := .ended } where
  next := by
    have next : ∀ (pending : List (Nat × CallId)) (l : Link),
        (pending.foldl (fun l e => l.modify e.2 Call.lose) l).nextId = l.nextId := by
      intro pending
      induction pending with
      | nil => exact fun _ => rfl
      | cons e pending ih => exact fun l => ih (l.modify e.2 Call.lose)
    exact (next l.pending l).trans h.next
  keys := List.nodup_nil
  assigned := nofun
  known := nofun
  calls k call found := by
    simp only [clearTable, getElem?_foldl_lose] at found
    split at found
    next there =>
      obtain ⟨old, hold, rfl⟩ := Option.map_eq_some_iff.mp found
      obtain ⟨⟨n, d⟩, hmem, rfl⟩ := List.mem_map.mp there
      exact (h.calls d old hold).lose hmem
    next away =>
      have sound := h.calls k call found
      refine ⟨fun n hn => (sound.named n hn).cons _, sound.new, nofun, fun n hn => ?_,
        sound.expired, fun r hr unlimited => (sound.done r hr unlimited).cons nofun⟩
      obtain ⟨empty, heard⟩ := sound.slot n hn
      have told : call.slot ≠ .empty := fun untold =>
        away (List.mem_map.mpr ⟨(n, k), empty.mp untold, rfl⟩)
      exact ⟨⟨fun untold => absurd untold told, nofun⟩, heard.cons_of_told told nofun⟩

/-- Sorting a frame keeps the invariant. -/
theorem dispatch (h : Sound past l) (frame : Json) :
    Sound (.arrive frame :: past) (l.dispatch frame) := by
  have other (no : ∀ id outcome, Incoming.ofFrame? frame ≠ some (.response id outcome)) (n : Nat)
      (k : CallId) (_ : (n, k) ∈ l.pending) (f : Json) (hf : Step.arrive frame = .arrive f) :
      ¬ Answers f n := fun ⟨outcome, heq⟩ => by
    cases hf
    exact no n outcome heq
  unfold Link.dispatch
  split
  next none => exact h.quiet rfl rfl rfl rfl nofun nofun (other (by simp [none]))
  next id outcome answers => exact h.route answers
  next asks => exact h.quiet rfl rfl rfl rfl nofun nofun (other (by simp [asks]))
  next tells => exact h.quiet rfl rfl rfl rfl nofun nofun (other (by simp [tells]))

/-- Orders concern neither calls nor table. -/
theorem post (h : Sound past l) {order : Order} (taken : l.post? order = some l')
    (notNumber : numbers (s :: past) = numbers past) (mild : s.isMild = true) :
    Sound (s :: past) l' := by
  have quiet (heq : l'.calls = l.calls) (heq' : l'.pending = l.pending)
      (heq'' : l'.nextId = l.nextId) : Sound (s :: past) l' := by
    refine h.quiet heq heq' heq'' notNumber ?_ (fun c => ?_) fun _ _ _ frame hf => ?_
    · exact fun heq => by rw [heq] at mild; cases mild
    · exact fun heq => by rw [heq] at mild; cases mild
    · rw [hf] at mild
      cases mild
  unfold Link.post? at taken
  split at taken
  · cases taken
    exact quiet rfl rfl rfl
  · split at taken
    · cases taken
      exact quiet rfl rfl rfl
    · cases taken

theorem pass (h : Sound past l) (taken : l.pass = some l') : Sound (.pass :: past) l' := by
  unfold Link.pass at taken
  split at taken
  · split at taken
    · cases taken
      exact h.quiet rfl rfl rfl rfl nofun nofun nofun
    · split at taken
      · cases taken
        exact h.quiet rfl rfl rfl rfl nofun nofun nofun
      · cases taken
  · obtain ⟨posted, hpost, rfl⟩ := Option.map_eq_some_iff.mp taken
    have h' : Sound (.pass :: past) posted := h.post hpost rfl rfl
    exact ⟨h'.next, h'.keys, h'.assigned, h'.known, h'.calls⟩
  · cases taken

/-- **Every step keeps the invariant.** -/
theorem step (h : Sound past l) (taken : l.step s = some l') : Sound (s :: past) l' := by
  cases s with
  | begin method params limit =>
    cases taken
    exact h.begin method params limit
  | number c =>
    obtain ⟨call, found, taken⟩ := Option.bind_eq_some_iff.mp taken
    exact h.number found taken
  | enter c =>
    obtain ⟨call, found, taken⟩ := Option.bind_eq_some_iff.mp taken
    exact h.enter found taken
  | hand c =>
    obtain ⟨call, found, taken⟩ := Option.bind_eq_some_iff.mp taken
    exact h.hand found taken
  | collect c =>
    obtain ⟨call, found, taken⟩ := Option.bind_eq_some_iff.mp taken
    exact h.collect found taken
  | expire c =>
    obtain ⟨call, found, taken⟩ := Option.bind_eq_some_iff.mp taken
    exact h.expire found taken
  | withdraw c =>
    obtain ⟨call, found, taken⟩ := Option.bind_eq_some_iff.mp taken
    exact h.withdraw found taken
  | abandon c =>
    obtain ⟨call, found, taken⟩ := Option.bind_eq_some_iff.mp taken
    exact h.abandon found taken
  | post order => exact h.post taken rfl rfl
  | take =>
    simp only [Link.step, Link.take] at taken
    split at taken <;> cases taken <;> exact h.quiet rfl rfl rfl rfl nofun nofun nofun
  | arrive frame =>
    simp only [Link.step] at taken
    split at taken <;> cases taken
    exact h.dispatch frame
  | pass => exact h.pass taken
  | clear =>
    simp only [Link.step] at taken
    split at taken <;> cases taken
    exact h.clear
  | _ =>
    simp only [Link.step] at taken
    first
      | (split at taken <;> cases taken <;> exact h.quiet rfl rfl rfl rfl nofun nofun nofun)
      | (cases taken; exact h.quiet rfl rfl rfl rfl nofun nofun nofun)

/-- **The invariant holds in every history.** -/
theorem of_history (history : History past l) : Sound past l := by
  induction history with
  | start => exact sound_start
  | next _ taken ih => exact ih.step taken

end Sound

end Supervision.Link
