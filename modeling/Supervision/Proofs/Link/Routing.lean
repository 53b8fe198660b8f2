import Supervision.Proofs.Link.Answer

/-!
# Which call an answer reaches

Whatever arrives, an answer is told to the call that took its number and to no other, and only the
first of those that arrive after the call entered the table. A call takes each of its steps once
(`History.once`), since every one of them leaves it with fewer ahead; so it enters the table once,
and finishes once.

Numbers are never used again here. A counter of 64 bits comes round after `2 ^ 64` calls, and of
what happens then nothing is said.
-/

namespace Supervision.Link

open Message

variable {past : List Step} {l l' : Link} {s : Step} {c : CallId} {id : Nat} {call : Call}

/-! ## What a call does by itself -/

/-- A call takes a step and comes to a phase by it. -/
inductive Turn : Step → Call → Phase → Prop
  | number {c : CallId} {call : Call} (was : call.phase = .begun) (id : Nat) :
    Turn (.number c) call (.numbered id)
  | enter {c : CallId} {call : Call} {id : Nat} (was : call.phase = .numbered id) :
    Turn (.enter c) call (.entered id)
  | hand {c : CallId} {call : Call} {id : Nat} (was : call.phase = .entered id) :
    Turn (.hand c) call (.waiting id)
  | refuse {c : CallId} {call : Call} {id : Nat} (was : call.phase = .entered id) :
    Turn (.hand c) call (.refused id)
  | answer {c : CallId} {call : Call} {id : Nat} {outcome : Outcome}
    (was : call.phase = .waiting id) (told : call.slot = .told outcome) :
    Turn (.collect c) call (.finished (resultOf outcome))
  | close {c : CallId} {call : Call} {id : Nat} (was : call.phase = .waiting id)
    (lost : call.slot = .lost) : Turn (.collect c) call (.finished (.error .closed))
  | expire {c : CallId} {call : Call} {id : Nat} (was : call.phase = .waiting id) :
    Turn (.expire c) call (.expired id)
  | leave {c : CallId} {call : Call} {id : Nat} (was : call.phase = .refused id) :
    Turn (.withdraw c) call (.finished (.error .closed))
  | late {c : CallId} {call : Call} {id : Nat} (was : call.phase = .expired id) :
    Turn (.withdraw c) call (.finished (.error (.timeout call.method)))
  | abandon {c : CallId} {call : Call} (going : ∀ r, call.phase ≠ .finished r) :
    Turn (.abandon c) call .abandoned

/-- **A step of a call is a turn of it**, changes no other call, and brings no other call into the
table. -/
theorem step_turn (taken : l.step s = some l') (caller : s.caller? = some c) :
    ∃ call phase, l.calls[c]? = some call ∧ l'.calls = (l.setPhase c phase).calls ∧
      Turn s call phase ∧ ∀ e ∈ l'.pending, e ∈ l.pending ∨ s = .enter e.2 := by
  cases s <;> cases caller
  case number =>
    obtain ⟨call, found, taken⟩ := Option.bind_eq_some_iff.mp taken
    unfold Link.number at taken
    split at taken <;> cases taken
    next begun => exact ⟨call, _, found, rfl, .number begun _, fun e => .inl⟩
  case enter =>
    obtain ⟨call, found, taken⟩ := Option.bind_eq_some_iff.mp taken
    unfold Link.enter at taken
    split at taken <;> cases taken
    next numbered =>
      refine ⟨call, _, found, rfl, .enter numbered, fun e mem => ?_⟩
      rcases List.mem_append.mp mem with mem | mem
      · exact .inl (List.filter_sublist.subset mem)
      · rw [List.mem_singleton.mp mem]
        exact .inr rfl
  case hand =>
    obtain ⟨call, found, taken⟩ := Option.bind_eq_some_iff.mp taken
    unfold Link.hand at taken
    split at taken
    next id entered =>
      split at taken
      · cases taken
        exact ⟨call, _, found, rfl, .refuse entered, fun e => .inl⟩
      next heard =>
        obtain ⟨posted, hpost, rfl⟩ := Option.map_eq_some_iff.mp taken
        simp only [post?, heard, if_false, Bool.false_eq_true] at hpost
        split at hpost <;> cases hpost
        exact ⟨call, .waiting id, found, rfl, .hand entered, fun e => .inl⟩
    next => cases taken
  case collect =>
    obtain ⟨call, found, taken⟩ := Option.bind_eq_some_iff.mp taken
    unfold Link.collect at taken
    split at taken <;> cases taken
    next waiting told => exact ⟨call, _, found, rfl, .answer waiting told, fun e => .inl⟩
    next waiting lost => exact ⟨call, _, found, rfl, .close waiting lost, fun e => .inl⟩
  case expire =>
    obtain ⟨call, found, taken⟩ := Option.bind_eq_some_iff.mp taken
    unfold Link.expire at taken
    split at taken <;> cases taken
    next waiting _ _ => exact ⟨call, _, found, rfl, .expire waiting, fun e => .inl⟩
  case withdraw =>
    obtain ⟨call, found, taken⟩ := Option.bind_eq_some_iff.mp taken
    unfold Link.withdraw at taken
    split at taken <;> cases taken
    next refused =>
      exact ⟨call, _, found, rfl, .leave refused, fun e mem => .inl (List.filter_sublist.subset mem)⟩
    next expired =>
      exact ⟨call, _, found, rfl, .late expired, fun e mem => .inl (List.filter_sublist.subset mem)⟩
  case abandon =>
    obtain ⟨call, found, taken⟩ := Option.bind_eq_some_iff.mp taken
    unfold Link.abandon at taken
    split at taken <;> cases taken
    next going => exact ⟨call, _, found, rfl, .abandon going, fun e => .inl⟩

/-- How many steps a call has ahead of it, at most, when it takes a step. It may be given up at any
time. -/
def Step.ahead? : Step → Option Nat
  | .number _ => some 5
  | .enter _ => some 4
  | .hand _ => some 3
  | .collect _ | .expire _ => some 2
  | .withdraw _ => some 1
  | _ => none

/-- A turn leaves a call with fewer steps ahead. -/
theorem Turn.ahead {phase : Phase} (turn : Turn s call phase) :
    phase.ahead ≤ call.phase.ahead ∧
      ∀ k, s.ahead? = some k → call.phase.ahead = k ∧ phase.ahead < k := by
  cases turn with
  | abandon => exact ⟨Nat.zero_le _, nofun⟩
  | number was | enter was | hand was | refuse was | answer was | close was | expire was | leave was
  | late was =>
    rw [was]
    refine ⟨by simp [Phase.ahead], fun k hk => ?_⟩
    cases hk
    exact ⟨rfl, by simp [Phase.ahead]⟩

/-- A call that is over does nothing. -/
theorem Turn.going {phase : Phase} {r : Except TransportError Json} (turn : Turn s call phase) :
    call.phase ≠ .finished r := by
  intro ended
  cases turn with
  | abandon going => exact going r ended
  | number was | enter was | hand was | refuse was | answer was | close was | expire was | leave was
  | late was =>
    rw [was] at ended
    cases ended

/-! ## What becomes of a call -/

/-- What a step makes of a call. -/
inductive Fate (l : Link) (s : Step) (c : CallId) (call' : Call) : Prop
  /-- It has just begun. -/
  | begun (fresh : l.calls[c]? = none) (phase : call'.phase = .begun)
  | kept (found : l.calls[c]? = some call') (other : s.caller? ≠ some c)
  | moved {call : Call} {phase : Phase} (found : l.calls[c]? = some call)
    (caller : s.caller? = some c) (turn : Turn s call phase)
    (becomes : call' = { call with phase := phase })
  /-- An answer with its number has arrived. -/
  | told {call : Call} {frame : Json} {id : Nat} {outcome : Outcome}
    (found : l.calls[c]? = some call) (arrives : s = .arrive frame)
    (answers : Incoming.ofFrame? frame = some (.response id outcome))
    (listed : (id, c) ∈ l.pending) (becomes : call' = { call with slot := .told outcome })
  /-- The table is cleared while it is in it. -/
  | lost {call : Call} (found : l.calls[c]? = some call) (clears : s = .clear)
    (becomes : call' = call.lose)

theorem mem_of_lookup (found : l.pending.lookup id = some c) : (id, c) ∈ l.pending := by
  obtain ⟨before, after, heq, -⟩ := List.lookup_eq_some_iff.mp found
  rw [heq]
  exact List.mem_append_right _ List.mem_cons_self

/-- A frame that arrives tells one call at most, or none if it is no answer to a call in the
table. -/
theorem dispatch_cases (l : Link) (frame : Json) :
    (l.dispatch frame).calls = l.calls ∧ (l.dispatch frame).pending = l.pending ∧
        (∀ id outcome, Incoming.ofFrame? frame = some (.response id outcome) →
          l.pending.lookup id = none ∧ l.dispatch frame = l) ∨
      ∃ id outcome c, Incoming.ofFrame? frame = some (.response id outcome) ∧
        l.pending.lookup id = some c ∧
        l.dispatch frame = (l.strike id).modify c fun call => { call with slot := .told outcome } := by
  unfold dispatch
  split
  next none =>
    refine .inl ⟨rfl, rfl, fun id outcome answers => ?_⟩
    rw [none] at answers
    cases answers
  next id outcome answers =>
    cases listed : l.pending.lookup id with
    | none =>
      have same : l.route id outcome = l := by simp only [route, listed]
      refine .inl ⟨by rw [same], by rw [same], fun n o answers' => ?_⟩
      rw [answers] at answers'
      cases answers'
      exact ⟨listed, same⟩
    | some c => exact .inr ⟨id, outcome, c, answers, listed, by simp only [route, listed]⟩
  next asks =>
    refine .inl ⟨rfl, rfl, fun id outcome answers => ?_⟩
    rw [asks] at answers
    cases answers
  next tells =>
    refine .inl ⟨rfl, rfl, fun id outcome answers => ?_⟩
    rw [tells] at answers
    cases answers

/-- A step by which no call moves, begins or is told anything. -/
theorem step_aside (taken : l.step s = some l') (caller : s.caller? = none)
    (begins : ∀ m p n, s ≠ .begin m p n) (arrives : ∀ frame, s ≠ .arrive frame)
    (clears : s ≠ .clear) : l'.calls = l.calls ∧ l'.pending = l.pending := by
  cases s with
  | begin m p n => exact absurd rfl (begins m p n)
  | arrive frame => exact absurd rfl (arrives frame)
  | clear => exact absurd rfl clears
  | post order =>
    simp only [Link.step, post?] at taken
    split at taken
    · cases taken
      exact ⟨rfl, rfl⟩
    · split at taken <;> cases taken
      exact ⟨rfl, rfl⟩
  | take =>
    simp only [Link.step, Link.take] at taken
    split at taken <;> cases taken <;> exact ⟨rfl, rfl⟩
  | pass =>
    simp only [Link.step, Link.pass] at taken
    split at taken
    · split at taken
      · cases taken
        exact ⟨rfl, rfl⟩
      · split at taken <;> cases taken
        exact ⟨rfl, rfl⟩
    · obtain ⟨posted, hpost, rfl⟩ := Option.map_eq_some_iff.mp taken
      unfold post? at hpost
      split at hpost
      · cases hpost
        exact ⟨rfl, rfl⟩
      · split at hpost <;> cases hpost
        exact ⟨rfl, rfl⟩
    · cases taken
  | wrote | fail | cease | fetch =>
    simp only [Link.step] at taken
    split at taken <;> cases taken
    exact ⟨rfl, rfl⟩
  | deafen =>
    cases taken
    exact ⟨rfl, rfl⟩
  | _ => cases caller

/-- **What a step makes of each call.** -/
theorem fate_of_step {call' : Call} (taken : l.step s = some l') (found' : l'.calls[c]? = some call') :
    Fate l s c call' := by
  cases caller : s.caller? with
  | some d =>
    obtain ⟨call, phase, found, calls, turn, -⟩ := step_turn taken caller
    rw [calls] at found'
    rcases of_getElem?_setPhase found found' with ⟨ne, kept⟩ | ⟨rfl, rfl⟩
    · exact .kept kept (by rw [caller]; exact fun same => ne (Option.some.inj same))
    · exact .moved found caller turn rfl
  | none =>
    have other : s.caller? ≠ some c := by
      rw [caller]
      exact nofun
    by_cases begins : ∃ m p n, s = .begin m p n
    · obtain ⟨m, p, n, rfl⟩ := begins
      cases taken
      simp only [Link.call, List.getElem?_append] at found'
      split at found'
      next => exact .kept found' other
      next late =>
        obtain rfl := List.mem_singleton.mp (List.mem_of_getElem? found')
        exact .begun (List.getElem?_eq_none (Nat.not_lt.mp late)) rfl
    by_cases arrives : ∃ frame, s = .arrive frame
    · obtain ⟨frame, rfl⟩ := arrives
      simp only [Link.step] at taken
      split at taken <;> cases taken
      rcases dispatch_cases l frame with ⟨calls, -, -⟩ | ⟨id, outcome, d, answers, listed, heq⟩
      · rw [calls] at found'
        exact .kept found' other
      · rw [heq, calls_modify] at found'
        split at found'
        next same =>
          subst same
          obtain ⟨call, found, rfl⟩ := Option.map_eq_some_iff.mp found'
          exact .told found rfl answers (mem_of_lookup listed) rfl
        next => exact .kept found' other
    by_cases clears : s = .clear
    · subst clears
      simp only [Link.step] at taken
      split at taken <;> cases taken
      simp only [clearTable, Sound.getElem?_foldl_lose] at found'
      split at found'
      next =>
        obtain ⟨call, found, rfl⟩ := Option.map_eq_some_iff.mp found'
        exact .lost found rfl rfl
      next => exact .kept found' other
    obtain ⟨calls, -⟩ := step_aside taken caller (fun m p n heq => begins ⟨m, p, n, heq⟩)
      (fun frame heq => arrives ⟨frame, heq⟩) clears
    rw [calls] at found'
    exact .kept found' other

/-! ## Once only -/

/-- A call is past its steps: it has fewer ahead than when it took them. -/
def Spent (past : List Step) (c : CallId) (phase : Phase) : Prop :=
  ∀ s ∈ past, s.caller? = some c → ∀ k, s.ahead? = some k → phase.ahead < k

theorem Spent.cons {phase phase' : Phase} (spent : Spent past c phase)
    (fewer : phase'.ahead ≤ phase.ahead)
    (new : s.caller? = some c → ∀ k, s.ahead? = some k → phase'.ahead < k) :
    Spent (s :: past) c phase' := by
  intro t mem caller k hk
  rcases List.mem_cons.mp mem with rfl | mem
  · exact new caller k hk
  · exact Nat.lt_of_le_of_lt fewer (spent t mem caller k hk)

theorem length_modify (l : Link) (c : CallId) (f : Call → Call) :
    (l.modify c f).calls.length = l.calls.length := by
  rw [modify, List.length_modify]

theorem length_clearTable (l : Link) : l.clearTable.calls.length = l.calls.length := by
  have folded : ∀ (pending : List (Nat × CallId)) (l : Link),
      (pending.foldl (fun l e => l.modify e.2 Call.lose) l).calls.length = l.calls.length := by
    intro pending
    induction pending with
    | nil => exact fun _ => rfl
    | cons e pending ih => exact fun l => (ih _).trans (length_modify l e.2 Call.lose)
  exact folded l.pending l

/-- No call is forgotten. -/
theorem length_step (taken : l.step s = some l') : l.calls.length ≤ l'.calls.length := by
  cases caller : s.caller? with
  | some d =>
    obtain ⟨call, phase, -, calls, -⟩ := step_turn taken caller
    refine Nat.le_of_eq ?_
    rw [calls, setPhase, length_modify]
  | none =>
    by_cases begins : ∃ m p n, s = .begin m p n
    · obtain ⟨m, p, n, rfl⟩ := begins
      cases taken
      simp only [Link.call, List.length_append]
      omega
    by_cases arrives : ∃ frame, s = .arrive frame
    · obtain ⟨frame, rfl⟩ := arrives
      simp only [Link.step] at taken
      split at taken <;> cases taken
      rcases dispatch_cases l frame with ⟨calls, -, -⟩ | ⟨id, outcome, d, -, -, heq⟩
      · exact Nat.le_of_eq (by rw [calls])
      · exact Nat.le_of_eq (by rw [heq, length_modify]; rfl)
    by_cases clears : s = .clear
    · subst clears
      simp only [Link.step] at taken
      split at taken <;> cases taken
      exact Nat.le_of_eq (length_clearTable l).symm
    obtain ⟨calls, -⟩ := step_aside taken caller (fun m p n heq => begins ⟨m, p, n, heq⟩)
      (fun frame heq => arrives ⟨frame, heq⟩) clears
    exact Nat.le_of_eq (by rw [calls])

/-- Whoever has taken a step is one of the calls. -/
theorem History.known (history : History past l) (mem : s ∈ past) (caller : s.caller? = some c) :
    c < l.calls.length := by
  induction history with
  | start => cases mem
  | next history taken ih =>
    refine Nat.lt_of_lt_of_le ?_ (length_step taken)
    rcases List.mem_cons.mp mem with rfl | mem
    · obtain ⟨call, phase, found, -⟩ := step_turn taken caller
      exact (List.getElem?_eq_some_iff.mp found).1
    · exact ih mem

/-- Every call is past the steps that it has taken. -/
theorem History.spent (history : History past l) (found : l.calls[c]? = some call) :
    Spent past c call.phase := by
  induction history generalizing call with
  | start => cases found
  | @next past l l' s history taken ih =>
    cases fate_of_step taken found with
    | begun fresh =>
      intro t mem caller
      rcases List.mem_cons.mp mem with rfl | mem
      · obtain ⟨call, phase, was, -⟩ := step_turn taken caller
        rw [fresh] at was
        cases was
      · have known := history.known mem caller
        exact absurd known (Nat.not_lt.mpr (List.getElem?_eq_none_iff.mp fresh))
    | kept was other => exact (ih was).cons (Nat.le_refl _) fun caller => absurd caller other
    | moved was caller turn becomes =>
      subst becomes
      exact (ih was).cons turn.ahead.1 fun _ k hk => (turn.ahead.2 k hk).2
    | told was arrives answers listed becomes =>
      subst becomes arrives
      exact (ih was).cons (Nat.le_refl _) nofun
    | lost was clears becomes =>
      subst becomes clears
      rw [Call.phase_lose]
      exact (ih was).cons (Nat.le_refl _) nofun

/-- **A call takes each of its steps once**, unless it is given up again and again. -/
theorem History.once (history : History past l) (taken : l.step s = some l')
    (caller : s.caller? = some c) (turns : s.ahead?.isSome) : s ∉ past := by
  intro mem
  obtain ⟨call, phase, found, -, turn, -⟩ := step_turn taken caller
  obtain ⟨k, hk⟩ := Option.isSome_iff_exists.mp turns
  have fewer := history.spent found s mem caller k hk
  have exact_k := (turn.ahead.2 k hk).1
  omega

/-- A step that is taken once is neither before nor after itself. -/
theorem History.only {after before : List Step} (history : History (after ++ s :: before) l)
    (caller : s.caller? = some c) (turns : s.ahead?.isSome) : s ∉ after ∧ s ∉ before := by
  induction after generalizing l with
  | nil =>
    cases history with
    | next history taken => exact ⟨List.not_mem_nil, history.once taken caller turns⟩
  | cons t after ih =>
    cases history with
    | next history taken =>
      obtain ⟨behind, ahead⟩ := ih history
      refine ⟨fun mem => ?_, ahead⟩
      rcases List.mem_cons.mp mem with rfl | mem
      · exact history.once taken caller turns (List.mem_append_right _ List.mem_cons_self)
      · exact behind mem

/-! ## The first answer -/

/-- The first answer with a number that arrived since a call entered the table, which it did once. -/
def FirstAnswer (past : List Step) (c : CallId) (id : Nat) (outcome : Outcome) : Prop :=
  ∃ after frame between before, past = after ++ .arrive frame :: (between ++ .enter c :: before) ∧
    Incoming.ofFrame? frame = some (.response id outcome) ∧
    (∀ earlier, .arrive earlier ∈ between → ¬ Answers earlier id) ∧
    .enter c ∉ after ++ between ++ before

theorem FirstAnswer.cons {outcome : Outcome} (first : FirstAnswer past c id outcome)
    (once : s ≠ .enter c) : FirstAnswer (s :: past) c id outcome := by
  obtain ⟨after, frame, between, before, rfl, answers, silent, only⟩ := first
  refine ⟨s :: after, frame, between, before, rfl, answers, silent, fun mem => ?_⟩
  rcases List.mem_cons.mp mem with heq | mem
  · exact once heq.symm
  · exact only mem

/-- An answer to a call that has heard nothing is its first. -/
theorem History.firstAnswer (history : History past l) (unheard : Unheard past c id) {frame : Json}
    {outcome : Outcome} (answers : Incoming.ofFrame? frame = some (.response id outcome)) :
    FirstAnswer (.arrive frame :: past) c id outcome := by
  obtain ⟨between, before, rfl, -, silent⟩ := unheard
  obtain ⟨behind, ahead⟩ := history.only rfl rfl
  refine ⟨[], frame, between, before, rfl, answers, silent, fun mem => ?_⟩
  rcases List.mem_append.mp mem with mem | mem
  · exact behind mem
  · exact ahead mem

/-- A call that has heard nothing had no answer. -/
theorem History.unanswered (history : History past l) (unheard : Unheard past c id)
    {outcome : Outcome} : ¬ FirstAnswer past c id outcome := by
  rintro ⟨after, frame, between, before, heq, answers, -, -⟩
  obtain ⟨since, earlier, rfl, -, silent⟩ := unheard
  obtain ⟨behind, ahead⟩ := history.only rfl rfl
  rw [← List.cons_append, ← List.append_assoc] at heq
  obtain ⟨rfl, -, -⟩ := (List.append_cons_inj_of_notMem behind ahead).mp heq
  exact silent frame (List.mem_append_right _ List.mem_cons_self) ⟨outcome, answers⟩

/-- Whoever is in the table has just entered it, or was there, and was told nothing since. -/
theorem mem_of_step (taken : l.step s = some l') (listed : (id, c) ∈ l'.pending) :
    s = .enter c ∨
      (id, c) ∈ l.pending ∧ s ≠ .clear ∧ ∀ frame, s = .arrive frame → ¬ Answers frame id := by
  cases caller : s.caller? with
  | some d =>
    obtain ⟨-, -, -, -, -, pending⟩ := step_turn taken caller
    rcases pending (id, c) listed with listed | enters
    · refine .inr ⟨listed, ?_, fun frame => ?_⟩
      · rintro rfl
        cases caller
      · rintro rfl
        cases caller
    · exact .inl enters
  | none =>
    refine .inr ?_
    by_cases begins : ∃ m p n, s = .begin m p n
    · obtain ⟨m, p, n, rfl⟩ := begins
      cases taken
      refine ⟨listed, ?_, fun frame heq => ?_⟩
      · intro heq
        cases heq
      · cases heq
    by_cases arrives : ∃ frame, s = .arrive frame
    · obtain ⟨frame, rfl⟩ := arrives
      simp only [Link.step] at taken
      split at taken <;> cases taken
      have other : Step.arrive frame ≠ .clear := by
        intro heq
        cases heq
      rcases dispatch_cases l frame with ⟨-, pending, none⟩ | ⟨n, outcome, d, answers, -, heq⟩
      · rw [pending] at listed
        refine ⟨listed, other, fun other heq => ?_⟩
        rintro ⟨outcome, answers⟩
        cases heq
        have absent := (none id outcome answers).1
        exact absurd (List.lookup_eq_none_iff.mp absent (id, c) listed) (by simp)
      · rw [heq] at listed
        obtain ⟨listed, ne⟩ := Sound.mem_strike.mp listed
        refine ⟨listed, other, fun other heq => ?_⟩
        rintro ⟨outcome', answers'⟩
        cases heq
        rw [answers] at answers'
        cases answers'
        exact ne rfl
    by_cases clears : s = .clear
    · subst clears
      simp only [Link.step] at taken
      split at taken <;> cases taken
      cases listed
    obtain ⟨-, pending⟩ := step_aside taken caller (fun m p n heq => begins ⟨m, p, n, heq⟩)
      (fun frame heq => arrives ⟨frame, heq⟩) clears
    rw [pending] at listed
    exact ⟨listed, clears, fun frame heq => absurd ⟨frame, heq⟩ arrives⟩

/-- A call in the table has heard nothing, also if it was given up. -/
theorem History.unheard_of_mem (history : History past l) (listed : (id, c) ∈ l.pending) :
    Unheard past c id := by
  induction history with
  | start => cases listed
  | @next past l l' s history taken ih =>
    rcases mem_of_step taken listed with rfl | ⟨listed, clears, silent⟩
    · exact ⟨[], past, rfl, List.not_mem_nil, fun frame mem => absurd mem List.not_mem_nil⟩
    · exact (ih listed).cons clears silent

/-! ## Results -/

theorem not_enter_of_caller (other : s.caller? ≠ some c) : s ≠ .enter c := by
  rintro rfl
  exact other rfl

/-- A call that is in the table after a turn has just entered it, or was there under its number. -/
theorem Turn.entry {phase : Phase} (turn : Turn s call phase) (entered : phase.entry? = some id) :
    call.phase.isNew = true ∨ call.phase.entry? = some id ∧ ∀ d, s ≠ .enter d := by
  cases turn with
  | number | answer | close | leave | late | abandon => cases entered
  | enter was => exact .inl (by rw [was]; rfl)
  | hand was | refuse was | expire was =>
    cases entered
    exact .inr ⟨by rw [was]; rfl, nofun⟩

/-- **What a call was told is the first answer to it.** -/
theorem History.firstAnswer_of_told (history : History past l) (found : l.calls[c]? = some call)
    (entered : call.phase.entry? = some id) {outcome : Outcome}
    (told : call.slot = .told outcome) : FirstAnswer past c id outcome := by
  induction history generalizing call with
  | start => cases found
  | @next past l l' s history taken ih =>
    have sound := Sound.of_history history
    cases fate_of_step taken found with
    | begun _ phase =>
      rw [phase] at entered
      cases entered
    | kept was other => exact (ih was entered told).cons (not_enter_of_caller other)
    | moved was _ turn becomes =>
      subst becomes
      rcases turn.entry entered with new | ⟨there, notEnter⟩
      · have untold := (sound.calls c _ was).new new
        rw [untold] at told
        cases told
      · exact (ih was there told).cons (notEnter c)
    | told was arrives answers listed becomes =>
      subst becomes arrives
      cases told
      rcases sound.phase_of_mem was listed with there | given
      · obtain rfl := Option.some.inj (there.symm.trans entered)
        exact history.firstAnswer (history.unheard_of_mem listed) answers
      · rw [given] at entered
        cases entered
    | lost was clears becomes =>
      subst becomes clears
      rw [Call.phase_lose] at entered
      rw [Call.slot_lose] at told
      split at told
      · cases told
      · exact (ih was entered told).cons nofun

/-- True of a result that some answer gives. -/
def isAnswer : Except TransportError Json → Bool
  | .ok _ | .error (.response _) => true
  | _ => false

/-- Where the result of a call that was answered came from: the first answer to it since it entered
the table, and its time was not up. -/
def CameFrom (past : List Step) (c : CallId) (r : Except TransportError Json) : Prop :=
  ∃ id outcome, r = resultOf outcome ∧ Assigned past id c ∧ FirstAnswer past c id outcome ∧
    .expire c ∉ past

theorem CameFrom.cons {r : Except TransportError Json} (came : CameFrom past c r)
    (notEnter : s ≠ .enter c) (notExpire : s ≠ .expire c) : CameFrom (s :: past) c r := by
  obtain ⟨id, outcome, heq, assigned, first, timely⟩ := came
  refine ⟨id, outcome, heq, assigned.cons s, first.cons notEnter, fun mem => ?_⟩
  rcases List.mem_cons.mp mem with heq | mem
  · exact notExpire heq.symm
  · exact timely mem

/-- **An answer is the first one, and came in time.** -/
theorem History.cameFrom (history : History past l) (found : l.calls[c]? = some call)
    {r : Except TransportError Json} (ended : call.phase = .finished r) (answer : isAnswer r = true) :
    CameFrom past c r := by
  induction history generalizing call with
  | start => cases found
  | @next past l l' s history taken ih =>
    cases fate_of_step taken found with
    | begun _ phase =>
      rw [phase] at ended
      cases ended
    | kept was other =>
      refine (ih was ended).cons (not_enter_of_caller other) ?_
      rintro rfl
      exact other rfl
    | @moved call _ was _ turn becomes =>
      subst becomes
      cases turn with
      | number | enter | hand | refuse | expire | abandon => cases ended
      | close | leave | late =>
        cases ended
        cases answer
      | @answer _ _ id outcome waiting told =>
        cases ended
        have entered : call.phase.entry? = some id := by rw [waiting]; rfl
        have assigned := ((Sound.of_history history).calls c call was).named id
          (Phase.id?_of_entry? entered)
        have first := history.firstAnswer_of_told was entered told
        have came : CameFrom past c (resultOf outcome) := by
          refine ⟨id, outcome, rfl, assigned, first, fun mem => ?_⟩
          have fewer := history.spent was _ mem rfl 2 rfl
          rw [waiting] at fewer
          exact absurd fewer (Nat.lt_irrefl 2)
        exact came.cons nofun nofun
    | told was arrives answers listed becomes =>
      subst becomes arrives
      exact (ih was ended).cons nofun nofun
    | lost was clears becomes =>
      subst becomes clears
      rw [Call.phase_lose] at ended
      exact (ih was ended).cons nofun nofun

theorem result?_eq_some {r : Except TransportError Json} :
    l.result? c = some r ↔ ∃ call, l.calls[c]? = some call ∧ call.phase = .finished r := by
  unfold result?
  constructor
  · intro result
    split at result
    next r' phase =>
      cases result
      obtain ⟨call, found, ended⟩ := Option.map_eq_some_iff.mp phase
      exact ⟨call, found, ended⟩
    next => cases result
  · rintro ⟨call, found, ended⟩
    rw [found, Option.map_some, ended]

/-- A result stays. -/
theorem result?_step {r : Except TransportError Json} (taken : l.step s = some l')
    (result : l.result? c = some r) : l'.result? c = some r := by
  obtain ⟨call, found, ended⟩ := result?_eq_some.mp result
  have known := Nat.lt_of_lt_of_le (List.getElem?_eq_some_iff.mp found).1 (length_step taken)
  have found' := List.getElem?_eq_getElem known
  refine result?_eq_some.mpr ⟨_, found', ?_⟩
  cases fate_of_step taken found' with
  | begun fresh =>
    rw [fresh] at found
    cases found
  | kept was =>
    rw [found] at was
    rw [← Option.some.inj was]
    exact ended
  | moved was _ turn =>
    rw [found] at was
    cases was
    exact absurd ended turn.going
  | told was _ _ _ becomes =>
    rw [found] at was
    cases was
    rw [becomes]
    exact ended
  | lost was _ becomes =>
    rw [found] at was
    cases was
    rw [becomes, Call.phase_lose]
    exact ended

/-- **A result stays, whatever happens.** -/
theorem result?_run {steps : List Step} {r : Except TransportError Json}
    (run : l.run steps = some l') (result : l.result? c = some r) : l'.result? c = some r := by
  induction steps generalizing l with
  | nil =>
    cases run
    exact result
  | cons s steps ih =>
    obtain ⟨next, taken, run⟩ := Option.bind_eq_some_iff.mp run
    exact ih run (result?_step taken result)

/-- A step by which a call comes to its result. -/
def Step.finishes (c : CallId) : Step → Bool
  | .collect d | .withdraw d => d == c
  | _ => false

theorem Step.caller_of_finishes (finishes : s.finishes c = true) : s.caller? = some c := by
  cases s with
  | collect d | withdraw d =>
    rw [Step.finishes, beq_iff_eq] at finishes
    rw [Step.caller?, finishes]
  | _ => cases finishes

/-- A turn gives a result exactly if it is one of those steps. -/
theorem Turn.finishes {phase : Phase} (turn : Turn s call phase) (caller : s.caller? = some c) :
    s.finishes c = true ↔ ∃ r, phase = .finished r := by
  cases turn with
  | answer | close | leave | late =>
    cases caller
    exact ⟨fun _ => ⟨_, rfl⟩, fun _ => beq_self_eq_true c⟩
  | number | enter | hand | refuse | expire | abandon =>
    constructor
    · intro finishes
      cases finishes
    · rintro ⟨r, ended⟩
      cases ended

/-- A call without a result gets one by a step of its own that gives it. -/
theorem finishes_of_result? {r : Except TransportError Json} (taken : l.step s = some l')
    (going : l.result? c = none) (result : l'.result? c = some r) : s.finishes c = true := by
  obtain ⟨call', found', ended⟩ := result?_eq_some.mp result
  have still : ∀ call r, l.calls[c]? = some call → call.phase ≠ .finished r := by
    intro call r found ended
    rw [result?_eq_some.mpr ⟨call, found, ended⟩] at going
    cases going
  cases fate_of_step taken found' with
  | begun _ phase =>
    rw [phase] at ended
    cases ended
  | kept was => exact (still call' r was ended).elim
  | moved was caller turn becomes =>
    subst becomes
    exact (turn.finishes caller).mpr ⟨r, ended⟩
  | told was _ _ _ becomes =>
    rw [becomes] at ended
    exact (still _ r was ended).elim
  | lost was _ becomes =>
    rw [becomes, Call.phase_lose] at ended
    exact (still _ r was ended).elim

/-- **A call comes to its result by exactly one step**, and by none while it has no result. -/
theorem History.countP_finishes (history : History past l) (c : CallId) :
    past.countP (Step.finishes c) = if (l.result? c).isSome then 1 else 0 := by
  induction history with
  | start => rfl
  | @next past l l' s history taken ih =>
    rw [List.countP_cons, ih]
    cases was : l.result? c with
    | some r =>
      have notAgain : ¬ s.finishes c = true := by
        intro finishes
        obtain ⟨call, phase, found, -, turn, -⟩ :=
          step_turn taken (Step.caller_of_finishes finishes)
        obtain ⟨other, found', ended⟩ := result?_eq_some.mp was
        rw [found] at found'
        cases found'
        exact turn.going ended
      rw [result?_step taken was, if_neg notAgain]
      rfl
    | none =>
      cases is : l'.result? c with
      | some r =>
        rw [if_pos (finishes_of_result? taken was is)]
        rfl
      | none =>
        have notYet : ¬ s.finishes c = true := by
          intro finishes
          have caller := Step.caller_of_finishes finishes
          obtain ⟨call, phase, found, calls, turn, -⟩ := step_turn taken caller
          obtain ⟨r, ended⟩ := (turn.finishes caller).mp finishes
          have result : l'.result? c = some r := by
            refine result?_eq_some.mpr ⟨{ call with phase := phase }, ?_, ended⟩
            rw [calls, setPhase, calls_modify, if_pos rfl, found]
            rfl
          rw [is] at result
          cases result
        rw [if_neg notYet]
        rfl

/-! ## The law -/

/-- Calls, answers and the table, at any moment of a history. -/
structure Routed (past : List Step) (l : Link) : Prop where
  /-- No number is in the table twice, and all of them have been given out. -/
  keys : (l.pending.map (·.1)).Nodup
  below : ∀ id ∈ l.pending.map (·.1), id < l.nextId
  /-- A call comes to its result once, and keeps it. -/
  once : ∀ c, past.countP (Step.finishes c) = if (l.result? c).isSome then 1 else 0
  stays : ∀ c r steps l', l.result? c = some r → l.run steps = some l' → l'.result? c = some r
  /-- A result that an answer gave came from the first answer to the call since it entered the
  table, and before its time was up. -/
  first : ∀ c r, l.result? c = some r → isAnswer r = true → CameFrom past c r
  /-- A frame changes one call at most. -/
  single : ∀ frame l', l.step (.arrive frame) = some l' →
    ∃ c : CallId, ∀ d : CallId, d ≠ c → l'.calls[d]? = l.calls[d]?
  /-- A response changes no call but the one with its number. -/
  others : ∀ frame id outcome l', Incoming.ofFrame? frame = some (.response id outcome) →
    l.step (.arrive frame) = some l' → ∀ c, ¬ Assigned past id c → l'.calls[c]? = l.calls[c]?
  /-- One whose number nobody has, or was answered, or belongs to a call that is over, changes
  nothing at all. -/
  stray : ∀ frame id outcome l', Incoming.ofFrame? frame = some (.response id outcome) →
    l.step (.arrive frame) = some l' →
    ((∀ c, ¬ Assigned past id c) ∨ (∃ c outcome', Assigned past id c ∧ FirstAnswer past c id outcome') ∨
      ∃ c, Assigned past id c ∧ (l.result? c).isSome) → l' = l

/-- **Answers reach exactly the calls that asked.** -/
theorem routed_of_history (history : History past l) : Routed past l := by
  have sound := Sound.of_history history
  refine ⟨sound.keys, fun id mem => ?_, history.countP_finishes,
    fun c r steps l' result run => result?_run run result, fun c r result answer => ?_,
    fun frame l' taken => ?_, fun frame id outcome l' answers taken c foreign => ?_,
    fun frame id outcome l' answers taken stray => ?_⟩
  · obtain ⟨⟨k, c⟩, listed, rfl⟩ := List.mem_map.mp mem
    obtain ⟨n, rfl, taken⟩ := sound.assigned k c listed
    have bound := (List.getElem?_eq_some_iff.mp taken).1
    rw [sound.next]
    show n + 1 < (numbers past).length + 1
    omega
  · obtain ⟨call, found, ended⟩ := result?_eq_some.mp result
    exact history.cameFrom found ended answer
  · simp only [Link.step] at taken
    split at taken <;> cases taken
    rcases dispatch_cases l frame with ⟨calls, -, -⟩ | ⟨id, outcome, c, -, -, heq⟩
    · exact ⟨0, fun d _ => by rw [calls]⟩
    · refine ⟨c, fun d ne => ?_⟩
      rw [heq, calls_modify, if_neg (Ne.symm ne)]
      rfl
  · simp only [Link.step] at taken
    split at taken <;> cases taken
    rcases dispatch_cases l frame with ⟨calls, -, -⟩ | ⟨n, o, d, answers', listed, heq⟩
    · rw [calls]
    · rw [answers] at answers'
      cases answers'
      rw [heq, calls_modify, if_neg]
      · rfl
      · rintro rfl
        exact foreign (sound.assigned id d (mem_of_lookup listed))
  · simp only [Link.step] at taken
    split at taken <;> cases taken
    rcases dispatch_cases l frame with ⟨-, -, none⟩ | ⟨n, o, d, answers', listed, heq⟩
    · exact (none id outcome answers).2
    · rw [answers] at answers'
      cases answers'
      have there := mem_of_lookup listed
      have owner := sound.assigned id d there
      rcases stray with nobody | ⟨c, outcome', assigned, first⟩ | ⟨c, assigned, ended⟩
      · exact absurd owner (nobody d)
      · obtain rfl := assigned.unique owner
        exact absurd first (history.unanswered (history.unheard_of_mem there))
      · obtain rfl := assigned.unique owner
        obtain ⟨r, result⟩ := Option.isSome_iff_exists.mp ended
        obtain ⟨call, found, ended⟩ := result?_eq_some.mp result
        rcases sound.phase_of_mem found there with phase | phase
        · rw [ended] at phase
          cases phase
        · rw [ended] at phase
          cases phase

/-- An answer as it arrives. -/
def answerTo (id : Nat) (result : Json) : Json :=
  .obj [("id", .int id), ("result", result)]

/-- A call gets the first answer to it, after an answer to nobody and before one that comes too
late. -/
theorem routed_of_second_frame :
    ∃ l, Link.start.run [.begin "m" none none, .number 0, .enter 0, .hand 0,
        .arrive (answerTo 9 .null), .arrive (answerTo 1 (.int 5)), .arrive (answerTo 1 (.int 6)),
        .collect 0] = some l ∧ l.result? 0 = some (.ok (.int 5)) ∧
      CameFrom [.collect 0, .arrive (answerTo 1 (.int 6)), .arrive (answerTo 1 (.int 5)),
        .arrive (answerTo 9 .null), .hand 0, .enter 0, .number 0, .begin "m" none none] 0
        (.ok (.int 5)) := by
  let l : Link := ⟨2, [⟨"m", none, none, .finished (.ok (.int 5)), .told (.ok (.int 5))⟩], [],
    [.send (Message.request 1 "m" none)], .idle, .reading, [], true⟩
  have run : Link.start.run [.begin "m" none none, .number 0, .enter 0, .hand 0,
      .arrive (answerTo 9 .null), .arrive (answerTo 1 (.int 5)), .arrive (answerTo 1 (.int 6)),
      .collect 0] = some l := rfl
  exact ⟨l, run, rfl, (routed_of_history (history_of_run .start run)).first 0 _ rfl rfl⟩

end Supervision.Link
