import Supervision.Proofs.Link.History

/-!
# Which calls wait in vain

A call without a limit waits until it is told something, and it is told something when an answer to
it arrives or the table is cleared. The table is cleared once, by the reader, when nothing more can
arrive; the writer does not clear it. So the law has two exceptions, and says which calls they are:
a call that enters the table after it was cleared and finds the writer still there waits forever,
and a call whose frame was lost with the writer waits until the reader leaves too.

All other calls come to their answer, or are told that the link is closed. The law says nothing of
calls with a limit, nor that the reader leaves.
-/

namespace Supervision.Link

variable {past : List Step} {l l' : Link} {s : Step} {c : CallId} {id : Nat} {call : Call}

/-! ## What a step does to calls and reader -/

/-- The call that takes a step. -/
def Step.caller? : Step → Option CallId
  | .number c | .enter c | .hand c | .collect c | .expire c | .withdraw c | .abandon c => some c
  | _ => none

/-- A call that does not move any more unless it is told something. -/
def Call.Idle (call : Call) : Prop :=
  call.phase = .abandoned ∨
    (∃ id, call.phase = .waiting id) ∧ call.slot = .empty ∧ call.limit = none

/-- How many steps a call has ahead of it, at most. -/
def Phase.ahead : Phase → Nat
  | .begun => 5
  | .numbered _ => 4
  | .entered _ => 3
  | .waiting _ => 2
  | .refused _ | .expired _ => 1
  | .finished _ | .abandoned => 0

/-- A call moves on by itself, and nothing else but table and orders changes. -/
structure Goes (l : Link) (c : CallId) (call : Call) (l' : Link) (phase : Phase) : Prop where
  reader : l'.reader = l.reader
  calls : l'.calls = (l.setPhase c phase).calls
  ahead : phase.ahead ≤ call.phase.ahead - 1
  /-- All that a call does by itself while nobody tells it anything is to give up. -/
  idle : call.Idle → phase = .abandoned

theorem post?_keeps {order : Order} (h : l.post? order = some l') :
    l'.reader = l.reader ∧ l'.calls = l.calls := by
  unfold post? at h
  split at h
  · cases h
    exact ⟨rfl, rfl⟩
  · split at h <;> cases h
    exact ⟨rfl, rfl⟩

private theorem not_idle {P : Prop} (abandoned : call.phase ≠ .abandoned)
    (waiting : ∀ id, call.phase = .waiting id → call.slot = .empty → call.limit = none → P) :
    call.Idle → P := by
  rintro (h | ⟨⟨id, h⟩, untold, unlimited⟩)
  · exact absurd h abandoned
  · exact waiting id h untold unlimited

theorem number_goes (h : l.number c call = some l') : ∃ phase, Goes l c call l' phase := by
  unfold Link.number at h
  split at h <;> cases h
  next begun =>
    exact ⟨_, rfl, rfl, by simp [begun, Phase.ahead], not_idle (by simp [begun]) (by simp [begun])⟩

theorem enter_goes (h : l.enter c call = some l') : ∃ phase, Goes l c call l' phase := by
  unfold Link.enter at h
  split at h <;> cases h
  next numbered =>
    exact ⟨_, rfl, rfl, by simp [numbered, Phase.ahead],
      not_idle (by simp [numbered]) (by simp [numbered])⟩

theorem hand_goes (h : l.hand c call = some l') : ∃ phase, Goes l c call l' phase := by
  unfold Link.hand at h
  split at h
  next id entered =>
    split at h
    · cases h
      exact ⟨_, rfl, rfl, by simp [entered, Phase.ahead],
        not_idle (by simp [entered]) (by simp [entered])⟩
    · obtain ⟨posted, hpost, rfl⟩ := Option.map_eq_some_iff.mp h
      obtain ⟨reader, calls⟩ := post?_keeps hpost
      refine ⟨.waiting id, reader, ?_, by simp [entered, Phase.ahead],
        not_idle (by simp [entered]) (by simp [entered])⟩
      simp only [setPhase, modify, calls]
  next => cases h

theorem collect_goes (h : l.collect c call = some l') : ∃ phase, Goes l c call l' phase := by
  unfold Link.collect at h
  split at h <;> cases h
  next told => exact ⟨_, rfl, rfl, Nat.zero_le _, not_idle (by simp_all) (by simp_all)⟩
  next lost => exact ⟨_, rfl, rfl, Nat.zero_le _, not_idle (by simp_all) (by simp_all)⟩

theorem expire_goes (h : l.expire c call = some l') : ∃ phase, Goes l c call l' phase := by
  unfold Link.expire at h
  split at h <;> cases h
  next waiting _ limited =>
    exact ⟨_, rfl, rfl, by simp [waiting, Phase.ahead], not_idle (by simp_all) (by simp_all)⟩

theorem withdraw_goes (h : l.withdraw c call = some l') : ∃ phase, Goes l c call l' phase := by
  unfold Link.withdraw at h
  split at h <;> cases h
  next refused =>
    exact ⟨_, rfl, rfl, by simp [refused, Phase.ahead],
      not_idle (by simp [refused]) (by simp [refused])⟩
  next expired =>
    exact ⟨_, rfl, rfl, by simp [expired, Phase.ahead],
      not_idle (by simp [expired]) (by simp [expired])⟩

theorem abandon_goes (h : l.abandon c call = some l') : ∃ phase, Goes l c call l' phase := by
  unfold Link.abandon at h
  split at h <;> cases h
  exact ⟨_, rfl, rfl, Nat.zero_le _, fun _ => rfl⟩

/-- What a step of a call does. -/
theorem step_goes (taken : l.step s = some l') (caller : s.caller? = some c) :
    ∃ call phase, l.calls[c]? = some call ∧ Goes l c call l' phase := by
  have bound {f : CallId → Call → Option Link} (h : l.calls[c]?.bind (f c) = some l')
      (goes : ∀ {call}, f c call = some l' → ∃ phase, Goes l c call l' phase) :
      ∃ call phase, l.calls[c]? = some call ∧ Goes l c call l' phase := by
    obtain ⟨call, found, h⟩ := Option.bind_eq_some_iff.mp h
    obtain ⟨phase, h⟩ := goes h
    exact ⟨call, phase, found, h⟩
  cases s <;> cases caller
  case number => exact bound (f := l.number) taken number_goes
  case enter => exact bound (f := l.enter) taken enter_goes
  case hand => exact bound (f := l.hand) taken hand_goes
  case collect => exact bound (f := l.collect) taken collect_goes
  case expire => exact bound (f := l.expire) taken expire_goes
  case withdraw => exact bound (f := l.withdraw) taken withdraw_goes
  case abandon => exact bound (f := l.abandon) taken abandon_goes

/-- What a step of anybody else does when the reader has left: calls may begin. -/
theorem step_others (ended : l.reader = .ended) (taken : l.step s = some l')
    (caller : s.caller? = none) : l'.reader = .ended ∧ ∃ more, l'.calls = l.calls ++ more := by
  have same (reader : l'.reader = l.reader) (calls : l'.calls = l.calls) :
      l'.reader = .ended ∧ ∃ more, l'.calls = l.calls ++ more :=
    ⟨reader.trans ended, [], by rw [calls, List.append_nil]⟩
  cases s with
  | begin => cases taken; exact ⟨ended, _, rfl⟩
  | post order =>
    obtain ⟨reader, calls⟩ := post?_keeps taken
    exact same reader calls
  | take =>
    simp only [Link.step, Link.take] at taken
    split at taken <;> cases taken <;> exact same rfl rfl
  | pass => simp only [Link.step, Link.pass, ended] at taken; cases taken
  | arrive => simp only [Link.step, ended] at taken; cases taken
  | cease => simp only [Link.step, ended] at taken; cases taken
  | clear => simp only [Link.step, ended] at taken; cases taken
  | deafen => cases taken; exact same rfl rfl
  | wrote =>
    simp only [Link.step] at taken
    split at taken <;> cases taken
    exact same rfl rfl
  | fail =>
    simp only [Link.step] at taken
    split at taken <;> cases taken
    exact same rfl rfl
  | fetch =>
    simp only [Link.step] at taken
    split at taken <;> cases taken
    exact same rfl rfl
  | _ => cases caller

/-! ## After the table was cleared -/

theorem isDeaf_iff : l.isDeaf = true ↔ l.reader = .ended := by
  unfold isDeaf
  split
  next h => simp [h]
  next h => simpa using h

/-- A reader that has left stays away: nothing arrives, and the table is not cleared again. -/
theorem deaf_step (deaf : l.isDeaf = true) (taken : l.step s = some l') :
    l'.isDeaf = true ∧ s ≠ .clear ∧ ∀ frame, s ≠ .arrive frame := by
  rw [isDeaf_iff] at deaf ⊢
  refine ⟨?_, ?_, fun frame => ?_⟩
  · cases caller : s.caller? with
    | some c =>
      obtain ⟨call, phase, -, goes⟩ := step_goes taken caller
      exact goes.reader.trans deaf
    | none => exact (step_others deaf taken caller).1
  · rintro rfl
    simp only [Link.step, deaf] at taken
    cases taken
  · rintro rfl
    simp only [Link.step, deaf] at taken
    cases taken

/-- The reader leaves by clearing the table. -/
theorem deaf_of_deaf_step (taken : l.step s = some l') (notClear : s ≠ .clear)
    (deaf : l'.reader = .ended) : l.reader = .ended := by
  cases caller : s.caller? with
  | some c =>
    obtain ⟨call, phase, -, goes⟩ := step_goes taken caller
    exact goes.reader.symm.trans deaf
  | none =>
    cases s with
    | begin => cases taken; exact deaf
    | post order => exact (post?_keeps taken).1.symm.trans deaf
    | take =>
      simp only [Link.step, Link.take] at taken
      split at taken <;> cases taken <;> exact deaf
    | wrote => simp only [Link.step] at taken; split at taken <;> cases taken; exact deaf
    | fail => simp only [Link.step] at taken; split at taken <;> cases taken; exact deaf
    | arrive frame =>
      simp only [Link.step] at taken
      split at taken <;> cases taken
      unfold dispatch at deaf
      split at deaf
      · exact deaf
      · unfold route at deaf
        split at deaf <;> exact deaf
      · cases deaf
      · cases deaf
    | pass =>
      simp only [Link.step, Link.pass] at taken
      split at taken
      · split at taken
        · cases taken; cases deaf
        · split at taken <;> cases taken; cases deaf
      · obtain ⟨posted, -, rfl⟩ := Option.map_eq_some_iff.mp taken
        cases deaf
      · cases taken
    | cease => simp only [Link.step] at taken; split at taken <;> cases taken; cases deaf
    | clear => exact absurd rfl notClear
    | fetch => simp only [Link.step] at taken; split at taken <;> cases taken; exact deaf
    | deafen => cases taken; exact deaf
    | _ => cases caller

/-- The reader has left exactly when it has cleared the table. -/
theorem isDeaf_iff_clear (history : History past l) : l.isDeaf = true ↔ .clear ∈ past := by
  rw [isDeaf_iff]
  induction history with
  | start => simp [Link.start]
  | @next past l l' s history taken ih =>
    rw [List.mem_cons, ← ih]
    constructor
    · intro deaf
      by_cases clear : s = .clear
      · exact .inl clear.symm
      · exact .inr (deaf_of_deaf_step taken clear deaf)
    · rintro (rfl | deaf)
      · simp only [Link.step] at taken
        split at taken <;> cases taken
        rfl
      · exact isDeaf_iff.mp (deaf_step (isDeaf_iff.mpr deaf) taken).1

/-- After the table was cleared nothing arrives, and it is not cleared again. -/
theorem quiet_after_clear {after before : List Step} (history : History (after ++ before) l)
    (cleared : .clear ∈ before) :
    .clear ∉ after ∧ ∀ frame, .arrive frame ∉ after := by
  induction after generalizing l with
  | nil => exact ⟨List.not_mem_nil, fun _ => List.not_mem_nil⟩
  | cons s after ih =>
    cases history with
    | next history taken =>
      obtain ⟨notClear, silent⟩ := ih history
      have deaf := (isDeaf_iff_clear history).mpr (List.mem_append_right _ cleared)
      obtain ⟨-, first, firstSilent⟩ := deaf_step deaf taken
      refine ⟨fun hmem => ?_, fun frame hmem => ?_⟩
      · rcases List.mem_cons.mp hmem with heq | hmem
        · exact first heq.symm
        · exact notClear hmem
      · rcases List.mem_cons.mp hmem with heq | hmem
        · exact firstSilent frame heq.symm
        · exact silent frame hmem

/-- A call that entered the table after it was cleared. -/
def EnteredLate (past : List Step) (c : CallId) : Prop :=
  ∃ after before, past = after ++ .enter c :: before ∧ .clear ∈ before

/-- Once the reader has left, exactly the calls that came too late have heard nothing, if they have
a number at all. -/
theorem unheard_iff_late (history : History past l) (deaf : l.isDeaf = true) :
    Unheard past c id ↔ EnteredLate past c := by
  have cleared := (isDeaf_iff_clear history).mp deaf
  constructor
  · rintro ⟨after, before, rfl, notClear, -⟩
    refine ⟨after, before, rfl, ?_⟩
    rcases List.mem_append.mp cleared with hmem | hmem
    · exact absurd hmem notClear
    · exact (List.mem_cons.mp hmem).resolve_left nofun
  · rintro ⟨after, before, rfl, hmem⟩
    obtain ⟨notClear, silent⟩ := quiet_after_clear history (List.mem_cons_of_mem _ hmem)
    exact ⟨after, before, rfl, notClear, fun frame hframe => absurd hframe (silent frame)⟩

/-- As long as the reader is there, exactly the calls to which no answer arrived have heard
nothing. -/
theorem unheard_iff_unanswered (history : History past l) (hearing : l.isDeaf = false) :
    Unheard past c id ↔ ∃ after before, past = after ++ .enter c :: before ∧
      ∀ frame, .arrive frame ∈ after → ¬ Answers frame id := by
  constructor
  · rintro ⟨after, before, rfl, -, silent⟩
    exact ⟨after, before, rfl, silent⟩
  · rintro ⟨after, before, rfl, silent⟩
    refine ⟨after, before, rfl, fun hmem => ?_, silent⟩
    have deaf := (isDeaf_iff_clear history).mpr (List.mem_append_left _ hmem)
    rw [hearing] at deaf
    cases deaf

/-- A call that nobody will tell anything any more. -/
def Hopeless (l : Link) (c : CallId) : Prop :=
  l.reader = .ended ∧ ∃ call, l.calls[c]? = some call ∧ call.Idle

/-- **Hopeless calls stay hopeless.** -/
theorem Hopeless.step (h : Hopeless l c) (taken : l.step s = some l') : Hopeless l' c := by
  obtain ⟨ended, call, found, idle⟩ := h
  cases caller : s.caller? with
  | some d =>
    obtain ⟨other, phase, hother, goes⟩ := step_goes taken caller
    refine ⟨goes.reader.trans ended, ?_⟩
    rw [goes.calls, setPhase, calls_modify]
    split
    next same =>
      subst same
      obtain rfl := Option.some.inj (found.symm.trans hother)
      refine ⟨{ call with phase := phase }, by rw [found]; rfl, .inl (goes.idle idle)⟩
    next => exact ⟨call, found, idle⟩
  | none =>
    obtain ⟨ended', more, calls⟩ := step_others ended taken caller
    refine ⟨ended', call, ?_, idle⟩
    rw [calls, List.getElem?_append_left (List.getElem?_eq_some_iff.mp found).1]
    exact found

/-- A hopeless call gets no result, whatever happens. -/
theorem Hopeless.run {steps : List Step} (h : Hopeless l c) (run : l.run steps = some l') :
    l'.result? c = none := by
  induction steps generalizing l with
  | nil =>
    cases run
    obtain ⟨-, call, found, idle⟩ := h
    simp only [result?, found, Option.map_some]
    rcases idle with abandoned | ⟨⟨id, waiting⟩, -⟩
    · rw [abandoned]
    · rw [waiting]
  | cons s steps ih =>
    obtain ⟨next, taken, run⟩ := Option.bind_eq_some_iff.mp run
    exact ih (h.step taken) run

/-! ## When the writer is gone -/

/-- The steps that a call has yet to take before it knows that the writer is gone. -/
def Phase.rest (c : CallId) : Phase → List Step
  | .begun => [.number c, .enter c, .hand c, .withdraw c]
  | .numbered _ => [.enter c, .hand c, .withdraw c]
  | .entered _ => [.hand c, .withdraw c]
  | .refused _ => [.withdraw c]
  | _ => []

/-- **Without a writer nobody waits.** A call whose frame has yet to be handed over comes to know
by itself that the link is closed. -/
theorem closed_of_mute (mute : l.isMute = true) (found : l.calls[c]? = some call)
    (pending : call.phase.rest c ≠ []) :
    ∃ l', l.run (call.phase.rest c) = some l' ∧ l'.result? c = some (.error .closed) := by
  have phased (l : Link) (call : Call) (p : Phase) (h : l.calls[c]? = some call) :
      (l.setPhase c p).calls[c]? = some { call with phase := p } := by
    rw [setPhase, calls_modify, if_pos rfl, h]
    rfl
  -- From the last step backwards: each stage takes its own step and goes on as the next one.
  have refused (l : Link) (call : Call) (id : Nat) (h : l.calls[c]? = some call)
      (phase : call.phase = .refused id) :
      ∃ l', l.run [.withdraw c] = some l' ∧ l'.result? c = some (.error .closed) := by
    refine ⟨(l.strike id).setPhase c (.finished (.error .closed)), ?_, ?_⟩
    · simp only [Link.run, Link.step, h, Option.bind_some, withdraw, phase]
    · simp only [result?, phased (l.strike id) call _ h, Option.map_some]
  have entered (l : Link) (call : Call) (id : Nat) (mute : l.isMute = true)
      (h : l.calls[c]? = some call) (phase : call.phase = .entered id) :
      ∃ l', l.run [.hand c, .withdraw c] = some l' ∧ l'.result? c = some (.error .closed) := by
    obtain ⟨l', run, result⟩ := refused (l.setPhase c (.refused id)) _ id (phased l call _ h) rfl
    refine ⟨l', ?_, result⟩
    rw [← run]
    simp only [Link.run, Link.step, h, Option.bind_some, hand, phase, mute, if_true]
  have numbered (l : Link) (call : Call) (id : Nat) (mute : l.isMute = true)
      (h : l.calls[c]? = some call) (phase : call.phase = .numbered id) :
      ∃ l', l.run [.enter c, .hand c, .withdraw c] = some l' ∧
        l'.result? c = some (.error .closed) := by
    obtain ⟨l', run, result⟩ := entered
      { (l.strike id).setPhase c (.entered id) with
        pending := (l.strike id).pending ++ [(id, c)] } _ id mute
      (phased (l.strike id) call _ h) rfl
    refine ⟨l', ?_, result⟩
    rw [← run, Link.run]
    simp only [Link.step, h, Option.bind_some, Link.enter, phase]
    rfl
  cases phase : call.phase with
  | begun =>
    obtain ⟨l', run, result⟩ := numbered
      { l.setPhase c (.numbered l.nextId) with nextId := l.nextId + 1 } _ l.nextId mute
      (phased l call _ found) rfl
    refine ⟨l', ?_, result⟩
    rw [← run, Phase.rest, Link.run]
    simp only [Link.step, found, Option.bind_some, Link.number, phase]
  | numbered id => exact numbered l call id mute found phase
  | entered id => exact entered l call id mute found phase
  | refused id => exact refused l call id found phase
  | _ => exact absurd (by rw [phase]; rfl) pending

/-! ## The law -/

/-- A call that waits takes its result unless it has been told nothing. -/
theorem collect_eq_none_iff (found : l.calls[c]? = some call) (waiting : call.phase = .waiting id) :
    l.step (.collect c) = none ↔ call.slot = .empty := by
  simp only [Link.step, found, Option.bind_some, Link.collect, waiting]
  cases call.slot <;> simp

/-- What a call has been told is nothing exactly if it has heard nothing. -/
theorem slot_eq_empty_iff (history : History past l) (found : l.calls[c]? = some call)
    (waiting : call.phase = .waiting id) : call.slot = .empty ↔ Unheard past c id := by
  have heard := (((Sound.of_history history).calls c call found).slot id (by rw [waiting]; rfl)).2
  constructor
  · intro untold
    rw [untold] at heard
    exact heard
  · exact fun unheard => unheard.eq_empty heard

/-- A result is an answer, or that the link is closed. -/
theorem settled_of_result? (history : History past l) (found : l.calls[c]? = some call)
    (unlimited : call.limit = none) {r : Except TransportError Json}
    (result : l.result? c = some r) : Settled past c r := by
  refine ((Sound.of_history history).calls c call found).done r ?_ unlimited
  simp only [result?, found, Option.map_some] at result
  split at result
  next r' heq =>
    cases result
    exact Option.some.inj heq
  next => cases result

/-- A call that has a step of its own to take comes closer to its end by it. -/
theorem ahead_of_nextOf (found : l.calls[c]? = some call) (moved : l.nextOf c = some l') :
    ∃ call', l'.calls[c]? = some call' ∧ call'.phase.ahead < call.phase.ahead := by
  have closer {s : Step} (taken : l.step s = some l') (caller : s.caller? = some c)
      (more : 0 < call.phase.ahead) :
      ∃ call', l'.calls[c]? = some call' ∧ call'.phase.ahead < call.phase.ahead := by
    obtain ⟨other, phase, hother, goes⟩ := step_goes taken caller
    obtain rfl := Option.some.inj (found.symm.trans hother)
    refine ⟨{ call with phase := phase }, ?_, Nat.lt_of_le_pred more goes.ahead⟩
    rw [goes.calls, setPhase, calls_modify, if_pos rfl, found]
    rfl
  simp only [nextOf, found, Option.map_some] at moved
  split at moved
  next h => exact closer moved rfl (by simp [Option.some.inj h, Phase.ahead])
  next h => exact closer moved rfl (by simp [Option.some.inj h, Phase.ahead])
  next h => exact closer moved rfl (by simp [Option.some.inj h, Phase.ahead])
  next h => exact closer moved rfl (by simp [Option.some.inj h, Phase.ahead])
  next h => exact closer moved rfl (by simp [Option.some.inj h, Phase.ahead])
  next h => exact closer moved rfl (by simp [Option.some.inj h, Phase.ahead])
  next => cases moved

/-- A call whose frame finds no room in the queue of a writer that is there. -/
def Crowded (l : Link) (call : Call) : Prop :=
  (∃ id, call.phase = .entered id) ∧ l.isMute = false ∧ orderCapacity ≤ l.orders.length

/-- A call that is not over cannot move on by itself for one of two reasons. -/
theorem nextOf_eq_none_iff (found : l.calls[c]? = some call) (more : 0 < call.phase.ahead) :
    l.nextOf c = none ↔
      Crowded l call ∨ (∃ id, call.phase = .waiting id) ∧ call.slot = .empty := by
  simp only [nextOf, found, Option.map_some]
  cases phase : call.phase with
  | entered id =>
    cases mute : l.isMute with
    | true => simp [Link.step, found, Link.hand, phase, mute, Crowded]
    | false => simp [Link.step, found, Link.hand, phase, mute, Crowded, post?]
  | waiting id =>
    rw [collect_eq_none_iff found phase]
    simp [Crowded, phase]
  | finished => rw [phase] at more; cases more
  | abandoned => rw [phase] at more; cases more
  | _ => simp [Link.step, found, Link.number, Link.enter, Link.withdraw, phase, Crowded]

/-- What the law says of a call without a limit. -/
structure Accounted (past : List Step) (l : Link) (c : CallId) (call : Call) : Prop where
  /-- It is stuck if there is no room for its frame, or it has heard nothing yet. -/
  stuck : 0 < call.phase.ahead → (l.nextOf c = none ↔
    Crowded l call ∨ ∃ id, call.phase = .waiting id ∧ Unheard past c id)
  /-- Otherwise it goes on towards its end. -/
  goes : ∀ l', l.nextOf c = some l' →
    ∃ call', l'.calls[c]? = some call' ∧ call'.phase.ahead < call.phase.ahead
  /-- While the reader is there, what it has heard is up to the answers, and to nothing else: it
  does not matter whether its frame was written, nor whether the writer is there. -/
  hearing : l.isDeaf = false → ∀ id, Unheard past c id ↔
    ∃ after before, past = after ++ .enter c :: before ∧
      ∀ frame, .arrive frame ∈ after → ¬ Answers frame id
  /-- Once the reader has left, exactly the calls that came too late have heard nothing. -/
  deaf : l.isDeaf = true → ∀ id, Unheard past c id ↔ EnteredLate past c
  /-- Those never get a result. -/
  vain : l.isDeaf = true → ∀ id, call.phase = .waiting id → EnteredLate past c →
    ∀ steps l', l.run steps = some l' → l'.result? c = none
  /-- Without a writer, a call with its frame still to hand over comes to know by itself. -/
  mute : l.isMute = true → call.phase.rest c ≠ [] →
    ∃ l', l.run (call.phase.rest c) = some l' ∧ l'.result? c = some (.error .closed)
  /-- A result is an answer to the call, or that the link is closed. -/
  settled : ∀ r, l.result? c = some r → Settled past c r

/-- **Every call without a limit is accounted for.** -/
theorem accounted_of_history (history : History past l) (found : l.calls[c]? = some call)
    (unlimited : call.limit = none) : Accounted past l c call where
  stuck more := by
    rw [nextOf_eq_none_iff found more]
    refine or_congr_right ⟨?_, ?_⟩
    · rintro ⟨⟨id, waiting⟩, untold⟩
      exact ⟨id, waiting, (slot_eq_empty_iff history found waiting).mp untold⟩
    · rintro ⟨id, waiting, unheard⟩
      exact ⟨⟨id, waiting⟩, (slot_eq_empty_iff history found waiting).mpr unheard⟩
  goes l' moved := ahead_of_nextOf found moved
  hearing hearing id := unheard_iff_unanswered history hearing
  deaf deaf id := unheard_iff_late history deaf
  vain deaf id waiting late steps l' run := by
    have unheard : Unheard past c id := (unheard_iff_late history deaf).mpr late
    have untold := (slot_eq_empty_iff history found waiting).mpr unheard
    have hopeless : Hopeless l c :=
      ⟨isDeaf_iff.mp deaf, call, found, .inr ⟨⟨id, waiting⟩, untold, unlimited⟩⟩
    exact hopeless.run run
  mute mute pending := closed_of_mute mute found pending
  settled r result := settled_of_result? history found unlimited result

/-- A call that begins after the reader has left waits forever while the writer is there, and one
whose frame was lost with the writer waits while the reader is there. -/
theorem accounted_of_late_call :
    (∃ l, Link.start.run [.cease, .clear, .begin "m" none none, .number 0, .enter 0, .hand 0] =
        some l ∧ l.isDeaf = true ∧ l.nextOf 0 = none ∧
        ∀ steps l', l.run steps = some l' → l'.result? 0 = none) ∧
      ∃ l, Link.start.run [.begin "m" none none, .number 0, .enter 0, .hand 0, .take, .fail] =
        some l ∧ l.isMute = true ∧ l.nextOf 0 = none := by
  constructor
  · let l : Link := ⟨2, [⟨"m", none, none, .waiting 1, .empty⟩], [(1, 0)],
      [.send (Message.request 1 "m" none)], .idle, .ended, [], true⟩
    have run : Link.start.run
        [.cease, .clear, .begin "m" none none, .number 0, .enter 0, .hand 0] = some l := rfl
    refine ⟨l, run, rfl, rfl, ?_⟩
    refine (accounted_of_history (history_of_run .start run) rfl rfl).vain rfl 1 rfl ?_
    exact ⟨[.hand 0], [.number 0, .begin "m" none none, .clear, .cease], rfl, by simp⟩
  · let l : Link := ⟨2, [⟨"m", none, none, .waiting 1, .empty⟩], [(1, 0)], [], .ended, .reading,
      [], true⟩
    have run : Link.start.run
        [.begin "m" none none, .number 0, .enter 0, .hand 0, .take, .fail] = some l := rfl
    refine ⟨l, run, rfl, ?_⟩
    have accounted := accounted_of_history (c := 0) (history_of_run .start run) rfl rfl
    refine (accounted.stuck (by decide)).mpr (.inr ⟨1, rfl, ?_⟩)
    exact ⟨[.fail, .take, .hand 0], [.number 0, .begin "m" none none], rfl, by simp, by simp⟩

end Supervision.Link
