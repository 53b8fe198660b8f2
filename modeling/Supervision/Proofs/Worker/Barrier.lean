import Supervision.Proofs.Worker.Progress
import Supervision.Proofs.Worker.Wakeup

/-!
# A shutdown is a barrier

A call that shuts the worker down waits for a count and not for a state: it reads how often the
machine became idle when it stops it, and goes on when the count is higher. Meanwhile others may
start, stop and ask, and the worker may run again when the call returns. The law here says what the
call can rely on all the same: between the call and its return the machine was idle once, and
whatever was alive at the call, or was being launched, is dead.

Two things carry the proof. The count grows only in moves that leave the machine idle
(`Machine.Progress`), so a count that has grown since the call is a moment of idleness since then.
And nothing is alive in such a moment, because the call itself keeps the supervisor alive, and the
phases of a supervisor that is alive are known.

That the call returns is not established here, only what it can rely on when it does.
-/

namespace Supervision.Worker

/-! ## Moments of idleness -/

/-- The machine was idle at some moment since `first`. -/
def IdleSince (first : System) (later : List Move) (s : System) : Prop :=
  ∃ after between, ∃ mid : System, later = after ++ between ∧ Ensues first between mid ∧
    mid.machine.state = .idle ∧ Ensues mid after s

theorem IdleSince.next {first s s' : System} {later : List Move} {m : Move}
    (h : IdleSince first later s) (step : Moves s m s') : IdleSince first (m :: later) s' := by
  obtain ⟨after, between, mid, rfl, reached, idle, onward⟩ := h
  exact ⟨m :: after, between, mid, rfl, reached, idle, onward.next step⟩

/-- The machine is idle now. -/
theorem Ensues.idleSince {first s : System} {later : List Move} (h : Ensues first later s)
    (idle : s.machine.state = .idle) : IdleSince first later s :=
  ⟨[], later, s, rfl, h, idle, .here s⟩

/-- **A count that has grown is a moment of idleness.** -/
theorem Ensues.idleSince_of_epoch {first s : System} {later : List Move}
    (h : Ensues first later s) (more : first.machine.idleEpoch < s.machine.idleEpoch) :
    IdleSince first later s := by
  induction h with
  | here => exact absurd more (Nat.lt_irrefl _)
  | @next s s' later m before step ih =>
    by_cases grown : first.machine.idleEpoch < s.machine.idleEpoch
    · exact (ih grown).next step
    · have now : s.machine.idleEpoch < s'.machine.idleEpoch := by omega
      exact (before.next step).idleSince (step.progress.counted now)

theorem Ensues.epoch {first s : System} {later : List Move} (h : Ensues first later s) :
    first.machine.idleEpoch ≤ s.machine.idleEpoch := by
  induction h with
  | here => exact Nat.le_refl _
  | next _ step ih => exact Nat.le_trans ih step.progress.epoch

/-! ## The call -/

/-- How far a call that shuts the worker down has come. -/
inductive Halting (first : System) (later : List Move) (s : System) : List Instr → Prop
  /-- It has not stopped the worker yet. -/
  | begun {rest : List Instr} : Halting first later s (.halt :: .finish .done :: rest)
  /-- It has stopped the worker, and waits for a higher count than there was then. -/
  | stopped {effects : List Effect} {seen : Nat} {rest : List Instr}
      (since : first.machine.idleEpoch ≤ seen) :
      Halting first later s (effects.map .perform ++ .awaitIdle seen :: rest)
  /-- The machine was idle. -/
  | passed {stack : List Instr} (idle : IdleSince first later s) : Halting first later s stack

theorem Halting.next {first s s' : System} {later : List Move} {m : Move} {stack : List Instr}
    (h : Halting first later s stack) (step : Moves s m s') :
    Halting first (m :: later) s' stack := by
  cases h with
  | begun => exact .begun
  | stopped since => exact .stopped since
  | passed idle => exact .passed (idle.next step)

/-- A call that stops the worker finds it idle, or reads the count before it waits. -/
theorem exec_halt {s r : System} {t : TaskId} {caller : String} {a : Answer} {before : List Instr}
    (h : s.exec t caller .halt a = some (r, before)) :
    s.machine.state = .idle ∧ before = [] ∨ ∃ effects : List Effect,
      before = effects.map .perform ++ [.awaitIdle s.machine.idleEpoch] := by
  cases a with
  | nothing =>
    by_cases idle : s.machine.state = .idle
    · simp only [System.exec, if_pos idle] at h
      cases h
      exact .inl ⟨idle, rfl⟩
    · simp only [System.exec, if_neg idle] at h
      cases h
      exact .inr ⟨_, rfl⟩
  | _ => cases h

/-- A call that waits for a count goes on when it is higher. -/
theorem exec_awaitIdle {s r : System} {t : TaskId} {caller : String} {seen : Nat} {a : Answer}
    {before : List Instr} (h : s.exec t caller (.awaitIdle seen) a = some (r, before)) :
    seen < s.machine.idleEpoch ∧ before = [] := by
  cases a with
  | nothing =>
    by_cases more : seen < s.machine.idleEpoch
    · simp only [System.exec, if_pos more] at h
      cases h
      exact ⟨more, rfl⟩
    · simp only [System.exec, if_neg more] at h
      cases h
  | _ => cases h

theorem exec_perform {s r : System} {t : TaskId} {caller : String} {e : Effect} {a : Answer}
    {before : List Instr} (h : s.exec t caller (.perform e) a = some (r, before)) :
    before = [] := by
  cases a with
  | nothing =>
    cases h
    rfl
  | _ => cases h

/-- How a call that shuts the worker down goes on with an instruction. -/
theorem Halting.exec {first s s' r : System} {later : List Move} {t : TaskId} {i : Instr}
    {a : Answer} {caller : String} {rest before : List Instr}
    (h : Halting first later s (i :: rest)) (ensues : Ensues first later s)
    (step : Moves s (.did t i a) s') (hexec : s.exec t caller i a = some (r, before)) :
    Halting first (.did t i a :: later) s' (before ++ rest) := by
  generalize hstack : i :: rest = stack at h
  cases h with
  | begun =>
    obtain ⟨rfl, rfl⟩ := List.cons.inj hstack
    rcases exec_halt hexec with ⟨idle, -⟩ | ⟨effects, rfl⟩
    · exact .passed ((ensues.idleSince idle).next step)
    · rw [List.append_assoc]
      exact .stopped ensues.epoch
  | @stopped effects seen rest' since =>
    cases effects with
    | nil =>
      obtain ⟨rfl, rfl⟩ := List.cons.inj hstack
      have more := (exec_awaitIdle hexec).1
      exact .passed ((ensues.idleSince_of_epoch (Nat.lt_of_le_of_lt since more)).next step)
    | cons e effects =>
      obtain ⟨rfl, rfl⟩ := List.cons.inj hstack
      rw [exec_perform hexec]
      exact .stopped since
  | passed idle => exact .passed (idle.next step)

/-- What is true of the task of a call while it has not returned. -/
structure Pending (first : System) (t : TaskId) (later : List Move) (s : System) : Prop where
  ensues : Ensues first later s
  numbered : s.pool.Numbered
  old : t < s.pool.next
  /-- Someone waits for it, and so has a handle. -/
  called : ∀ task, (t, task) ∈ s.pool.tasks → task.caller.isSome = true
  halting : ∀ task, (t, task) ∈ s.pool.tasks → Halting first later s task.stack

/-- Whoever begins an instruction of a call has a caller. -/
theorem Run.caller {options : Options} {past : List Move} {s : System} (run : Run options past s)
    {t : TaskId} {task : Task Instr} {i : Instr} {rest : List Instr}
    (found : s.pool.get? t = some task) (next : task.stack = i :: rest) (calls : i.calls = true) :
    task.caller.isSome = true := by
  have watchful := (Attentive.of_reachable run.reachable).watchful _ (Pool.mem_of_get? found)
  refine watchful.calls i ?_ calls
  show i ∈ task.stack
  rw [next]
  exact List.mem_cons_self

/-- A call that begins has a caller, and does what its kind of call begins with. -/
theorem Run.begins {options : Options} {past : List Move} {s s' : System} {t : TaskId} {c : Call}
    {a : Answer} (run : Run options past s) (step : Moves s (.did t (.begin c) a) s') :
    t < s'.pool.next ∧ ∀ task, (t, task) ∈ s'.pool.tasks →
      task.caller.isSome = true ∧ task.stack = (s.begin c).2 := by
  have numbered := (Sound.of_run run).numbered
  have after := step.numbered numbered
  cases step with
  | @act _ _ was _ rest _ found next taken =>
    obtain ⟨r, before, hexec, -, result⟩ := step_exec found next taken
    have there := Pool.mem_of_get? found
    have alone := run.lone _ there c (next ▸ List.mem_cons_self)
    obtain ⟨-, rfl⟩ := List.cons.inj (next.symm.trans alone)
    refine ⟨Nat.lt_of_lt_of_le (numbered.below _ there) after.2, ?_⟩
    intro task hmem
    obtain ⟨caller, stack⟩ :=
      own_of_step numbered found (exec_cases hexec).regrouped result task hmem
    rw [caller, stack, List.append_nil]
    refine ⟨run.caller found next rfl, ?_⟩
    cases a with
    | nothing => exact (congrArg Prod.snd (Option.some.inj hexec)).symm
    | _ => cases hexec

/-- The call begins. -/
theorem pending_of_begin {options : Options} {past : List Move} {s s' : System} {t : TaskId}
    {a : Answer} (run : Run options past s) (step : Moves s (.did t (.begin .shutdown) a) s') :
    Pending s' t [] s' := by
  obtain ⟨old, begins⟩ := run.begins step
  refine ⟨.here s', (step.numbered (Sound.of_run run).numbered).1, old, ?_, ?_⟩
  · exact fun task hmem => (begins task hmem).1
  · intro task hmem
    rw [(begins task hmem).2]
    exact .begun

/-- **What is known of the call holds until it returns.** -/
theorem Pending.onward {first s s' : System} {t : TaskId} {later after : List Move}
    (h : Pending first t later s) (ensues : Ensues s after s') :
    Pending first t (after ++ later) s' := by
  have known := ensues.follows (P := fun after s' stack => Halting first (after ++ later) s' stack)
    h.numbered h.old h.halting (fun _ step _ halting => halting.next step)
    fun reached step exec halting => halting.exec (h.ensues.append reached) step exec
  obtain ⟨numbered, le⟩ := ensues.numbered h.numbered
  refine ⟨h.ensues.append ensues, numbered, Nat.lt_of_lt_of_le h.old le, ?_, ?_⟩
  · intro task hmem
    obtain ⟨-, task₀, there, same⟩ := known task hmem
    rw [same]
    exact h.called task₀ there
  · exact fun task hmem => (known task hmem).1

/-- When the call returns the machine was idle, and the supervisor still exists. -/
theorem Pending.returned {first s s' : System} {t : TaskId} {later : List Move} {a : Answer}
    (h : Pending first t later s) (step : Moves s (.did t (.finish .done) a) s') :
    s.alive = true ∧ IdleSince first later s := by
  cases step with
  | @act _ _ task _ rest _ found next taken =>
    have there := Pool.mem_of_get? found
    have caller : s.pool.hasCaller = true := Pool.hasCaller_iff.mpr ⟨_, there, h.called task there⟩
    refine ⟨by simp only [System.alive, caller, Bool.or_true], ?_⟩
    have halting := h.halting task there
    rw [next] at halting
    generalize hstack : Instr.finish .done :: rest = stack at halting
    cases halting with
    | begun => cases hstack
    | @stopped effects seen rest' since => cases effects <;> cases hstack
    | passed idle => exact idle

/-! ## What is dead in a moment of idleness -/

/-- A connection that may be alive stays so until it ends. -/
theorem mem_living {newer older : List Move} {c : ConnectionId} (here : c ∈ living older) :
    c ∈ living (newer ++ older) ∨ ∃ e ∈ newer, e.ends = some c := by
  induction newer with
  | nil => exact .inl here
  | cons m newer ih =>
    rcases ih with there | ⟨e, he, ends⟩
    · rw [List.cons_append, living]
      split
      · exact .inl (List.mem_cons_of_mem _ there)
      next d _ ends =>
        by_cases same : c = d
        · exact .inr ⟨m, List.mem_cons_self, same ▸ ends⟩
        · exact .inl (List.mem_filter.mpr ⟨there, by simpa using same⟩)
      · exact .inl there
    · exact .inr ⟨e, List.mem_cons_of_mem _ he, ends⟩

/-- When nothing is alive, everything that was delivered has ended. -/
theorem ended_of_dead {newer older : List Move} {m : Move} {generation : Nat} {l : Launched}
    (dead : living (newer ++ m :: older) = []) (delivers : m.delivers = some (generation, l)) :
    ∃ e ∈ newer, e.ends = some l.connection := by
  have here : l.connection ∈ living (m :: older) := by
    simp only [living, delivers]
    exact List.mem_cons_self
  refine (mem_living here).resolve_left fun there => ?_
  rw [dead] at there
  exact absurd there List.not_mem_nil

/-- An idle machine goes on with a new start only. -/
theorem Ensues.started {mid s : System} {after : List Move} (h : Ensues mid after s)
    (idle : mid.machine.state = .idle) : mid.machine.generation < s.machine.generation ∨
      s.machine.generation = mid.machine.generation ∧ s.machine.state = .idle := by
  induction h with
  | here => exact .inr ⟨rfl, idle⟩
  | next _ step ih =>
    rcases ih with later | ⟨same, still⟩
    · exact .inl (Nat.lt_of_lt_of_le later step.progress.generation)
    · rw [← same]
      exact step.progress.started still

/-- What is delivered after a moment of idleness belongs to a later start. -/
theorem Ensues.delivered_later {options : Options} {past after : List Move} {mid s : System}
    (h : Ensues mid after s) (run : Run options past mid) (idle : mid.machine.state = .idle)
    (alive : s.alive = true) {m : Move} (hm : m ∈ after) {generation : Nat} {l : Launched}
    (delivers : m.delivers = some (generation, l)) : mid.machine.generation < generation := by
  induction h with
  | here => exact absurd hm List.not_mem_nil
  | next before step ih =>
    have existed := step.alive alive
    rcases List.mem_cons.mp hm with rfl | hm
    · have underWay : generation ∈ System.launches _ :=
        List.mem_filterMap.mpr ⟨_, step.launching delivers, rfl⟩
      obtain ⟨current, busy⟩ := (before.run run).launch existed underWay
      rcases before.started idle with later | ⟨-, still⟩
      · exact current ▸ later
      · exact absurd still busy
    · exact ih existed hm

/-! ## The barrier -/

/-- What a call that shuts the worker down relies on when it returns. The call began in `s₀`, after
the moves `past`, with the system `first`; it returns in `s`, after the moves `later`. -/
structure Barrier (s₀ : System) (past : List Move) (first : System) (later : List Move)
    (s : System) : Prop where
  /-- The machine was idle at some moment since the call. -/
  idle : IdleSince first later s
  /-- What was delivered before the call has ended. -/
  existed : ∀ newer m older generation l, past = newer ++ m :: older →
    m.delivers = some (generation, l) → ∃ e ∈ later ++ newer, e.ends = some l.connection
  /-- What the launch brought that was under way at the call has ended, too. -/
  launching : ∀ newer m older generation l, later = newer ++ m :: older →
    m.delivers = some (generation, l) → generation ∈ s₀.launches →
    ∃ e ∈ newer, e.ends = some l.connection

/-- **A shutdown is a barrier.** Whatever others do meanwhile, and whatever state the machine is in
when the call begins and when it returns. -/
theorem barrier_of_shutdown {options : Options} {past later : List Move} {s₀ first s s' : System}
    {t : TaskId} (run : Run options past s₀)
    (called : Moves s₀ (.did t (.begin .shutdown) .nothing) first)
    (onward : Ensues first later s) (returned : Moves s (.did t (.finish .done) .nothing) s') :
    Barrier s₀ past first later s := by
  have pending := (pending_of_begin run called).onward onward
  rw [List.append_nil] at pending
  obtain ⟨alive, idleSince⟩ := pending.returned returned
  obtain ⟨after, between, mid, rfl, reached, idle, rest⟩ := idleSince
  have upTo := reached.run (run.next called)
  have dead := upTo.dead (rest.alive alive) idle
  refine ⟨⟨after, between, mid, rfl, reached, idle, rest⟩, ?_, ?_⟩
  · rintro newer m older generation l rfl delivers
    -- The history up to the moment of idleness, cut at the delivery.
    have cut : between ++ .did t (.begin .shutdown) .nothing :: (newer ++ m :: older) =
        (between ++ .did t (.begin .shutdown) .nothing :: newer) ++ m :: older := by
      simp only [List.append_assoc, List.cons_append]
    rw [cut] at dead
    obtain ⟨e, he, ends⟩ := ended_of_dead dead delivers
    refine ⟨e, ?_, ends⟩
    rcases List.mem_append.mp he with he | he
    · exact List.mem_append_left _ (List.mem_append_right _ he)
    · rcases List.mem_cons.mp he with rfl | he
      · cases ends
      · exact List.mem_append_right _ he
  · intro newer m older generation l split delivers underWay
    have current := (run.launch (called.alive (reached.alive (rest.alive alive))) underWay).1
    -- A delivery after the moment of idleness would belong to a later start than the call's.
    have early : m ∉ after := fun hm => by
      have late := rest.delivered_later upTo idle alive hm delivers
      have grown := Nat.le_trans called.progress.generation reached.generation
      omega
    rcases List.append_eq_append_iff.mp split with
      ⟨front, hnewer, hbetween⟩ | ⟨front, hafter, hrest⟩
    · rw [hbetween, List.append_assoc, List.cons_append] at dead
      obtain ⟨e, he, ends⟩ := ended_of_dead dead delivers
      exact ⟨e, hnewer ▸ List.mem_append_right _ he, ends⟩
    · cases front with
      | nil =>
        have whole : between = [] ++ m :: older := hrest.symm
        rw [whole, List.append_assoc] at dead
        obtain ⟨e, he, -⟩ := ended_of_dead dead delivers
        exact absurd he List.not_mem_nil
      | cons x front =>
        obtain ⟨rfl, -⟩ := List.cons.inj hrest
        exact absurd (hafter ▸ List.mem_append_right _ List.mem_cons_self) early

/-- A worker is shut down while another caller starts it again, so that it runs when the call
returns. -/
theorem barrier_of_racing_start : ∃ s₀ past first later s s', Run .standard past s₀ ∧
    Moves s₀ (.did 5 (.begin .shutdown) .nothing) first ∧ Ensues first later s ∧
    Moves s (.did 5 (.finish .done) .nothing) s' ∧ living past = [7] ∧
    s.machine.state = .running ∧ Barrier s₀ past first later s := by
  have asked := Run.start.next (.ask (.initial .standard) (.start (some ⟨[47]⟩)))
  have acted := asked.next (.act (t := 0) (a := .nothing) rfl rfl rfl)
  have handled := acted.next (.act (t := 0) (a := .nothing) rfl rfl rfl)
  have performed := handled.next (.act (t := 0) (a := .nothing) rfl rfl rfl)
  have launched := performed.next (.act (t := 1) (a := .launched (.ok ⟨7, some 9⟩)) rfl rfl rfl)
  have running := launched.next (.act (t := 1) (a := .nothing) rfl rfl rfl)
  have wanted := running.next (.ask _ (.call "someone" .shutdown))
  have joined := wanted.next (.act (t := 4) (a := .nothing) rfl rfl rfl)
  have called := joined.act (t := 5) (a := .nothing) rfl rfl rfl
  have begun := joined.next called
  have stopped := begun.here.next (.act (t := 5) (a := .nothing) rfl rfl rfl)
  have ending := stopped.next (.act (t := 5) (a := .nothing) rfl rfl rfl)
  have ended := ending.next (.act (t := 6) (a := .ending .ended) rfl rfl rfl)
  have idle := ended.next (.act (t := 6) (a := .nothing) rfl rfl rfl)
  have again := idle.next (.ask _ (.start none))
  have acted' := again.next (.act (t := 7) (a := .nothing) rfl rfl rfl)
  have handled' := acted'.next (.act (t := 7) (a := .nothing) rfl rfl rfl)
  have performed' := handled'.next (.act (t := 7) (a := .nothing) rfl rfl rfl)
  have launched' := performed'.next (.act (t := 8) (a := .launched (.ok ⟨8, some 10⟩)) rfl rfl rfl)
  have running' := launched'.next (.act (t := 8) (a := .nothing) rfl rfl rfl)
  have woken := running'.next (.act (t := 5) (a := .nothing) rfl rfl rfl)
  have returned := (woken.run begun).act (t := 5) (a := .nothing) rfl rfl rfl
  exact ⟨_, _, _, _, _, _, joined, called, woken, returned, rfl, rfl,
    barrier_of_shutdown joined called woken returned⟩

end Supervision.Worker
