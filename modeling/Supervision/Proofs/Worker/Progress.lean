import Supervision.Proofs.Worker.Flow

/-!
# How a supervisor goes on

What is true from one moment of a run to another. The moves between them are kept (`Ensues`), so
that a theorem can speak of what was made since a call or a stop. The machine counts its starts and
how often it became idle, and both only grow; the count of idle states grows in moves that leave the
machine idle, and an idle machine goes on with a new start only. A task goes on with what it has to
do (`Ensues.follows`).
-/

namespace Supervision.Worker

/-! ## What follows a moment of a run -/

/-- What may follow: the moves that are made from one system to another, the latest first. -/
inductive Ensues : System → List Move → System → Prop
  | here (s : System) : Ensues s [] s
  | next {first s s' : System} {later : List Move} {m : Move} (before : Ensues first later s)
      (step : Moves s m s') : Ensues first (m :: later) s'

theorem Run.here {options : Options} {past : List Move} {s : System} (_ : Run options past s) :
    Ensues s [] s :=
  .here s

/-- A move leads to one system only. -/
theorem Moves.unique {s r s' : System} {m : Move} (step : Moves s m r) (step' : Moves s m s') :
    r = s' := by
  cases step with
  | act _ _ taken =>
    cases step' with
    | act _ _ taken' => exact Option.some.inj (taken.symm.trans taken')
  | _ =>
    cases step'
    rfl

/-- The supervisor after a move. One that is not possible changes nothing. -/
def System.after (s : System) : Move → System
  | .asked a => s.spawn [.act a]
  | .did t _ a => (s.step t a).getD s
  | .parked t => s.park t
  | .cancelled t => s.cancel t
  | .aborted t => { s with pool := s.pool.abort t }
  | .dropped => s.dropHandle

/-- The supervisor after a history, whose latest move comes first. -/
def replay (options : Options) : List Move → System
  | [] => .initial options
  | m :: past => (replay options past).after m

/-- **A history alone says what the supervisor was** at any moment. -/
theorem Run.replay {options : Options} {past : List Move} {s : System} (run : Run options past s) :
    replay options past = s := by
  induction run with
  | start => rfl
  | @next _ s _ m _ step ih =>
    rw [Worker.replay, ih]
    cases step with
    | act _ _ taken => rw [System.after, taken, Option.getD_some]
    | _ => rfl

/-- What came before is a run of its own. -/
theorem Run.earlier {options : Options} {later before : List Move} {s : System}
    (run : Run options (later ++ before) s) : Run options before (Worker.replay options before) := by
  induction later generalizing s with
  | nil =>
    obtain rfl := Run.replay run
    exact run
  | cons m later ih =>
    cases run with
    | next run => exact ih run

/-- A task may take a step at the end of a run. -/
theorem Run.act {options : Options} {past : List Move} {s s' : System} (_ : Run options past s)
    {t : TaskId} {task : Task Instr} {i : Instr} {rest : List Instr} {a : Answer}
    (found : s.pool.get? t = some task) (next : task.stack = i :: rest)
    (taken : s.step t a = some s') : Moves s (.did t i a) s' :=
  .act found next taken

namespace Ensues

variable {options : Options} {past later : List Move} {first s : System}

/-- What follows a run makes a longer run. -/
theorem run (h : Ensues first later s) (run : Run options past first) :
    Run options (later ++ past) s := by
  induction h with
  | here => exact run
  | next _ step ih => exact ih.next step

theorem append {after : List Move} {s' : System} (h : Ensues first later s)
    (onward : Ensues s after s') : Ensues first (after ++ later) s' := by
  induction onward with
  | here => exact h
  | next _ step ih => exact ih.next step

/-- What follows may be cut at every moment. -/
theorem split {older : List Move} (h : Ensues first (later ++ older) s) :
    ∃ mid, Ensues first older mid ∧ Ensues mid later s := by
  induction later generalizing s with
  | nil => exact ⟨s, h, .here s⟩
  | cons m later ih =>
    cases h with
    | next before step =>
      obtain ⟨mid, older, onward⟩ := ih before
      exact ⟨mid, older, onward.next step⟩

theorem unique {s' : System} (h : Ensues first later s) (h' : Ensues first later s') : s = s' := by
  induction h generalizing s' with
  | here =>
    cases h'
    rfl
  | next _ step ih =>
    cases h' with
    | next before' step' =>
      obtain rfl := ih before'
      exact step.unique step'

/-- Numbers stay distinct, and new ones come after the old. -/
theorem numbered (h : Ensues first later s) (numbered : first.pool.Numbered) :
    s.pool.Numbered ∧ first.pool.next ≤ s.pool.next := by
  induction h with
  | here => exact ⟨numbered, Nat.le_refl _⟩
  | next _ step ih =>
    have after := step.numbered ih.1
    exact ⟨after.1, Nat.le_trans ih.2 after.2⟩

/-- A supervisor that exists has existed before. -/
theorem alive (h : Ensues first later s) (alive : s.alive = true) : first.alive = true := by
  induction h with
  | here => exact alive
  | next _ step ih => exact ih (step.alive alive)

end Ensues

/-! ## How the machine goes on -/

/-- How a machine goes on: it counts every time it becomes idle, and it leaves `Idle` with a new
start only. -/
structure Machine.Progress (m m' : Machine) : Prop where
  epoch : m.idleEpoch ≤ m'.idleEpoch
  counted : m.idleEpoch < m'.idleEpoch → m'.state = .idle
  generation : m.generation ≤ m'.generation
  started : m.state = .idle → m.generation < m'.generation ∨
    m'.generation = m.generation ∧ m'.state = .idle

namespace Machine

variable (m : Machine)

theorem progress_refl : m.Progress m :=
  ⟨Nat.le_refl _, fun h => absurd h (Nat.lt_irrefl _), Nat.le_refl _, fun idle => .inr ⟨rfl, idle⟩⟩

/-- A machine that was not idle and is in another state of the same start. -/
theorem progress_enter {m' : Machine} {next : State} (busy : m.state ≠ .idle)
    (state : m'.state = next) (generation : m'.generation = m.generation)
    (epoch : m'.idleEpoch = if next = .idle then m.idleEpoch + 1 else m.idleEpoch) :
    m.Progress m' := by
  refine ⟨?_, fun more => ?_, Nat.le_of_eq generation.symm, fun idle => absurd idle busy⟩
  · rw [epoch]
    split <;> omega
  · by_cases idle : next = .idle
    · exact state.trans idle
    · rw [epoch, if_neg idle] at more
      exact absurd more (Nat.lt_irrefl _)

/-- A machine that gives up its connection stops, or is idle if it has none. -/
theorem progress_beginTeardown (running : m.state = .running) (alive : Bool) :
    m.Progress (m.beginTeardown alive).machine := by
  have busy : m.state ≠ .idle := by
    rw [running]
    exact State.noConfusion
  unfold beginTeardown
  split
  · exact m.progress_enter busy rfl rfl rfl
  · exact m.progress_enter busy rfl rfl rfl

/-- An idle machine that starts without a workspace is idle again, in a new start. -/
theorem progress_begin (path : Option Path) : m.Progress (m.begin path).machine := by
  unfold begin
  dsimp only
  split
  · exact ⟨Nat.le_refl _, fun more => absurd more (Nat.lt_irrefl _), Nat.le_succ _,
      fun _ => .inl (Nat.lt_succ_self _)⟩
  · exact ⟨Nat.le_succ _, fun _ => rfl, Nat.le_succ _, fun _ => .inl (Nat.lt_succ_self _)⟩

/-- **How a machine goes on with an event.** -/
theorem progress_transition (e : Event) : m.Progress (m.transition e).machine := by
  have busy {state : State} (here : m.state = state) (other : state ≠ .idle) : m.state ≠ .idle := by
    rwa [here]
  cases e with
  | start path =>
    simp only [transition]
    split
    · exact m.progress_begin path
    · exact m.progress_refl
  | stop =>
    simp only [transition]
    split
    next starting => exact m.progress_enter (busy starting State.noConfusion) rfl rfl rfl
    next running => exact m.progress_beginTeardown running true
    next => exact m.progress_refl
  | setPath path =>
    have same : m.Progress { m with path := some path } :=
      ⟨Nat.le_refl _, fun h => absurd h (Nat.lt_irrefl _), Nat.le_refl _,
        fun idle => .inr ⟨rfl, idle⟩⟩
    simp only [transition]
    split
    · exact same
    · exact ⟨same.epoch, same.counted, same.generation, same.started⟩
    · exact same
  | launched generation result =>
    simp only [transition]
    split
    · split
      next starting => exact m.progress_enter (busy starting State.noConfusion) rfl rfl rfl
      next starting => exact m.progress_enter (busy starting State.noConfusion) rfl rfl rfl
      next => exact m.progress_refl
      next stopping => exact m.progress_enter (busy stopping State.noConfusion) rfl rfl rfl
      next => exact m.progress_refl
    · exact m.progress_refl
  | exited generation =>
    simp only [transition]
    split
    next hit => exact m.progress_beginTeardown hit.1 false
    next => exact m.progress_refl
  | tornDown generation =>
    simp only [transition]
    split
    next hit => exact m.progress_enter (busy hit.1 State.noConfusion) rfl rfl rfl
    next => exact m.progress_refl

end Machine

/-- What an instruction does to the machine is what one event does, which is told or is a stop, or
nothing. -/
theorem Effected.machine {s r : System} {i : Instr} {a : Answer} {before : List Instr}
    (h : Effected s i a r before) :
    r.machine = s.machine ∨
      ∃ e, (i = .handle e ∨ e = .stop) ∧ r.machine = (s.machine.transition e).machine := by
  cases h with
  | aside _ _ _ alike => exact .inl alike.machine
  | called _ _ machine => exact .inl machine
  | @handled e => exact .inr ⟨e, .inl rfl, s.machine_apply e⟩
  | halted => exact .inr ⟨.stop, .inr rfl, s.machine_apply .stop⟩
  | _ => exact .inl rfl

theorem System.machine_release (s : System) : s.release.machine = s.machine :=
  s.release_elim rfl rfl

/-- What a move does to the machine is what one event does, which is told or is a stop, or
nothing. -/
theorem Moves.machine {s s' : System} {m : Move} (step : Moves s m s') :
    s'.machine = s.machine ∨ ∃ e, ((∃ t a, m = .did t (.handle e) a) ∨ e = .stop) ∧
      s'.machine = (s.machine.transition e).machine := by
  cases step with
  | @act _ t _ _ rest _ found next taken =>
    obtain ⟨r, before, effected, -, result⟩ := step_cases found next taken
    have same : s'.machine = r.machine := by
      rcases result with rfl | rfl
      · rfl
      · exact System.machine_release _
    rw [same]
    rcases effected.machine with machine | ⟨e, rfl | stop, machine⟩
    · exact .inl machine
    · exact .inr ⟨e, .inl ⟨t, _, rfl⟩, machine⟩
    · exact .inr ⟨e, .inr stop, machine⟩
  | park => exact .inl (System.machine_release _)
  | drop => exact .inl (System.machine_release _)
  | _ => exact .inl rfl

/-- **How the machine goes on with a move.** -/
theorem Moves.progress {s s' : System} {m : Move} (step : Moves s m s') :
    s.machine.Progress s'.machine := by
  rcases step.machine with machine | ⟨e, -, machine⟩
  · rw [machine]
    exact s.machine.progress_refl
  · rw [machine]
    exact s.machine.progress_transition e

theorem Ensues.generation {first s : System} {later : List Move} (h : Ensues first later s) :
    first.machine.generation ≤ s.machine.generation := by
  induction h with
  | here => exact Nat.le_refl _
  | next _ step ih => exact Nat.le_trans ih step.progress.generation

/-! ## How a task goes on -/

/-- What a task has to do after it took a step. -/
theorem own_of_step {s r s' : System} {t : TaskId} {task : Task Instr} {i : Instr}
    {stack : List Instr} (numbered : s.pool.Numbered) (found : s.pool.get? t = some task)
    (regrouped : System.Regrouped s r i)
    (result : s' = r.proceed t stack ∨ s' = (r.proceed t stack).release) :
    ∀ other, (t, other) ∈ s'.pool.tasks → other.caller = task.caller ∧ other.stack = stack := by
  have own : ∀ other, (t, other) ∈ (r.proceed t stack).pool.tasks →
      other.caller = task.caller ∧ other.stack = stack := by
    intro other hmem
    rcases Pool.mem_proceed hmem with ⟨ne, -⟩ | ⟨-, old, hold, heq⟩
    · exact absurd rfl ne
    · obtain ⟨aborted, there⟩ := regrouped.mem (Pool.mem_of_get? found)
      have same := (regrouped.numbered numbered).unique hold there
      have heq : other = { old with stack := stack, parked := false } := heq
      rw [heq, same]
      exact ⟨rfl, rfl⟩
  rcases result with rfl | rfl
  · exact own
  · intro other hmem
    rcases (r.proceed t stack).release_cases with same | ⟨-, detached⟩
    · rw [same] at hmem
      exact own other hmem
    · rw [detached] at hmem
      obtain ⟨old, hold, heq⟩ := Pool.mem_foldl_abort.mp hmem
      have kept := own old hold
      have heq : other = if t ∈ (r.proceed t stack).attached then { old with aborted := true }
        else old := heq
      rw [heq]
      split
      · exact kept
      · exact kept

/-- **A task goes on as its instructions say.** What the moves of others keep, and what each step of
its own makes of it, is known of a task as long as it is there. -/
theorem Ensues.follows {first s : System} {later : List Move} {t : TaskId}
    {P : List Move → System → List Instr → Prop} (ensues : Ensues first later s)
    (numbered : first.pool.Numbered) (old : t < first.pool.next)
    (begins : ∀ task, (t, task) ∈ first.pool.tasks → P [] first task.stack)
    (others : ∀ {later s m s' stack}, Ensues first later s → Moves s m s' →
      (∀ i a, m ≠ .did t i a) → P later s stack → P (m :: later) s' stack)
    (own : ∀ {later s i a s' caller r rest before}, Ensues first later s →
      Moves s (.did t i a) s' → s.exec t caller i a = some (r, before) → P later s (i :: rest) →
      P (.did t i a :: later) s' (before ++ rest)) :
    ∀ task, (t, task) ∈ s.pool.tasks →
      P later s task.stack ∧ ∃ task₀, (t, task₀) ∈ first.pool.tasks ∧ task.caller = task₀.caller := by
  induction ensues with
  | here => exact fun task hmem => ⟨begins task hmem, task, hmem, rfl⟩
  | @next s s' later m before step ih =>
    intro task hmem
    obtain ⟨numbered, le⟩ := before.numbered numbered
    by_cases went : ∃ i a, m = .did t i a
    · obtain ⟨i, a, rfl⟩ := went
      have whole := step
      cases step with
      | @act _ _ was _ rest _ found next taken =>
        obtain ⟨r, left, hexec, -, result⟩ := step_exec found next taken
        obtain ⟨caller, stack⟩ :=
          own_of_step numbered found (exec_cases hexec).regrouped result task hmem
        obtain ⟨holds, task₀, there, same⟩ := ih was (Pool.mem_of_get? found)
        rw [next] at holds
        exact ⟨stack ▸ own before whole hexec holds, task₀, there, caller.trans same⟩
    · cases step.comes numbered _ hmem with
      | kept hold caller stack =>
        obtain ⟨holds, task₀, there, same⟩ := ih _ hold
        refine ⟨?_, task₀, there, caller.trans same⟩
        exact stack ▸ others before step (fun i a move => went ⟨i, a, move⟩) holds
      | fresh new => exact absurd (Nat.lt_of_lt_of_le old le) (Nat.not_lt.mpr new)
      | went move => exact absurd ⟨_, _, move⟩ went

/-- **What a task has to do from one moment to another**, also when it is over: what the moves of
others keep, what each step of its own makes of it, and what is left of it when it is given up. -/
theorem Ensues.turns {first s : System} {later : List Move} {t : TaskId}
    {P : List Move → System → List Instr → Prop} (ensues : Ensues first later s)
    (numbered : first.pool.Numbered) (old : t < first.pool.next)
    (begins : P [] first (first.pool.stack t))
    (others : ∀ {later s m s' stack}, Ensues first later s → Moves s m s' →
      (∀ i a, m ≠ .did t i a) → P later s stack → P (m :: later) s' stack)
    (own : ∀ {later s i a s' caller r rest before}, Ensues first later s →
      Moves s (.did t i a) s' → s.exec t caller i a = some (r, before) → P later s (i :: rest) →
      P (.did t i a :: later) s' (before ++ rest))
    (drop : ∀ {later s s' i rest}, Ensues first later s → Moves s (.parked t) s' →
      i.waits = true → P later s (i :: rest) → P (.parked t :: later) s' []) :
    P later s (s.pool.stack t) := by
  induction ensues with
  | here => exact begins
  | @next s s' later m before step ih =>
    obtain ⟨numbered, le⟩ := before.numbered numbered
    cases step.turns numbered t with
    | same other stack =>
      rw [stack]
      exact others before step other ih
    | went move next exec stack =>
      subst move
      rw [next] at ih
      rw [stack]
      exact own before step exec ih
    | begun _ new => exact absurd (Nat.lt_of_lt_of_le old le) (Nat.not_lt.mpr new)
    | dropped move next waits stack =>
      subst move
      rw [next] at ih
      rw [stack]
      exact drop before step waits ih

/-! ## What a moment of a run says -/

/-- In a moment of idleness nothing is alive. -/
theorem Run.dead {options : Options} {past : List Move} {s : System} (run : Run options past s)
    (alive : s.alive = true) (idle : s.machine.state = .idle) : living past = [] := by
  obtain ⟨cs, -, phase⟩ := (Sound.of_run run).phase alive
  exact (phase.of_idle idle).2.2.2

/-- A machine that runs in a supervisor that exists has a connection. -/
theorem Run.connected {options : Options} {past : List Move} {s : System} (run : Run options past s)
    (alive : s.alive = true) (running : s.machine.state = .running) :
    s.machine.connection.isSome = true := by
  obtain ⟨cs, -, phase⟩ := (Sound.of_run run).phase alive
  exact phase.connection_isSome.mpr running

/-- A launch that is under way is a launch of this start, and the machine is not idle. -/
theorem Run.launch {options : Options} {past : List Move} {s : System} (run : Run options past s)
    (alive : s.alive = true) {generation : Nat} (hmem : generation ∈ s.launches) :
    generation = s.machine.generation ∧ s.machine.state ≠ .idle := by
  obtain ⟨cs, charges, phase⟩ := (Sound.of_run run).phase alive
  have launches : s.launches.Perm (cs.filterMap Charge.launch?) := charges.filterMap _
  have hmem := launches.mem_iff.mp hmem
  rcases phase.tally with ⟨-, none, -⟩ | ⟨state, one, -⟩ | ⟨-, none, -⟩ | ⟨-, none, -⟩
  · rw [none] at hmem
    exact absurd hmem List.not_mem_nil
  · rw [one] at hmem
    refine ⟨List.mem_singleton.mp hmem, fun idle => ?_⟩
    rw [idle] at state
    rcases state with state | state <;> cases state
  · rw [none] at hmem
    exact absurd hmem List.not_mem_nil
  · rw [none] at hmem
    exact absurd hmem List.not_mem_nil

/-- What is delivered was being launched. -/
theorem Moves.launching {s s' : System} {m : Move} (step : Moves s m s') {generation : Nat}
    {l : Launched} (delivers : m.delivers = some (generation, l)) :
    Charge.launch generation ∈ s.charges := by
  cases step with
  | @act _ t task i rest a found next taken =>
    unfold Move.delivers at delivers
    split at delivers
    next heq =>
      cases heq
      cases delivers
      exact Pool.mem_work.mpr ⟨_, Pool.mem_of_get? found, _, next ▸ List.mem_cons_self, rfl⟩
    next => cases delivers
  | _ => cases delivers

end Supervision.Worker
