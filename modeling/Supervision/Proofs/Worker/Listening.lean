import Supervision.Proofs.Worker.Flow

/-!
# Who hears a worker

The notifications of a connection are taken by a task that begins when a machine that starts takes
the connection, and by no other. Nothing else leads to such a task: no instruction but the taking of
notifications leaves notifications to be taken (`Instr.leads_receive`). So whoever hears a
connection after a move heard it before, or the machine has taken the connection with this move
(`Moves.hears`).

As long as the machine runs with a connection nobody gives up the task that takes from it, and the
task goes on until there are no more notifications (`Run.attended`). That it gets its turns is not
established here.
-/

namespace Supervision.Worker

/-- Some task takes the notifications of a connection. -/
def System.Hears (s : System) (c : ConnectionId) : Prop :=
  ∃ e ∈ s.pool.tasks, Instr.receive c ∈ e.2.stack

/-- Some task takes the notifications of a connection, or has taken one. -/
def Taken (past : List Move) (s : System) (c : ConnectionId) : Prop :=
  s.Hears c ∨ ∃ t a, Move.did t (.receive c) a ∈ past

/-- Whoever does not take notifications does not begin to. -/
theorem Instr.leads_receive {i : Instr} {c : ConnectionId} (h : i.leads (.receive c) = true) :
    i = .receive c := by
  cases i with
  | receive d => rw [of_decide_eq_true h]
  | _ => cases h

/-- The machine starts and takes a connection with a move. -/
def Attaches (s : System) (m : Move) (c : ConnectionId) : Prop :=
  s.machine.state = .starting ∧ ∃ t a, ∃ l : Launched, l.connection = c ∧
    m = .did t (.handle (.launched s.machine.generation (.ok l))) a

/-- **A task that hears a connection after a move** heard it before, or begins because the machine
takes the connection, and then listens or was given up. -/
theorem Moves.hears {past : List Move} {s s' : System} {m : Move} (step : Moves s m s')
    (sound : Sound past s) {e : TaskId × Task Instr} (he : e ∈ s'.pool.tasks) {c : ConnectionId}
    (hears : Instr.receive c ∈ e.2.stack) :
    (∃ task, (e.1, task) ∈ s.pool.tasks ∧ Instr.receive c ∈ task.stack ∧
      Stays s s' e.1 task e.2) ∨
      Attaches s m c ∧ (e.1 ∈ s'.attached ∨ e.2.aborted = true) := by
  cases (step.arises sound.numbered sound.attached e he).springs hears with
  | old mem here stays => exact .inl ⟨_, mem, here, stays⟩
  | left _ exec here mem first stays =>
    rw [Instr.leads_receive (exec_leads exec _ here)] at first
    exact .inl ⟨_, mem, first, stays⟩
  | opened _ opens _ listens =>
    cases opens with
    | hear starting => exact .inr ⟨⟨starting, _, _, _, rfl, rfl⟩, listens _ rfl⟩

/-- **Who hears a connection after a move** heard it before, or the machine takes the connection
with this move. -/
theorem taken_of_move {past : List Move} {s s' : System} {m : Move} (step : Moves s m s')
    (sound : Sound past s) {c : ConnectionId} (h : Taken (m :: past) s' c) :
    Taken past s c ∨ Attaches s m c := by
  rcases h with ⟨e, he, hears⟩ | ⟨t, a, did⟩
  · rcases step.hears sound he hears with ⟨task, mem, here, -⟩ | ⟨attaches, -⟩
    · exact .inl (.inl ⟨_, mem, here⟩)
    · exact .inr attaches
  · rcases List.mem_cons.mp did with rfl | did
    · cases step with
      | act found next =>
        exact .inl (.inl ⟨_, Pool.mem_of_get? found, next ▸ List.mem_cons_self⟩)
    · exact .inl (.inr ⟨t, a, did⟩)

/-! ## Who is heard -/

/-- A task takes the notifications of a connection until the machine gives the connection up. -/
def System.Attends (s : System) (c : ConnectionId) : Prop :=
  ∃ t ∈ s.attached, ∃ task, (t, task) ∈ s.pool.tasks ∧ Instr.receive c ∈ task.stack ∧
    task.caller = none ∧ task.aborted = false

/-- The machine runs with a connection. -/
def Machine.RunsWith (m : Machine) (c : ConnectionId) : Prop :=
  m.state = .running ∧ m.connection = some c

/-- Who attends to a connection goes on to. -/
theorem System.Attends.mono {s r : System} {c : ConnectionId} (h : s.Attends c)
    (attached : r.attached = s.attached) (tasks : s.pool.tasks ⊆ r.pool.tasks) : r.Attends c := by
  obtain ⟨t, ht, task, there, rest⟩ := h
  exact ⟨t, attached ▸ ht, task, tasks there, rest⟩

/-- **A machine that runs after an event** ran before it and tells nobody anything, or has taken the
connection that its launch brought. -/
theorem Machine.runs_of_transition {m : Machine} {e : Event} {c : ConnectionId}
    (runs : (m.transition e).machine.RunsWith c) :
    (m.RunsWith c ∧ (m.transition e).notices = []) ∨
      m.state = .starting ∧ ∃ l : Launched, e = .launched m.generation (.ok l) ∧ l.connection = c := by
  have teardown (alive : Bool) : ¬ (m.beginTeardown alive).machine.RunsWith c := by
    rw [beginTeardown]
    split
    · exact fun runs => State.noConfusion runs.1
    · exact fun runs => State.noConfusion runs.1
  have still {t : Transition} (machine : t.machine.RunsWith c → m.RunsWith c)
      (silent : t.notices = []) (runs : t.machine.RunsWith c) :
      (m.RunsWith c ∧ t.notices = []) ∨
        m.state = .starting ∧ ∃ l : Launched, e = .launched m.generation (.ok l) ∧ l.connection = c :=
    .inl ⟨machine runs, silent⟩
  revert runs
  cases e with
  | start path =>
    rw [transition]
    split
    · rw [begin]
      split
      · exact fun runs => State.noConfusion runs.1
      · exact fun runs => State.noConfusion runs.1
    · exact still id rfl
  | stop =>
    simp only [transition]
    split
    · exact fun runs => State.noConfusion runs.1
    · exact fun runs => absurd runs (teardown true)
    · exact still id rfl
  | setPath path =>
    simp only [transition]
    split
    · exact still id rfl
    · exact still id rfl
    · exact still id rfl
  | launched generation result =>
    simp only [transition]
    split
    next current =>
      split
      next l starting =>
        intro runs
        subst current
        exact .inr ⟨starting, l, rfl, Option.some.inj runs.2⟩
      next => exact fun runs => State.noConfusion runs.1
      next => exact still id rfl
      next => exact fun runs => State.noConfusion runs.1
      next => exact still id rfl
    · exact still id rfl
  | exited generation =>
    simp only [transition]
    split
    · exact fun runs => absurd runs (teardown false)
    · exact still id rfl
  | tornDown generation =>
    simp only [transition]
    split
    · exact fun runs => State.noConfusion runs.1
    · exact still id rfl

/-- A machine that runs after an event ran before it, and nobody was given up, or it has taken a
connection that is attended to. -/
theorem System.attends_apply {s : System} {e : Event} {c : ConnectionId}
    (runs : (s.apply e).1.machine.RunsWith c) :
    (s.machine.RunsWith c ∧ (s.apply e).1.attached = s.attached ∧ (s.apply e).1.pool = s.pool) ∨
      (s.apply e).1.Attends c := by
  rw [machine_apply] at runs
  rcases Machine.runs_of_transition runs with ⟨ran, silent⟩ | ⟨starting, l, rfl, rfl⟩
  · refine .inl ⟨ran, ?_, ?_⟩
    · rw [apply, silent]
      rfl
    · rw [apply, silent]
      rfl
  · refine .inr ⟨s.pool.next + 1, ?_, ⟨none, [.receive l.connection], true, false⟩, ?_,
      List.mem_cons_self, rfl, rfl⟩
    · simp only [apply, Machine.transition, if_true, starting]
      exact List.mem_cons_of_mem _ List.mem_cons_self
    · simp only [apply, Machine.transition, if_true, starting]
      exact List.mem_append_right _ List.mem_cons_self

/-- A machine that runs after an instruction ran before it, and nobody was given up, or it has taken a
connection that is attended to. -/
theorem exec_attends {s r : System} {t : TaskId} {caller : String} {i : Instr} {a : Answer}
    {before : List Instr} {c : ConnectionId} (h : s.exec t caller i a = some (r, before))
    (runs : r.machine.RunsWith c) :
    (s.machine.RunsWith c ∧ r.attached = s.attached ∧ s.pool.tasks ⊆ r.pool.tasks) ∨
      r.Attends c := by
  have applied {e : Event} (runs : (s.apply e).1.machine.RunsWith c) :
      (s.machine.RunsWith c ∧ (s.apply e).1.attached = s.attached ∧
        s.pool.tasks ⊆ (s.apply e).1.pool.tasks) ∨ (s.apply e).1.Attends c := by
    rcases System.attends_apply runs with ⟨ran, attached, pool⟩ | attends
    · refine .inl ⟨ran, attached, ?_⟩
      rw [pool]
      exact List.Subset.refl _
    · exact .inr attends
  cases exec_cases h with
  | aside _ _ _ alike =>
    refine .inl ⟨alike.machine ▸ runs, alike.attached, ?_⟩
    rw [alike.pool]
    exact List.Subset.refl _
  | called _ pool machine attached =>
    refine .inl ⟨machine ▸ runs, attached, ?_⟩
    rw [pool]
    exact List.subset_append_left _ _
  | handled => exact applied runs
  | halted => exact applied runs
  | performed => exact .inl ⟨runs, rfl, List.subset_append_left _ _⟩
  | _ => exact .inl ⟨runs, rfl, List.Subset.refl _⟩

/-- Whoever attends to a connection goes on to until the connection has no more notifications. -/
theorem System.Attends.proceed {s r : System} {c : ConnectionId} (h : r.Attends c)
    (numbered : r.pool.Numbered) {t : TaskId} {task : Task Instr} {caller : String} {i : Instr}
    {a : Answer} {rest before : List Instr} (there : (t, task) ∈ r.pool.tasks)
    (next : task.stack = i :: rest) (exec : s.exec t caller i a = some (r, before)) :
    (r.proceed t (before ++ rest)).Attends c ∨ i = .receive c ∧ a = .received none := by
  obtain ⟨u, attached, other, mem, hears, own, kept⟩ := h
  by_cases same : u = t
  · subst same
    obtain rfl := numbered.unique mem there
    have onward (left : Instr.receive c ∈ before ++ rest) :
        (r.proceed u (before ++ rest)).Attends c :=
      ⟨u, attached, _, Pool.mem_proceed_self mem (List.ne_nil_of_mem left), left, own, kept⟩
    rw [next] at hears
    rcases List.mem_cons.mp hears with rfl | hears
    · cases a with
      | received n =>
        cases n with
        | none => exact .inr ⟨rfl, rfl⟩
        | some n =>
          cases exec
          refine .inl (onward (List.mem_append_left _ ?_))
          exact List.mem_append_right _ List.mem_cons_self
      | _ => cases exec
    · exact .inl (onward (List.mem_append_right _ hears))
  · exact .inl ⟨u, attached, other, Pool.mem_proceed_of_ne mem same, hears, own, kept⟩

/-- **A move leaves a connection attended to** as long as the machine runs with it, unless it was the
end of its notifications. -/
theorem Moves.attends {s s' : System} {m : Move} {c : ConnectionId} (step : Moves s m s')
    (numbered : s.pool.Numbered) (alive : s'.alive = true) (runs : s'.machine.RunsWith c)
    (before : s.machine.RunsWith c → s.Attends c) :
    s'.Attends c ∨ ∃ t, m = .did t (.receive c) (.received none) := by
  cases step with
  | ask a => exact .inl ((before runs).mono rfl (List.subset_append_left _ _))
  | @act _ t task i rest a found next taken =>
    obtain ⟨r, left, exec, -, result⟩ := step_exec found next taken
    obtain rfl : s' = r.proceed t (left ++ rest) := by
      rcases result with same | same
      · exact same
      · rw [same] at alive ⊢
        exact System.release_of_alive alive
    have attends : r.Attends c := by
      rcases exec_attends exec runs with ⟨ran, attached, tasks⟩ | attends
      · exact (before ran).mono attached tasks
      · exact attends
    have regrouped := (exec_cases exec).regrouped
    obtain ⟨aborted, there⟩ := regrouped.mem (Pool.mem_of_get? found)
    rcases attends.proceed (regrouped.numbered numbered) there next exec with onward | ⟨rfl, rfl⟩
    · exact .inl onward
    · exact .inr ⟨t, rfl⟩
  | @park u =>
    have still : ({ s with pool := s.pool.park u } : System).release = _ :=
      System.release_of_alive alive
    rw [System.park, still] at runs ⊢
    obtain ⟨t, attached, task, mem, hears, own, kept⟩ := before runs
    obtain ⟨parked, there⟩ := numbered.mem_park mem kept u
    exact .inl ⟨t, attached, _, there, hears, own, kept⟩
  | cancel => exact .inl (before runs)
  | @abort u task found called =>
    obtain ⟨t, attached, other, mem, hears, own, kept⟩ := before runs
    refine .inl ⟨t, attached, other, Pool.mem_modify.mpr ⟨other, mem, ?_⟩, hears, own, kept⟩
    -- Only calls are given up one by one, and nobody waits for this task.
    refine (if_neg fun same => ?_).symm
    subst same
    obtain rfl := numbered.unique mem (Pool.mem_of_get? found)
    rw [own] at called
    cases called
  | drop =>
    have still : ({ s with handle := false } : System).release = _ :=
      System.release_of_alive alive
    rw [System.dropHandle, still] at runs ⊢
    exact .inl (before runs)

/-- **The connection of a machine that runs is attended to** as long as it has notifications. -/
theorem Run.attended {options : Options} {past : List Move} {s : System} (run : Run options past s)
    (alive : s.alive = true) {c : ConnectionId} (runs : s.machine.RunsWith c) :
    s.Attends c ∨ ∃ t, Move.did t (.receive c) (.received none) ∈ past := by
  induction run with
  | start => exact State.noConfusion runs.1
  | @next past s s' m run step ih =>
    have existed := step.alive alive
    have numbered := (Sound.of_run run).numbered
    by_cases ended : ∃ t, Move.did t (.receive c) (.received none) ∈ past
    · obtain ⟨t, ended⟩ := ended
      exact .inr ⟨t, List.mem_cons_of_mem _ ended⟩
    · have attends := step.attends numbered alive runs fun ran =>
        (ih existed ran).resolve_right ended
      rcases attends with attends | ⟨t, rfl⟩
      · exact .inl attends
      · exact .inr ⟨t, List.mem_cons_self⟩

end Supervision.Worker
