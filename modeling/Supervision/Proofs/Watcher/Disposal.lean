import Supervision.Proofs.Watcher.Retry

/-!
# A watcher that was disposed of

Disposing of a watcher marks it first, then stops it, then takes leave of its listeners, each under
a lock of its own. Other tasks may come between, registrations may be under way, and users may go on
asking. When a task is done in which the watcher was disposed of, and all others are between two
turns, the watcher is `Closed`: it is idle and keeps nothing, no task is about to tell anyone
anything, and whoever would try again goes no further.

Every move keeps a watcher closed, whatever the order (`Moves.closed`), and none leaves a trace
(`System.Inert`). What is still registered is given up by the one whom it was granted to
(`ended_of_dispose`). The law does not say that a task gets its turn.
-/

namespace Supervision.Watcher

variable {delays : List Nat} {later moment past : List Move} {s s' r : System} {i : Instr}
  {a : Answer} {before : List Instr} {t : TaskId} {m : Move}

/-- True of instructions that tell someone something. -/
def Instr.speaks : Instr → Bool
  | .tell _ | .deliver .. | .listener .. => true
  | _ => false

/-- A watcher that will do nothing any more but give up what is still granted. -/
structure System.Closed (s : System) : Prop where
  disposed : s.machine.disposed = true
  idle : s.machine.state = .idle
  free : s.machine.reconnect = none
  bare : s.machine.unregister = none
  /-- Nobody is about to be told anything. -/
  quiet : s.pool.Every fun _ task => ∀ i ∈ task.stack, i.speaks = false
  /-- Whoever would try again goes no further. -/
  spent : s.pool.Every fun _ task =>
    task.stack.any Instr.tries = true → task.aborted = true ∧ task.parked = true

/-- What happens without a trace: no task comes or is aborted, and nothing can be seen. -/
structure System.Inert (s r : System) : Prop where
  machine : r.machine = { s.machine with attempts := r.machine.attempts }
  pool : r.pool = s.pool
  history : r.history = s.history
  published : r.published = s.published

/-! ## What a closed watcher does -/

theorem speaks_acts (as : List Action) : ∀ j ∈ as.map Instr.act, j.speaks = false :=
  List.forall_mem_map.mpr fun _ _ => rfl

theorem speaks_revokes (parts : List (Subscription Unit)) :
    ∀ j ∈ parts.map Instr.revoke, j.speaks = false :=
  List.forall_mem_map.mpr fun _ _ => rfl

theorem Machine.dropped_of_bare {m : Machine} (free : m.reconnect = none)
    (bare : m.unregister = none) : m.dropped = m.unchanged := by
  obtain ⟨state, generation, unregister, attempts, reconnect, disposed⟩ := m
  obtain rfl : reconnect = none := free
  obtain rfl : unregister = none := bare
  rfl

/-- What comes of a change that nobody notices. -/
theorem System.inert_apply {c : Change} (notices : c.notices = [])
    (machine : c.machine = { s.machine with attempts := c.machine.attempts }) :
    s.Inert (s.apply c).1 := by
  rw [System.apply, notices]
  exact ⟨machine, rfl, rfl, rfl⟩

/-- **A change of a closed watcher is noticed by nobody**, and at most gives up what is granted. -/
theorem Makes.inert {c : Change} (h : Makes s i c) (closed : s.Closed) :
    s.Inert (s.apply c).1 ∧ ∀ j ∈ (s.apply c).2, j.speaks = false := by
  have unchanged : s.Inert (s.apply s.machine.unchanged).1 ∧
      ∀ j ∈ (s.apply s.machine.unchanged).2, j.speaks = false :=
    ⟨System.inert_apply rfl rfl, List.forall_mem_nil _⟩
  have stale (generation : Nat) : s.machine.isCurrent generation = false := by
    simp [Machine.isCurrent, closed.idle]
  have deaf (generation : Nat) : s.machine.hears generation = false := by
    simp [Machine.hears, closed.idle]
  cases h with
  | begin =>
    rw [Machine.begin, if_pos (.inl closed.disposed)]
    exact unchanged
  | stop =>
    have same : s.machine.stop = ⟨{ s.machine with attempts := 0 }, [], []⟩ := by
      simp [Machine.stop, Machine.cancelled, Machine.giveUp, Machine.lost, closed.idle, closed.free,
        closed.bare]
    rw [same]
    exact ⟨System.inert_apply rfl rfl, List.forall_mem_nil _⟩
  | @registered generation result =>
    cases result with
    | ok h =>
      simp only [Machine.registered, stale, Bool.false_eq_true, if_false]
      exact ⟨System.inert_apply rfl rfl, by simp [System.apply, System.instrFor, Instr.speaks]⟩
    | error why =>
      simp only [Machine.registered, stale, Bool.false_eq_true, if_false]
      exact unchanged
  | lose =>
    simp only [Machine.lose, deaf, Bool.false_eq_true, if_false]
    exact unchanged

/-- **What an instruction does to a closed watcher leaves no trace.** -/
theorem Does.inert (h : Does s i a r before) (closed : s.Closed) (quiet : i.speaks = false) :
    s.Inert r ∧ ∀ j ∈ before, j.speaks = false := by
  have same : s.Inert s := ⟨rfl, rfl, rfl, rfl⟩
  cases h with
  | disposed _ first => rw [closed.disposed] at first; cases first
  | heard _ hears => exact absurd closed.idle (Machine.eq_of_hears hears).2
  | told | reached | delivered => cases quiet
  | made makes => exact makes.inert closed
  | dropped =>
    rw [Machine.dropped_of_bare closed.free closed.bare]
    exact ⟨⟨rfl, rfl, rfl, rfl⟩, nofun⟩
  | lapsed | unheard => exact ⟨same, nofun⟩
  | renewed => exact ⟨⟨rfl, rfl, rfl, rfl⟩, nofun⟩
  | enrolled parts => exact ⟨⟨rfl, rfl, rfl, rfl⟩, speaks_revokes parts⟩
  | used => exact ⟨same, speaks_acts _⟩
  | meanwhile =>
    refine ⟨same, fun j hj => ?_⟩
    rcases List.mem_append.mp hj with hj | hj
    · exact speaks_acts _ j hj
    · rw [List.mem_singleton.mp hj]
      rfl
  | started | halted | emitted | ended | refused | failed =>
    exact ⟨same, by simp [Instr.speaks]⟩

/-- A closed watcher stays closed when an instruction takes effect. -/
theorem System.Inert.closed (h : s.Inert r) (closed : s.Closed) : r.Closed := by
  refine ⟨?_, ?_, ?_, ?_, h.pool ▸ closed.quiet, h.pool ▸ closed.spent⟩
  all_goals rw [h.machine]
  · exact closed.disposed
  · exact closed.idle
  · exact closed.free
  · exact closed.bare

/-- A task that executes does not try again. -/
theorem System.Closed.awake (h : s.Closed) {task : Task Instr} (found : s.pool.get? t = some task)
    (awake : (task.parked && task.aborted) = false) : task.stack.any Instr.tries = false := by
  refine Bool.eq_false_iff.mpr fun tries => ?_
  obtain ⟨aborted, parked⟩ := h.spent _ (Pool.mem_of_get? found) tries
  rw [aborted, parked] at awake
  cases awake

/-- **Every move keeps a watcher closed**, and none leaves a trace. -/
theorem Moves.closed (step : Moves s m s') (closed : s.Closed) : s'.Closed ∧
    s'.machine = { s.machine with attempts := s'.machine.attempts } ∧ s'.history = s.history ∧
    s'.published = s.published ∧ ∀ k i a, m = .did k i a → i.speaks = false ∧ i.tries = false := by
  obtain ⟨disposed, idle, free, bare, quiet, spent⟩ := closed
  cases step with
  | ask a =>
    refine ⟨⟨disposed, idle, free, bare, quiet.spawn ?_, spent.spawn nofun⟩, rfl, rfl, rfl, nofun⟩
    simp [Instr.speaks]
  | park =>
    refine ⟨⟨disposed, idle, free, bare, ?_, ?_⟩, rfl, rfl, rfl, nofun⟩
    · exact quiet.park fun _ _ here => here
    · exact spent.park fun _ _ here tries => ⟨(here tries).1, rfl⟩
  | @act _ t task i rest a found next taken =>
    have closed : s.Closed := ⟨disposed, idle, free, bare, quiet, spent⟩
    obtain ⟨r, before, does, awake, rfl⟩ := step_does found next taken
    have plain : ∀ j ∈ i :: rest, j.speaks = false := next ▸ quiet _ (Pool.mem_of_get? found)
    have still := closed.awake found awake
    rw [next, List.any_cons, Bool.or_eq_false_iff] at still
    obtain ⟨inert, plains⟩ := does.inert closed (plain i List.mem_cons_self)
    obtain ⟨disposed, idle, free, bare, quiet, spent⟩ := inert.closed closed
    refine ⟨⟨disposed, idle, free, bare, quiet.proceed ?_, spent.proceed ?_⟩, inert.machine,
      inert.history, inert.published, ?_⟩
    · intro _ _ _ j hj
      rcases List.mem_append.mp hj with hj | hj
      · exact plains j hj
      · exact plain j (List.mem_cons_of_mem i hj)
    · intro _ _ _ tries
      rw [List.any_append, does.tries, still.2] at tries
      cases tries
    · rintro k i' a' ⟨⟩
      exact ⟨plain i List.mem_cons_self, still.1⟩

/-! ## How a watcher comes to be closed -/

theorem Moves.disposed (step : Moves s m s') (disposed : s.machine.disposed = true) :
    s'.machine.disposed = true := by
  cases step with
  | ask | park => exact disposed
  | act found next taken =>
    obtain ⟨r, before, does, -, rfl⟩ := step_does found next taken
    show r.machine.disposed = true
    cases does with
    | disposed => rfl
    | made makes =>
      rw [(s.noticed_apply _).machine]
      exact makes.disposed.trans disposed
    | dropped =>
      rw [(System.noticed_apply { s with handle := false } s.machine.dropped).machine]
      exact disposed
    | _ => exact disposed

/-- Whoever has a handle and disposes of a watcher leaves it disposed of. -/
theorem Moves.disposes (step : Moves s (.did t (.act .dispose) a) s') (handle : s.handle = true) :
    s'.machine.disposed = true := by
  cases step with
  | act found next taken =>
    obtain ⟨r, before, exec, -, rfl⟩ := step_exec found next taken
    cases a with
    | registered | actions => cases exec
    | nothing =>
      have acts : s.act .dispose = (r, before) := Option.some.inj exec
      show (r, before).1.machine.disposed = true
      rw [← acts, System.act]
      by_cases first : s.machine.disposed = true
      · simp [first]
      · simp [handle, first]

/-- A moment at which a task is done in which the watcher was disposed of: the task executed last,
and has nothing left to do. -/
structure Returned (delays : List Nat) (t : TaskId) (moment : List Move) : Prop where
  called : ∃ since a older, moment = since ++ .did t (.act .dispose) a :: older ∧
    (replay delays older).handle = true
  last : ∃ i a older, moment = .did t i a :: older
  gone : (replay delays moment).pool.get? t = none

theorem Rests.mute {stack : List Instr} (h : Rests stack) : ∀ i ∈ stack, i.speaks = false := by
  cases h <;> simp [Instr.speaks]

/-- When a task has nothing left to do, all others are between two turns. -/
theorem Run.rests_of_gone {earlier : List Move} (run : Run delays (.did t i a :: earlier) s)
    (turns : orderly delays (.did t i a :: earlier) = true) (gone : s.pool.get? t = none) :
    ∀ e ∈ s.pool.tasks, Rests e.2.stack := by
  have numbered := (Sound.of_run run).tidy.numbered
  intro e he
  cases run with
  | next run step =>
    cases step with
    | act found next taken =>
      obtain ⟨r, before, does, -, rfl⟩ := step_does found next taken
      rcases run.turn does (run.alone turns) he with ⟨-, rests⟩ | ⟨rfl, -⟩
      · exact rests
      · rw [Pool.get?_of_mem numbered he] at gone
        cases gone

/-- **When a task is done in which the watcher was disposed of, the watcher is closed.** -/
theorem Run.closed (run : Run delays moment s) (turns : orderly delays moment = true)
    (returned : Returned delays t moment) : s.Closed := by
  obtain ⟨⟨since, a, older, split, handle⟩, ⟨i, b, earlier, last⟩, gone⟩ := returned
  have sound := Sound.of_run run
  have disposed : s.machine.disposed = true := by
    rw [split] at run
    have there := run.step.disposes handle
    exact (run.since (fun _ _ _ _ _ _ step => step.disposed) there).1
  have rests : ∀ e ∈ s.pool.tasks, Rests e.2.stack := by
    rw [run.replay] at gone
    subst last
    exact run.rests_of_gone turns gone
  have still : s.machine.state = .idle ∧ s.machine.reconnect = none := by
    refine (run.disposed disposed).resolve_right fun pending => pending ?_
    exact List.flatMap_eq_nil_iff.mpr fun e he => late_stop _ (rests e he)
  refine ⟨disposed, still.1, still.2, ?_, fun e he => (rests e he).mute, fun e he tries => ?_⟩
  · cases handle : s.handle with
    | true => exact (sound.fair handle).unregister_eq_none (by simp [still.1])
    | false => exact sound.gone handle
  · refine (run.single turns e he tries).resolve_right fun mine => ?_
    rw [still.2] at mine
    cases mine

/-! ## The law -/

theorem late_right : Late Instr.right? := by
  intro stack rests
  cases rests <;> rfl

/-- What becomes of a watcher that was disposed of. -/
structure Ended (delays : List Nat) (later moment : List Move) (s : System) : Prop where
  idle : s.machine.state = .idle
  /-- No registration is begun any more. -/
  generation : s.machine.generation = (replay delays moment).machine.generation
  /-- Nobody sleeps to try again, and nobody will. -/
  timers : s.machine.reconnect = none ∧ s.timers = []
  expired : ∀ k i a, .did k i a ∈ later → i.tries = false
  /-- Nobody is told anything, neither a listener, whenever it was added, nor the one who is told
  whether the daemon is listened to. -/
  silent : ∀ k i a, .did k i a ∈ later → i.speaks = false
  /-- Nothing more can be seen. -/
  unseen : s.history = (replay delays moment).history ∧
    s.published = (replay delays moment).published
  /-- What is granted is given up once, or a task is about to do so. -/
  once : ∀ h ∈ granted (later ++ moment),
    (used (later ++ moment)).count h + (s.pool.work Instr.right?).count h = 1
  /-- Between two turns no task is about to. -/
  rest : (∀ e ∈ s.pool.tasks, e.2.parked = true) →
    ∀ h ∈ granted (later ++ moment), (used (later ++ moment)).count h = 1
  /-- Disposing of it again changes nothing. -/
  again : s.act .dispose = (s, [])

theorem System.Closed.timers (h : s.Closed) : s.timers = [] := by
  have single : s.Single := fun e he tries => .inl (h.spent e he tries)
  refine List.eq_nil_iff_forall_not_mem.mpr fun k hk => ?_
  have known := single.timers k hk
  rw [h.free] at known
  cases known

/-- What a watcher that keeps nothing was granted is given up once, or a task has it in hand. -/
theorem Sound.once {h : HandleId} (sound : Sound past s) (bare : s.machine.unregister = none)
    (there : h ∈ granted past) : (used past).count h + (s.pool.work Instr.right?).count h = 1 := by
  have ledger := List.perm_iff_count.mp sound.ledger h
  rw [List.count_eq_one_of_mem sound.distinct there, bare, Option.toList_none, List.nil_append,
    List.count_append] at ledger
  exact ledger.symm

/-- **Disposing of a watcher is for good.** -/
theorem ended_of_dispose (run : Run delays (later ++ moment) s)
    (turns : orderly delays moment = true) (returned : Returned delays t moment) :
    Ended delays later moment s := by
  -- From the moment on the watcher is closed, and looks as it did then.
  have all := run.since (P := fun r => r.Closed ∧
      r.machine.generation = (replay delays moment).machine.generation ∧
      r.history = (replay delays moment).history ∧
      r.published = (replay delays moment).published)
    (fun m _ past r r' _ step kept => by
      obtain ⟨closed, generation, history, published⟩ := kept
      obtain ⟨closed, machine, seen, shown, -⟩ := step.closed closed
      refine ⟨closed, ?_, seen.trans history, shown.trans published⟩
      rw [machine]
      exact generation)
    ⟨run.older.closed turns returned, rfl, rfl, rfl⟩
  obtain ⟨⟨closed, generation, unseen⟩, each⟩ := all
  have still : ∀ k i a, .did k i a ∈ later → i.speaks = false ∧ i.tries = false := by
    intro k i a hmem
    obtain ⟨_, _, _, -, step, closed, -⟩ := each _ hmem
    obtain ⟨-, -, -, -, plain⟩ := step.closed closed
    exact plain k i a rfl
  have sound := Sound.of_run run
  refine ⟨closed.idle, generation, ⟨closed.free, closed.timers⟩, fun k i a hmem =>
    (still k i a hmem).2, fun k i a hmem => (still k i a hmem).1, unseen,
    fun h => sound.once closed.bare, fun parked h there => ?_, ?_⟩
  · have once := sound.once closed.bare there
    rwa [run.work_of_rest late_right parked] at once
  · simp [System.act, closed.disposed]

/-- A watcher that is disposed of while a registration is under way, which is granted later. -/
theorem ended_of_late_grant : ∃ later moment s, Run [5] (later ++ moment) s ∧
    orderly [5] moment = true ∧ Returned [5] 2 moment ∧ granted (later ++ moment) = [0] ∧
    used (later ++ moment) = [0] ∧ Ended [5] later moment s := by
  have asked := (Run.start : Run [5] [] (.initial [5])).next (.ask _ .start) nofun
  have started := asked.next (.act (t := 0) (a := .nothing) rfl rfl rfl) nofun
  have begun := started.next (.act (t := 0) (a := .nothing) rfl rfl rfl) nofun
  have asked := begun.next (.ask _ .dispose) nofun
  have disposed := asked.next (.act (t := 2) (a := .nothing) rfl rfl rfl) nofun
  have stopped := disposed.next (.act (t := 2) (a := .nothing) rfl rfl rfl) nofun
  have cleared := stopped.next (.act (t := 2) (a := .nothing) rfl rfl rfl) nofun
  have granted := cleared.next (.act (t := 1) (a := .registered (.ok 0)) rfl rfl rfl) nofun
  have noted := granted.next (.act (t := 1) (a := .nothing) rfl rfl rfl) nofun
  have gaveUp := noted.next (.act (t := 1) (a := .actions []) rfl rfl rfl) nofun
  have returned : Returned [5] 2 [.did 2 .clear .nothing, .did 2 .stop .nothing,
      .did 2 (.act .dispose) .nothing, .asked .dispose, .did 0 (.begin false) .nothing,
      .did 0 (.act .start) .nothing, .asked .start] :=
    ⟨⟨[_, _], .nothing, _, rfl, rfl⟩, ⟨.clear, .nothing, _, rfl⟩, rfl⟩
  exact ⟨[_, _, _], _, _, gaveUp, rfl, returned, rfl, rfl, ended_of_dispose gaveUp rfl returned⟩

end Supervision.Watcher
