import Supervision.Proofs.Watcher.Retry

/-!
# What stopping a watcher calls off

Between the end of a delay and the moment at which the task that slept takes hold of the machine,
another task may stop the watcher. The one that slept is aborted then, which does not keep a task
in its turn from going on. So a stop calls off for good whoever still sleeps, and those who are in
their turn are out of its reach.

In every order of the moves, a stopped watcher stays idle and begins no registration until someone
starts it, or a task tries again that the stop did not reach (`Cancelled.stays`). A start takes
effect wherever it comes, also from within the stop, before the one who stops is done. If no task
that would try again was ever given up in its turn (`punctual`), a stop reaches all of them
(`Cancelled.prompt`).

What a task does that was given up in its turn is left open: it may begin a registration, and let go
of a task that sleeps, which the next stop does not reach either.
-/

namespace Supervision.Watcher

variable {delays : List Nat} {later older past : List Move} {s s' r : System} {i : Instr}
  {a : Answer} {before rest : List Instr} {t k : TaskId} {task : Task Instr} {n : Nat}
  {P : TaskId → Task Instr → Prop}

/-- The tasks that can still go on to try again. -/
def System.trying (s : System) : List TaskId :=
  (s.pool.tasks.filter fun e =>
    e.2.stack.any Instr.tries && !(e.2.aborted && e.2.parked)).map (·.1)

/-- True of a task that goes no further if it would try again, unless it is one of a list. -/
def Reached (strays : List TaskId) (k : TaskId) (task : Task Instr) : Prop :=
  task.stack.any Instr.tries = true → (task.aborted = true ∧ task.parked = true) ∨ k ∈ strays

/-- A machine that is idle and will not try again, after so many registrations. -/
structure Machine.Halted (m : Machine) (generation : Nat) : Prop where
  idle : m.state = .idle
  free : m.reconnect = none
  generation : m.generation = generation

/-- What stopping a watcher comes to: task `t` stops it after `older`, and `later` is what happens
then. -/
structure Cancelled (delays : List Nat) (later older : List Move) (t : TaskId) (a : Answer)
    (s : System) : Prop where
  /-- The watcher is idle at once, and begins no registration. -/
  halted : (replay delays (.did t .stop a :: older)).machine.Halted
    (replay delays older).machine.generation
  /-- It stays so until someone starts it, or a task tries again that the stop did not reach. -/
  stays : (∀ k b, .did k (.begin false) b ∉ later) →
    (∀ k b, .did k (.begin true) b ∈ later →
      k ∉ (replay delays (.did t .stop a :: older)).trying) →
    s.machine.Halted (replay delays older).machine.generation
  /-- Whoever was there before and was reached goes no further, whatever comes later. -/
  reached : ∀ k i b, .did k i b ∈ later → i.tries = true →
    k < (replay delays (.did t .stop a :: older)).pool.next →
    k ∈ (replay delays (.did t .stop a :: older)).trying
  /-- The task that the watcher knew of is reached, unless it is in its turn. -/
  asleep : (replay delays older).awake = false →
    ∀ k, (replay delays older).machine.reconnect = some k →
      k ∉ (replay delays (.did t .stop a :: older)).trying
  /-- If none was ever given up in its turn, all are reached. -/
  prompt : punctual delays (.did t .stop a :: older) = true →
    (replay delays (.did t .stop a :: older)).trying = []

/-! ## Who is reached -/

theorem System.mem_trying : k ∈ s.trying ↔ ∃ task, (k, task) ∈ s.pool.tasks ∧
    task.stack.any Instr.tries = true ∧ ¬(task.aborted = true ∧ task.parked = true) := by
  simp only [trying, List.mem_map, List.mem_filter, Bool.and_eq_true, Bool.not_eq_true',
    Bool.and_eq_false_iff, not_and_or, Bool.not_eq_true]
  constructor
  · rintro ⟨e, ⟨he, tries⟩, rfl⟩
    exact ⟨e.2, he, tries⟩
  · rintro ⟨task, he, tries⟩
    exact ⟨(k, task), ⟨he, tries⟩, rfl⟩

/-- Those that can go on are the ones that were not reached. -/
theorem System.every_reached (s : System) : s.pool.Every (Reached s.trying) := by
  intro e he tries
  by_cases still : e.2.aborted = true ∧ e.2.parked = true
  · exact .inl still
  · exact .inr (System.mem_trying.mpr ⟨e.2, he, tries, still⟩)

theorem Reached.abort {strays : List TaskId} (h : Reached strays k task) :
    Reached strays k { task with aborted := true } :=
  fun tries => (h tries).imp_left fun still => ⟨rfl, still.2⟩

theorem Reached.park {strays : List TaskId} (h : Reached strays k task) :
    Reached strays k { task with parked := true } :=
  fun tries => (h tries).imp_left fun still => ⟨still.1, rfl⟩

/-- A task that executes what tries again was not reached. -/
theorem Reached.stray {strays : List TaskId} (h : Reached strays k task)
    (awake : (task.parked && task.aborted) = false) (tries : task.stack.any Instr.tries = true) :
    k ∈ strays := by
  refine (h tries).resolve_left fun still => ?_
  rw [still.1, still.2] at awake
  cases awake

/-- A task that goes on tries again only if it would have before. -/
theorem Reached.proceed {strays : List TaskId} (h : Reached strays k task)
    (awake : (task.parked && task.aborted) = false) (next : task.stack = i :: rest)
    (does : Does s i a r before) (other : Task Instr) :
    Reached strays k { other with stack := before ++ rest, parked := false } := by
  intro tries
  rw [List.any_append, does.tries, Bool.false_or] at tries
  refine .inr (h.stray awake ?_)
  rw [next, List.any_cons, tries, Bool.or_true]

/-! ## What a step leaves -/

theorem System.next_disarmed (s : System) : s.disarmed.next = s.pool.next := by
  unfold System.disarmed
  cases s.machine.reconnect <;> rfl

theorem System.every_disarmed (every : s.pool.Every P)
    (aborted : ∀ k task, P k task → P k { task with aborted := true }) : s.disarmed.Every P := by
  unfold System.disarmed
  cases s.machine.reconnect with
  | none => exact every
  | some k => exact every.abort fun task _ => aborted k task

/-- What is true of every task stays true, if it is true of aborted tasks and of one that is new. -/
theorem Times.every (h : Times s i r) (every : s.pool.Every P)
    (aborted : ∀ k task, P k task → P k { task with aborted := true })
    (new : ∀ stack, P s.pool.next ⟨none, stack, true, false⟩) :
    r.pool.Every P ∧ s.pool.next ≤ r.pool.next := by
  have disarmed := System.every_disarmed every aborted
  have next := s.next_disarmed
  cases h with
  | kept _ _ _ _ _ pool | gaveUp _ _ _ _ _ _ _ pool => rw [pool]; exact ⟨every, Nat.le_refl _⟩
  | renewed _ result => rw [result]; exact ⟨every, Nat.le_refl _⟩
  | cleared _ _ _ _ pool =>
    rcases pool with pool | ⟨generation, pool⟩
    · rw [pool]
      exact ⟨disarmed, Nat.le_of_eq next.symm⟩
    · rw [pool]
      exact ⟨disarmed.spawn (next ▸ new _), by rw [← next]; exact Nat.le_succ _⟩
  | fired _ _ _ pool | delayed _ _ _ _ _ _ _ pool =>
    rw [pool]
    exact ⟨every.spawn (new _), Nat.le_succ _⟩

/-- What begins no registration leaves their number as it is. -/
theorem Makes.generation {c : Change} (h : Makes s i c) (other : ∀ retried, i ≠ .begin retried) :
    c.machine.generation = s.machine.generation := by
  cases h with
  | begin => exact absurd rfl (other _)
  | stop => rfl
  | @registered generation result =>
    cases result with
    | ok => simp only [Machine.registered]; split <;> rfl
    | error =>
      simp only [Machine.registered]
      split
      · rw [Machine.scheduleRetry_machine]
      · rfl
  | lose =>
    simp only [Machine.lose]
    split
    · rw [Machine.scheduleRetry_machine]
    · rfl

theorem Does.generation (h : Does s i a r before) (other : ∀ retried, i ≠ .begin retried) :
    r.machine.generation = s.machine.generation := by
  cases h with
  | made makes =>
    rw [(s.noticed_apply _).machine]
    exact makes.generation other
  | dropped =>
    rw [(System.noticed_apply { s with handle := false } s.machine.dropped).machine]
    rfl
  | _ => rfl

/-- **What begins no registration leaves a watcher that is halted halted**, and no task comes that
would try again. -/
theorem Does.idles (h : Does s i a r before) (calm : s.machine.Calm)
    (halted : s.machine.Halted n) (other : ∀ retried, i ≠ .begin retried)
    (every : s.pool.Every P) (new : ∀ g, P s.pool.next ⟨none, [.register g], true, false⟩) :
    r.machine.Halted n ∧ r.pool.Every P := by
  obtain ⟨idle, free, begun⟩ := halted
  have same := h.generation other
  have still : r.machine.state = .idle := by
    rcases h.onward with ⟨-, kept⟩ | ⟨next, -⟩
    · exact kept idle
    · rw [same] at next
      exact absurd next (Nat.ne_of_lt (Nat.lt_succ_self _))
  have disarmed : s.disarmed = s.pool := by rw [System.disarmed, free]
  have result (reconnect : r.machine.reconnect = none) (every : r.pool.Every P) :
      r.machine.Halted n ∧ r.pool.Every P :=
    ⟨⟨still, reconnect, same.trans begun⟩, every⟩
  cases h.times calm with
  | kept _ _ _ _ reconnect pool =>
    exact result (reconnect.trans free) (pool ▸ every)
  | renewed _ renewed => subst renewed; exact result free every
  | cleared _ _ _ reconnect pool =>
    rw [disarmed] at pool
    refine result reconnect ?_
    rcases pool with pool | ⟨g, pool⟩
    · exact pool ▸ every
    · exact pool ▸ every.spawn (new g)
  | fired retries => exact absurd (of_retries retries) (other _)
  | delayed _ hears | gaveUp _ hears => exact absurd idle (Machine.eq_of_hears hears).2

/-! ## What a stop reaches -/

/-- The watcher when a task has stopped it. -/
theorem Run.halted (run : Run delays (later ++ .did t .stop a :: older) s) :
    (Watcher.replay delays (.did t .stop a :: older)).machine.Halted
      (Watcher.replay delays older).machine.generation := by
  obtain ⟨task, rest, r, before, -, -, does, after⟩ := run.did
  have free := run.before.disarms does (.inl rfl)
  have same := does.generation nofun
  rw [after]
  refine ⟨?_, free, same⟩
  cases does with
  | lapsed lapses => cases lapses
  | enrolled _ enrols => cases enrols
  | made makes =>
    cases makes with
    | stop => exact ((Watcher.replay delays older).noticed_apply _).state

/-- **Who sleeps is reached.** -/
theorem Run.asleep (run : Run delays (later ++ .did t .stop a :: older) s)
    (asleep : (Watcher.replay delays older).awake = false)
    (known : (Watcher.replay delays older).machine.reconnect = some k) :
    k ∉ (Watcher.replay delays (.did t .stop a :: older)).trying := by
  obtain ⟨task, rest, r, before, found, next, does, after⟩ := run.did
  have numbered := (Sound.of_run run.before).tidy.numbered
  have parked := (System.awake_eq_false numbered).mp asleep
  intro trying
  obtain ⟨other, hmem, tries, goes⟩ := System.mem_trying.mp trying
  rw [after] at hmem
  rcases Pool.mem_proceed hmem with ⟨apart, hmem⟩ | ⟨rfl, own, -, same⟩
  · have gone {e : TaskId × Task Instr} (he : e ∈ (Watcher.replay delays older).disarmed.tasks)
        (mine : e.1 = k) : e.2.aborted = true ∧ e.2.parked = true := by
      rw [System.disarmed, known] at he
      obtain ⟨was, hwas, same⟩ := Pool.mem_modify.mp he
      rw [same, if_pos mine]
      exact ⟨rfl, parked _ hwas (mine ▸ known)⟩
    cases does.times run.before.calm with
    | cleared _ _ _ _ pool =>
      rcases pool with pool | ⟨g, pool⟩
      · exact goes (gone (pool ▸ hmem) rfl)
      · rw [pool] at hmem
        rcases List.mem_append.mp hmem with hmem | hmem
        · exact goes (gone hmem rfl)
        · cases List.mem_singleton.mp hmem
          cases tries
    | kept counts => cases counts
    | renewed ok => cases ok
    | fired retries => cases of_retries retries
    | delayed fails | gaveUp fails => cases fails
  · -- Whoever stops the watcher has nothing to do that tries again.
    obtain rfl : other = _ := same
    rw [List.any_append, does.tries, Bool.false_or] at tries
    have seated := (run.before.seated _ (Pool.mem_of_get? found)).1
    simp only [next] at seated
    obtain ⟨delay, stop⟩ := seated.sleeps_of_tries tries
    cases stop

/-- Who was there before and was reached goes no further. -/
theorem Run.reached (run : Run delays (later ++ older) s) {b : Answer}
    (did : .did k i b ∈ later) (tries : i.tries = true)
    (old : k < (Watcher.replay delays older).pool.next) : k ∈ (Watcher.replay delays older).trying := by
  have all := run.since (P := fun r => (Watcher.replay delays older).pool.next ≤ r.pool.next ∧
      r.pool.Every fun k task => k < (Watcher.replay delays older).pool.next →
        Reached (Watcher.replay delays older).trying k task)
    (fun m _ past r r' run step kept => by
      obtain ⟨grown, every⟩ := kept
      have new {k : TaskId} {stack : List Instr} (from_ : r.pool.next ≤ k) :
          k < (Watcher.replay delays older).pool.next →
            Reached (Watcher.replay delays older).trying k ⟨none, stack, true, false⟩ :=
        fun old => absurd (Nat.lt_of_lt_of_le old (Nat.le_trans grown from_)) (Nat.lt_irrefl _)
      cases step with
      | ask a => exact ⟨Nat.le_succ_of_le grown, every.spawn (new (Nat.le_refl _))⟩
      | park =>
        refine ⟨?_, every.park fun _ _ here old => (here old).park⟩
        rw [System.park, Pool.next_park]
        exact grown
      | @act _ t task i rest a found next taken =>
        obtain ⟨r, before, does, awake, rfl⟩ := step_does found next taken
        obtain ⟨later, more⟩ := (does.times run.calm).every every
          (fun _ _ here old => (here old).abort) fun _ => new (Nat.le_refl _)
        refine ⟨?_, later.proceed fun other _ _ old => ?_⟩
        · rw [System.proceed, Pool.next_proceed]
          exact Nat.le_trans grown more
        · exact (every _ (Pool.mem_of_get? found) old).proceed awake next does other)
    ⟨Nat.le_refl _, fun e he _ => System.every_reached _ e he⟩
  obtain ⟨_, r, _, -, step, -, every⟩ := all.2 _ did
  cases step with
  | act found next taken =>
    obtain ⟨_, _, _, awake, -⟩ := step_does found next taken
    refine (every _ (Pool.mem_of_get? found) old).stray awake ?_
    rw [next, List.any_cons, tries, Bool.true_or]

/-- **A watcher that is halted stays so** until someone starts it, or a task tries again that was
not reached. -/
theorem Run.stays (run : Run delays (later ++ older) s)
    (halted : (Watcher.replay delays older).machine.Halted n)
    (unasked : ∀ k b, .did k (.begin false) b ∉ later)
    (unretried : ∀ k b, .did k (.begin true) b ∈ later → k ∉ (Watcher.replay delays older).trying) :
    s.machine.Halted n := by
  have all := run.since (P := fun r => r.machine.Halted n ∧
      r.pool.Every (Reached (Watcher.replay delays older).trying))
    (fun m hm past r r' run step kept => by
      obtain ⟨halted, every⟩ := kept
      cases step with
      | ask a => exact ⟨halted, every.spawn nofun⟩
      | park => exact ⟨halted, every.park fun _ _ here => here.park⟩
      | @act _ t task i rest a found next taken =>
        obtain ⟨r, before, does, awake, rfl⟩ := step_does found next taken
        have here := every _ (Pool.mem_of_get? found)
        have other : ∀ retried, i ≠ .begin retried := by
          rintro (_ | _) rfl
          · exact unasked t a hm
          · refine unretried t a hm (here.stray awake ?_)
            rw [next]
            rfl
        obtain ⟨halted, every⟩ := does.idles run.calm halted other every fun _ => nofun
        exact ⟨halted, every.proceed fun task _ _ => here.proceed awake next does task⟩)
    ⟨halted, System.every_reached _⟩
  exact all.1.1

/-! ## The law -/

/-- **Stopping a watcher calls off whoever still sleeps**, and keeps it idle until it is started. -/
theorem cancelled_of_stop (run : Run delays (later ++ .did t .stop a :: older) s) :
    Cancelled delays later older t a s where
  halted := run.halted
  stays unasked unretried := run.stays run.halted unasked unretried
  reached _ _ _ did tries old := run.reached did tries old
  asleep asleep _ known := run.asleep asleep known
  prompt prompt := by
    have single := run.older.single_of_punctual prompt
    refine List.eq_nil_iff_forall_not_mem.mpr fun k hk => ?_
    obtain ⟨task, hmem, tries, goes⟩ := System.mem_trying.mp hk
    have known := (single _ hmem tries).resolve_left goes
    rw [run.halted.free] at known
    cases known

/-- A watcher that is stopped while a delay runs, and started again. -/
theorem cancelled_of_stop_in_time : ∃ later older s,
    Run [5] (later ++ .did 3 .stop .nothing :: older) s ∧
    punctual [5] (.did 3 .stop .nothing :: older) = true ∧
    (replay [5] older).machine = ⟨.idle, 1, none, 1, some 2, false⟩ ∧
    s.machine = ⟨.starting, 2, none, 0, none, false⟩ ∧
    Cancelled [5] later older 3 .nothing s := by
  have asked := (Run.start : Run [5] [] (.initial [5])).next (.ask _ .start) nofun
  have started := asked.next (.act (t := 0) (a := .nothing) rfl rfl rfl) nofun
  have begun := started.next (.act (t := 0) (a := .nothing) rfl rfl rfl) nofun
  have refused := begun.next
    (.act (t := 1) (a := .registered (.error .disabled)) rfl rfl rfl) nofun
  have failed := refused.next (.act (t := 1) (a := .nothing) rfl rfl rfl) nofun
  have told := failed.next (.act (t := 1) (a := .actions []) rfl rfl rfl) nofun
  have asked := told.next (.ask _ .stop) nofun
  have acted := asked.next (.act (t := 3) (a := .nothing) rfl rfl rfl) nofun
  have stopped := acted.next (.act (t := 3) (a := .nothing) rfl rfl rfl) nofun
  have parked := stopped.next (.park (t := 2) rfl rfl rfl) nofun
  have asked := parked.next (.ask _ .start) nofun
  have acted := asked.next (.act (t := 4) (a := .nothing) rfl rfl rfl) nofun
  have begun := acted.next (.act (t := 4) (a := .nothing) rfl rfl rfl) nofun
  exact ⟨[_, _, _, _], _, _, begun, rfl, rfl, rfl, cancelled_of_stop begun⟩

/-- Two watchers that were stopped by a task that is done: one that was started from within, and is
not idle, and one that goes on to register without being started, since the task that tries again
was in its turn. -/
theorem busy_of_restart_and_overtaking :
    (∃ past s, Run [] past s ∧ .did 2 .stop .nothing ∈ past ∧ s.pool.get? 2 = none ∧
      past.head? = some (.did 2 (.begin false) .nothing) ∧ s.machine.state = .starting) ∧
    ∃ later older s, Run [5] (later ++ .did 3 .stop .nothing :: older) s ∧
      (replay [5] (.did 3 .stop .nothing :: older)).pool.get? 3 = none ∧
      (replay [5] (.did 3 .stop .nothing :: older)).machine = ⟨.idle, 1, none, 0, none, false⟩ ∧
      later = [.did 2 (.begin true) .nothing] ∧
      s.machine = ⟨.starting, 2, none, 0, none, false⟩ := by
  constructor
  · have asked := (Run.start : Run [] [] (.initial [])).next (.ask _ .start) nofun
    have started := asked.next (.act (t := 0) (a := .nothing) rfl rfl rfl) nofun
    have begun := started.next (.act (t := 0) (a := .nothing) rfl rfl rfl) nofun
    have granted := begun.next (.act (t := 1) (a := .registered (.ok 0)) rfl rfl rfl) nofun
    have listening := granted.next (.act (t := 1) (a := .nothing) rfl rfl rfl) nofun
    have told := listening.next (.act (t := 1) (a := .actions []) rfl rfl rfl) nofun
    have asked := told.next (.ask _ .stop) nofun
    have acted := asked.next (.act (t := 2) (a := .nothing) rfl rfl rfl) nofun
    have stopped := acted.next (.act (t := 2) (a := .nothing) rfl rfl rfl) nofun
    have gaveUp := stopped.next (.act (t := 2) (a := .actions []) rfl rfl rfl) nofun
    have told := gaveUp.next (.act (t := 2) (a := .actions [.start]) rfl rfl rfl) nofun
    have acted := told.next (.act (t := 2) (a := .nothing) rfl rfl rfl) nofun
    have begun := acted.next (.act (t := 2) (a := .nothing) rfl rfl rfl) nofun
    exact ⟨_, _, begun, by simp, rfl, rfl, rfl⟩
  · have asked := (Run.start : Run [5] [] (.initial [5])).next (.ask _ .start) nofun
    have started := asked.next (.act (t := 0) (a := .nothing) rfl rfl rfl) nofun
    have begun := started.next (.act (t := 0) (a := .nothing) rfl rfl rfl) nofun
    have refused := begun.next
      (.act (t := 1) (a := .registered (.error .disabled)) rfl rfl rfl) nofun
    have failed := refused.next (.act (t := 1) (a := .nothing) rfl rfl rfl) nofun
    have told := failed.next (.act (t := 1) (a := .actions []) rfl rfl rfl) nofun
    have slept := told.next (.act (t := 2) (a := .nothing) rfl rfl rfl) nofun
    have asked := slept.next (.ask _ .stop) nofun
    have acted := asked.next (.act (t := 3) (a := .nothing) rfl rfl rfl) nofun
    have stopped := acted.next (.act (t := 3) (a := .nothing) rfl rfl rfl) nofun
    have begun := stopped.next (.act (t := 2) (a := .nothing) rfl rfl rfl) nofun
    exact ⟨[_], _, _, begun, rfl, rfl, rfl, rfl⟩

end Supervision.Watcher
