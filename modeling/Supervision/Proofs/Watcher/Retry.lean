import Supervision.Proofs.Watcher.Delivery

/-!
# When a watcher tries again

A registration that failed is tried again after a delay from a list: the first failure takes the
first delay, the next the second, and so on until the list is used up. A watcher that is stopped, or
passes on that all is well, begins to count anew.

In every run each failure makes the next delay begin, and a registration fails once
(`Run.attempts`, `Run.once`). If turns are taken to their ends one task at most is trying again, and
what it begins is paid for by failures since the watcher began to count (`Run.paid`). An account
that is opened while a delay runs is overdrawn by that one; this takes a listener that has the
daemon fail while it is told that all is well (`unscheduled_of_nested_loss_and_drop`), and cannot
be if signals come one after the other (`Run.square`).
-/

namespace Supervision.Watcher

/-! ## Counting -/

/-- True of what has a watcher begin to count anew. -/
def Instr.resets : Instr → Bool
  | .stop | .conclude _ .ok => true
  | _ => false

/-- The registration that an instruction finds to have failed. -/
def System.fails (s : System) : Instr → Option Nat
  | .registered generation (.error _) =>
    if s.handle ∧ s.machine.isCurrent generation then some generation else none
  | .lose generation _ => if s.machine.hears generation then some generation else none
  | _ => none

/-- Whether an instruction of the task that tries again begins a registration. -/
def System.retries (s : System) : Instr → Bool
  | .begin true => s.handle ∧ ¬s.machine.disposed ∧ s.machine.state = .idle
  | _ => false

def Move.resets : Move → Bool
  | .did _ i _ => i.resets
  | _ => false

def System.failed (s : System) : Move → Option Nat
  | .did _ i _ => s.fails i
  | _ => none

def System.retried (s : System) : Move → Bool
  | .did _ i _ => s.retries i
  | _ => false

/-- How often something happened since the watcher began to count. -/
def sinceReset (f : System → Move → Bool) (delays : List Nat) : List Move → Nat
  | [] => 0
  | m :: past =>
    if m.resets then 0 else sinceReset f delays past + (f (replay delays past) m).toNat

/-- How often a registration failed since the watcher began to count. -/
def failures (delays : List Nat) (past : List Move) : Nat :=
  sinceReset (fun s m => (s.failed m).isSome) delays past

/-- How many registrations tasks that tried again began, since the watcher began to count. -/
def retries (delays : List Nat) (past : List Move) : Nat :=
  sinceReset System.retried delays past

/-- The registrations that failed, the latest first. -/
def blamed (delays : List Nat) (past : List Move) : List Nat :=
  chronicle (fun s m => (s.failed m).toList) delays past

/-- How many tasks there are that will try again. -/
def Machine.armed (m : Machine) : Nat :=
  m.reconnect.isSome.toNat

/-- How many tasks were about to try again when the watcher began to count. -/
def carried (delays : List Nat) : List Move → Nat
  | [] => 0
  | m :: past =>
    if m.resets then (replay delays (m :: past)).machine.armed else carried delays past

/-- The tasks that sleep and will try again. -/
def System.timers (s : System) : List TaskId :=
  (s.pool.tasks.filter fun e => !e.2.aborted && e.2.stack.any fun
    | .sleep _ => true
    | _ => false).map (·.1)

variable {delays : List Nat} {past : List Move} {s s' r : System} {i : Instr} {a : Answer}
  {before rest : List Instr} {t : TaskId} {task : Task Instr}

/-! ## What an instruction does with delays -/

/-- The tasks, without the one that will try again. -/
def System.disarmed (s : System) : Pool Instr :=
  match s.machine.reconnect with
  | some k => s.pool.abort k
  | none => s.pool

/-- What an instruction does with delays: the system afterwards. -/
inductive Times (s : System) (i : Instr) (r : System) : Prop
  | kept (counts : i.resets = false) (works : s.fails i = none) (manual : s.retries i = false)
      (attempts : r.machine.attempts = s.machine.attempts)
      (reconnect : r.machine.reconnect = s.machine.reconnect) (pool : r.pool = s.pool)
      (idle : s.machine.state = .idle → r.machine.state = .idle)
  | renewed {generation : Nat} (ok : i = .conclude generation .ok)
      (result : r = { s with machine := { s.machine with attempts := 0 } })
  | cleared (works : s.fails i = none) (manual : s.retries i = false)
      (attempts : r.machine.attempts = if i.resets then 0 else s.machine.attempts)
      (reconnect : r.machine.reconnect = none)
      (pool : r.pool = s.disarmed ∨
        ∃ generation, r.pool = s.disarmed.spawn none [.register generation])
  | fired {generation : Nat} (retries : s.retries i = true)
      (attempts : r.machine.attempts = s.machine.attempts) (reconnect : r.machine.reconnect = none)
      (pool : r.pool = s.pool.spawn none [.register generation])
  | delayed {generation delay : Nat} (fails : s.fails i = some generation)
      (hears : s.machine.hears generation = true) (done : r.machine.Done generation)
      (idle : r.machine.state = .idle) (left : s.delays[s.machine.attempts]? = some delay)
      (attempts : r.machine.attempts = s.machine.attempts + 1)
      (reconnect : r.machine.reconnect = some s.pool.next)
      (pool : r.pool = s.pool.spawn none [.sleep delay, .begin true])
  | gaveUp {generation : Nat} (fails : s.fails i = some generation)
      (hears : s.machine.hears generation = true) (done : r.machine.Done generation)
      (idle : r.machine.state = .idle) (left : s.delays[s.machine.attempts]? = none)
      (attempts : r.machine.attempts = s.machine.attempts) (reconnect : r.machine.reconnect = none)
      (pool : r.pool = s.pool)

/-- A machine that will try again is idle. -/
def Machine.Calm (m : Machine) : Prop :=
  m.reconnect.isSome = true → m.state = .idle

theorem Machine.Calm.reconnect_eq_none {m : Machine} (calm : m.Calm) (busy : m.state ≠ .idle) :
    m.reconnect = none :=
  Option.not_isSome_iff_eq_none.mp fun armed => busy (calm armed)

/-- What comes of a failure, whatever is told of it. -/
theorem Times.of_failure {generation : Nat} {text : String} {b c : State} {m : Machine}
    {effects : List Effect} (fails : s.fails i = some generation)
    (hears : s.machine.hears generation = true) (same : m.generation = s.machine.generation)
    (idle : m.state = .idle) (attempts : m.attempts = s.machine.attempts)
    (free : m.reconnect = none) :
    Times s i (s.apply ⟨(m.scheduleRetry s.delays).1,
      .logged .warn text :: .entered b c :: (m.scheduleRetry s.delays).2, effects⟩).1 := by
  have begun := (Machine.eq_of_hears hears).1.trans same.symm
  unfold Machine.scheduleRetry
  rw [attempts]
  cases left : s.delays[s.machine.attempts]? with
  | some delay =>
    simp only [Machine.cancelled, free, List.nil_append]
    exact .delayed fails hears (.inr ⟨begun, idle⟩) idle left rfl rfl rfl
  | none =>
    dsimp only
    split <;> exact .gaveUp fails hears (.inr ⟨begun, idle⟩) idle left attempts free rfl

/-- What is noted of the task that will try again no more. -/
theorem System.cancelled_notices (s : System) (m : Machine) :
    s.machine.cancelled.foldl System.notice { s with machine := m } =
      { s with machine := m, pool := s.disarmed } := by
  unfold Machine.cancelled System.disarmed
  cases s.machine.reconnect <;> rfl

/-- What a change of the machine does with delays. -/
theorem Makes.times {c : Change} (h : Makes s i c) (calm : s.machine.Calm) :
    Times s i (s.apply c).1 := by
  have same {c : Change} (c_eq : c.machine = s.machine) (n : c.notices = [])
      (counts : i.resets = false) (works : s.fails i = none) (manual : s.retries i = false) :
      Times s i (s.apply c).1 := by
    rw [System.apply, n, c_eq]
    exact .kept counts works manual rfl rfl rfl id
  cases h with
  | @begin retried handle =>
    unfold Machine.begin
    split
    next busy =>
      refine same rfl rfl rfl rfl ?_
      cases retried
      · rfl
      · simpa [System.retries, handle, imp_iff_or_not, or_comm] using busy
    next free =>
      obtain ⟨free, idle⟩ := not_or.mp free
      have idle := Decidable.not_not.mp idle
      cases retried with
      | true => exact .fired (by simp [System.retries, handle, free, idle]) rfl rfl rfl
      | false =>
        simp only [System.apply, Bool.false_eq_true, if_false, List.foldl_append,
          System.cancelled_notices]
        exact .cleared rfl rfl rfl rfl (.inr ⟨_, rfl⟩)
  | stop =>
    simp only [System.apply, Machine.stop, List.foldl_append, System.cancelled_notices]
    split <;> exact .cleared rfl rfl rfl rfl (.inl rfl)
  | @registered generation result handle =>
    cases result with
    | ok h =>
      simp only [Machine.registered]
      split
      next current =>
        have starting := Machine.eq_of_hears (Machine.hears_of_isCurrent current)
        exact .kept rfl rfl rfl rfl rfl rfl fun idle => absurd idle starting.2
      next => exact same rfl rfl rfl rfl rfl
    | error why =>
      simp only [Machine.registered]
      split
      next current =>
        have hears := Machine.hears_of_isCurrent current
        exact .of_failure (by simp [System.fails, handle, current]) hears rfl rfl rfl
          (calm.reconnect_eq_none (Machine.eq_of_hears hears).2)
      next stale => exact same rfl rfl rfl (by simp [System.fails, stale]) rfl
  | @lose generation why =>
    simp only [Machine.lose]
    split
    next hears =>
      exact .of_failure (by simp [System.fails, hears]) hears rfl rfl rfl
        (calm.reconnect_eq_none (Machine.eq_of_hears hears).2)
    next deaf => exact same rfl rfl rfl (by simp [System.fails, deaf]) rfl

/-- **What an instruction does with delays.** -/
theorem Does.times (h : Does s i a r before) (calm : s.machine.Calm) : Times s i r := by
  cases h with
  | lapsed lapses =>
    cases i with
    | act | sleep => exact .kept rfl rfl rfl rfl rfl rfl id
    | begin retried =>
      have gone : s.handle = false := by simpa [System.lapses] using lapses
      refine .kept rfl rfl ?_ rfl rfl rfl id
      cases retried <;> simp [System.retries, gone]
    | registered generation result =>
      cases result with
      | ok h => cases lapses
      | error why =>
        have gone : s.handle = false := by simpa [System.lapses] using lapses
        exact .kept rfl (by simp [System.fails, gone]) rfl rfl rfl rfl id
    | conclude generation x =>
      cases x with
      | reconnecting | reconnected => exact .kept rfl rfl rfl rfl rfl rfl id
      | ok | error | closed => cases lapses
    | _ => cases lapses
  | enrolled _ enrols =>
    cases i with
    | act | revoke | clear => exact .kept rfl rfl rfl rfl rfl rfl id
    | _ => cases enrols
  | made makes => exact makes.times calm
  | dropped =>
    have noted := System.cancelled_notices { s with handle := false } s.machine.dropped.machine
    rw [System.apply]
    refine .cleared rfl rfl ?_ ?_ (.inl ?_)
    · exact congrArg (·.machine.attempts) noted
    · exact congrArg (·.machine.reconnect) noted
    · exact congrArg (·.pool) noted
  | renewed => exact .renewed rfl rfl
  | failed bad =>
    rcases bad with rfl | ⟨rfl, -⟩ <;> exact .kept rfl rfl rfl rfl rfl rfl id
  | _ => exact .kept rfl rfl rfl rfl rfl rfl id

/-! ## In every run -/

theorem resets_of_fails {generation : Nat} (fails : s.fails i = some generation) :
    i.resets = false := by
  cases i <;> first | rfl | cases fails

theorem of_retries (retries : s.retries i = true) : i = .begin true := by
  unfold System.retries at retries
  split at retries
  · rfl
  · cases retries

theorem Times.calm (h : Times s i r) (calm : s.machine.Calm) : r.machine.Calm := by
  intro armed
  cases h with
  | kept _ _ _ _ reconnect _ idle => exact idle (calm (reconnect ▸ armed))
  | renewed ok result => rw [result] at armed ⊢; exact calm armed
  | cleared _ _ _ reconnect | fired _ _ reconnect => rw [reconnect] at armed; cases armed
  | delayed _ _ _ idle | gaveUp _ _ _ idle => exact idle

/-- **Who will try again is idle.** -/
theorem Run.calm (run : Run delays past s) : s.machine.Calm := by
  induction run with
  | start => nofun
  | next run step _ ih =>
    cases step with
    | ask | park => exact ih
    | act found next taken =>
      obtain ⟨r, before, does, -, rfl⟩ := step_does found next taken
      exact (does.times ih).calm ih

theorem Does.schedule (h : Does s i a r before) : r.delays = s.delays := by
  cases h with
  | @made _ c => exact (s.noticed_apply c).delays
  | dropped => exact (System.noticed_apply { s with handle := false } s.machine.dropped).delays
  | _ => rfl

theorem Run.schedule (run : Run delays past s) : s.delays = delays := by
  induction run with
  | start => rfl
  | next run step _ ih =>
    cases step with
    | ask | park => exact ih
    | act found next taken =>
      obtain ⟨r, before, does, -, rfl⟩ := step_does found next taken
      exact does.schedule.trans ih

theorem sinceReset_did (f : System → Move → Bool) (run : Run delays past s) :
    sinceReset f delays (.did t i a :: past) =
      if i.resets then 0 else sinceReset f delays past + (f s (.did t i a)).toNat := by
  rw [sinceReset, run.replay]
  rfl

theorem failures_did (run : Run delays past s) : failures delays (.did t i a :: past) =
    if i.resets then 0 else failures delays past + (s.fails i).isSome.toNat :=
  sinceReset_did _ run

theorem retries_did (run : Run delays past s) : retries delays (.did t i a :: past) =
    if i.resets then 0 else retries delays past + (s.retries i).toNat :=
  sinceReset_did _ run

theorem carried_did (run : Run delays (.did t i a :: past) s) :
    carried delays (.did t i a :: past) =
      if i.resets then s.machine.armed else carried delays past := by
  rw [carried, run.replay]
  rfl

/-- **The delays that were used are those of the failures**, as far as there are any. -/
theorem Run.attempts (run : Run delays past s) :
    s.machine.attempts = min (failures delays past) delays.length := by
  induction run with
  | start => exact (Nat.zero_min _).symm
  | @next past s s' m run step _ ih =>
    cases step with
    | ask | park => exact ih
    | @act _ t task i rest a found next taken =>
      obtain ⟨r, before, does, -, rfl⟩ := step_does found next taken
      have left := run.schedule
      show r.machine.attempts = _
      rw [failures_did run]
      cases does.times run.calm with
      | kept counts works _ attempts =>
        rw [counts, works, attempts]
        exact ih
      | renewed ok result =>
        rw [ok, result]
        exact (Nat.zero_min _).symm
      | cleared works _ attempts =>
        rw [attempts, works]
        split
        · exact (Nat.zero_min _).symm
        · exact ih
      | fired retries attempts =>
        rw [of_retries retries, attempts]
        exact ih
      | delayed fails _ _ _ there attempts =>
        rw [left, List.getElem?_eq_some_iff] at there
        obtain ⟨here, -⟩ := there
        rw [resets_of_fails fails, fails, attempts, if_neg nofun, Option.isSome_some,
          Bool.toNat_true]
        omega
      | gaveUp fails _ _ _ there attempts =>
        rw [left, List.getElem?_eq_none_iff] at there
        rw [resets_of_fails fails, fails, attempts, if_neg nofun, Option.isSome_some,
          Bool.toNat_true]
        omega

/-- **A registration fails once.** -/
theorem Run.once (run : Run delays past s) :
    (blamed delays past).Nodup ∧ ∀ generation ∈ blamed delays past, s.machine.Done generation := by
  induction run with
  | start => exact ⟨List.nodup_nil, nofun⟩
  | @next past s s' m run step _ ih =>
    obtain ⟨distinct, done⟩ := ih
    cases step with
    | ask | park => exact ⟨distinct, done⟩
    | @act _ t task i rest a found next taken =>
      obtain ⟨r, before, does, -, rfl⟩ := step_does found next taken
      have grown : blamed delays (.did t i a :: past) =
          (s.fails i).toList ++ blamed delays past := chronicle_did run _
      have onward (generation : Nat) (old : generation ∈ blamed delays past) :
          r.machine.Done generation := does.onward.done (done generation old)
      rw [grown]
      have failing {generation : Nat} (fails : s.fails i = some generation)
          (hears : s.machine.hears generation = true) (ended : r.machine.Done generation) :
          ((s.fails i).toList ++ blamed delays past).Nodup ∧
            ∀ g ∈ (s.fails i).toList ++ blamed delays past, r.machine.Done g := by
        rw [fails]
        refine ⟨List.nodup_cons.mpr ⟨fun old => ?_, distinct⟩, fun g hg => ?_⟩
        · have deaf := (done generation old).deaf
          rw [hears] at deaf
          cases deaf
        · rcases List.mem_cons.mp hg with rfl | old
          · exact ended
          · exact onward g old
      cases does.times run.calm with
      | delayed fails hears ended => exact failing fails hears ended
      | gaveUp fails hears ended => exact failing fails hears ended
      | kept _ works | cleared works => rw [works]; exact ⟨distinct, onward⟩
      | renewed ok => rw [ok]; exact ⟨distinct, onward⟩
      | fired retries => rw [of_retries retries]; exact ⟨distinct, onward⟩

/-- True of an instruction that stops the watcher. -/
def Instr.stop? : Instr → Option Unit
  | .stop => some ()
  | _ => none

theorem late_stop : Late Instr.stop? := by
  intro stack rests
  cases rests <;> rfl

theorem Makes.disposed {c : Change} (h : Makes s i c) :
    c.machine.disposed = s.machine.disposed := by
  cases h with
  | begin =>
    unfold Machine.begin
    split <;> rfl
  | stop => rfl
  | @registered generation result =>
    cases result with
    | ok => simp only [Machine.registered]; split <;> rfl
    | error =>
      simp only [Machine.registered]
      split
      · rw [Machine.scheduleRetry_machine]
      · rfl
  | lose =>
    simp only [Machine.lose]
    split
    · rw [Machine.scheduleRetry_machine]
    · rfl

/-- How a watcher comes to be disposed of: it is about to stop, or has stopped. -/
theorem Does.of_disposed (h : Does s i a r before) (disposed : r.machine.disposed = true) :
    (i.stop? = none ∧ before = [.stop, .clear]) ∨
      (r.machine.state = .idle ∧ r.machine.reconnect = none) ∨
      i.stop? = none ∧ s.machine.disposed = true := by
  cases h with
  | disposed => exact .inl ⟨rfl, rfl⟩
  | @made _ c makes =>
    have noticed := s.noticed_apply c
    have was : s.machine.disposed = true := by
      rw [noticed.machine] at disposed
      exact makes.disposed ▸ disposed
    cases makes with
    | stop =>
      refine .inr (.inl ⟨noticed.state, ?_⟩)
      simp only [System.apply, Machine.stop, List.foldl_append, System.cancelled_notices]
      split <;> rfl
    | begin | registered | lose => exact .inr (.inr ⟨rfl, was⟩)
  | dropped =>
    rw [(System.noticed_apply { s with handle := false } s.machine.dropped).machine] at disposed
    exact .inr (.inr ⟨rfl, disposed⟩)
  | lapsed lapses =>
    refine .inr (.inr ⟨?_, disposed⟩)
    cases i <;> first | rfl | cases lapses
  | enrolled _ enrols =>
    refine .inr (.inr ⟨?_, disposed⟩)
    cases i <;> first | rfl | cases enrols
  | _ => exact .inr (.inr ⟨rfl, disposed⟩)

/-- **A watcher that is disposed of is about to stop**, or it is idle and will not try again. -/
theorem Run.disposed (run : Run delays past s) (disposed : s.machine.disposed = true) :
    (s.machine.state = .idle ∧ s.machine.reconnect = none) ∨ s.pool.work Instr.stop? ≠ [] := by
  induction run with
  | start => cases disposed
  | @next past s s' m run step _ ih =>
    cases step with
    | ask a => rw [s.work_asked late_stop]; exact ih disposed
    | park found next waits => rw [run.work_parked late_stop found next waits]; exact ih disposed
    | @act _ t task i rest a found next taken =>
      obtain ⟨r, before, does, -, rfl⟩ := step_does found next taken
      have work := run.work_did late_stop found next does
      rcases does.of_disposed disposed with ⟨other, rfl⟩ | reached | ⟨other, was⟩
      · refine .inr fun none => ?_
        rw [none, other] at work
        exact nomatch (List.append_eq_nil_iff.mp work.symm.eq_nil).2
      · exact .inl reached
      · rcases ih was with ⟨idle, free⟩ | pending
        · refine .inl ⟨does.onward.idle_of_disposed was idle, ?_⟩
          show r.machine.reconnect = none
          cases does.times run.calm with
          | kept _ _ _ _ reconnect => exact reconnect.trans free
          | renewed _ result => rw [result]; exact free
          | cleared _ _ _ reconnect | fired _ _ reconnect => exact reconnect
          | delayed _ hears => exact absurd idle (Machine.eq_of_hears hears).2
          | gaveUp _ _ _ _ _ _ reconnect => exact reconnect
        · refine .inr fun none => pending ?_
          rw [none, other] at work
          exact (List.append_eq_nil_iff.mp work.symm.eq_nil).1

/-- What a failure comes to: after the next delay, if there is one, another task tries again. -/
def Arms (delay : Option Nat) (s s' : System) : Prop :=
  match delay with
  | some d => s'.machine.reconnect = some s.pool.next ∧ s'.pool.next = s.pool.next + 1 ∧
      (s.pool.next, ⟨none, [.sleep d, .begin true], true, false⟩) ∈ s'.pool.tasks
  | none => s'.machine.reconnect = none ∧ s'.pool.next = s.pool.next

/-- **A failure makes the next delay begin.** -/
theorem Run.arms (run : Run delays past s) {m : Move} (step : Moves s m s') {generation : Nat}
    (failed : s.failed m = some generation) : Arms delays[failures delays past]? s s' := by
  cases step with
  | ask | park => cases failed
  | @act _ t task i rest a found next taken =>
    obtain ⟨r, before, does, -, rfl⟩ := step_does found next taken
    have failed : s.fails i = some generation := failed
    have used : delays[failures delays past]? = s.delays[s.machine.attempts]? := by
      rw [run.schedule, run.attempts]
      rcases Nat.le_total (failures delays past) delays.length with few | many
      · rw [Nat.min_eq_left few]
      · rw [Nat.min_eq_right many, List.getElem?_eq_none many,
          List.getElem?_eq_none (Nat.le_refl _)]
    rw [used]
    cases does.times run.calm with
    | delayed _ _ _ _ left _ reconnect pool =>
      rw [left]
      refine ⟨reconnect, ?_, ?_⟩
      · rw [System.proceed, Pool.next_proceed, pool]
        rfl
      · have below := (Sound.of_run run).tidy.numbered.below _ (Pool.mem_of_get? found)
        rw [System.proceed, pool]
        exact Pool.mem_proceed_of_ne (List.mem_append_right _ List.mem_cons_self)
          (Nat.ne_of_gt below)
    | gaveUp _ _ _ _ left _ reconnect pool =>
      rw [left]
      refine ⟨reconnect, ?_⟩
      rw [System.proceed, Pool.next_proceed, pool]
    | kept _ works | cleared works => rw [works] at failed; cases failed
    | renewed ok => rw [ok] at failed; cases failed
    | fired retries => rw [of_retries retries] at failed; cases failed

/-- Nothing but a failure makes a delay begin. -/
theorem Run.armed_only (run : Run delays past s) {m : Move} (step : Moves s m s')
    (works : s.failed m = none) {k : TaskId} (armed : s'.machine.reconnect = some k) :
    s.machine.reconnect = some k := by
  cases step with
  | ask | park => exact armed
  | @act _ t task i rest a found next taken =>
    obtain ⟨r, before, does, -, rfl⟩ := step_does found next taken
    have works : s.fails i = none := works
    have armed : r.machine.reconnect = some k := armed
    cases does.times run.calm with
    | kept _ _ _ _ reconnect => rwa [reconnect] at armed
    | renewed _ result => rwa [result] at armed
    | cleared _ _ _ reconnect | fired _ _ reconnect => rw [reconnect] at armed; cases armed
    | delayed fails | gaveUp fails => rw [works] at fails; cases fails

/-! ## Who tries again -/

/-- Whether the task that will try again is in its turn: it does not sleep any more, and is yet to
begin a registration. -/
def System.awake (s : System) : Bool :=
  match s.machine.reconnect with
  | some k => (s.pool.get? k).any fun task => !task.parked
  | none => false

/-- Whether a task gives up the one that will try again while that one is in its turn. -/
def System.overtakes (s : System) : Move → Bool
  | .did t i a => s.awake && s.machine.reconnect ≠ some t &&
      (s.after (.did t i a)).machine.reconnect ≠ s.machine.reconnect
  | _ => false

/-- Whether no task that would try again was given up in its turn. -/
def punctual (delays : List Nat) : List Move → Bool
  | [] => true
  | m :: past => !(replay delays past).overtakes m && punctual delays past

theorem punctual_tail {m : Move} (h : punctual delays (m :: past) = true) :
    punctual delays past = true :=
  (Bool.and_eq_true_iff.mp h).2

theorem Run.not_overtakes {m : Move} (run : Run delays past s)
    (h : punctual delays (m :: past) = true) : s.overtakes m = false := by
  have first := (Bool.and_eq_true_iff.mp h).1
  rwa [run.replay, Bool.not_eq_true'] at first

theorem System.awake_eq_false {s : System} (numbered : s.pool.Numbered) : s.awake = false ↔
    s.pool.Every fun k task => s.machine.reconnect = some k → task.parked = true := by
  unfold System.awake
  constructor
  · intro asleep e he known
    rw [known] at asleep
    simpa [Pool.get?_of_mem numbered he] using asleep
  · intro parked
    cases known : s.machine.reconnect with
    | none => rfl
    | some k =>
      cases found : s.pool.get? k with
      | none => simp [found]
      | some task =>
        have here : task.parked = true := parked _ (Pool.mem_of_get? found) known
        simp [found, here]

/-- If turns are taken to their ends, nobody is given up in its turn. -/
theorem Run.punctual (run : Run delays past s) (turns : orderly delays past = true) :
    punctual delays past = true := by
  induction run with
  | start => rfl
  | @next past s s' m run step _ ih =>
    refine Bool.and_eq_true_iff.mpr ⟨?_, ih (orderly_tail turns)⟩
    rw [run.replay, Bool.not_eq_true']
    cases step with
    | ask | park => rfl
    | @act _ t task i rest a found next taken =>
      have parked := System.parked_of_alone (run.alone turns)
      by_cases own : s.machine.reconnect = some t
      · simp [System.overtakes, own]
      · have asleep : s.awake = false := by
          refine (System.awake_eq_false (Sound.of_run run).tidy.numbered).mpr ?_
          intro e he known
          refine parked e he fun same => own ?_
          rw [known, same]
        simp [System.overtakes, asleep]

/-- True of what a task that tries again has to do. -/
def Instr.tries : Instr → Bool
  | .sleep _ | .begin true => true
  | _ => false

/-- Of the tasks that try again, all but the one that the machine knows of go no further. -/
def System.Single (s : System) : Prop :=
  s.pool.Every fun k task => task.stack.any Instr.tries = true →
    (task.aborted = true ∧ task.parked = true) ∨ s.machine.reconnect = some k

/-- No instruction has a task try again. -/
theorem Does.tries (h : Does s i a r before) : before.any Instr.tries = false := by
  have acts (as : List Action) : (as.map Instr.act).any Instr.tries = false :=
    List.any_eq_false.mpr (List.forall_mem_map.mpr fun _ _ => nofun)
  have effects (es : List Effect) : (es.map System.instrFor).any Instr.tries = false :=
    List.any_eq_false.mpr (List.forall_mem_map.mpr fun e _ => by cases e <;> exact nofun)
  cases h with
  | enrolled parts => exact List.any_eq_false.mpr (List.forall_mem_map.mpr fun _ _ => nofun)
  | made | dropped => exact effects _
  | used | told | reached => exact acts _
  | meanwhile => rw [List.any_append, acts]; rfl
  | delivered => simp [Instr.tries]
  | _ => rfl

/-- Only a task that sleeps will try again after something else. -/
theorem Seated.sleeps_of_tries (h : Seated (i :: rest)) (tries : rest.any Instr.tries = true) :
    ∃ delay, i = .sleep delay := by
  obtain ⟨j, hj, tries⟩ := List.any_eq_true.mp tries
  have root : j.roots = true := by
    cases j with
    | sleep => rfl
    | begin retried => cases retried <;> first | rfl | cases tries
    | _ => cases tries
  generalize stacked : i :: rest = stack at h
  cases h with
  | loose loose =>
    subst stacked
    rw [loose j (List.mem_cons_of_mem i hj)] at root
    cases root
  | @registers above generation loose =>
    have hj : j ∈ above ++ [.register generation] := stacked ▸ List.mem_cons_of_mem i hj
    rcases List.mem_append.mp hj with hj | hj
    · rw [loose j hj] at root
      cases root
    · rw [List.mem_singleton.mp hj] at tries
      cases tries
  | registered | retries =>
    obtain ⟨-, rfl⟩ := List.cons.inj stacked
    cases hj
  | sleeps delay => exact ⟨delay, (List.cons.inj stacked).1⟩

/-- What is true of all tasks but one: those that try again go no further, or it is the one that is
known of. -/
def Beside (t : TaskId) (known : Option TaskId) (k : TaskId) (task : Task Instr) : Prop :=
  k ≠ t → task.stack.any Instr.tries = true →
    (task.aborted = true ∧ task.parked = true) ∨ known = some k

theorem System.Single.beside {known : Option TaskId} (h : s.Single)
    (same : ∀ k, k ≠ t → s.machine.reconnect = some k → known = some k) :
    s.pool.Every (Beside t known) :=
  fun e he other tries => (h e he tries).imp_right (same e.1 other)

/-- When the task that will try again is told not to, none is left that goes further. -/
theorem System.Single.disarmed (h : s.Single)
    (parked : s.pool.Every fun k task => k ≠ t → s.machine.reconnect = some k →
      task.parked = true) :
    s.disarmed.Every (Beside t none) := by
  unfold System.disarmed
  cases armed : s.machine.reconnect with
  | none => exact h.beside fun k _ mine => by rwa [armed] at mine
  | some tried =>
    intro e he other tries
    obtain ⟨task, hmem, same⟩ := Pool.mem_modify.mp he
    split at same
    next mine => rw [same]; exact .inl ⟨rfl, parked _ hmem other (by rw [armed, mine])⟩
    next apart =>
      rw [same] at tries ⊢
      refine .inl ((h _ hmem tries).resolve_right fun mine => apart ?_)
      rw [armed] at mine
      exact (Option.some.inj mine).symm

/-- What a turn leaves of the other tasks that try again. -/
theorem Times.others (h : Times s i r) (calm : s.machine.Calm) (single : s.Single)
    (parked : r.machine.reconnect = none → s.pool.Every fun k task => k ≠ t →
      s.machine.reconnect = some k → task.parked = true)
    (own : s.retries i = true → s.machine.reconnect = some t) :
    r.pool.Every (Beside t r.machine.reconnect) := by
  have none {known : Option TaskId} (free : s.machine.reconnect = none) :
      s.pool.Every (Beside t known) :=
    single.beside fun k _ mine => by rw [free] at mine; cases mine
  cases h with
  | kept _ _ _ _ reconnect pool =>
    rw [pool, reconnect]
    exact single.beside fun _ _ mine => mine
  | renewed _ result =>
    rw [result]
    exact single.beside fun _ _ mine => mine
  | cleared _ _ _ reconnect pool =>
    have others := single.disarmed (parked reconnect)
    rw [reconnect]
    rcases pool with pool | ⟨generation, pool⟩
    · rw [pool]
      exact others
    · rw [pool]
      exact others.spawn fun _ => nofun
  | fired retries _ reconnect pool =>
    rw [pool]
    refine Pool.Every.spawn (single.beside fun k other mine => absurd ?_ other) fun _ => nofun
    rw [own retries] at mine
    exact (Option.some.inj mine).symm
  | delayed _ hears _ _ _ _ reconnect pool =>
    rw [pool]
    exact (none (calm.reconnect_eq_none (Machine.eq_of_hears hears).2)).spawn
      fun _ _ => .inr reconnect
  | gaveUp _ hears _ _ _ _ _ pool =>
    rw [pool]
    exact none (calm.reconnect_eq_none (Machine.eq_of_hears hears).2)

/-- A task that takes its turn to try again is the one that the machine knows of. -/
theorem System.Single.own (h : s.Single) (found : s.pool.get? t = some task)
    (awake : (task.parked && task.aborted) = false) (tries : task.stack.any Instr.tries = true) :
    s.machine.reconnect = some t := by
  refine (h _ (Pool.mem_of_get? found) tries).resolve_left fun both => ?_
  rw [both.1, both.2] at awake
  cases awake

theorem tries_of_retries (retries : s.retries i = true) : i.tries = true := by
  rw [of_retries retries]
  rfl

/-- **If nobody is given up in its turn, one task at most tries again.** -/
theorem Run.single_of_punctual (run : Run delays past s)
    (prompt : Watcher.punctual delays past = true) : s.Single := by
  induction run with
  | start => exact Pool.every_empty
  | @next past s s' m run step _ ih =>
    have single := ih (punctual_tail prompt)
    cases step with
    | ask a => exact Pool.Every.spawn single nofun
    | park => exact Pool.Every.park single fun _ _ here tries => (here tries).imp_left (⟨·.1, rfl⟩)
    | @act _ t task i rest a found next taken =>
      have after := (Moves.act found next taken).after
      obtain ⟨r, before, does, awake, rfl⟩ := step_does found next taken
      have parked (free : r.machine.reconnect = none) : s.pool.Every fun k task => k ≠ t →
          s.machine.reconnect = some k → task.parked = true := by
        intro e he other known
        have now : (s.after (.did t i a)).machine.reconnect = none := after ▸ free
        have asleep : s.awake = false := by
          refine Bool.eq_false_iff.mpr fun awake => other ?_
          simpa [System.overtakes, awake, now, known] using run.not_overtakes prompt
        have numbered := (Sound.of_run run).tidy.numbered
        exact (System.awake_eq_false numbered).mp asleep e he known
      have times := does.times run.calm
      have mine := single.own found awake
      rw [next, List.any_cons, Bool.or_eq_true] at mine
      have others := times.others run.calm single parked fun retries =>
        mine (.inl (tries_of_retries retries))
      intro e he tries
      rcases Pool.mem_proceed he with ⟨other, he⟩ | ⟨same, own, -, goes⟩
      · exact others e he other tries
      · -- What is left to try again is what the task slept for.
        rw [goes, List.any_append, does.tries, Bool.false_or] at tries
        have seated := (run.seated _ (Pool.mem_of_get? found)).1
        simp only [next] at seated
        obtain ⟨delay, rfl⟩ := seated.sleeps_of_tries tries
        refine .inr ?_
        show r.machine.reconnect = some e.1
        rw [same]
        cases does with
        | lapsed => exact mine (.inl rfl)
        | enrolled _ enrols => cases enrols
        | made makes => cases makes

/-! ## In turns taken to their ends -/

/-- **In turns taken to their ends, one task at most tries again.** -/
theorem Run.single (run : Run delays past s) (turns : orderly delays past = true) : s.Single :=
  run.single_of_punctual (run.punctual turns)

theorem System.Single.timers (h : s.Single) : ∀ k ∈ s.timers, s.machine.reconnect = some k := by
  intro k hk
  obtain ⟨e, he, rfl⟩ := List.mem_map.mp hk
  obtain ⟨hmem, sleeps⟩ := List.mem_filter.mp he
  obtain ⟨awake, sleeps⟩ := Bool.and_eq_true_iff.mp sleeps
  have tries : e.2.stack.any Instr.tries = true := by
    obtain ⟨i, hi, sleeps⟩ := List.any_eq_true.mp sleeps
    refine List.any_eq_true.mpr ⟨i, hi, ?_⟩
    cases i <;> first | rfl | cases sleeps
  refine (h e hmem tries).resolve_left fun both => ?_
  rw [both.1] at awake
  cases awake

theorem System.Single.timers_length (h : s.Single) (numbered : s.pool.Numbered) :
    s.timers.length ≤ 1 := by
  have distinct : s.timers.Nodup := numbered.distinct.sublist (List.filter_sublist.map _)
  have known := h.timers
  match same : s.timers with
  | [] | [_] => exact Nat.le_of_ble_eq_true rfl
  | first :: second :: others =>
    rw [same] at distinct known
    have one := (known first List.mem_cons_self).symm.trans
      (known second (List.mem_cons_of_mem _ List.mem_cons_self))
    refine absurd ?_ (List.nodup_cons.mp distinct).1
    rw [Option.some.inj one]
    exact List.mem_cons_self

theorem Machine.armed_of_none {m : Machine} (free : m.reconnect = none) : m.armed = 0 := by
  rw [armed, free]
  rfl

theorem Machine.armed_of_some {m : Machine} {k : TaskId} (known : m.reconnect = some k) :
    m.armed = 1 := by
  rw [armed, known]
  rfl

theorem retries_of_fails {generation : Nat} (fails : s.fails i = some generation) :
    s.retries i = false := by
  cases i <;> first | rfl | cases fails

/-- **What tasks that tried again began was paid for by failures**, but for what was carried
over. -/
theorem Run.paid (run : Run delays past s) (turns : orderly delays past = true) :
    retries delays past + s.machine.armed ≤ s.machine.attempts + carried delays past := by
  induction run with
  | start => exact Nat.le_refl _
  | @next past s s' m run step new ih =>
    have paid := ih (orderly_tail turns)
    have whole := run.next step new
    cases step with
    | ask | park => exact paid
    | @act _ t task i rest a found next taken =>
      obtain ⟨r, before, does, awake, rfl⟩ := step_does found next taken
      rw [retries_did run, carried_did whole]
      show _ + r.machine.armed ≤ r.machine.attempts + if i.resets then r.machine.armed else _
      cases does.times run.calm with
      | kept counts _ manual attempts reconnect =>
        rw [counts, manual, attempts, Machine.armed, reconnect]
        exact paid
      | renewed ok result =>
        rw [ok, result]
        exact Nat.le_refl _
      | cleared _ manual attempts reconnect =>
        rw [manual, attempts, Machine.armed_of_none reconnect]
        split
        · exact Nat.le_refl _
        · exact Nat.le_trans (Nat.add_le_add_left (Nat.zero_le _) _) paid
      | fired retries attempts reconnect =>
        -- The task that tries again is the one that was known of, and now none is.
        have mine := (run.single (orderly_tail turns)).own found awake
          (by rw [next, List.any_cons, tries_of_retries retries]; rfl)
        rw [Machine.armed_of_some mine] at paid
        rw [retries, of_retries retries, attempts, Machine.armed_of_none reconnect]
        exact paid
      | delayed fails hears _ _ _ attempts reconnect =>
        have free := run.calm.reconnect_eq_none (Machine.eq_of_hears hears).2
        rw [Machine.armed_of_none free] at paid
        rw [resets_of_fails fails, retries_of_fails fails, attempts,
          Machine.armed_of_some reconnect, if_neg nofun, if_neg nofun, Bool.toNat_false]
        omega
      | gaveUp fails hears _ _ _ attempts reconnect =>
        rw [resets_of_fails fails, retries_of_fails fails, attempts,
          Machine.armed_of_none reconnect, if_neg nofun, if_neg nofun, Bool.toNat_false]
        omega

/-- Whoever finds that a registration failed has nothing more to do about signals. -/
theorem Run.quiet_of_fails {generation : Nat} (run : Run delays past s)
    (single : oneByOne delays past = true) (found : s.pool.get? t = some task)
    (next : task.stack = i :: rest) (does : Does s i a r before)
    (fails : s.fails i = some generation) : (before ++ rest).filter Instr.serves = [] := by
  have hmem := Pool.mem_of_get? found
  cases i with
  | registered g result =>
    have seated := (run.seated _ hmem).1
    simp only [next] at seated
    cases seated.rooted rfl
    cases does.voices with
    | aside _ plains => rw [List.append_nil, plains]
  | lose g why =>
    obtain ⟨owner, serves⟩ := run.serves single
    have here := (serves _ hmem).1
    rw [next] at here
    cases does.voices with
    | aside plain => cases plain
    | lost plains => rw [List.filter_append, plains, here.of_lose.1]; rfl
  | _ => cases fails

/-- If signals come one after the other, nobody is about to try again while one is passed on. -/
theorem Run.silent (run : Run delays past s) (turns : orderly delays past = true)
    (single : oneByOne delays past = true) :
    (s.pool.Every fun _ task => task.stack.filter Instr.serves = []) ∨
      s.machine.reconnect = none := by
  induction run with
  | start => exact .inr rfl
  | @next past s s' m run step _ ih =>
    have earlier := (Bool.and_eq_true_iff.mp single).2
    have silent := ih (orderly_tail turns) earlier
    cases step with
    | ask a => exact silent.imp_left fun quiet => quiet.spawn rfl
    | park => exact silent.imp_left fun quiet => quiet.park fun _ _ here => here
    | @act _ t task i rest a found next taken =>
      obtain ⟨r, before, does, -, rfl⟩ := step_does found next taken
      have hmem := Pool.mem_of_get? found
      -- The others are between two turns, where nothing is done about signals.
      have quiet (own : (before ++ rest).filter Instr.serves = []) :
          (r.proceed t (before ++ rest)).pool.Every
            fun _ task => task.stack.filter Instr.serves = [] := fun e he => by
        rcases run.turn does (run.alone turns) he with ⟨-, rests⟩ | ⟨-, goes⟩
        · exact rests.serves
        · rw [goes]; exact own
      -- Unless a signal is passed on, nothing is to be done about one before and after.
      have kept (same : r.machine.reconnect = s.machine.reconnect) :
          (r.proceed t (before ++ rest)).pool.Every
              (fun _ task => task.stack.filter Instr.serves = []) ∨
            r.machine.reconnect = none := by
        rcases silent with none | free
        · have own : task.stack.filter Instr.serves = [] := none _ hmem
          rw [next, List.filter_eq_nil_iff] at own
          have plain : i.serves = false := Bool.eq_false_iff.mpr (own i List.mem_cons_self)
          have later : rest.filter Instr.serves = [] :=
            List.filter_eq_nil_iff.mpr fun j hj => own j (List.mem_cons_of_mem i hj)
          cases does.voices with
          | aside _ plains => exact .inl (quiet (by rw [List.filter_append, plains, later]; rfl))
          | heard accepts =>
            have hears := (heard_of_accepted (accepts t a)).2.1
            exact .inr (same.trans (run.calm.reconnect_eq_none (Machine.eq_of_hears hears).2))
          | delivered | reached | settled | failed | lost => cases plain
        · exact .inr (same.trans free)
      cases does.times run.calm with
      | kept _ _ _ _ reconnect => exact kept reconnect
      | renewed _ result => exact kept (by rw [result])
      | cleared _ _ _ reconnect | fired _ _ reconnect => exact .inr reconnect
      | gaveUp _ _ _ _ _ _ reconnect => exact .inr reconnect
      | delayed fails => exact .inl (quiet (run.quiet_of_fails earlier found next does fails))

/-- **If signals come one after the other, nothing is carried over.** -/
theorem Run.square (run : Run delays past s) (turns : orderly delays past = true)
    (single : oneByOne delays past = true) : carried delays past = 0 := by
  induction run with
  | start => rfl
  | @next past s s' m run step new ih =>
    have earlier := (Bool.and_eq_true_iff.mp single).2
    have square := ih (orderly_tail turns) earlier
    have whole := run.next step new
    cases step with
    | ask | park => exact square
    | @act _ t task i rest a found next taken =>
      obtain ⟨r, before, does, -, rfl⟩ := step_does found next taken
      rw [carried_did whole]
      show (if i.resets then r.machine.armed else carried delays past) = 0
      cases does.times run.calm with
      | kept counts => rw [counts]; exact square
      | renewed ok result =>
        rw [ok, result]
        show s.machine.armed = 0
        rcases run.silent (orderly_tail turns) earlier with quiet | free
        · have own : task.stack.filter Instr.serves = [] := quiet _ (Pool.mem_of_get? found)
          rw [next, ok] at own
          cases own
        · exact Machine.armed_of_none free
      | cleared _ _ _ reconnect =>
        rw [Machine.armed_of_none reconnect, square]
        exact ite_self 0
      | fired retries => rw [of_retries retries]; exact square
      | delayed fails | gaveUp fails => rw [resets_of_fails fails]; exact square

/-- Who starts the watcher, or stops it, has nobody try again. -/
theorem Run.disarms (run : Run delays past s) (does : Does s i a r before)
    (starts : i = .stop ∨ i = .begin false ∧ s.handle = true ∧ s.machine.disposed = false) :
    r.machine.reconnect = none := by
  rcases starts with rfl | ⟨rfl, handle, free⟩
  · cases does.times run.calm with
    | kept counts => cases counts
    | renewed ok => cases ok
    | cleared _ _ _ reconnect => exact reconnect
    | fired retries => cases retries
    | delayed fails | gaveUp fails => cases fails
  · cases does with
    | lapsed gone => simp [System.lapses, handle] at gone
    | enrolled _ enrols => cases enrols
    | made makes =>
      cases makes with
      | begin =>
        unfold Machine.begin
        split
        next busy =>
          refine run.calm.reconnect_eq_none (busy.resolve_left ?_)
          simp [free]
        next =>
          simp only [System.apply, Bool.false_eq_true, if_false, List.foldl_append,
            System.cancelled_notices]
          rfl

/-! ## The law -/

/-- When a watcher tries again. -/
structure Scheduled (delays : List Nat) (past : List Move) (s : System) : Prop where
  /-- The delays that were used are those of the failures, as far as there are any. -/
  attempts : s.machine.attempts = min (failures delays past) delays.length
  /-- A failure makes the delay begin that comes next, if there is one. -/
  arms : ∀ later m older generation, past = later ++ m :: older →
    (replay delays older).failed m = some generation →
    Arms delays[failures delays older]? (replay delays older) (replay delays (m :: older))
  /-- Nothing else makes one begin. -/
  only : ∀ later m older k, past = later ++ m :: older → (replay delays older).failed m = none →
    (replay delays (m :: older)).machine.reconnect = some k →
    (replay delays older).machine.reconnect = some k
  /-- A registration fails once, also if a signal says so before it comes to its end. -/
  once : (blamed delays past).Nodup
  idle : s.machine.reconnect.isSome = true → s.machine.state = .idle
  /-- A watcher that was disposed of will not try again, or is about to stop. -/
  disposed : s.machine.disposed = true →
    s.machine.reconnect = none ∨ s.pool.work Instr.stop? ≠ []
  /-- Between two turns it is not about to. -/
  rest : (∀ e ∈ s.pool.tasks, e.2.parked = true) → s.machine.disposed = true →
    s.machine.reconnect = none
  /-- In turns that are taken to their ends, whoever sleeps is the one that the machine knows of. -/
  timers : orderly delays past = true →
    s.timers.length ≤ 1 ∧ ∀ k ∈ s.timers, s.machine.reconnect = some k
  /-- Who stops the watcher or starts it anew has nobody try again. -/
  disarms : orderly delays past = true → ∀ later t i a older, past = later ++ .did t i a :: older →
    i = .stop ∨ i = .begin false ∧ (replay delays older).handle = true ∧
      (replay delays older).machine.disposed = false →
    (replay delays (.did t i a :: older)).machine.reconnect = none ∧
      (replay delays (.did t i a :: older)).timers = []
  /-- What tasks that tried again began was paid for by failures, but for what was carried over. -/
  paid : orderly delays past = true →
    retries delays past + s.machine.armed ≤ s.machine.attempts + carried delays past
  /-- If signals come one after the other, for which it is enough that all have manners, nothing is
  carried over. -/
  square : orderly delays past = true →
    oneByOne delays past = true ∨ mannerly past = true → carried delays past = 0
  /-- Then tasks that tried again began as many registrations as there are delays at most. -/
  within : orderly delays past = true →
    oneByOne delays past = true ∨ mannerly past = true → retries delays past ≤ delays.length

/-- **A watcher tries again after the delays of its list, one after the other.** -/
theorem scheduled_of_run (run : Run delays past s) : Scheduled delays past s where
  attempts := run.attempts
  arms := by
    rintro later m older generation rfl failed
    exact run.before.arms run.step failed
  only := by
    rintro later m older k rfl works armed
    exact run.before.armed_only run.step works armed
  once := run.once.1
  idle := run.calm
  disposed gone := (run.disposed gone).imp_left (·.2)
  rest parked gone := by
    rcases run.disposed gone with ⟨-, free⟩ | pending
    · exact free
    · exact absurd (run.work_of_rest late_stop parked) pending
  timers turns :=
    ⟨(run.single turns).timers_length (Sound.of_run run).tidy.numbered, (run.single turns).timers⟩
  disarms := by
    rintro turns later t i a older rfl starts
    obtain ⟨task, rest, r, before, -, -, does, after⟩ := run.did
    have single := run.older.single (orderly_older turns)
    have free : (replay delays (.did t i a :: older)).machine.reconnect = none := by
      rw [after]
      show r.machine.reconnect = none
      exact run.before.disarms does starts
    refine ⟨free, List.eq_nil_iff_forall_not_mem.mpr fun k hk => ?_⟩
    have known := single.timers k hk
    rw [free] at known
    cases known
  paid := run.paid
  square turns manners := run.square turns (manners.elim id (oneByOne_of_turns run turns))
  within turns manners := by
    have single := manners.elim id (oneByOne_of_turns run turns)
    have paid := run.paid turns
    rw [run.square turns single, run.attempts] at paid
    omega

/-- A registration that is lost before it is refused, and another one that is refused. -/
theorem scheduled_of_early_loss : ∃ past s, Run [5] past s ∧ orderly [5] past = true ∧
    oneByOne [5] past = true ∧ failures [5] past = 2 ∧ blamed [5] past = [2, 1] ∧
    retries [5] past = 1 ∧ s.machine = ⟨.idle, 2, none, 1, none, false⟩ ∧
    Scheduled [5] past s := by
  have asked := (Run.start : Run [5] [] (.initial [5])).next (.ask _ .start) nofun
  have started := asked.next (.act (t := 0) (a := .nothing) rfl rfl rfl) nofun
  have begun := started.next (.act (t := 0) (a := .nothing) rfl rfl rfl) nofun
  have early := begun.next
    (.act (t := 1) (a := .actions [.signal 1 .closed none]) rfl rfl rfl) nofun
  have signalled := early.next (.act (t := 1) (a := .nothing) rfl rfl rfl) nofun
  have heard := signalled.next (.act (t := 1) (a := .nothing) rfl rfl rfl) nofun
  have delivered := heard.next (.act (t := 1) (a := .nothing) rfl rfl rfl) nofun
  have concluded := delivered.next (.act (t := 1) (a := .nothing) rfl rfl rfl) nofun
  have lost := concluded.next (.act (t := 1) (a := .nothing) rfl rfl rfl) nofun
  have refused := lost.next
    (.act (t := 1) (a := .registered (.error .disabled)) rfl rfl rfl) nofun
  have noted := refused.next (.act (t := 1) (a := .nothing) rfl rfl rfl) nofun
  have slept := noted.next (.act (t := 2) (a := .nothing) rfl rfl rfl) nofun
  have begun := slept.next (.act (t := 2) (a := .nothing) rfl rfl rfl) nofun
  have refused := begun.next
    (.act (t := 3) (a := .registered (.error .disabled)) rfl rfl rfl) nofun
  have failed := refused.next (.act (t := 3) (a := .nothing) rfl rfl rfl) nofun
  have told := failed.next (.act (t := 3) (a := .actions []) rfl rfl rfl) nofun
  exact ⟨_, _, told, rfl, rfl, rfl, rfl, rfl, rfl, scheduled_of_run told⟩

/-- Two runs in which delays and failures part. A listener that is told that all is well has the
daemon close the connection before it returns: the delay that begins then is on nobody's account,
and two registrations are begun by tasks that try again, though there is one delay. And after a
watcher was dropped, the failure of the registration that it waits for makes no delay begin. -/
theorem unscheduled_of_nested_loss_and_drop :
    (∃ past s, Run [5] past s ∧ orderly [5] past = true ∧ carried [5] past = 1 ∧
      failures [5] past = 1 ∧ s.machine.attempts = 1 ∧ retries [5] past = 2) ∧
    ∃ past t s, Run [5] (.did t (.registered 1 (.error .disabled)) .nothing :: past) s ∧
      orderly [5] (.did t (.registered 1 (.error .disabled)) .nothing :: past) = true ∧
      (replay [5] past).machine.isCurrent 1 = true ∧ s.machine.reconnect = none ∧
      s.timers = [] := by
  constructor
  · have asked := (Run.start : Run [5] [] (.initial [5])).next (.ask _ (.listen ⟨"l", 0⟩)) nofun
    have listens := asked.next (.act (t := 0) (a := .nothing) rfl rfl rfl) nofun
    have asked := listens.next (.ask _ .start) nofun
    have started := asked.next (.act (t := 1) (a := .nothing) rfl rfl rfl) nofun
    have begun := started.next (.act (t := 1) (a := .nothing) rfl rfl rfl) nofun
    have granted := begun.next (.act (t := 2) (a := .registered (.ok 0)) rfl rfl rfl) nofun
    have listening := granted.next (.act (t := 2) (a := .nothing) rfl rfl rfl) nofun
    have told := listening.next (.act (t := 2) (a := .actions []) rfl rfl rfl) nofun
    have emitted := told.next (.ask _ (.signal 1 .ok none)) nofun
    have signalled := emitted.next (.act (t := 3) (a := .nothing) rfl rfl rfl) nofun
    have heard := signalled.next (.act (t := 3) (a := .nothing) rfl rfl rfl) nofun
    have delivered := heard.next (.act (t := 3) (a := .nothing) rfl rfl rfl) nofun
    have nested := delivered.next
      (.act (t := 3) (a := .actions [.signal 1 .closed none]) rfl rfl rfl) nofun
    have signalled := nested.next (.act (t := 3) (a := .nothing) rfl rfl rfl) nofun
    have heard := signalled.next (.act (t := 3) (a := .nothing) rfl rfl rfl) nofun
    have delivered := heard.next (.act (t := 3) (a := .nothing) rfl rfl rfl) nofun
    have reached := delivered.next (.act (t := 3) (a := .actions []) rfl rfl rfl) nofun
    have concluded := reached.next (.act (t := 3) (a := .nothing) rfl rfl rfl) nofun
    have lost := concluded.next (.act (t := 3) (a := .nothing) rfl rfl rfl) nofun
    have gaveUp := lost.next (.act (t := 3) (a := .actions []) rfl rfl rfl) nofun
    have told := gaveUp.next (.act (t := 3) (a := .actions []) rfl rfl rfl) nofun
    have renewed := told.next (.act (t := 3) (a := .nothing) rfl rfl rfl) nofun
    have slept := renewed.next (.act (t := 4) (a := .nothing) rfl rfl rfl) nofun
    have begun := slept.next (.act (t := 4) (a := .nothing) rfl rfl rfl) nofun
    have refused := begun.next
      (.act (t := 5) (a := .registered (.error .disabled)) rfl rfl rfl) nofun
    have failed := refused.next (.act (t := 5) (a := .nothing) rfl rfl rfl) nofun
    have told := failed.next (.act (t := 5) (a := .actions []) rfl rfl rfl) nofun
    have slept := told.next (.act (t := 6) (a := .nothing) rfl rfl rfl) nofun
    have begun := slept.next (.act (t := 6) (a := .nothing) rfl rfl rfl) nofun
    exact ⟨_, _, begun, rfl, rfl, rfl, rfl, rfl⟩
  · have asked := (Run.start : Run [5] [] (.initial [5])).next (.ask _ .start) nofun
    have started := asked.next (.act (t := 0) (a := .nothing) rfl rfl rfl) nofun
    have begun := started.next (.act (t := 0) (a := .nothing) rfl rfl rfl) nofun
    have parked := begun.next (.park (t := 1) rfl rfl rfl) nofun
    have asked := parked.next (.ask _ .drop) nofun
    have dropped := asked.next (.act (t := 2) (a := .nothing) rfl rfl rfl) nofun
    have refused := dropped.next
      (.act (t := 1) (a := .registered (.error .disabled)) rfl rfl rfl) nofun
    have ignored := refused.next (.act (t := 1) (a := .nothing) rfl rfl rfl) nofun
    exact ⟨_, _, _, ignored, rfl, rfl, rfl, rfl⟩

end Supervision.Watcher
