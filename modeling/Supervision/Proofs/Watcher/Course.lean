import Supervision.Proofs.Watcher.Rights

/-!
# What a history says

A move leads from one watcher to one other, so a history alone says what the watcher was at any
moment (`replay`). What a history brings is read off its moves and the watcher before each of them
(`chronicle`); the laws about reports, deliveries and retries compare such readings.

`Does` says once, branch by branch, what an instruction does. Two facts about tasks follow and hold
in every run: what a task has to do has one of few shapes (`Seated`), and a task between two turns
has not begun, waits for the daemon or sleeps (`Rests`).

A run is `orderly` if turns are taken to their ends: a task executes only while all others are
between two turns. Then whatever is due is due to that task (`work_of_alone`).
-/

namespace Supervision.Watcher

variable {α β : Type}

/-! ## Histories -/

/-- The watcher after a move. One that is not possible changes nothing. -/
def System.after (s : System) : Move → System
  | .asked a => s.spawn [.act a]
  | .did t _ a => (s.step t a).getD s
  | .parked t => s.park t

/-- The watcher after a history, whose latest move comes first. -/
def replay (delays : List Nat) : List Move → System
  | [] => .initial delays
  | m :: past => (replay delays past).after m

/-- What a history brings, read off each move and the watcher before it; the latest first. -/
def chronicle (f : System → Move → List α) (delays : List Nat) : List Move → List α
  | [] => []
  | m :: past => f (replay delays past) m ++ chronicle f delays past

theorem Moves.after {s s' : System} {m : Move} (step : Moves s m s') : s.after m = s' := by
  cases step with
  | ask => rfl
  | act found next taken => rw [System.after, taken, Option.getD_some]
  | park => rfl

theorem Run.replay {delays : List Nat} {past : List Move} {s : System} (run : Run delays past s) :
    replay delays past = s := by
  induction run with
  | start => rfl
  | next _ step _ ih => rw [Watcher.replay, ih, step.after]

/-- What happened up to a moment is a run. -/
theorem Run.older {delays : List Nat} {later older : List Move} {s : System}
    (run : Run delays (later ++ older) s) : Run delays older (Watcher.replay delays older) := by
  induction later generalizing s with
  | nil =>
    rw [List.nil_append] at run
    rw [run.replay]
    exact run
  | cons m later ih =>
    cases run with
    | next run => exact ih run

/-- What happened before a move is a run. -/
theorem Run.before {delays : List Nat} {later older : List Move} {m : Move} {s : System}
    (run : Run delays (later ++ m :: older) s) :
    Run delays older (Watcher.replay delays older) := by
  rw [List.append_cons] at run
  exact run.older

/-- Every move of a history was possible. -/
theorem Run.step {delays : List Nat} {later older : List Move} {m : Move} {s : System}
    (run : Run delays (later ++ m :: older) s) :
    Moves (Watcher.replay delays older) m (Watcher.replay delays (m :: older)) := by
  have upTo := run.older
  generalize Watcher.replay delays (m :: older) = r at upTo
  cases upTo with
  | next run step => rwa [run.replay]

/-- The task that took a step of a history, and what its instruction did. -/
theorem Run.did {delays : List Nat} {later older : List Move} {t : TaskId} {i : Instr} {a : Answer}
    {s : System} (run : Run delays (later ++ .did t i a :: older) s) :
    ∃ task rest r before, (Watcher.replay delays older).pool.get? t = some task ∧
      task.stack = i :: rest ∧ Does (Watcher.replay delays older) i a r before ∧
      Watcher.replay delays (.did t i a :: older) = r.proceed t (before ++ rest) := by
  have step := run.step
  generalize Watcher.replay delays (.did t i a :: older) = s' at step
  cases step with
  | act found next taken =>
    obtain ⟨r, before, does, -, same⟩ := step_does found next taken
    exact ⟨_, _, r, before, found, next, does, same⟩

/-- What moves keep that come after a moment holds from then on, and before each of them. -/
theorem Run.since {delays : List Nat} {later older : List Move} {s : System} {P : System → Prop}
    (run : Run delays (later ++ older) s)
    (keeps : ∀ m ∈ later, ∀ {past : List Move} {s s' : System}, Run delays past s →
      Moves s m s' → P s → P s') (start : P (Watcher.replay delays older)) :
    P s ∧ ∀ m ∈ later, ∃ past s s', Run delays past s ∧ Moves s m s' ∧ P s := by
  induction later generalizing s with
  | nil =>
    rw [List.nil_append] at run
    rw [run.replay] at start
    exact ⟨start, nofun⟩
  | cons m later ih =>
    cases run with
    | next run step =>
      obtain ⟨now, earlier⟩ := ih run fun m hm => keeps m (List.mem_cons_of_mem _ hm)
      refine ⟨keeps m List.mem_cons_self run step now, fun k hk => ?_⟩
      rcases List.mem_cons.mp hk with rfl | hk
      · exact ⟨_, _, _, run, step, now⟩
      · exact earlier k hk

/-- What others note of a change leaves the machine as the change has it, but for who tries
again. -/
theorem System.noticed_apply (s : System) (c : Change) :
    System.Noticed { s with machine := c.machine } (s.apply c).1 :=
  System.noticed_notices _ _

/-- As long as there is a handle there was one before. -/
theorem Moves.handle {s s' : System} {m : Move} (step : Moves s m s') (alive : s'.handle = true) :
    s.handle = true := by
  cases step with
  | ask => exact alive
  | park => exact alive
  | act found next taken =>
    obtain ⟨r, before, does, -, rfl⟩ := step_does found next taken
    cases does with
    | @made _ c => exact (s.noticed_apply c).handle ▸ alive
    | dropped handle => exact handle
    | _ => exact alive

/-- Whoever has a handle in the end had one all the time. -/
theorem Run.handle {delays : List Nat} {later older : List Move} {s : System}
    (run : Run delays (later ++ older) s) (alive : s.handle = true) :
    (Watcher.replay delays older).handle = true := by
  induction later generalizing s with
  | nil =>
    rw [List.nil_append] at run
    rw [run.replay]
    exact alive
  | cons m later ih =>
    cases run with
    | next run step => exact ih run (step.handle alive)

/-- What a longer history brings comes on top of what a part of it brought. -/
theorem chronicle_append (f : System → Move → List α) (delays : List Nat)
    (later older : List Move) :
    ∃ new, chronicle f delays (later ++ older) = new ++ chronicle f delays older := by
  induction later with
  | nil => exact ⟨[], rfl⟩
  | cons m later ih =>
    obtain ⟨new, same⟩ := ih
    exact ⟨_ ++ new, by rw [List.cons_append, chronicle, same, List.append_assoc]⟩

theorem chronicle_did {f : System → Move → List α} {delays : List Nat} {past : List Move}
    {s : System} (run : Run delays past s) (m : Move) :
    chronicle f delays (m :: past) = f s m ++ chronicle f delays past := by
  rw [chronicle, run.replay]

/-! ## Registrations -/

/-- True of a registration that a machine is done with: a later one was begun, or the machine went
idle. -/
def Machine.Done (m : Machine) (generation : Nat) : Prop :=
  generation < m.generation ∨ generation = m.generation ∧ m.state = .idle

/-- How a machine goes on: with the same registration, or from idleness with the next one, unless it
was disposed of. -/
def Machine.Onward (m r : Machine) : Prop :=
  r.generation = m.generation ∧ (m.state = .idle → r.state = .idle) ∨
    r.generation = m.generation + 1 ∧ m.state = .idle ∧ m.disposed = false

namespace Machine

variable {m r q : Machine} {generation : Nat}

theorem Onward.done (h : m.Onward r) (done : m.Done generation) : r.Done generation := by
  rcases h with ⟨same, idle⟩ | ⟨next, -⟩
  · exact done.imp (same ▸ ·) (.imp (same ▸ ·) idle)
  · rcases done with earlier | ⟨rfl, -⟩ <;> exact .inl (by omega)

theorem Onward.idle_of_disposed (h : m.Onward r) (disposed : m.disposed = true)
    (idle : m.state = .idle) : r.state = .idle := by
  rcases h with ⟨-, kept⟩ | ⟨-, -, free⟩
  · exact kept idle
  · rw [disposed] at free
    cases free

theorem eq_of_hears (h : m.hears generation = true) :
    generation = m.generation ∧ m.state ≠ .idle := by
  simpa only [hears, decide_eq_true_eq] using h

theorem hears_of_isCurrent (current : m.isCurrent generation = true) :
    m.hears generation = true := by
  simp only [isCurrent, decide_eq_true_eq] at current
  simp [hears, current.1, current.2.1]

theorem Done.deaf (h : m.Done generation) : m.hears generation = false := by
  simp only [hears, decide_eq_false_iff_not, not_and, Decidable.not_not]
  rcases h with earlier | ⟨-, idle⟩
  · exact fun same => absurd earlier (by omega)
  · exact fun _ => idle

theorem done_of_deaf (begun : generation ≤ m.generation) (deaf : m.hears generation = false) :
    m.Done generation := by
  simp only [hears, decide_eq_false_iff_not, not_and, Decidable.not_not] at deaf
  rcases Nat.lt_or_eq_of_le begun with earlier | same
  · exact .inl earlier
  · exact .inr ⟨same, deaf same⟩

end Machine

theorem Makes.onward {s : System} {i : Instr} {c : Change} (h : Makes s i c) :
    s.machine.Onward c.machine := by
  have same : s.machine.Onward s.machine := .inl ⟨rfl, id⟩
  cases h with
  | begin =>
    unfold Machine.begin
    split
    next => exact same
    next free =>
      obtain ⟨free, idle⟩ := not_or.mp free
      exact .inr ⟨rfl, Decidable.not_not.mp idle, Bool.not_eq_true _ ▸ free⟩
  | stop => exact .inl ⟨rfl, fun _ => rfl⟩
  | @registered generation result =>
    cases result with
    | ok h =>
      simp only [Machine.registered]
      split
      next current => exact .inl ⟨rfl, fun idle => by simp [Machine.isCurrent, idle] at current⟩
      next => exact same
    | error why =>
      simp only [Machine.registered]
      split
      next => exact .inl (by rw [Machine.scheduleRetry_machine]; exact ⟨rfl, fun _ => rfl⟩)
      next => exact same
  | lose =>
    simp only [Machine.lose]
    split
    next => exact .inl (by rw [Machine.scheduleRetry_machine]; exact ⟨rfl, fun _ => rfl⟩)
    next => exact same

theorem Does.onward {s r : System} {i : Instr} {a : Answer} {before : List Instr}
    (h : Does s i a r before) : s.machine.Onward r.machine := by
  have same : s.machine.Onward s.machine := .inl ⟨rfl, id⟩
  cases h with
  | @made _ c makes => rw [(s.noticed_apply c).machine]; exact makes.onward
  | dropped =>
    rw [(System.noticed_apply { s with handle := false } s.machine.dropped).machine]
    exact same
  | _ => exact same

theorem Moves.onward {s s' : System} {m : Move} (step : Moves s m s') :
    s.machine.Onward s'.machine := by
  cases step with
  | ask | park => exact .inl ⟨rfl, id⟩
  | act found next taken =>
    obtain ⟨r, before, does, -, rfl⟩ := step_does found next taken
    exact does.onward

/-- A watcher never comes back to a registration that it is done with. -/
theorem Run.done {delays : List Nat} {later older : List Move} {s : System} {generation : Nat}
    (run : Run delays (later ++ older) s)
    (done : (Watcher.replay delays older).machine.Done generation) :
    s.machine.Done generation :=
  (run.since (fun _ _ _ _ _ _ step done => step.onward.done done) done).1

/-! ## What tasks have to do -/

/-- What a task between two turns has to do: it has not begun, waits for the daemon, or sleeps. -/
inductive Rests : List Instr → Prop
  | asked (a : Action) : Rests [.act a]
  | registers (generation : Nat) : Rests [.register generation]
  | sleeps (delay : Nat) : Rests [.sleep delay, .begin true]

/-- True of instructions that only come last in what a task has to do. -/
def Instr.roots : Instr → Bool
  | .register _ | .registered .. | .sleep _ | .begin true => true
  | _ => false

/-- What a task has to do. What it was made for comes last. -/
inductive Seated : List Instr → Prop
  | loose {stack : List Instr} (loose : ∀ i ∈ stack, i.roots = false) : Seated stack
  /-- Before a registration is granted, the daemon may do other things. -/
  | registers {above : List Instr} (generation : Nat) (loose : ∀ i ∈ above, i.roots = false) :
      Seated (above ++ [.register generation])
  | registered (generation : Nat) (result : Except DaemonError HandleId) :
      Seated [.registered generation result]
  | sleeps (delay : Nat) : Seated [.sleep delay, .begin true]
  | retries : Seated [.begin true]

/-- A view that sees nothing of tasks between two turns. -/
def Late (f : Instr → Option β) : Prop :=
  ∀ stack, Rests stack → stack.filterMap f = []

theorem roots_acts (as : List Action) : ∀ i ∈ as.map Instr.act, i.roots = false :=
  List.forall_mem_map.mpr fun _ _ => rfl

theorem roots_revokes (parts : List (Subscription Unit)) :
    ∀ i ∈ parts.map Instr.revoke, i.roots = false :=
  List.forall_mem_map.mpr fun _ _ => rfl

theorem roots_effects (es : List Effect) : ∀ i ∈ es.map System.instrFor, i.roots = false :=
  List.forall_mem_map.mpr fun e _ => by cases e <;> rfl

/-- What comes of an instruction that may come anywhere may come anywhere. -/
theorem Does.roots {s r : System} {i : Instr} {a : Answer} {before : List Instr}
    (h : Does s i a r before) (loose : i.roots = false) : ∀ j ∈ before, j.roots = false := by
  cases h with
  | lapsed | unheard | renewed => nofun
  | enrolled parts => exact roots_revokes parts
  | started | halted | disposed | emitted | refused | heard | failed => simp [Instr.roots]
  | dropped | made => exact roots_effects _
  | used | told | reached => exact roots_acts _
  | delivered =>
    intro j hj
    rcases List.mem_append.mp hj with hj | hj
    · obtain ⟨l, -, rfl⟩ := List.mem_map.mp hj
      rfl
    · rw [List.mem_singleton.mp hj]
      rfl
  | meanwhile | ended => cases loose

/-- What a task has to do keeps its shape. -/
theorem Seated.step {s r : System} {i : Instr} {a : Answer} {before rest : List Instr}
    (h : Seated (i :: rest)) (does : Does s i a r before) : Seated (before ++ rest) := by
  generalize stacked : i :: rest = stack at h
  cases h with
  | loose loose =>
    subst stacked
    refine .loose fun j hj => ?_
    rcases List.mem_append.mp hj with hj | hj
    · exact does.roots (loose i List.mem_cons_self) j hj
    · exact loose j (List.mem_cons_of_mem i hj)
  | @registers above generation loose =>
    cases above with
    | nil =>
      obtain ⟨rfl, rfl⟩ := List.cons.inj stacked
      rw [List.append_nil]
      cases does with
      | lapsed lapses => cases lapses
      | enrolled _ enrols => cases enrols
      | made makes => cases makes
      | meanwhile => exact .registers generation (roots_acts _)
      | ended => exact .registered generation _
    | cons first above =>
      obtain ⟨rfl, rfl⟩ := List.cons.inj stacked
      show Seated (before ++ (above ++ [.register generation]))
      rw [← List.append_assoc]
      refine .registers generation fun j hj => ?_
      rcases List.mem_append.mp hj with hj | hj
      · exact does.roots (loose i List.mem_cons_self) j hj
      · exact loose j (List.mem_cons_of_mem i hj)
  | registered generation result =>
    obtain ⟨rfl, rfl⟩ := List.cons.inj stacked
    rw [List.append_nil]
    cases does with
    | lapsed => exact .loose nofun
    | enrolled parts => exact .loose (roots_revokes parts)
    | made => exact .loose (roots_effects _)
    | refused => exact .loose (by simp [Instr.roots])
  | sleeps delay =>
    obtain ⟨rfl, rfl⟩ := List.cons.inj stacked
    cases does with
    | lapsed => exact .retries
    | enrolled _ enrols => cases enrols
    | made makes => cases makes
  | retries =>
    obtain ⟨rfl, rfl⟩ := List.cons.inj stacked
    rw [List.append_nil]
    cases does with
    | lapsed => exact .loose nofun
    | enrolled parts => exact .loose (roots_revokes parts)
    | made => exact .loose (roots_effects _)

theorem Rests.seated {stack : List Instr} (h : Rests stack) : Seated stack := by
  cases h with
  | asked a => exact .loose (by simp [Instr.roots])
  | registers generation => exact @Seated.registers [] generation nofun
  | sleeps delay => exact .sleeps delay

/-- What comes after an instruction that comes last. -/
inductive Rooted : Instr → List Instr → Prop
  | registers (generation : Nat) : Rooted (.register generation) []
  | registered (generation : Nat) (result : Except DaemonError HandleId) :
      Rooted (.registered generation result) []
  | sleeps (delay : Nat) : Rooted (.sleep delay) [.begin true]
  | retries : Rooted (.begin true) []

theorem Seated.rooted {i : Instr} {rest : List Instr} (h : Seated (i :: rest))
    (root : i.roots = true) : Rooted i rest := by
  generalize stacked : i :: rest = stack at h
  cases h with
  | loose loose =>
    subst stacked
    rw [loose i List.mem_cons_self] at root
    cases root
  | @registers above generation loose =>
    cases above with
    | nil =>
      obtain ⟨rfl, rfl⟩ := List.cons.inj stacked
      exact .registers generation
    | cons first above =>
      obtain ⟨rfl, rfl⟩ := List.cons.inj stacked
      rw [loose i List.mem_cons_self] at root
      cases root
  | registered generation result =>
    obtain ⟨rfl, rfl⟩ := List.cons.inj stacked
    exact .registered generation result
  | sleeps delay =>
    obtain ⟨rfl, rfl⟩ := List.cons.inj stacked
    exact .sleeps delay
  | retries =>
    obtain ⟨rfl, rfl⟩ := List.cons.inj stacked
    exact .retries

/-- A task that waits has nothing else to do. -/
theorem Seated.rests {i : Instr} {rest : List Instr} (h : Seated (i :: rest))
    (waits : i.waits = true) : Rests (i :: rest) := by
  have root : i.roots = true := by
    cases i <;> first | rfl | cases waits
  cases h.rooted root with
  | registers generation => exact .registers generation
  | sleeps delay => exact .sleeps delay
  | registered | retries => cases waits

/-! ## What a step leaves of the tasks -/

section Pools

variable {s r : System} {P : TaskId → Task Instr → Prop} {f : Instr → Option β}

theorem System.every_notices (ns : List Notice) (every : s.pool.Every P)
    (aborted : ∀ t task, P t task → P t { task with aborted := true })
    (new : ∀ t stack, Rests stack → P t ⟨none, stack, true, false⟩) :
    (ns.foldl notice s).pool.Every P := by
  induction ns generalizing s with
  | nil => exact every
  | cons n ns ih =>
    refine ih ?_
    cases n with
    | entered => exact every
    | logged => exact every
    | register generation => exact every.spawn (new _ _ (.registers generation))
    | retry delay => exact every.spawn (new _ _ (.sleeps delay))
    | abort t => exact every.abort fun task _ => aborted t task

theorem System.work_notices (ns : List Notice) (late : Late f) :
    (ns.foldl notice s).pool.work f = s.pool.work f := by
  induction ns generalizing s with
  | nil => rfl
  | cons n ns ih =>
    refine (ih (s := s.notice n)).trans ?_
    have spawned {stack : List Instr} (rests : Rests stack) :
        (s.pool.spawn none stack).work f = s.pool.work f := by
      rw [Pool.work_spawn, late stack rests, List.append_nil]
    cases n with
    | entered => rfl
    | logged => rfl
    | register generation => exact spawned (.registers generation)
    | retry delay => exact spawned (.sleeps delay)
    | abort t => exact Pool.work_abort s.pool t

variable {i : Instr} {a : Answer} {before : List Instr}

theorem Does.every (h : Does s i a r before) (every : s.pool.Every P)
    (aborted : ∀ t task, P t task → P t { task with aborted := true })
    (new : ∀ t stack, Rests stack → P t ⟨none, stack, true, false⟩) : r.pool.Every P := by
  cases h with
  | dropped | made => exact System.every_notices _ every aborted new
  | _ => exact every

theorem Does.work (h : Does s i a r before) (late : Late f) : r.pool.work f = s.pool.work f := by
  cases h with
  | dropped | made => exact System.work_notices _ late
  | _ => rfl

end Pools

/-- **Every task has to do what its shape allows**, and rests only where it may. -/
theorem Run.seated {delays : List Nat} {past : List Move} {s : System} (run : Run delays past s) :
    s.pool.Every fun _ task =>
      Seated task.stack ∧ (task.parked = true → Rests task.stack) := by
  have new {t : TaskId} {stack : List Instr} (rests : Rests stack) :
      Seated stack ∧ ((true : Bool) = true → Rests stack) := ⟨rests.seated, fun _ => rests⟩
  induction run with
  | start => exact Pool.every_empty
  | @next past s s' m run step _ ih =>
    have numbered := (Sound.of_run run).tidy.numbered
    cases step with
    | ask a => exact ih.spawn (new (t := s.pool.next) (.asked a))
    | @act _ t task i rest a found next taken =>
      obtain ⟨r, before, does, -, rfl⟩ := step_does found next taken
      have seated : Seated (i :: rest) := next ▸ (ih _ (Pool.mem_of_get? found)).1
      have every := does.every ih (fun _ _ h => h) fun _ _ rests => new (t := t) rests
      exact every.proceed fun _ _ _ => ⟨seated.step does, nofun⟩
    | @park t task i rest found next waits =>
      refine ih.park fun other hother here => ⟨here.1, fun _ => ?_⟩
      obtain rfl := numbered.unique (Pool.mem_of_get? found) hother
      show Rests task.stack
      rw [next] at here ⊢
      exact here.1.rests waits

/-! ## Turns -/

/-- Whether every task but one is between two turns. -/
def System.alone (s : System) (t : TaskId) : Bool :=
  s.pool.tasks.all fun e => e.1 = t || e.2.parked

/-- Whether every turn is taken to its end: while a task executes, all others are between two
turns. -/
def orderly (delays : List Nat) : List Move → Bool
  | [] => true
  | .did t _ _ :: past => (replay delays past).alone t && orderly delays past
  | .asked _ :: past | .parked _ :: past => orderly delays past

theorem System.parked_of_alone {s : System} {t : TaskId} (alone : s.alone t = true) :
    ∀ e ∈ s.pool.tasks, e.1 ≠ t → e.2.parked = true := by
  intro e he other
  have here := List.all_eq_true.mp alone e he
  simpa [other] using here

theorem orderly_tail {delays : List Nat} {m : Move} {past : List Move}
    (h : orderly delays (m :: past) = true) : orderly delays past = true := by
  cases m with
  | did => exact (Bool.and_eq_true_iff.mp h).2
  | asked | parked => exact h

theorem orderly_older {delays : List Nat} {later older : List Move}
    (h : orderly delays (later ++ older) = true) : orderly delays older = true := by
  induction later with
  | nil => exact h
  | cons m later ih => exact ih (orderly_tail h)

theorem Run.alone {delays : List Nat} {past : List Move} {s : System} (run : Run delays past s)
    {t : TaskId} {i : Instr} {a : Answer} (h : orderly delays (.did t i a :: past) = true) :
    s.alone t = true := by
  have alone := (Bool.and_eq_true_iff.mp h).1
  rwa [run.replay] at alone

/-- Between two turns of all tasks nothing is due that a view sees of turns only. -/
theorem Run.work_of_rest {delays : List Nat} {past : List Move} {s : System}
    (run : Run delays past s) {f : Instr → Option β} (late : Late f)
    (rest : ∀ e ∈ s.pool.tasks, e.2.parked = true) : s.pool.work f = [] := by
  refine List.flatMap_eq_nil_iff.mpr fun e he => ?_
  exact late _ ((run.seated e he).2 (rest e he))

/-- While a task takes its turn, the others have nothing in hand. -/
theorem Run.others {delays : List Nat} {past : List Move} {s : System} (run : Run delays past s)
    {f : Instr → Option β} (late : Late f) {t : TaskId} (alone : s.alone t = true) :
    s.pool.Every fun k task => k ≠ t → task.stack.filterMap f = [] :=
  fun e he other => late _ ((run.seated e he).2 (System.parked_of_alone alone e he other))

/-- **In its turn a task has in hand all that is due.** -/
theorem Run.work_of_alone {delays : List Nat} {past : List Move} {s : System}
    (run : Run delays past s) {f : Instr → Option β} (late : Late f) {t : TaskId}
    {task : Task Instr} (found : s.pool.get? t = some task) (alone : s.alone t = true) :
    s.pool.work f = task.stack.filterMap f :=
  Pool.work_sole (Sound.of_run run).tidy.numbered found (run.others late alone)

section Work

variable {delays : List Nat} {past : List Move} {s r : System} {f : Instr → Option β} {t : TaskId}
  {task : Task Instr} {i : Instr} {a : Answer} {before rest : List Instr}

/-- A task that executes is still there when its instruction has taken effect. -/
theorem Run.there (run : Run delays past s) (found : s.pool.get? t = some task)
    (does : Does s i a r before) :
    r.pool.Numbered ∧ ∃ aborted, r.pool.get? t = some { task with aborted := aborted } := by
  have sound := Sound.of_run run
  have carries := does.effected.carries sound.tidy sound.fair sound.gone
  obtain ⟨aborted, hmem⟩ := carries.mem (Pool.mem_of_get? found)
  exact ⟨carries.tidy.numbered, aborted, Pool.get?_of_mem carries.tidy.numbered hmem⟩

/-- What a task has in hand before and after it executes an instruction. -/
theorem Run.work_did (run : Run delays past s) (late : Late f) (found : s.pool.get? t = some task)
    (next : task.stack = i :: rest) (does : Does s i a r before) :
    ((r.proceed t (before ++ rest)).pool.work f ++ (f i).toList).Perm
      (s.pool.work f ++ before.filterMap f) := by
  obtain ⟨numbered, aborted, there⟩ := run.there found does
  have step := Pool.work_proceed (f := f) numbered there next before
  rwa [does.work late] at step

/-- What a task has in hand stays as it is, if an instruction leaves what it stood for. -/
theorem Run.work_kept (run : Run delays past s) (late : Late f) (found : s.pool.get? t = some task)
    (next : task.stack = i :: rest) (does : Does s i a r before)
    (same : before.filterMap f = (f i).toList) :
    (r.proceed t (before ++ rest)).pool.work f = s.pool.work f := by
  obtain ⟨numbered, aborted, there⟩ := run.there found does
  obtain ⟨left, right, whole, -, proceeds⟩ := Pool.work_replace (f := f) numbered there
  have head : (i :: rest).filterMap f = (f i).toList ++ rest.filterMap f := by
    cases here : f i <;> simp [here]
  rw [does.work late] at whole
  rw [System.proceed, proceeds, whole, next, head, List.filterMap_append, same]

/-- If the others have nothing in hand, a task has in hand what is due afterwards. -/
theorem Run.work_turn (run : Run delays past s) (late : Late f) (found : s.pool.get? t = some task)
    (does : Does s i a r before)
    (others : s.pool.Every fun k task => k ≠ t → task.stack.filterMap f = []) :
    (r.proceed t (before ++ rest)).pool.work f = (before ++ rest).filterMap f := by
  obtain ⟨numbered, aborted, there⟩ := run.there found does
  obtain ⟨left, right, whole, -, proceeds⟩ := Pool.work_replace (f := f) numbered there
  rw [does.work late, Pool.work_sole (Sound.of_run run).tidy.numbered found others] at whole
  -- The others have nothing in hand, so what is left and right of the task is empty.
  have length := congrArg List.length whole
  simp only [List.length_append] at length
  have none : left = [] ∧ right = [] :=
    ⟨List.eq_nil_of_length_eq_zero (by omega), List.eq_nil_of_length_eq_zero (by omega)⟩
  rw [System.proceed, proceeds, none.1, none.2, List.nil_append, List.append_nil]

/-- In its turn a task goes on, and the others are between two turns. -/
theorem Run.turn (run : Run delays past s) (does : Does s i a r before) (alone : s.alone t = true)
    {stack : List Instr} {e : TaskId × Task Instr}
    (he : e ∈ (r.proceed t stack).pool.tasks) :
    (e.1 ≠ t ∧ Rests e.2.stack) ∨ e.1 = t ∧ e.2.stack = stack := by
  have others : s.pool.Every fun k task => k ≠ t → Rests task.stack := fun e he other =>
    (run.seated e he).2 (System.parked_of_alone alone e he other)
  have others := does.every others (fun _ _ here => here) fun _ _ rests _ => rests
  rcases Pool.mem_proceed he with ⟨other, he⟩ | ⟨same, _, -, own⟩
  · exact .inl ⟨other, others e he other⟩
  · exact .inr ⟨same, by rw [own]⟩

/-- What is asked for is not yet due. -/
theorem System.work_asked (s : System) (late : Late f) (a : Action) :
    (s.spawn [.act a]).pool.work f = s.pool.work f :=
  (Pool.work_spawn s.pool none [.act a]).trans (by rw [late _ (.asked a), List.append_nil])

/-- Whoever waits has nothing in hand. -/
theorem Run.work_parked (run : Run delays past s) (late : Late f)
    (found : s.pool.get? t = some task) (next : task.stack = i :: rest) (waits : i.waits = true) :
    (s.park t).pool.work f = s.pool.work f := by
  have numbered := (Sound.of_run run).tidy.numbered
  refine Pool.work_park numbered fun other hother _ => ?_
  obtain rfl := numbered.unique (Pool.mem_of_get? found) hother
  have seated := (run.seated _ hother).1
  simp only [next] at seated ⊢
  exact late _ (seated.rests waits)

end Work

end Supervision.Watcher
