import Supervision.Proofs.Worker.Moment

/-!
# Nobody sleeps through a change

A call that waits compares what it saw with what is published. Between the look and the wait others
go on, the machine may be taken hold of, and a start may come and go in one hold. The law here says
that a call never waits for something that has already happened: whenever a change matters to it,
a newer version than the one it saw is published, or will be before the machine is let go of.

What a call goes by is compared with the `Outlook`: what will have been published when whoever holds
the machine lets go of it. Publishing does not change the outlook; applying an event does, and then
it makes every version seen before an old one.

The law says nothing of the time at which a call goes on, nor that the machine leaves a state in
which it is waited for.
-/

namespace Supervision.Worker

/-! ## The outlook -/

/-- What will have been published when nobody holds the machine: the version, the count of idle
states, and the state. -/
structure Outlook where
  version : Nat
  epoch : Nat
  state : State

/-- What is still to be published. -/
def Moment.pending (z : Moment) : List Signal :=
  match z.hold with
  | some hold => hold.pending
  | none => []

/-- What will have been published. -/
def Moment.outlook (z : Moment) : Outlook :=
  ⟨z.system.version + entries z.pending, z.system.machine.idleEpoch + idles z.pending,
    z.system.machine.state⟩

/-- An event was applied: what was seen before is old, and if the machine was stopping it became
idle. -/
def Outlook.Passed (o o' : Outlook) : Prop :=
  o.version < o'.version ∧ o.epoch ≤ o'.epoch ∧ (o.state = .stopping → o.epoch < o'.epoch)

/-- True of an instruction that starts the worker for a call. -/
def Instr.starts : Instr → Bool
  | .handle (.start none) => true
  | _ => false

/-- What an instruction goes by is old, or nothing has happened yet that it waits for. A call that
saw an idle machine starts it before it waits. -/
def Instr.Alert (o : Outlook) (willStart : Bool) : Instr → Prop
  | .wait _ _ seen => seen < o.version ∨ seen = o.version ∧
      (o.state = .starting ∨ o.state = .stopping ∨ o.state = .idle ∧ willStart = true)
  | .take _ _ seen => seen < o.version ∨ seen = o.version ∧ o.state = .running
  | .awaitIdle seen => seen < o.epoch ∨ seen = o.epoch ∧ o.state = .stopping
  | _ => True

/-- What a task has to do is alert, instruction by instruction. -/
def Alert (o : Outlook) : Bool → List Instr → Prop
  | _, [] => True
  | willStart, i :: rest => i.Alert o willStart ∧ Alert o (willStart || i.starts) rest

variable {o o' : Outlook} {willStart : Bool}

theorem alert_of_not_watches {i : Instr} (blind : i.watches = false) : i.Alert o willStart := by
  cases i <;> trivial

theorem Instr.Alert.mono {i : Instr} (h : i.Alert o willStart) {willStart' : Bool}
    (more : willStart = true → willStart' = true) : i.Alert o willStart' := by
  cases i with
  | wait need awaited seen =>
    exact h.imp_right fun h => ⟨h.1, h.2.imp_right (.imp_right fun h => ⟨h.1, more h.2⟩)⟩
  | _ => exact h

/-- When an event was applied nobody has to wait. -/
theorem Instr.Alert.passed {i : Instr} (h : i.Alert o willStart) (passed : o.Passed o')
    (willStart' : Bool) : i.Alert o' willStart' := by
  obtain ⟨version, epoch, stopping⟩ := passed
  cases i with
  | wait need awaited seen =>
    refine .inl ?_
    rcases h with h | ⟨h, -⟩ <;> omega
  | take need awaited seen =>
    refine .inl ?_
    rcases h with h | ⟨h, -⟩ <;> omega
  | awaitIdle seen =>
    refine .inl ?_
    rcases h with h | ⟨h, state⟩
    · omega
    · have := stopping state
      omega
  | _ => trivial

theorem Alert.mono {l : List Instr} (h : Alert o willStart l) {willStart' : Bool}
    (more : willStart = true → willStart' = true) : Alert o willStart' l := by
  induction l generalizing willStart willStart' with
  | nil => trivial
  | cons i rest ih =>
    refine ⟨h.1.mono more, ih h.2 fun starts => ?_⟩
    rcases Bool.or_eq_true _ _ ▸ starts with starts | starts
    · simp [more starts]
    · simp [starts]

theorem Alert.passed {l : List Instr} (h : Alert o willStart l) (passed : o.Passed o')
    (willStart' : Bool) : Alert o' willStart' l := by
  induction l generalizing willStart willStart' with
  | nil => trivial
  | cons i rest ih => exact ⟨h.1.passed passed _, ih h.2 _⟩

theorem alert_of_blind {l : List Instr} (blind : ∀ i ∈ l, i.watches = false) :
    Alert o willStart l := by
  induction l generalizing willStart with
  | nil => trivial
  | cons i rest ih =>
    exact ⟨alert_of_not_watches (blind i List.mem_cons_self),
      ih fun j hj => blind j (List.mem_cons_of_mem _ hj)⟩

/-- What comes before does no harm. -/
theorem Alert.append {before rest : List Instr} (h : Alert o willStart before)
    (k : Alert o willStart rest) : Alert o willStart (before ++ rest) := by
  induction before generalizing willStart with
  | nil => exact k
  | cons i before ih =>
    exact ⟨h.1, ih h.2 (k.mono fun starts => by simp [starts])⟩

/-- If no start is needed, it does not matter who starts. -/
theorem Alert.of_not_idle {l : List Instr} (h : Alert o willStart l) (busy : o.state ≠ .idle)
    (willStart' : Bool) : Alert o willStart' l := by
  induction l generalizing willStart willStart' with
  | nil => trivial
  | cons i rest ih =>
    refine ⟨?_, ih h.2 _⟩
    have first := h.1
    cases i with
    | wait need awaited seen =>
      refine first.imp_right fun h => ⟨h.1, h.2.imp_right fun h => ?_⟩
      exact h.elim .inl fun h => absurd h.1 busy
    | _ => exact first

/-! ## What a call knows -/

/-- The moment at which a task asked for the end of a worker that was not idle, and before which
the machine had become idle `seen` times. -/
def AskedAt (t : TaskId) (seen : Nat) (y : Moment) : Prop :=
  y.hold = none ∧ (∃ task rest, y.system.pool.get? t = some task ∧ task.stack = .halt :: rest) ∧
    y.system.machine.idleEpoch = seen

/-- Some moment of the past of `z` at which a task asked for the end of a worker. -/
def Asked (options : Options) (z : Moment) (t : TaskId) (seen : Nat) : Prop :=
  ∃ y, Reachable options y ∧ AskedAt t seen y ∧ Leads y z

/-- What is true of a task. -/
structure Watchful (o : Outlook) (asked : Nat → Prop) (caller : Option String)
    (stack : List Instr) : Prop where
  calls : ∀ i ∈ stack, i.calls = true → caller.isSome = true
  alert : Alert o false stack
  asked : ∀ seen, Instr.awaitIdle seen ∈ stack → asked seen

namespace Watchful

variable {asked : Nat → Prop} {caller : Option String} {stack : List Instr}

theorem mono (h : Watchful o asked caller stack) {asked' : Nat → Prop}
    (more : ∀ seen, asked seen → asked' seen) : Watchful o asked' caller stack :=
  ⟨h.calls, h.alert, fun seen hmem => more seen (h.asked seen hmem)⟩

theorem passed (h : Watchful o asked caller stack) (passed : o.Passed o') :
    Watchful o' asked caller stack :=
  ⟨h.calls, h.alert.passed passed _, h.asked⟩

theorem fresh (h : System.Regrouped.Fresh caller stack) : Watchful o asked caller stack := by
  rcases h with ⟨c, called, rfl⟩ | ⟨i, rfl, calls, blind⟩
  · exact ⟨fun _ _ _ => called, ⟨trivial, trivial⟩, by simp⟩
  · refine ⟨fun j hj k => ?_, ⟨alert_of_not_watches blind, trivial⟩, fun seen hmem => ?_⟩
    · rw [List.mem_singleton.mp hj, calls] at k
      cases k
    · rw [← List.mem_singleton.mp hmem] at blind
      cases blind

/-- A task without a caller watches nothing. -/
theorem blind (h : Watchful o asked none stack) : ∀ i ∈ stack, i.watches = false := by
  intro i hi
  cases hw : i.watches with
  | false => rfl
  | true =>
    refine absurd (h.calls i hi ?_) (by simp)
    cases i <;> first | rfl | cases hw

/-- What comes after an instruction. -/
theorem rest {i : Instr} {rest : List Instr} (h : Watchful o asked caller (i :: rest))
    (other : i.starts = false) : Watchful o asked caller rest := by
  refine ⟨fun j hj => h.calls j (List.mem_cons_of_mem _ hj), ?_,
    fun seen hmem => h.asked seen (List.mem_cons_of_mem _ hmem)⟩
  have alert := h.alert.2
  rwa [other] at alert

/-- What comes in place of an instruction is alert if it is alert by itself. -/
theorem replace {i : Instr} {rest before : List Instr} (h : Watchful o asked caller (i :: rest))
    (other : i.starts = false) (calls : i.calls = true ∨ ∀ j ∈ before, j.calls = false)
    (alert : Alert o false before) (notIdle : ∀ seen, Instr.awaitIdle seen ∉ before) :
    Watchful o asked caller (before ++ rest) where
  calls j hj k := by
    rcases List.mem_append.mp hj with hj | hj
    · rcases calls with calls | calls
      · exact h.calls i List.mem_cons_self calls
      · exact absurd k (by simp [calls j hj])
    · exact (h.rest other).calls j hj k
  alert := alert.append (h.rest other).alert
  asked seen hmem := by
    rcases List.mem_append.mp hmem with hmem | hmem
    · exact absurd hmem (notIdle seen)
    · exact (h.rest other).asked seen hmem

/-- What watches nothing may come in place of an instruction. -/
theorem replace_blind {i : Instr} {rest before : List Instr}
    (h : Watchful o asked caller (i :: rest)) (other : i.starts = false)
    (calls : i.calls = true ∨ ∀ j ∈ before, j.calls = false)
    (blind : ∀ j ∈ before, j.watches = false) : Watchful o asked caller (before ++ rest) :=
  h.replace other calls (alert_of_blind blind) fun seen hmem =>
    absurd (blind _ hmem) (by simp [Instr.watches])

end Watchful

/-- An instruction that applies no event leaves what is published as it is. -/
structure System.Silent (s r : System) : Prop where
  machine : r.machine = s.machine
  published : r.published = s.published
  version : r.version = s.version
  passages : r.passages = s.passages

theorem System.Silent.release {s r : System} (h : s.Silent r) : s.Silent r.release :=
  r.release_elim h ⟨h.machine, h.published, h.version, h.passages⟩

/-- Whether an instruction applies an event. -/
def Instr.Applies (s : System) (i : Instr) : Prop :=
  ∃ e before, Enters s i e before

theorem Effected.silent {s r : System} {i : Instr} {a : Answer} {before : List Instr}
    (h : Effected s i a r before) (free : ¬ i.Applies s) : s.Silent r := by
  cases h with
  | aside _ _ _ alike => exact ⟨alike.machine, alike.published, alike.version, alike.passages⟩
  | called _ _ machine _ _ published version passages =>
    exact ⟨machine, published, version, passages⟩
  | handled alive => exact absurd ⟨_, _, .handle alive⟩ free
  | halted busy => exact absurd ⟨_, _, .halt busy⟩ free
  | _ => exact ⟨rfl, rfl, rfl, rfl⟩

theorem Moves.silent {s s' : System} {m : Move} (step : Moves s m s')
    (free : ∀ t i a, m = .did t i a → ¬ i.Applies s) : s.Silent s' := by
  cases step with
  | act found next taken =>
    obtain ⟨r, before, effected, -, result⟩ := step_cases found next taken
    have silent := effected.silent (free _ _ _ rfl)
    have proceeded (t : TaskId) (stack : List Instr) : s.Silent (r.proceed t stack) :=
      ⟨silent.machine, silent.published, silent.version, silent.passages⟩
    rcases result with rfl | rfl
    · exact proceeded _ _
    · exact (proceeded _ _).release
  | park => exact System.Silent.release ⟨rfl, rfl, rfl, rfl⟩
  | drop => exact System.Silent.release ⟨rfl, rfl, rfl, rfl⟩
  | _ => exact ⟨rfl, rfl, rfl, rfl⟩

/-- What may happen while somebody holds the machine, or nobody does, applies no event. -/
theorem Moment.Permits.free {z : Moment} {m : Move} (permitted : z.Permits m) :
    ∀ t i a, m = .did t i a → ¬ i.Applies z.system := by
  rintro t i a rfl ⟨e, before, enters⟩
  unfold Permits at permitted
  simp only at permitted
  split at permitted
  · exact permitted e before enters
  · cases enters <;> exact absurd permitted.2 (by simp [Instr.locks])

theorem lastPublished_of_entries {pending : List Signal} (none : entries pending = 0)
    (state : State) : lastPublished state pending = state := by
  induction pending generalizing state with
  | nil => rfl
  | cons signal pending ih =>
    simp only [entries, List.countP_cons, Nat.add_eq_zero_iff] at none
    rw [lastPublished, List.foldl_cons]
    cases signal with
    | idle => exact ih none.1 state
    | notice n =>
      cases n with
      | entered => simp at none
      | _ => exact ih none.1 state

/-- What a call sees is what the machine is, or will be old. -/
theorem Moment.outlook_of_published {z : Moment}
    (published : lastPublished z.system.published z.pending = z.system.machine.state) :
    z.system.version < z.outlook.version ∨
      z.system.version = z.outlook.version ∧ z.outlook.state = z.system.published := by
  by_cases none : entries z.pending = 0
  · rw [lastPublished_of_entries none] at published
    exact .inr ⟨by simp only [outlook, none, Nat.add_zero], published.symm⟩
  · exact .inl (by simp only [outlook]; omega)

/-- A call that looks goes by what it sees. -/
theorem Moment.alert_look {z : Moment}
    (published : lastPublished z.system.published z.pending = z.system.machine.state)
    (need : Need) (awaited : Bool) : Alert z.outlook false (z.system.look need awaited) := by
  have seen := z.outlook_of_published published
  unfold System.look
  split
  next running => exact ⟨seen.imp_right fun h => ⟨h.1, h.2.trans running⟩, trivial⟩
  next idle =>
    split
    · exact ⟨trivial, trivial⟩
    · exact ⟨trivial, seen.imp_right fun h => ⟨h.1, .inr (.inr ⟨h.2.trans idle, rfl⟩)⟩, trivial⟩
  next starting => exact ⟨seen.imp_right fun h => ⟨h.1, .inl (h.2.trans starting)⟩, trivial⟩
  next stopping => exact ⟨seen.imp_right fun h => ⟨h.1, .inr (.inl (h.2.trans stopping))⟩, trivial⟩

/-- A call that saw a running machine and finds that it is not any more has seen something old. -/
theorem Moment.alert_take {z : Moment} {need : Need} {awaited : Bool} {seen : Nat}
    (alert : (Instr.take need awaited seen).Alert z.outlook false) :
    Alert z.outlook false (z.system.take need awaited seen) := by
  unfold System.take
  split
  · split <;> exact ⟨trivial, trivial⟩
  next other => exact ⟨.inl (alert.resolve_right fun h => other h.2), trivial⟩

/-- A task stays watchful in a step that applies no event. -/
theorem Effected.watchful {z : Moment} {r : System} {i : Instr} {a : Answer}
    {rest before : List Instr} {asked : Nat → Prop} {caller : Option String}
    (h : Effected z.system i a r before) (free : ¬ i.Applies z.system)
    (published : lastPublished z.system.published z.pending = z.system.machine.state)
    (there : caller.isSome = true → z.system.alive = true)
    (watchful : Watchful z.outlook asked caller (i :: rest)) :
    Watchful z.outlook asked caller (before ++ rest) := by
  cases h with
  | aside _ _ _ _ other calls watches =>
    have starts : i.starts = false := by cases i <;> first | rfl | cases other
    rcases watches with blind | ⟨need, awaited, rfl, rfl⟩ | ⟨need, awaited, seen, rfl, rfl⟩
    · exact watchful.replace_blind starts calls blind
    · refine watchful.replace rfl (.inl rfl) (z.alert_look published need awaited) fun seen => ?_
      unfold System.look
      split <;> (try split) <;> simp
    · refine watchful.replace rfl (.inl rfl) (z.alert_take watchful.alert.1) fun seen => ?_
      unfold System.take
      split <;> (try split) <;> simp
  | handled alive => exact absurd ⟨_, _, .handle alive⟩ free
  | halted busy => exact absurd ⟨_, _, .halt busy⟩ free
  | missed gone =>
    obtain rfl : caller = none := by
      cases caller with
      | none => rfl
      | some name => exact absurd (there rfl) (by simp [gone])
    refine ⟨fun j hj => watchful.calls j (List.mem_cons_of_mem _ hj), alert_of_blind fun j hj => ?_,
      fun seen hmem => watchful.asked seen (List.mem_cons_of_mem _ hmem)⟩
    exact watchful.blind j (List.mem_cons_of_mem _ hj)
  | outlived =>
    exact watchful.replace_blind rfl (.inr (by simp [Instr.calls])) (by simp [Instr.watches])
  | launched =>
    exact watchful.replace_blind rfl (.inr (by simp [Instr.calls])) (by simp [Instr.watches])
  | ended =>
    exact watchful.replace_blind rfl (.inr (by simp [Instr.calls])) (by simp [Instr.watches])
  | gone =>
    exact watchful.replace_blind rfl (.inr (by simp [Instr.calls])) (by simp [Instr.watches])
  | _ => exact watchful.rest rfl

/-! ## The invariant of moments -/

/-- What a task has to do, whoever holds the machine. -/
def Moment.todo (z : Moment) (e : TaskId × Task Instr) : List Instr :=
  match z.hold with
  | some hold => if e.1 = hold.task then hold.tail else e.2.stack
  | none => e.2.stack

/-- All tasks are watchful, and what is published and counted comes to what the machine is. -/
structure Attentive (options : Options) (z : Moment) : Prop where
  numbered : z.system.pool.Numbered
  held : ∀ hold, z.hold = some hold → hold.task < z.system.pool.next
  published : lastPublished z.system.published z.pending = z.system.machine.state
  counted : z.system.idlePassages + idleEntries z.pending =
    z.system.machine.idleEpoch + idles z.pending
  watchful : ∀ e ∈ z.system.pool.tasks,
    Watchful z.outlook (Asked options z e.1) e.2.caller (z.todo e)

theorem Asked.later {options : Options} {z z' : Moment} {t : TaskId} {seen : Nat}
    (h : Asked options z t seen) (step : Advances z z') : Asked options z' t seen := by
  obtain ⟨y, reachable, asked, leads⟩ := h
  exact ⟨y, reachable, asked, leads.tail step⟩

/-- Applying an event leaves the outlook as it is, or makes what was seen old. -/
theorem outlook_seize (s : System) (e : Event) (t : TaskId) (tail : List Instr) :
    Moment.outlook ⟨s.seize e, some ⟨t, (s.machine.transition e).signals, tail⟩⟩ =
        Moment.outlook ⟨s, none⟩ ∧ entries (s.machine.transition e).signals = 0 ∨
      (Moment.outlook ⟨s, none⟩).Passed
        (Moment.outlook ⟨s.seize e, some ⟨t, (s.machine.transition e).signals, tail⟩⟩) := by
  have told := s.machine.told_transition e
  by_cases none : entries (s.machine.transition e).signals = 0
  · obtain ⟨state, idle⟩ := told.quiet none
    refine .inl ⟨?_, none⟩
    simp only [Moment.outlook, Moment.pending, System.seize, none, idle, state]
    rfl
  · refine .inr ⟨Nat.lt_add_of_pos_right (Nat.pos_of_ne_zero none), Nat.le_add_right _ _,
      fun stopping => ?_⟩
    exact Nat.lt_add_of_pos_right ((told.stopping stopping).resolve_left none)

/-- What a task has to do after it applied an event goes by nothing old. -/
theorem Enters.watchful {s : System} {i : Instr} {e : Event} {before rest : List Instr} {o' : Outlook}
    {asked : Nat → Prop} {caller : Option String} (enters : Enters s i e before)
    (outlook : o' = Moment.outlook ⟨s, none⟩ ∧ entries (s.machine.transition e).signals = 0 ∨
      (Moment.outlook ⟨s, none⟩).Passed o')
    (epoch : o'.epoch = s.machine.idleEpoch + idles (s.machine.transition e).signals)
    (state : o'.state = (s.machine.transition e).machine.state)
    (now : i = .halt → asked s.machine.idleEpoch)
    (h : Watchful (Moment.outlook ⟨s, none⟩) asked caller (i :: rest)) :
    Watchful o' asked caller (before ++ rest) := by
  have performs (effects : List Effect) : ∀ j ∈ effects.map Instr.perform,
      j.calls = false ∧ j.watches = false := fun j hj => by
    obtain ⟨_, -, rfl⟩ := List.mem_map.mp hj
    exact ⟨rfl, rfl⟩
  cases enters with
  | handle alive =>
    have after : Watchful o' asked caller rest := by
      refine ⟨fun j hj => h.calls j (List.mem_cons_of_mem _ hj), ?_,
        fun seen hmem => h.asked seen (List.mem_cons_of_mem _ hmem)⟩
      rcases outlook with ⟨same, none⟩ | passed
      · -- nothing was published, so the machine was not idle if this was a start
        rw [same]
        cases starts : (Instr.handle e).starts with
        | false =>
          have alert := h.alert.2
          rwa [starts] at alert
        | true =>
          refine h.alert.2.of_not_idle (fun idle => ?_) _
          cases e with
          | start path => exact absurd none (Nat.ne_of_gt (s.machine.entries_start idle path))
          | _ => cases starts
      · exact h.alert.2.passed passed _
    have blind := performs (s.machine.transition e).effects
    refine ⟨fun j hj k => ?_, (alert_of_blind fun j hj => (blind j hj).2).append after.alert,
      fun seen hmem => ?_⟩
    · rcases List.mem_append.mp hj with hj | hj
      · exact absurd k (by simp [(blind j hj).1])
      · exact after.calls j hj k
    · rcases List.mem_append.mp hmem with hmem | hmem
      · exact absurd (blind _ hmem).2 (by simp [Instr.watches])
      · exact after.asked seen hmem
  | halt busy =>
    have after : Watchful o' asked caller rest := by
      have after : Watchful (Moment.outlook ⟨s, none⟩) asked caller rest := h.rest rfl
      rcases outlook with ⟨same, -⟩ | passed
      · rwa [same]
      · exact after.passed passed
    have blind := performs (s.machine.transition .stop).effects
    have waits : Alert o' false [.awaitIdle s.machine.idleEpoch] := by
      refine ⟨?_, trivial⟩
      by_cases still : idles (s.machine.transition .stop).signals = 0
      · exact .inr ⟨by rw [epoch, still, Nat.add_zero],
          state.trans (s.machine.stop_stopping busy still)⟩
      · exact .inl (by rw [epoch]; omega)
    refine ⟨fun j hj k => ?_, ((alert_of_blind fun j hj => (blind j hj).2).append waits).append
      after.alert, fun seen hmem => ?_⟩
    · rcases List.mem_append.mp hj with hj | hj
      · exact h.calls .halt List.mem_cons_self rfl
      · exact after.calls j hj k
    · rcases List.mem_append.mp hmem with hmem | hmem
      · rcases List.mem_append.mp hmem with hmem | hmem
        · exact absurd (blind _ hmem).2 (by simp [Instr.watches])
        · cases List.mem_singleton.mp hmem
          exact now rfl
      · exact after.asked seen hmem

/-- Publishing leaves the tasks as they are, but for those that listen to the connection. -/
theorem System.signal_tasks (s : System) (signal : Signal) {e : TaskId × Task Instr}
    (he : e ∈ (s.signal signal).pool.tasks) :
    (∃ aborted, (e.1, { e.2 with aborted := aborted }) ∈ s.pool.tasks) ∨
      s.pool.next ≤ e.1 ∧ Regrouped.Fresh e.2.caller e.2.stack := by
  cases signal with
  | idle => exact .inl ⟨_, he⟩
  | notice n =>
    cases n with
    | entered => exact .inl ⟨_, he⟩
    | logged => exact .inl ⟨_, he⟩
    | attached generation c =>
      rcases List.mem_append.mp he with he | he
      · rcases List.mem_append.mp he with he | he
        · exact .inl ⟨_, he⟩
        · rw [List.mem_singleton.mp he]
          exact .inr ⟨Nat.le_refl _, .inr ⟨_, rfl, rfl, rfl⟩⟩
      · rw [List.mem_singleton.mp he]
        exact .inr ⟨Nat.le_succ _, .inr ⟨_, rfl, rfl, rfl⟩⟩
    | detached =>
      obtain ⟨task, hmem, heq⟩ := Pool.mem_foldl_abort.mp he
      refine .inl ⟨task.aborted, ?_⟩
      rw [heq]
      split <;> exact hmem

theorem System.signal_numbered {s : System} (signal : Signal) (h : s.pool.Numbered) :
    (s.signal signal).pool.Numbered ∧ s.pool.next ≤ (s.signal signal).pool.next := by
  cases signal with
  | idle => exact ⟨h, Nat.le_refl _⟩
  | notice n =>
    cases n with
    | entered => exact ⟨h, Nat.le_refl _⟩
    | logged => exact ⟨h, Nat.le_refl _⟩
    | attached => exact ⟨(h.spawn _ _).spawn _ _, Nat.le_add_right _ 2⟩
    | detached =>
      exact ⟨h.foldl_abort _, Nat.le_of_eq (Pool.next_foldl_abort s.pool s.attached).symm⟩

/-- Publishing is foreseen. -/
theorem System.signal_outlook (s : System) (t : TaskId) (signal : Signal) (pending : List Signal)
    (tail : List Instr) : Moment.outlook ⟨s.signal signal, some ⟨t, pending, tail⟩⟩ =
      Moment.outlook ⟨s, some ⟨t, signal :: pending, tail⟩⟩ := by
  cases signal with
  | idle =>
    simp only [Moment.outlook, Moment.pending, System.signal, entries, idles, List.countP_cons,
      Outlook.mk.injEq]
    simp
    omega
  | notice n =>
    cases n <;> simp [Moment.outlook, Moment.pending, System.signal, System.notice, System.record,
      System.detach, System.spawn, entries, idles]
    omega

namespace Attentive

variable {options : Options} {z : Moment}

theorem initial (options : Options) : Attentive options ⟨.initial options, none⟩ where
  numbered := Pool.numbered_empty
  held := nofun
  published := rfl
  counted := rfl
  watchful := nofun

/-- A task whose number is new does not hold the machine. -/
theorem todo_of_new (h : Attentive options z) {e : TaskId × Task Instr}
    (new : z.system.pool.next ≤ e.1) : z.todo e = e.2.stack := by
  unfold Moment.todo
  split
  next hold heq =>
    refine if_neg fun same => ?_
    exact absurd (h.held hold heq) (Nat.not_lt.mpr (same ▸ new))
  next => rfl

/-- A move that applies no event keeps the invariant. -/
theorem move (h : Attentive options z) {m : Move} {s : System} (step : Moves z.system m s)
    (permitted : z.Permits m) : Attentive options { z with system := s } := by
  have silent := step.silent permitted.free
  obtain ⟨numbered, le⟩ := step.numbered h.numbered
  have advances : Advances z { z with system := s } := .move step permitted
  have outlook : Moment.outlook { z with system := s } = z.outlook := by
    simp only [Moment.outlook, Moment.pending, silent.version, silent.machine]
  refine ⟨numbered, fun hold heq => Nat.lt_of_lt_of_le (h.held hold heq) le, ?_, ?_, fun e he => ?_⟩
  · simp only [silent.published, silent.machine]
    exact h.published
  · have same : s.idlePassages = z.system.idlePassages := by
      simp only [System.idlePassages, silent.passages]
    simp only [same, silent.machine]
    exact h.counted
  · rw [outlook]
    refine Watchful.mono ?_ fun seen asked => Asked.later asked advances
    have there (caller : Option String) (task : Task Instr) (k : TaskId)
        (hmem : (k, task) ∈ z.system.pool.tasks) (same : caller = task.caller)
        (called : caller.isSome = true) : z.system.alive = true := by
      simp only [System.alive, Pool.hasCaller_iff.mpr ⟨_, hmem, same ▸ called⟩, Bool.or_true]
    cases step.comes h.numbered e he with
    | @kept task hmem caller stack =>
      have same : Moment.todo { z with system := s } e = z.todo (e.1, task) := by
        simp only [Moment.todo, stack]
      rw [same, caller]
      exact h.watchful _ hmem
    | fresh new fresh =>
      have same : Moment.todo { z with system := s } e = e.2.stack := h.todo_of_new new
      rw [same]
      exact .fresh fresh
    | @went task i rest before a r hmove hmem next effected caller stack =>
      subst hmove
      -- The task that holds the machine makes no move, so this one has its own stack to do.
      have other (old : Task Instr) : z.todo (e.1, old) = old.stack := by
        unfold Moment.todo
        unfold Moment.Permits at permitted
        simp only at permitted
        split
        next hold heq =>
          rw [heq] at permitted
          exact if_neg permitted.1
        next => rfl
      have same : Moment.todo { z with system := s } e = before ++ rest :=
        (other e.2).trans stack
      have watchful := h.watchful _ hmem
      rw [other, next] at watchful
      rw [same, caller]
      exact effected.watchful (permitted.free _ _ _ rfl) h.published
        (there _ task _ hmem rfl) watchful

/-- Whoever takes hold of the machine keeps the invariant. -/
theorem enter {s : System} (h : Attentive options ⟨s, none⟩) (reachable : Reachable options ⟨s, none⟩)
    {t : TaskId} {task : Task Instr} {i : Instr} {rest before : List Instr} {e : Event}
    (found : s.pool.get? t = some task) (next : task.stack = i :: rest)
    (ready : (task.parked && task.aborted) = false) (enters : Enters s i e before) :
    Attentive options ⟨s.seize e, some ⟨t, (s.machine.transition e).signals, before ++ rest⟩⟩ := by
  have advances := Advances.enter found next ready enters
  have told := s.machine.told_transition e
  have outlook := outlook_seize s e t (before ++ rest)
  have published : s.published = s.machine.state := h.published
  have counted : s.idlePassages = s.machine.idleEpoch := h.counted
  refine ⟨h.numbered, ?_, ?_, ?_, fun f hf => ?_⟩
  · rintro _ ⟨⟩
    exact h.numbered.below _ (Pool.mem_of_get? found)
  · exact (published ▸ told.state : lastPublished s.published _ = _)
  · show s.idlePassages + idleEntries (s.machine.transition e).signals =
      s.machine.idleEpoch + idles (s.machine.transition e).signals
    rw [counted, idleEntries_signals]
  · have watchful := (h.watchful f hf).mono fun seen asked => Asked.later asked advances
    simp only [Moment.todo] at watchful ⊢
    split
    next ht =>
      obtain rfl : f.2 = task := h.numbered.unique (t := t) (ht ▸ hf) (Pool.mem_of_get? found)
      rw [next] at watchful
      refine enters.watchful outlook rfl rfl (fun hi => ?_) watchful
      exact ⟨⟨s, none⟩, reachable, ⟨rfl, ⟨f.2, rest, ht ▸ found, hi ▸ next⟩, rfl⟩, .single advances⟩
    next =>
      rcases outlook with ⟨same, -⟩ | passed
      · rwa [same]
      · exact watchful.passed passed

/-- Publishing keeps the invariant. -/
theorem publish {s : System} {t : TaskId} {signal : Signal} {pending : List Signal}
    {tail : List Instr} (h : Attentive options ⟨s, some ⟨t, signal :: pending, tail⟩⟩) :
    Attentive options ⟨s.signal signal, some ⟨t, pending, tail⟩⟩ := by
  obtain ⟨numbered, le⟩ := System.signal_numbered signal h.numbered
  refine ⟨numbered, fun hold heq => ?_, ?_, ?_, fun f hf => ?_⟩
  · obtain rfl := Option.some.inj heq
    exact Nat.lt_of_lt_of_le (h.held ⟨t, signal :: pending, tail⟩ rfl) le
  · have published := h.published
    cases signal with
    | idle => exact published
    | notice n => cases n <;> exact published
  · have counted := h.counted
    simp only [Moment.pending, System.idlePassages, System.passages_signal, idleEntries, idles,
      List.countP_cons] at counted ⊢
    cases signal with
    | idle =>
      simp only [System.signal, Bool.false_eq_true, if_false, if_true] at counted ⊢
      omega
    | notice n =>
      rw [System.signal, System.machine_notice]
      cases n with
      | entered before after => cases after <;> simp at counted ⊢ <;> omega
      | _ => simpa using counted
  · rw [System.signal_outlook]
    refine Watchful.mono ?_ fun seen asked => Asked.later asked .publish
    rcases s.signal_tasks signal hf with ⟨aborted, hold⟩ | ⟨new, fresh⟩
    · have watchful := h.watchful _ hold
      exact watchful
    · have same : Moment.todo ⟨s.signal signal, some ⟨t, pending, tail⟩⟩ f = f.2.stack :=
        h.todo_of_new new
      rw [same]
      exact .fresh fresh

/-- Whoever lets go of the machine keeps the invariant. -/
theorem leave {s : System} {t : TaskId} {tail : List Instr}
    (h : Attentive options ⟨s, some ⟨t, [], tail⟩⟩) : Attentive options ⟨s.letGo t tail, none⟩ := by
  have numbered : (s.proceed t tail).pool.Numbered := h.numbered.proceed t tail
  have tasks : ∀ e ∈ (s.proceed t tail).pool.tasks,
      Watchful (Moment.outlook ⟨s, none⟩) (Asked options ⟨s.letGo t tail, none⟩ e.1) e.2.caller
        e.2.stack := by
    intro e he
    refine Watchful.mono ?_ fun _ asked => Asked.later asked .leave
    rcases Pool.mem_proceed he with ⟨ne, hmem⟩ | ⟨ht, task, hmem, heq⟩
    · have watchful := h.watchful e hmem
      simp only [Moment.todo, if_neg ne] at watchful
      exact watchful
    · have watchful := h.watchful _ hmem
      simp only [Moment.todo, if_true] at watchful
      rw [heq, ht]
      exact watchful
  unfold System.letGo at tasks ⊢
  split at tasks
  next last =>
    rw [if_pos last]
    obtain ⟨released, -⟩ := System.pool_release numbered
    rcases (s.proceed t tail).release_cases with heq | ⟨-, heq⟩
    · rw [heq] at tasks ⊢
      exact ⟨numbered, nofun, h.published, h.counted, tasks⟩
    · rw [heq] at tasks released ⊢
      refine ⟨released, nofun, h.published, h.counted, fun e he => ?_⟩
      obtain ⟨task, hmem, heq'⟩ := Pool.mem_foldl_abort.mp he
      have watchful := tasks _ hmem
      simp only [Moment.todo]
      rw [heq']
      split <;> exact watchful
  next more =>
    rw [if_neg more]
    exact ⟨numbered, nofun, h.published, h.counted, tasks⟩

/-- Giving up the handle keeps the invariant. -/
theorem drop {s : System} {hold : Hold} (h : Attentive options ⟨s, some hold⟩) :
    Attentive options ⟨{ s with handle := false }, some hold⟩ :=
  ⟨h.numbered, h.held, h.published, h.counted, fun e he =>
    (h.watchful e he).mono fun _ asked => Asked.later asked .drop⟩

/-- **The invariant holds at every moment.** -/
theorem of_reachable (reachable : Reachable options z) : Attentive options z := by
  induction reachable with
  | refl => exact initial options
  | tail leads step ih =>
    cases step with
    | move step permitted => exact ih.move step permitted
    | enter found next ready enters => exact ih.enter leads found next ready enters
    | publish => exact ih.publish
    | leave => exact ih.leave
    | drop => exact ih.drop

end Attentive

/-! ## Nobody sleeps through a change -/

/-- What was published stays published. -/
theorem Advances.passages {z z' : Moment} (step : Advances z z') :
    z.system.passages <:+ z'.system.passages := by
  cases step with
  | move step permitted =>
    exact (step.silent permitted.free).passages ▸ List.suffix_refl _
  | enter => exact List.suffix_refl _
  | @publish s _ sign =>
    show s.passages <:+ (s.signal sign).passages
    rw [System.passages_signal]
    split
    · exact List.suffix_cons _ _
    · exact List.suffix_refl _
  | @leave s t tail =>
    have same : (s.letGo t tail).passages = s.passages := by
      unfold System.letGo
      split
      · exact (s.proceed t tail).release_elim rfl rfl
      · rfl
    show s.passages <:+ (s.letGo t tail).passages
    exact same ▸ List.suffix_refl _
  | drop => exact List.suffix_refl _

theorem Leads.passages {z z' : Moment} (leads : Leads z z') :
    z.system.passages <:+ z'.system.passages := by
  induction leads with
  | refl => exact List.suffix_refl _
  | tail _ step ih => exact ih.trans step.passages

/-- The machine did not become idle from one moment to another. -/
def StayedBusy (y z : Moment) : Prop :=
  ∃ recent, z.system.passages = recent ++ y.system.passages ∧ ∀ p ∈ recent, p.2 ≠ .idle

/-- If the machine was counted idle equally often, it was not idle between. -/
theorem stayedBusy_of_epoch {options : Options} {y z : Moment} (before : Reachable options y)
    (leads : Leads y z) (free : y.hold = none) (told : idles z.pending = 0)
    (epoch : y.system.machine.idleEpoch = z.system.machine.idleEpoch) : StayedBusy y z := by
  obtain ⟨recent, split⟩ := leads.passages
  refine ⟨recent, split.symm, fun p hp idle => ?_⟩
  have first := (Attentive.of_reachable before).counted
  have last := (Attentive.of_reachable (before.trans leads)).counted
  have nothing : y.pending = [] := by simp only [Moment.pending, free]
  rw [nothing] at first
  simp only [System.idlePassages, ← split, List.countP_append, epoch, told, Nat.add_zero]
    at first last
  simp only [idleEntries, idles, List.countP_nil, Nat.add_zero] at first last
  -- Every passage to idle was counted, so equal counts leave none in between.
  have none : recent.countP (fun p => p.2 = State.idle) = 0 := by omega
  exact absurd idle (by simpa using List.countP_eq_zero.mp none p hp)

/-- **Nobody sleeps through a change.** Of a task that does not hold the machine itself: when nobody
does, a call that waits for a running worker and has seen what was published last waits for a
machine that starts or stops. And unless a new count of idle states is about to be told, a call that
waits for the end of a worker, and was told of none after the one it started from, waits for a
machine that stops and has not been idle since the call asked. A new count is about to be told only
while the machine is held, from the moment it enters idle until it has said so: when nobody holds
it, `z.pending` is empty. -/
theorem awake_of_reachable {options : Options} {z : Moment} (reachable : Reachable options z)
    {t : TaskId} {task : Task Instr} {i : Instr} {rest : List Instr}
    (found : z.system.pool.get? t = some task) (next : task.stack = i :: rest)
    (outside : ∀ hold, z.hold = some hold → hold.task ≠ t) :
    (∀ need awaited, i = .wait need awaited z.system.version → z.hold = none →
      z.system.machine.state = .starting ∨ z.system.machine.state = .stopping) ∧
    (∀ seen, i = .awaitIdle seen → ¬ seen < z.system.machine.idleEpoch → idles z.pending = 0 →
      z.system.machine.state = .stopping ∧
      ∃ y, Reachable options y ∧ AskedAt t seen y ∧ Leads y z ∧ StayedBusy y z) := by
  have watchful := (Attentive.of_reachable reachable).watchful _ (Pool.mem_of_get? found)
  have todo : z.todo (t, task) = i :: rest := by
    unfold Moment.todo
    split
    next hold heq => rw [if_neg fun same => outside hold heq same.symm, next]
    next => exact next
  rw [todo] at watchful
  have alert := watchful.alert.1
  constructor
  · rintro need awaited rfl free
    -- Nobody holds the machine, so nothing is left to publish and the outlook is what is published.
    have late : ¬ z.system.version < z.outlook.version := by
      simp only [Moment.outlook, Moment.pending, free]
      exact Nat.lt_irrefl _
    rcases (alert.resolve_left late).2 with starting | stopping | ⟨-, starts⟩
    · exact .inl starting
    · exact .inr stopping
    · cases starts
  · rintro seen rfl unseen told
    have epoch : z.outlook.epoch = z.system.machine.idleEpoch := by
      simp only [Moment.outlook, told, Nat.add_zero]
    obtain ⟨same, stopping⟩ := alert.resolve_left (epoch ▸ unseen)
    obtain ⟨y, before, asked, leads⟩ := watchful.asked seen List.mem_cons_self
    refine ⟨stopping, y, before, asked, leads, stayedBusy_of_epoch before leads asked.1 told ?_⟩
    rw [asked.2.2, same, epoch]

/-- A run goes from moment to moment. -/
theorem Run.reachable {options : Options} {past : List Move} {s : System}
    (run : Run options past s) : Reachable options ⟨s, none⟩ := by
  induction run with
  | start => exact .refl
  | next _ step ih => exact ih.trans step.leads

/-- A call that waits while the worker starts, and one that waits for the end of a worker that is
still to be launched. -/
theorem awake_of_start_and_stop :
    (∃ z, Reachable .standard z ∧ z.hold = none ∧
      z.system.pool.get? 2 =
        some ⟨some "someone", [.wait (.notify "note" none) true z.system.version], false, false⟩ ∧
      (z.system.machine.state = .starting ∨ z.system.machine.state = .stopping)) ∧
    ∃ z, Reachable .standard z ∧
      z.system.pool.get? 2 = some ⟨some "someone", [.awaitIdle 0, .finish .done], true, false⟩ ∧
      ¬ 0 < z.system.machine.idleEpoch ∧ idles z.pending = 0 ∧
      z.system.machine.state = .stopping ∧
      ∃ y, Reachable .standard y ∧ AskedAt 2 0 y ∧ Leads y z ∧ StayedBusy y z := by
  have asked := Run.start.next (.ask (.initial .standard) (.start (some ⟨[47]⟩)))
  have acted := asked.next (.act (t := 0) (a := .nothing) rfl rfl rfl)
  have started := acted.next (.act (t := 0) (a := .nothing) rfl rfl rfl)
  constructor
  · have called := started.next (.ask _ (.call "someone" (.notify "note" (.ok none))))
    have joined := called.next (.act (t := 1) (a := .nothing) rfl rfl rfl)
    have begun := joined.next (.act (t := 2) (a := .nothing) rfl rfl rfl)
    have looked := begun.next (.act (t := 2) (a := .nothing) rfl rfl rfl)
    exact ⟨_, looked.reachable, rfl, rfl,
      (awake_of_reachable looked.reachable (t := 2) rfl rfl nofun).1 _ _ rfl rfl⟩
  · have called := started.next (.ask _ (.call "someone" .shutdown))
    have joined := called.next (.act (t := 1) (a := .nothing) rfl rfl rfl)
    have begun := joined.next (.act (t := 2) (a := .nothing) rfl rfl rfl)
    have stops := begun.next (.act (t := 2) (a := .nothing) rfl rfl rfl)
    have parked := stops.next (.park (t := 2) rfl rfl rfl)
    exact ⟨_, parked.reachable, rfl, by decide, rfl,
      (awake_of_reachable parked.reachable (t := 2) rfl rfl nofun).2 0 rfl (by decide) rfl⟩

end Supervision.Worker
