import Supervision.Proofs.Worker.Run
import Mathlib.Logic.Relation

/-!
# Moments of a supervisor

A step applies an event at once, with everything others notice of it. In truth whoever applies an
event holds the machine for a while: what is published comes one thing after another, and whoever
only looks at what is published does not wait until the machine is let go of. A `Moment` is a
supervisor together with whoever holds its machine, and what is still to be published.

Between two such moments others go on, as long as they do not need the machine. `Moves.leads` says
that this is a finer view of the same runs: what happens in one move happens in some moments.
-/

namespace Supervision.Worker

/-- One of the things others notice while an event is applied. That the machine became idle is told
in two ways, and first by a new count. -/
inductive Signal
  | idle
  | notice (n : Notice)

/-- What a notice is made of. -/
def Notice.signals : Notice → List Signal
  | .entered before .idle => [.idle, .notice (.entered before .idle)]
  | n => [.notice n]

/-- The signals of a transition. -/
def Transition.signals (t : Transition) : List Signal :=
  t.notices.flatMap Notice.signals

/-- Someone who holds the machine. -/
structure Hold where
  task : TaskId
  /-- What is still to be published. -/
  pending : List Signal
  /-- What the task has to do once it has let go. -/
  tail : List Instr

/-- A supervisor, and who holds its machine. -/
structure Moment where
  system : System
  hold : Option Hold

/-- Publishes one thing. -/
def System.signal (s : System) : Signal → System
  | .idle => { s with machine := { s.machine with idleEpoch := s.machine.idleEpoch + 1 } }
  | .notice n => s.notice n

/-- The system when an event was applied and nothing of it was published. -/
def System.seize (s : System) (e : Event) : System :=
  { s with machine := { (s.machine.transition e).machine with idleEpoch := s.machine.idleEpoch } }

/-- The system when a task lets go of the machine and goes on. -/
def System.letGo (s : System) (t : TaskId) (tail : List Instr) : System :=
  if tail.isEmpty then (s.proceed t tail).release else s.proceed t tail

/-- An instruction that applies an event, and what the task then has to do. -/
inductive Enters (s : System) : Instr → Event → List Instr → Prop
  | handle {e : Event} (alive : s.alive = true) : Enters s (.handle e) e (s.apply e).2
  | halt (busy : s.machine.state ≠ .idle) :
    Enters s .halt .stop ((s.apply .stop).2 ++ [.awaitIdle s.machine.idleEpoch])

/-- True of instructions that need the machine. -/
def Instr.locks : Instr → Bool
  | .handle _ | .halt | .take .. | .refreshBegin => true
  | _ => false

/-- What may happen as one move: anything that applies no event while nobody holds the machine, and
otherwise what does not need it. -/
def Moment.Permits (z : Moment) : Move → Prop
  | .did t i _ =>
    match z.hold with
    | none => ∀ e before, ¬ Enters z.system i e before
    | some hold => t ≠ hold.task ∧ i.locks = false
  | .parked t | .aborted t => ∀ hold, z.hold = some hold → t ≠ hold.task
  | .dropped => z.hold = none
  | _ => True

/-- From one moment to the next. -/
inductive Advances : Moment → Moment → Prop
  | move {z : Moment} {m : Move} {s : System} (step : Moves z.system m s) (permitted : z.Permits m) :
    Advances z { z with system := s }
  | enter {s : System} {t : TaskId} {task : Task Instr} {i : Instr} {rest before : List Instr}
    {e : Event} (found : s.pool.get? t = some task) (next : task.stack = i :: rest)
    (ready : (task.parked && task.aborted) = false) (enters : Enters s i e before) :
    Advances ⟨s, none⟩ ⟨s.seize e,
      some ⟨t, (s.machine.transition e).signals, before ++ rest⟩⟩
  | publish {s : System} {t : TaskId} {signal : Signal} {pending : List Signal} {tail : List Instr} :
    Advances ⟨s, some ⟨t, signal :: pending, tail⟩⟩ ⟨s.signal signal, some ⟨t, pending, tail⟩⟩
  | leave {s : System} {t : TaskId} {tail : List Instr} :
    Advances ⟨s, some ⟨t, [], tail⟩⟩ ⟨s.letGo t tail, none⟩
  /-- The handle is given up while the machine is held. -/
  | drop {s : System} {hold : Hold} :
    Advances ⟨s, some hold⟩ ⟨{ s with handle := false }, some hold⟩

/-- Some moments later. -/
abbrev Leads : Moment → Moment → Prop :=
  Relation.ReflTransGen Advances

/-- A moment of some run. -/
def Reachable (options : Options) (z : Moment) : Prop :=
  Leads ⟨.initial options, none⟩ z

/-! ## What an event publishes -/

/-- How many of some signals tell that the machine became idle. -/
def idles (pending : List Signal) : Nat :=
  pending.countP fun | .idle => true | _ => false

/-- How many of some signals publish a state. -/
def entries (pending : List Signal) : Nat :=
  pending.countP fun | .notice (.entered ..) => true | _ => false

/-- How many of some signals publish that the machine is idle. -/
def idleEntries (pending : List Signal) : Nat :=
  pending.countP fun | .notice (.entered _ .idle) => true | _ => false

/-- How often it was published that the machine is idle. -/
def System.idlePassages (s : System) : Nat :=
  s.passages.countP fun p => p.2 = .idle

/-- The state that is published last, if `state` was before. -/
def lastPublished (state : State) (pending : List Signal) : State :=
  pending.foldl (fun state signal => match signal with
    | .notice (.entered _ after) => after
    | _ => state) state

/-- Whoever is told that the machine became idle is then told its state. -/
theorem idleEntries_signals (t : Transition) : idleEntries t.signals = idles t.signals := by
  unfold Transition.signals
  induction t.notices with
  | nil => rfl
  | cons n ns ih =>
    simp only [List.flatMap_cons, idleEntries, idles, List.countP_append] at ih ⊢
    rw [ih]
    congr 1
    cases n with
    | entered before after => cases after <;> rfl
    | _ => rfl

/-- What is published of a transition tells the machine afterwards. -/
structure Transition.Told (m : Machine) (t : Transition) : Prop where
  epoch : t.machine.idleEpoch = m.idleEpoch + idles t.signals
  state : lastPublished m.state t.signals = t.machine.state
  /-- Nothing is published when nothing changes. -/
  quiet : entries t.signals = 0 → t.machine.state = m.state ∧ idles t.signals = 0
  /-- A machine that stops becomes idle before anything else. -/
  stopping : m.state = .stopping → entries t.signals = 0 ∨ 0 < idles t.signals

namespace Machine

variable (m : Machine)

theorem told_unchanged : m.unchanged.Told m :=
  ⟨rfl, rfl, fun _ => ⟨rfl, rfl⟩, fun _ => .inl rfl⟩

theorem told_begin (idle : m.state = .idle) (path : Option Path) : (m.begin path).Told m := by
  unfold begin
  dsimp only
  split
  · exact ⟨rfl, rfl, nofun, fun stopping => by rw [idle] at stopping; cases stopping⟩
  · exact ⟨rfl, rfl, nofun, fun stopping => by rw [idle] at stopping; cases stopping⟩

theorem told_beginTeardown (running : m.state = .running) (alive : Bool) :
    (m.beginTeardown alive).Told m := by
  unfold beginTeardown
  split
  · exact ⟨rfl, rfl, nofun, fun stopping => by rw [running] at stopping; cases stopping⟩
  · exact ⟨rfl, rfl, nofun, fun stopping => by rw [running] at stopping; cases stopping⟩

/-- **What is published of an event tells the machine afterwards.** -/
theorem told_transition (e : Event) : (m.transition e).Told m := by
  cases e with
  | start path =>
    simp only [transition]
    split
    next idle => exact m.told_begin idle path
    next => exact m.told_unchanged
  | stop =>
    simp only [transition]
    split
    next starting =>
      exact ⟨rfl, rfl, (fun h => by cases h),
        fun stopping => by rw [starting] at stopping; cases stopping⟩
    next running => exact m.told_beginTeardown running true
    next => exact m.told_unchanged
  | setPath path =>
    simp only [transition]
    split <;> exact ⟨rfl, rfl, fun _ => ⟨rfl, rfl⟩, fun _ => .inl rfl⟩
  | launched generation result =>
    simp only [transition]
    split
    · split
      next starting =>
        exact ⟨rfl, rfl, (fun h => by cases h),
          fun stopping => by rw [starting] at stopping; cases stopping⟩
      next starting =>
        exact ⟨rfl, rfl, (fun h => by cases h),
          fun stopping => by rw [starting] at stopping; cases stopping⟩
      next => exact ⟨rfl, rfl, fun _ => ⟨rfl, rfl⟩, fun _ => .inl rfl⟩
      next => exact ⟨rfl, rfl, (fun h => by cases h), fun _ => .inr Nat.one_pos⟩
      next => exact m.told_unchanged
    · exact m.told_unchanged
  | exited generation =>
    simp only [transition]
    split
    next h => exact m.told_beginTeardown h.1 false
    next => exact m.told_unchanged
  | tornDown generation =>
    simp only [transition]
    split
    · exact ⟨rfl, rfl, (fun h => by cases h), fun _ => .inr Nat.one_pos⟩
    · exact m.told_unchanged

/-- A start of an idle machine is published. -/
theorem entries_start (idle : m.state = .idle) (path : Option Path) :
    0 < entries (m.transition (.start path)).signals := by
  simp only [transition, if_pos idle]
  unfold begin
  dsimp only
  split <;> exact Nat.succ_pos _

/-- A stop of a machine that is not idle makes it stop, or idle. -/
theorem stop_stopping (busy : m.state ≠ .idle) (still : idles (m.transition .stop).signals = 0) :
    (m.transition .stop).machine.state = .stopping := by
  simp only [transition] at still ⊢
  split at still
  · rfl
  · unfold beginTeardown at still ⊢
    split at still
    · rfl
    · exact absurd still (Nat.succ_ne_zero _)
  next notStarting notRunning =>
    cases state : m.state with
    | idle => exact absurd state busy
    | starting => exact absurd state notStarting
    | running => exact absurd state notRunning
    | stopping => simp only [unchanged, state]

end Machine

/-! ## Moves are moments -/

namespace System

/-- Notices have nothing to do with the machine. -/
theorem notices_with (s : System) (m : Machine) (ns : List Notice) :
    ns.foldl notice { s with machine := m } = { ns.foldl notice s with machine := m } := by
  induction ns generalizing s with
  | nil => rfl
  | cons n ns ih =>
    have first : notice { s with machine := m } n = { s.notice n with machine := m } := by
      cases n <;> rfl
    rw [List.foldl_cons, List.foldl_cons, first, ih]

/-- Publishing a notice, signal by signal. -/
private theorem foldl_signals (s : System) (n : Notice) :
    n.signals.foldl signal s = { s.notice n with
      machine := { s.machine with
        idleEpoch := s.machine.idleEpoch + idles n.signals } } := by
  cases n with
  | entered before after => cases after <;> rfl
  | _ => rfl

/-- The passages are what was published of the state. -/
theorem passages_signal (s : System) (sign : Signal) : (s.signal sign).passages =
    match sign with
    | .notice (.entered before after) => (before, after) :: s.passages
    | _ => s.passages := by
  cases sign with
  | idle => rfl
  | notice n => cases n <;> rfl

/-- Publishing everything, one thing after another. -/
theorem foldl_signal (s : System) (ns : List Notice) :
    (ns.flatMap Notice.signals).foldl signal s = { ns.foldl notice s with
      machine := { s.machine with
        idleEpoch := s.machine.idleEpoch + idles (ns.flatMap Notice.signals) } } := by
  induction ns generalizing s with
  | nil => rfl
  | cons n ns ih =>
    simp only [List.flatMap_cons, List.foldl_append, foldl_signals, ih, notices_with, List.foldl_cons,
      idles, List.countP_append, Nat.add_assoc]

/-- Whoever holds the machine and has published everything has applied the event. -/
theorem foldl_signal_seize (s : System) (e : Event) :
    (s.machine.transition e).signals.foldl signal (s.seize e) = (s.apply e).1 := by
  have told := s.machine.told_transition e
  rw [Transition.signals, foldl_signal]
  simp only [seize, apply, notices_with]
  rw [← Transition.signals, ← told.epoch]

end System

/-- Everything is published before the machine is let go of. -/
theorem leads_publish (s : System) (t : TaskId) (pending : List Signal) (tail : List Instr) :
    Leads ⟨s, some ⟨t, pending, tail⟩⟩ ⟨pending.foldl System.signal s, some ⟨t, [], tail⟩⟩ := by
  induction pending generalizing s with
  | nil => exact .refl
  | cons signal pending ih => exact .head .publish (ih (s.signal signal))

/-- Applying an event is to take hold of the machine, publish everything and let go. -/
theorem Enters.leads {s : System} {t : TaskId} {task : Task Instr} {i : Instr}
    {rest before : List Instr} {e : Event} (enters : Enters s i e before)
    (found : s.pool.get? t = some task) (next : task.stack = i :: rest)
    (ready : (task.parked && task.aborted) = false) :
    Leads ⟨s, none⟩ ⟨(s.apply e).1.letGo t (before ++ rest), none⟩ := by
  have published := leads_publish (s.seize e) t (s.machine.transition e).signals (before ++ rest)
  rw [System.foldl_signal_seize] at published
  exact .head (.enter found next ready enters) (published.tail .leave)

/-- What executing an instruction that applies an event comes to. -/
theorem Enters.exec_eq {s r : System} {t : TaskId} {caller : String} {i : Instr} {a : Answer}
    {e : Event} {before left : List Instr} (enters : Enters s i e before)
    (h : s.exec t caller i a = some (r, left)) : r = (s.apply e).1 ∧ left = before := by
  cases enters with
  | handle alive =>
    cases a with
    | nothing =>
      simp only [System.exec, alive, if_true] at h
      cases h
      exact ⟨rfl, rfl⟩
    | _ => cases h
  | halt busy =>
    cases a with
    | nothing =>
      simp only [System.exec, if_neg busy] at h
      cases h
      exact ⟨rfl, rfl⟩
    | _ => cases h

/-- **Moves are moments.** What happens in one move happens in some moments. -/
theorem Moves.leads {s s' : System} {m : Move} (step : Moves s m s') :
    Leads ⟨s, none⟩ ⟨s', none⟩ := by
  have whole (permitted : Moment.Permits ⟨s, none⟩ m) : Leads ⟨s, none⟩ ⟨s', none⟩ :=
    .single (.move step permitted)
  cases step with
  | @act _ t task i rest a found next taken =>
    by_cases entering : ∃ e before, Enters s i e before
    · obtain ⟨e, before, enters⟩ := entering
      obtain ⟨caller, stack, parked, aborted⟩ := task
      simp only at next
      subst next
      simp only [System.step, found] at taken
      split at taken
      next => cases taken
      next ready =>
        split at taken
        next r left hexec =>
          obtain ⟨rfl, rfl⟩ := enters.exec_eq hexec
          have last : (left.isEmpty && rest.isEmpty) = (left ++ rest).isEmpty := by
            cases left <;> rfl
          rw [last] at taken
          rw [← Option.some.inj taken]
          exact enters.leads found rfl (by simpa using ready)
        next => cases taken
    · exact whole fun e before enters => entering ⟨e, before, enters⟩
  | park => exact whole fun _ held => by cases held
  | abort => exact whole fun _ held => by cases held
  | drop => exact whole rfl
  | _ => exact whole trivial

end Supervision.Worker
