import Mathlib.Algebra.GroupWithZero.Nat
import Supervision.Proofs.Worker.Chronicle

/-!
# How often a worker is launched

A launch is issued by an idle machine that is told to start in a workspace, and by no other
(`Machine.Launches`). The laws here count the launches that are issued along a chronicle: between
two of them the machine becomes idle (`Frugal.of_since`), so however many tell an idle machine to
start, it issues one launch until it is idle again (`together_of_idle`).

Whoever applies an event is told of it after the machine has changed. So the count is kept against
what is still to be told, too: a machine that is idle, and was launched, has told so or will.
-/

namespace Supervision.Worker

/-! ## Launches of a chronicle -/

def Effect.launches : Effect → Bool
  | .launch .. => true
  | _ => false

/-- How many launches are issued. -/
def Occurrence.issues : Occurrence → Nat
  | .entered _ _ _ effects => effects.countP Effect.launches
  | _ => 0

/-- How many launches were issued. -/
def issuedLaunches (later : List Occurrence) : Nat :=
  (later.map Occurrence.issues).sum

/-- True of what happens when the machine is told to start. -/
def Occurrence.begins : Occurrence → Bool
  | .entered _ _ (.start _) _ => true
  | _ => false

/-- How often the machine was told to start. -/
def startsIn (later : List Occurrence) : Nat :=
  later.countP Occurrence.begins

/-! ## What an event has to do with launches -/

theorem idleEntries_cons (signal : Signal) (pending : List Signal) :
    idleEntries (signal :: pending) =
      (Occurrence.told signal).enters?.toList.count .idle + idleEntries pending := by
  unfold idleEntries
  rw [List.countP_cons, Nat.add_comm]
  congr 1
  cases signal with
  | idle => rfl
  | notice n =>
    cases n with
    | entered before after => cases after <;> rfl
    | _ => rfl

/-- Whoever is told last that the machine is idle, and was not before, is told that it became
so. -/
theorem idleEntries_of_lastPublished {state : State} {pending : List Signal}
    (busy : state ≠ .idle) (last : lastPublished state pending = .idle) :
    0 < idleEntries pending := by
  induction pending generalizing state with
  | nil => exact absurd last busy
  | cons signal pending ih =>
    rw [idleEntries_cons]
    cases signal with
    | idle => exact Nat.add_pos_right _ (ih busy last)
    | notice n =>
      cases n with
      | entered before after =>
        by_cases idle : after = .idle
        · subst idle
          exact Nat.add_pos_left Nat.one_pos _
        · exact Nat.add_pos_right _ (ih idle last)
      | _ => exact Nat.add_pos_right _ (ih busy last)

/-- What an event has to do with launches. -/
inductive Machine.Launches (m : Machine) (e : Event) : Prop
  /-- An idle machine starts in a workspace. -/
  | begins (idle : m.state = .idle) (start : ∃ path, e = .start path)
      (one : (m.transition e).effects.countP Effect.launches = 1)
      (busy : (m.transition e).machine.state ≠ .idle)
  /-- An idle machine starts without a workspace, and is idle again. -/
  | fails (idle : m.state = .idle)
      (none : (m.transition e).effects.countP Effect.launches = 0)
      (told : 0 < idleEntries (m.transition e).signals)
  | rests (idle : m.state = .idle) (other : ∀ path, e ≠ .start path)
      (none : (m.transition e).effects.countP Effect.launches = 0)
      (still : (m.transition e).machine.state = .idle)
  /-- A machine that is not idle launches nothing, and is told to be idle when it becomes so. -/
  | busy (busy : m.state ≠ .idle) (none : (m.transition e).effects.countP Effect.launches = 0)
      (told : (m.transition e).machine.state = .idle → 0 < idleEntries (m.transition e).signals)

theorem Machine.launches_beginTeardown (m : Machine) (alive : Bool) :
    (m.beginTeardown alive).effects.countP Effect.launches = 0 := by
  unfold beginTeardown
  split <;> rfl

/-- A machine that is not idle launches nothing. -/
theorem Machine.launches_of_busy {m : Machine} (busy : m.state ≠ .idle) (e : Event) :
    (m.transition e).effects.countP Effect.launches = 0 := by
  cases e with
  | start path =>
    simp only [transition, if_neg busy]
    rfl
  | stop =>
    simp only [transition]
    split
    · rfl
    · exact m.launches_beginTeardown true
    · rfl
  | setPath path =>
    simp only [transition]
    split <;> rfl
  | launched generation result =>
    simp only [transition]
    split
    · split
      · unfold ready
        dsimp only
        split <;> rfl
      · rfl
      · rfl
      · rfl
      · rfl
    · rfl
  | exited generation =>
    simp only [transition]
    split
    · exact m.launches_beginTeardown false
    · rfl
  | tornDown generation =>
    simp only [transition]
    split <;> rfl

/-- An idle machine stays as it is unless it is told to start. -/
theorem Machine.rests_of_idle {m : Machine} (idle : m.state = .idle) {e : Event}
    (other : ∀ path, e ≠ .start path) :
    (m.transition e).effects.countP Effect.launches = 0 ∧
      (m.transition e).machine.state = .idle := by
  cases e with
  | start path => exact absurd rfl (other path)
  | stop =>
    simp only [transition, idle]
    exact ⟨rfl, idle⟩
  | setPath path =>
    simp only [transition, idle]
    exact ⟨rfl, rfl⟩
  | launched generation result =>
    simp only [transition, idle]
    split <;> exact ⟨rfl, idle⟩
  | exited generation =>
    simp only [transition, idle]
    exact ⟨rfl, idle⟩
  | tornDown generation =>
    simp only [transition, idle]
    exact ⟨rfl, idle⟩

/-- **What an event has to do with launches.** -/
theorem Machine.launches_transition (m : Machine) (e : Event) : m.Launches e := by
  by_cases idle : m.state = .idle
  · by_cases start : ∃ path, e = .start path
    · obtain ⟨path, rfl⟩ := start
      have begins : m.transition (.start path) = m.begin path := if_pos idle
      cases workspace : m.pathFor path with
      | some p =>
        refine .begins idle ⟨path, rfl⟩ ?_ ?_
        · simp only [begins, Machine.begin, Machine.enter, workspace]
          rfl
        · simp only [begins, Machine.begin, Machine.enter, workspace]
          exact State.noConfusion
      | none =>
        refine .fails idle ?_ ?_
        · simp only [begins, Machine.begin, Machine.enter, workspace]
          rfl
        · simp only [begins, Machine.begin, Machine.enter, workspace]
          exact Nat.succ_pos _
    · have other : ∀ path, e ≠ .start path := fun path same => start ⟨path, same⟩
      obtain ⟨none, still⟩ := rests_of_idle idle other
      exact .rests idle other none still
  · refine .busy idle (launches_of_busy idle e) fun now => ?_
    exact idleEntries_of_lastPublished idle ((m.told_transition e).state.trans now)

/-! ## What happens to launches -/

/-- What happens: an event is applied, or nothing is issued, and what was to be told still is or is
told. -/
inductive Issues (z : Moment) (o : Occurrence) (z' : Moment) : Prop
  | applied {t : TaskId} {i : Instr} {e : Event}
      (move : o = .entered t i e (z.system.machine.transition e).effects) (quiet : z.pending = [])
      (pending : z'.pending = (z.system.machine.transition e).signals)
      (state : z'.system.machine.state = (z.system.machine.transition e).machine.state)
  | told (issues : o.issues = 0) (begins : o.begins = false)
      (state : z'.system.machine.state = z.system.machine.state)
      (idles : o.enters?.toList.count .idle + idleEntries z'.pending = idleEntries z.pending)

theorem Happens.issues {z z' : Moment} {o : Occurrence} (h : Happens z o z') : Issues z o z' := by
  cases h with
  | move step permitted =>
    have machine := (step.silent permitted.free).machine
    exact .told rfl rfl (congrArg Machine.state machine) (Nat.zero_add _)
  | enter => exact .applied rfl rfl rfl rfl
  | @publish s t signal pending tail =>
    refine .told rfl rfl ?_ ?_
    · cases signal with
      | idle => rfl
      | notice n => exact congrArg Machine.state (s.machine_notice n)
    · exact (idleEntries_cons signal pending).symm
  | @leave s t tail =>
    exact .told rfl rfl (congrArg Machine.state (s.silent_letGo t tail).machine) rfl
  | drop => exact .told rfl rfl rfl (Nat.zero_add _)

theorem count_enteredStates (o : Occurrence) (later : List Occurrence) :
    (enteredStates (o :: later)).count .idle =
      o.enters?.toList.count .idle + (enteredStates later).count .idle := by
  rw [enteredStates_cons, List.count_append]

/-- Launches are no more than the times at which the machine became idle, and one. An idle machine
has been told to be idle as often as it launched, or will be. -/
structure Frugal (past : List Occurrence) (z : Moment) : Prop where
  bound : issuedLaunches past ≤ (enteredStates past).count .idle + 1
  idle : z.system.machine.state = .idle →
    issuedLaunches past ≤ (enteredStates past).count .idle + idleEntries z.pending

/-- **Between two launches the machine becomes idle.** -/
theorem Frugal.of_since {options : Options} {past : List Occurrence} {z : Moment}
    (h : Since ⟨.initial options, none⟩ past z) : Frugal past z := by
  induction h with
  | here => exact ⟨Nat.zero_le _, fun _ => Nat.zero_le _⟩
  | @next z z' past o _ step ih =>
    have count := count_enteredStates o past
    have issued : issuedLaunches (o :: past) = o.issues + issuedLaunches past := rfl
    cases step.issues with
    | @applied t i e move quiet pending state =>
      subst move
      have idle := ih.idle
      have bound := ih.bound
      rw [quiet] at idle
      have nothing : idleEntries [] = 0 := rfl
      have here : (Occurrence.entered t i e (z.system.machine.transition e).effects).issues =
        (z.system.machine.transition e).effects.countP Effect.launches := rfl
      have silent : (Occurrence.entered t i e
        (z.system.machine.transition e).effects).enters?.toList.count .idle = 0 := rfl
      cases z.system.machine.launches_transition e with
      | begins was _ one busy =>
        have before := idle was
        exact ⟨by omega, fun now => absurd (state.symm.trans now) busy⟩
      | fails was none told =>
        have before := idle was
        exact ⟨by omega, fun _ => by rw [pending]; omega⟩
      | rests was _ none =>
        have before := idle was
        exact ⟨by omega, fun _ => by rw [pending]; omega⟩
      | busy _ none told =>
        refine ⟨by omega, fun now => ?_⟩
        have more := told (state.symm.trans now)
        rw [pending]
        omega
    | told issues _ state idles =>
      have bound := ih.bound
      refine ⟨by omega, fun now => ?_⟩
      have before := ih.idle (state.symm.trans now)
      omega

/-- How an idle machine goes on until it becomes idle again. -/
inductive Wakes (later : List Occurrence) (z : Moment) : Prop
  | again (idle : .idle ∈ enteredStates later ∨ 0 < idleEntries z.pending)
  | rests (none : issuedLaunches later = 0) (silent : startsIn later = 0)
      (idle : z.system.machine.state = .idle)
  | launched (one : issuedLaunches later = 1) (told : 0 < startsIn later)
      (busy : z.system.machine.state ≠ .idle)

theorem Wakes.next {later : List Occurrence} {z z' : Moment} {o : Occurrence}
    (h : Wakes later z) (step : Happens z o z') : Wakes (o :: later) z' := by
  have count := count_enteredStates o later
  have issued : issuedLaunches (o :: later) = o.issues + issuedLaunches later := rfl
  cases step.issues with
  | @applied t i e move quiet pending state =>
    subst move
    have here : (Occurrence.entered t i e (z.system.machine.transition e).effects).issues =
      (z.system.machine.transition e).effects.countP Effect.launches := rfl
    have begins := List.countP_cons (p := Occurrence.begins) (l := later)
      (a := .entered t i e (z.system.machine.transition e).effects)
    cases h with
    | again idle =>
      rw [quiet] at idle
      have entered := idle.resolve_right (Nat.lt_irrefl 0)
      exact .again (.inl (List.count_pos_iff.mp (count ▸ Nat.add_pos_right _
        (List.count_pos_iff.mpr entered))))
    | rests none silent idle =>
      cases z.system.machine.launches_transition e with
      | begins _ start one busy =>
        obtain ⟨path, rfl⟩ := start
        refine .launched (by omega) ?_ fun now => busy (state.symm.trans now)
        rw [startsIn, begins]
        exact Nat.succ_pos _
      | fails _ _ told => exact .again (.inr (pending ▸ told))
      | rests _ other nothing still =>
        refine .rests (by omega) ?_ (state.trans still)
        have mute : (Occurrence.entered t i e
            (z.system.machine.transition e).effects).begins = false := by
          cases e with
          | start path => exact absurd rfl (other path)
          | _ => rfl
        rw [startsIn, begins, if_neg (by rw [mute]; exact Bool.false_ne_true)]
        exact silent
      | busy busy => exact absurd idle busy
    | launched one told busy =>
      have nothing := Machine.launches_of_busy busy e
      by_cases now : (z.system.machine.transition e).machine.state = .idle
      · have told := idleEntries_of_lastPublished busy
          ((z.system.machine.told_transition e).state.trans now)
        exact .again (.inr (pending ▸ told))
      · refine .launched (by omega) ?_ fun idle => now (state.symm.trans idle)
        rw [startsIn, begins]
        exact Nat.add_pos_left told _
  | told issues begins state idles =>
    have starts : startsIn (o :: later) = startsIn later :=
      List.countP_cons_of_neg (by rw [begins]; exact Bool.false_ne_true)
    cases h with
    | again idle =>
      rcases idle with entered | pending
      · exact .again (.inl (List.count_pos_iff.mp (count ▸ Nat.add_pos_right _
          (List.count_pos_iff.mpr entered))))
      · by_cases left : 0 < idleEntries z'.pending
        · exact .again (.inr left)
        · have entered : 0 < (enteredStates (o :: later)).count .idle := by omega
          exact .again (.inl (List.count_pos_iff.mp entered))
    | rests none silent idle =>
      exact .rests (by omega) (starts.trans silent) (state.trans idle)
    | launched one told busy =>
      exact .launched (by omega) (starts.symm ▸ told) fun now => busy (state.symm.trans now)

/-- An idle machine is idle again, launches nothing, or launches once. -/
theorem wakes_of_idle {y z : Moment} {later : List Occurrence}
    (idle : y.system.machine.state = .idle) (onward : Since y later z) : Wakes later z := by
  induction onward with
  | here => exact .rests rfl rfl idle
  | next _ step ih => exact ih.next step

/-- **However many tell an idle machine to start, it issues one launch** until it is told to be idle
again. -/
theorem together_of_idle {y z : Moment} {later : List Occurrence}
    (idle : y.system.machine.state = .idle) (onward : Since y later z)
    (busy : .idle ∉ enteredStates later) (quiet : idleEntries z.pending = 0) :
    issuedLaunches later = min 1 (startsIn later) := by
  cases wakes_of_idle idle onward with
  | again idle => exact absurd idle (not_or.mpr ⟨busy, Nat.not_lt.mpr (Nat.le_of_eq quiet)⟩)
  | rests none silent => rw [none, silent]; rfl
  | launched one told => rw [one, Nat.min_eq_left told]

end Supervision.Worker
