import Supervision.Proofs.Worker.Barrier
import Supervision.Proofs.Worker.Custody

/-!
# Chronicles of moments

What happened from one moment to another, the latest first. A move is kept with the state that was
published when it was made, since whoever looks sees that state, and not what the machine is; an
event that is applied is kept with the effects it issues; and what is told of it comes after, one
thing after another, while others go on.

A chronicle says what a task has to do at each moment (`Happens.becomes`), and what is published is
what was told last (`Since.published`).
-/

namespace Supervision.Worker

/-! ## What happens -/

/-- What happens from one moment to the next. -/
inductive Occurrence
  /-- A move was made, while a state was published. -/
  | moved (m : Move) (published : State)
  /-- A task took hold of the machine and applied an event, which issued effects. -/
  | entered (t : TaskId) (i : Instr) (e : Event) (effects : List Effect)
  | told (signal : Signal)
  /-- A task let go of the machine. -/
  | left (t : TaskId)
  /-- The handle was given up while the machine was held. -/
  | dropped

/-- From one moment to the next, by what happens. -/
inductive Happens : Moment → Occurrence → Moment → Prop
  | move {z : Moment} {m : Move} {s : System} (step : Moves z.system m s)
    (permitted : z.Permits m) : Happens z (.moved m z.system.published) { z with system := s }
  | enter {s : System} {t : TaskId} {task : Task Instr} {i : Instr} {rest before : List Instr}
    {e : Event} (found : s.pool.get? t = some task) (next : task.stack = i :: rest)
    (ready : (task.parked && task.aborted) = false) (enters : Enters s i e before) :
    Happens ⟨s, none⟩ (.entered t i e (s.machine.transition e).effects)
      ⟨s.seize e, some ⟨t, (s.machine.transition e).signals, before ++ rest⟩⟩
  | publish {s : System} {t : TaskId} {signal : Signal} {pending : List Signal}
    {tail : List Instr} :
    Happens ⟨s, some ⟨t, signal :: pending, tail⟩⟩ (.told signal)
      ⟨s.signal signal, some ⟨t, pending, tail⟩⟩
  | leave {s : System} {t : TaskId} {tail : List Instr} :
    Happens ⟨s, some ⟨t, [], tail⟩⟩ (.left t) ⟨s.letGo t tail, none⟩
  | drop {s : System} {hold : Hold} :
    Happens ⟨s, some hold⟩ .dropped ⟨{ s with handle := false }, some hold⟩

theorem Happens.advances {z z' : Moment} {o : Occurrence} (h : Happens z o z') : Advances z z' := by
  cases h with
  | move step permitted => exact .move step permitted
  | enter found next ready enters => exact .enter found next ready enters
  | publish => exact .publish
  | leave => exact .leave
  | drop => exact .drop

theorem Advances.happens {z z' : Moment} (h : Advances z z') : ∃ o, Happens z o z' := by
  cases h with
  | move step permitted => exact ⟨_, .move step permitted⟩
  | enter found next ready enters => exact ⟨_, .enter found next ready enters⟩
  | publish => exact ⟨_, .publish⟩
  | leave => exact ⟨_, .leave⟩
  | drop => exact ⟨_, .drop⟩

/-- What happened from one moment to another, the latest first. -/
inductive Since : Moment → List Occurrence → Moment → Prop
  | here (z : Moment) : Since z [] z
  | next {y z z' : Moment} {later : List Occurrence} {o : Occurrence} (before : Since y later z)
      (step : Happens z o z') : Since y (o :: later) z'

namespace Since

variable {y z z' : Moment} {later newer : List Occurrence}

theorem leads (h : Since y later z) : Leads y z := by
  induction h with
  | here => exact .refl
  | next _ step ih => exact ih.tail step.advances

theorem append (h : Since y later z) (onward : Since z newer z') : Since y (newer ++ later) z' := by
  induction onward with
  | here => exact h
  | next _ step ih => exact ih.next step

theorem stay (_ : Since y later z) : Since z [] z :=
  .here z

/-- An instruction that applies no event is executed while nobody holds the machine. -/
theorem act {s s' : System} {t : TaskId} {task : Task Instr} {i : Instr} {rest : List Instr}
    {a : Answer} (h : Since y later ⟨s, none⟩) (found : s.pool.get? t = some task)
    (next : task.stack = i :: rest) (taken : s.step t a = some s')
    (free : ∀ e before, ¬ Enters s i e before) :
    Since y (.moved (.did t i a) s.published :: later) ⟨s', none⟩ :=
  h.next (.move (.act found next taken) free)

end Since

/-- Every moment of a run has a chronicle. -/
theorem Leads.since {y z : Moment} (leads : Leads y z) : ∃ later, Since y later z := by
  induction leads with
  | refl => exact ⟨[], .here y⟩
  | tail _ step ih =>
    obtain ⟨later, before⟩ := ih
    obtain ⟨o, happens⟩ := step.happens
    exact ⟨o :: later, before.next happens⟩

/-! ## Whoever holds the machine -/

/-- What is true of a system in which a task goes on, and still is when the system is released, is
true when the task lets go of the machine. -/
@[elab_as_elim]
theorem System.letGo_elim {P : System → Prop} (s : System) (t : TaskId) (tail : List Instr)
    (kept : P (s.proceed t tail)) (released : P (s.proceed t tail).release) :
    P (s.letGo t tail) := by
  unfold letGo
  split
  · exact released
  · exact kept

/-- Whoever lets go of the machine tells nobody anything. -/
theorem System.silent_letGo (s : System) (t : TaskId) (tail : List Instr) :
    s.Silent (s.letGo t tail) :=
  s.letGo_elim t tail ⟨rfl, rfl, rfl, rfl⟩ (System.Silent.release ⟨rfl, rfl, rfl, rfl⟩)

/-- Whoever holds the machine makes no move. -/
theorem Moment.Permits.other {z : Moment} {t : TaskId} {i : Instr} {a : Answer}
    (permitted : z.Permits (.did t i a)) : ∀ hold, z.hold = some hold → t ≠ hold.task := by
  intro hold held
  unfold Moment.Permits at permitted
  rw [held] at permitted
  exact permitted.1

/-! ## What a task has to do -/

/-- What a task has to do at a moment: whoever holds the machine has its instruction behind it. -/
def Moment.stack (z : Moment) (t : TaskId) : List Instr :=
  match z.hold with
  | some hold => if t = hold.task then hold.tail else z.system.pool.stack t
  | none => z.system.pool.stack t

/-- The task whose instruction is executed. -/
def Occurrence.actor? : Occurrence → Option TaskId
  | .moved (.did t _ _) _ => some t
  | .entered t .. => some t
  | _ => none

/-- What becomes of what a task has to do. -/
inductive Becomes (z z' : Moment) (o : Occurrence) (t : TaskId) : Prop
  | same (other : o.actor? ≠ some t) (stack : z'.stack t = z.stack t)
  | went {i : Instr} {rest before : List Instr} {a : Answer} {caller : String} {r : System}
      (move : o = .moved (.did t i a) z.system.published) (permitted : z.Permits (.did t i a))
      (next : z.stack t = i :: rest) (exec : z.system.exec t caller i a = some (r, before))
      (stack : z'.stack t = before ++ rest)
  | entered {i : Instr} {rest before : List Instr} {e : Event}
      (move : o = .entered t i e (z.system.machine.transition e).effects) (free : z.hold = none)
      (next : z.stack t = i :: rest) (enters : Enters z.system i e before)
      (stack : z'.stack t = before ++ rest)
  /-- It was given up. -/
  | gone (other : o.actor? ≠ some t) (stack : z'.stack t = [])

theorem System.stack_signal {s : System} {t : TaskId} (numbered : s.pool.Numbered)
    (old : t < s.pool.next) (signal : Signal) :
    (s.signal signal).pool.stack t = s.pool.stack t := by
  cases signal with
  | idle => rfl
  | notice n =>
    cases n with
    | entered => rfl
    | logged => rfl
    | attached =>
      show ((s.pool.spawn none _).spawn none _).stack t = _
      rw [(numbered.spawn _ _).stack_spawn, if_neg, numbered.stack_spawn,
        if_neg (Nat.ne_of_lt old)]
      exact Nat.ne_of_lt (Nat.lt_succ_of_lt old)
    | detached => exact Pool.stack_foldl_abort _ _ t

/-- Whoever lets go of the machine goes on with what it has to do, unless it is gone. -/
theorem System.stack_letGo (s : System) (t : TaskId) (tail : List Instr) (u : TaskId) :
    (s.letGo t tail).pool.stack u = (if u = t then tail else s.pool.stack u) ∨
      u = t ∧ (s.letGo t tail).pool.stack u = [] := by
  have released : (s.letGo t tail).pool.stack u = (s.pool.proceed t tail).stack u :=
    s.letGo_elim t tail rfl (stack_release _ u)
  rw [released]
  cases found : s.pool.get? t with
  | some task => exact .inl (Pool.stack_proceed found tail u)
  | none =>
    rw [Pool.proceed_of_none found]
    by_cases same : u = t
    · refine .inr ⟨same, ?_⟩
      rw [same, Pool.stack, found]
      rfl
    · rw [if_neg same]
      exact .inl rfl

/-- **What a task has to do after something happened.** -/
theorem Happens.becomes {z z' : Moment} {o : Occurrence} (h : Happens z o z')
    (numbered : z.system.pool.Numbered) {t : TaskId} (old : t < z.system.pool.next) :
    Becomes z z' o t := by
  cases h with
  | @move _ m s step permitted =>
    by_cases holds : ∃ hold, z.hold = some hold ∧ t = hold.task
    · obtain ⟨hold, held, rfl⟩ := holds
      have stack (r : System) : Moment.stack { z with system := r } hold.task = hold.tail := by
        simp only [Moment.stack, held, if_true]
      refine .same ?_ ((stack s).trans (stack z.system).symm)
      intro acts
      cases m with
      | did u i a =>
        obtain rfl := Option.some.inj acts
        exact permitted.other hold held rfl
      | _ => cases acts
    · have stack (r : System) : Moment.stack { z with system := r } t = r.pool.stack t := by
        unfold Moment.stack
        split
        next hold held => exact if_neg fun same => holds ⟨hold, held, same⟩
        next => rfl
      have before : z.stack t = z.system.pool.stack t := stack z.system
      cases step.turns numbered t with
      | same other same =>
        refine .same (fun acts => ?_) ((stack s).trans (same.trans before.symm))
        cases m with
        | did u i a => exact other i a (by rw [Option.some.inj acts])
        | _ => cases acts
      | went move next exec same =>
        subst move
        exact .went rfl permitted (before.trans next) exec ((stack s).trans same)
      | begun _ new => exact absurd old (Nat.not_lt.mpr new)
      | dropped move next waits same =>
        subst move
        exact .gone nofun ((stack s).trans same)
  | @enter s u task i rest before e found next _ enters =>
    by_cases same : t = u
    · subst same
      exact .entered rfl rfl ((Pool.stack_of_get? found).trans next) enters (if_pos rfl)
    · exact .same (fun acts => same (Option.some.inj acts).symm) (if_neg same)
  | @publish s u signal pending tail =>
    refine .same nofun ?_
    unfold Moment.stack
    simp only
    rw [System.stack_signal numbered old]
  | @leave s u tail =>
    rcases s.stack_letGo u tail t with stack | ⟨-, stack⟩
    · exact .same nofun stack
    · exact .gone nofun stack
  | drop => exact .same nofun rfl

/-- Numbers of tasks are not used again. -/
theorem Happens.next_le {z z' : Moment} {o : Occurrence} (h : Happens z o z')
    (numbered : z.system.pool.Numbered) : z.system.pool.next ≤ z'.system.pool.next := by
  cases h with
  | move step => exact (step.numbered numbered).2
  | enter => exact Nat.le_refl _
  | publish => exact (System.signal_numbered _ numbered).2
  | @leave s t tail =>
    have proceeded : (s.proceed t tail).pool.next = s.pool.next := Pool.next_proceed _ _ _
    have released : (s.proceed t tail).release.pool.next = (s.proceed t tail).pool.next :=
      (System.pool_release (numbered.proceed t tail)).2
    have same : (s.letGo t tail).pool.next = s.pool.next :=
      s.letGo_elim t tail proceeded (released.trans proceeded)
    exact Nat.le_of_eq same.symm
  | drop => exact Nat.le_refl _

theorem Since.next_le {options : Options} {y z : Moment} {later : List Occurrence}
    (reachable : Reachable options y) (h : Since y later z) :
    y.system.pool.next ≤ z.system.pool.next := by
  induction h with
  | here => exact Nat.le_refl _
  | next before step ih =>
    have attentive := Attentive.of_reachable (reachable.trans before.leads)
    exact Nat.le_trans ih (step.next_le attentive.numbered)

/-! ## What is published -/

/-- The state that is told to be entered. -/
def Occurrence.enters? : Occurrence → Option State
  | .told (.notice (.entered _ after)) => some after
  | _ => none

/-- The states that were told to be entered, the latest first. -/
def enteredStates (later : List Occurrence) : List State :=
  later.filterMap Occurrence.enters?

theorem enteredStates_cons (o : Occurrence) (later : List Occurrence) :
    enteredStates (o :: later) = o.enters?.toList ++ enteredStates later :=
  filterMap_cons_toList _ _ _

/-- What is published after something happened: what was told to be entered is published under a new
version. -/
theorem Happens.published {z z' : Moment} {o : Occurrence} (h : Happens z o z') :
    z'.system.published = (o.enters?).getD z.system.published ∧
      z'.system.version = z.system.version + (o.enters?).toList.length := by
  cases h with
  | move step permitted =>
    have silent := step.silent permitted.free
    exact ⟨silent.published, silent.version⟩
  | enter => exact ⟨rfl, rfl⟩
  | @publish s u signal =>
    cases signal with
    | idle => exact ⟨rfl, rfl⟩
    | notice n => cases n <;> exact ⟨rfl, rfl⟩
  | @leave s u tail =>
    have silent := s.silent_letGo u tail
    exact ⟨silent.published, silent.version⟩
  | drop => exact ⟨rfl, rfl⟩

/-- **What is published is what was told to be entered last.** -/
theorem Since.published {y z : Moment} {later : List Occurrence} (h : Since y later z) :
    z.system.published = (enteredStates later).head?.getD y.system.published ∧
      z.system.version = y.system.version + (enteredStates later).length := by
  induction h with
  | here => exact ⟨rfl, rfl⟩
  | @next z z' later o _ step ih =>
    obtain ⟨published, version⟩ := step.published
    rw [published, version, ih.1, ih.2, enteredStates_cons]
    cases o.enters? with
    | none => exact ⟨rfl, rfl⟩
    | some after =>
      refine ⟨rfl, ?_⟩
      simp only [Option.toList_some, List.length_cons, List.length_nil, List.singleton_append]
      omega

end Supervision.Worker
