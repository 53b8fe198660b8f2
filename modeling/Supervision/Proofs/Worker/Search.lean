import Supervision.Proofs.Worker.Launcher
import Supervision.Proofs.Worker.Listening

/-!
# The search for a connection

A call that needs a worker looks at the state that is published: of a machine that runs it takes the
connection, an idle one it starts, and otherwise it waits for another state. It does not see every
state: until it looks again the machine may have started, stopped and become idle, and others may
have told it to. The law (`searched_of_look`) says what such a search does and comes to, whatever
happens meanwhile: it tells the machine to start at most once, the connection it comes to is one
with which the machine runs, and it comes to none only if the machine became idle after it saw that
a start has to come. What is launched meanwhile, by whomever, is counted beside it.

What carries the proof is the version of what is published. A search remembers since when it depends
on a start (`Depended`), and waits for another version; a version that has grown is a state that was
told since (`Since.published`), so a machine that is idle under it became idle in between
(`Depended.missed`). That a machine which runs has a connection is an invariant of moments
(`connected_of_reachable`).

That a search ends is not established here.
-/

namespace Supervision.Worker

/-! ## What a search saw and did -/

/-- True of the states in which a search depends on a start: its own, or the one under way. -/
def State.wantsStart : State → Bool
  | .idle | .starting => true
  | .running | .stopping => false

/-- The state that a task looks at. -/
def Occurrence.sighting? (t : TaskId) : Occurrence → Option State
  | .moved (.did u (.look ..) _) published => if u = t then some published else none
  | _ => none

/-- The states that a task looked at, the latest first. -/
def sightings (t : TaskId) (later : List Occurrence) : List State :=
  later.filterMap (Occurrence.sighting? t)

/-- True of what happens when a task tells the machine to start. -/
def Occurrence.starts (t : TaskId) : Occurrence → Bool
  | .moved (.did u (.handle (.start _)) _) _ => u = t
  | .entered u _ (.start _) _ => u = t
  | _ => false

/-- How often a task told the machine to start. -/
def startsOf (t : TaskId) (later : List Occurrence) : Nat :=
  later.countP (Occurrence.starts t)

/-- True of what happens when a task goes on with what its search came to. -/
def Occurrence.uses (t : TaskId) : Occurrence → Bool
  | .moved (.did u (.use ..) _) _ => u = t
  | _ => false

theorem sighting?_of_other {t : TaskId} {o : Occurrence} (other : o.actor? ≠ some t) :
    o.sighting? t = none := by
  unfold Occurrence.sighting?
  split
  next u _ _ _ _ => exact if_neg fun same => other (congrArg some same)
  next => rfl

theorem starts_of_other {t : TaskId} {o : Occurrence} (other : o.actor? ≠ some t) :
    o.starts t = false := by
  unfold Occurrence.starts
  split
  next u _ _ _ => exact decide_eq_false fun same => other (congrArg some same)
  next u _ _ _ => exact decide_eq_false fun same => other (congrArg some same)
  next => rfl

theorem sightings_cons (t : TaskId) (o : Occurrence) (later : List Occurrence) :
    sightings t (o :: later) = (o.sighting? t).toList ++ sightings t later :=
  filterMap_cons_toList _ _ _

theorem startsOf_cons {t : TaskId} {o : Occurrence} (silent : o.starts t = false)
    (later : List Occurrence) : startsOf t (o :: later) = startsOf t later :=
  List.countP_cons_of_neg (by rw [silent]; exact Bool.false_ne_true)

/-! ## What a search depends on -/

/-- A search saw at some moment, and not before, that a start has to come, under a version that is
not above a bound. -/
def Depended (t : TaskId) (y : Moment) (later : List Occurrence) (z : Moment) (bound : Nat) :
    Prop :=
  ∃ newer o older w, later = newer ++ o :: older ∧ Since y older w ∧ Since w (newer ++ [o]) z ∧
    o.sighting? t = some w.system.published ∧ w.system.published.wantsStart = true ∧
    (∀ state ∈ sightings t older, state.wantsStart = false) ∧ w.system.version ≤ bound

/-- The machine became idle after a search saw that a start has to come, for the first time. -/
def Missed (t : TaskId) (later : List Occurrence) : Prop :=
  ∃ newer o older state, later = newer ++ o :: older ∧ o.sighting? t = some state ∧
    state.wantsStart = true ∧ (∀ state ∈ sightings t older, state.wantsStart = false) ∧
    .idle ∈ enteredStates newer

/-- The last thing that a task did was to take the connection with which the machine ran, while
nobody held it. -/
def TookFrom (t : TaskId) (y : Moment) (later : List Occurrence) (c : ConnectionId) : Prop :=
  ∃ newer need awaited seen a published older w,
    later = newer ++ .moved (.did t (.take need awaited seen) a) published :: older ∧
      (∀ o ∈ newer, o.actor? ≠ some t) ∧ Since y older w ∧ w.hold = none ∧
      w.system.machine.RunsWith c

theorem Depended.next {t : TaskId} {y z z' : Moment} {later : List Occurrence} {bound : Nat}
    {o : Occurrence} (h : Depended t y later z bound) (step : Happens z o z') :
    Depended t y (o :: later) z' bound := by
  obtain ⟨newer, p, older, w, rfl, before, onward, saw⟩ := h
  exact ⟨o :: newer, p, older, w, rfl, before, onward.next step, saw⟩

theorem Depended.mono {t : TaskId} {y z : Moment} {later : List Occurrence} {bound bound' : Nat}
    (h : Depended t y later z bound) (le : bound ≤ bound') : Depended t y later z bound' := by
  obtain ⟨newer, p, older, w, split, before, onward, saw, wants, first, version⟩ := h
  exact ⟨newer, p, older, w, split, before, onward, saw, wants, first, Nat.le_trans version le⟩

/-- Whoever sees an idle machine under a later version than the one under which it depended on a
start has missed that the machine became idle. -/
theorem Depended.missed {t : TaskId} {y z : Moment} {later : List Occurrence} {bound : Nat}
    (h : Depended t y later z bound) (late : bound < z.system.version)
    (idle : z.system.published = .idle) : Missed t later := by
  obtain ⟨newer, o, older, w, rfl, -, onward, saw, wants, first, version⟩ := h
  obtain ⟨published, versions⟩ := onward.published
  have quiet : o.enters? = none := by
    cases o with
    | told => cases saw
    | _ => rfl
  have entered : enteredStates (newer ++ [o]) = enteredStates newer := by
    rw [enteredStates, List.filterMap_append, List.filterMap_cons_none quiet]
    exact List.append_nil _
  rw [entered] at published versions
  refine ⟨newer, o, older, _, rfl, saw, wants, first, ?_⟩
  cases states : enteredStates newer with
  | nil =>
    rw [states] at versions
    exact absurd late (Nat.not_lt.mpr (Nat.le_trans (Nat.le_of_eq versions) version))
  | cons state states' =>
    rw [states, idle] at published
    exact published ▸ List.mem_cons_self

theorem Missed.next {t : TaskId} {later : List Occurrence} {o : Occurrence} (h : Missed t later) :
    Missed t (o :: later) := by
  obtain ⟨newer, p, older, state, rfl, saw, wants, first, idle⟩ := h
  refine ⟨o :: newer, p, older, state, rfl, saw, wants, first, ?_⟩
  rw [enteredStates_cons]
  exact List.mem_append_right _ idle

theorem TookFrom.next {t : TaskId} {y : Moment} {later : List Occurrence} {c : ConnectionId}
    {o : Occurrence} (h : TookFrom t y later c) (other : o.actor? ≠ some t) :
    TookFrom t y (o :: later) c := by
  obtain ⟨newer, need, awaited, seen, a, published, older, w, rfl, others, rest⟩ := h
  exact ⟨o :: newer, need, awaited, seen, a, published, older, w, rfl,
    List.forall_mem_cons.mpr ⟨other, others⟩, rest⟩

/-- What a search knows that goes by what it saw: as long as it has not seen that a start has to
come it has told nobody to start. -/
inductive Known (t : TaskId) (y : Moment) (later : List Occurrence) (z : Moment) (bound : Nat) :
    Bool → Prop
  | free (silent : startsOf t later = 0)
      (unseen : ∀ state ∈ sightings t later, state.wantsStart = false) :
      Known t y later z bound false
  | bound (once : startsOf t later ≤ 1) (depended : Depended t y later z bound) :
      Known t y later z bound true

namespace Known

variable {t : TaskId} {y z z' : Moment} {later : List Occurrence} {bound : Nat}
variable {awaited : Bool} {o : Occurrence}

theorem once (h : Known t y later z bound awaited) : startsOf t later ≤ 1 := by
  cases h with
  | free silent => exact silent ▸ Nat.zero_le 1
  | bound once => exact once

/-- What happens without telling or showing a search anything new leaves what it knows. -/
theorem next (h : Known t y later z bound awaited) (step : Happens z o z')
    (silent : o.starts t = false) (unseen : ∀ state, o.sighting? t = some state →
      state.wantsStart = false) : Known t y (o :: later) z' bound awaited := by
  cases h with
  | free none first =>
    refine .free ((startsOf_cons silent later).trans none) fun state hstate => ?_
    rw [sightings_cons] at hstate
    rcases List.mem_append.mp hstate with new | old
    · exact unseen state (Option.mem_toList.mp new)
    · exact first state old
  | bound once depended =>
    exact .bound ((startsOf_cons silent later).symm ▸ once) (depended.next step)

end Known

/-! ## How a search stands -/

/-- Nobody holds the machine when an instruction is executed that needs it. -/
theorem Moment.Permits.free_of_locks {z : Moment} {t : TaskId} {i : Instr} {a : Answer}
    (permitted : z.Permits (.did t i a)) (locks : i.locks = true) : z.hold = none := by
  unfold Moment.Permits at permitted
  simp only at permitted
  split at permitted
  next none => exact none
  next =>
    rw [locks] at permitted
    exact absurd permitted.2 Bool.noConfusion

/-- Whoever tells the machine something leaves the effects to be carried out. -/
theorem exec_handle {s r : System} {t : TaskId} {caller : String} {e : Event} {a : Answer}
    {before : List Instr} (h : s.exec t caller (.handle e) a = some (r, before)) :
    ∃ effects : List Effect, before = effects.map .perform := by
  cases a with
  | nothing =>
    simp only [System.exec] at h
    split at h
    · cases h
      exact ⟨_, rfl⟩
    · cases h
      exact ⟨[], rfl⟩
  | _ => cases h

/-- How far a search has come since `y`, by what its task has to do before it goes on with the
rest. -/
inductive Seeking (t : TaskId) (need : Need) (rest : List Instr) (y : Moment)
    (later : List Occurrence) (z : Moment) : List Instr → Prop
  | looking {awaited : Bool} {bound : Nat} (known : Known t y later z bound awaited)
      (fresh : awaited = true → bound < z.system.version) :
      Seeking t need rest y later z (.look need awaited :: rest)
  | taking {awaited : Bool} {seen : Nat} (known : Known t y later z seen awaited)
      (le : seen ≤ z.system.version) :
      Seeking t need rest y later z (.take need awaited seen :: rest)
  | starting {seen : Nat} (silent : startsOf t later = 0) (depended : Depended t y later z seen)
      (le : seen ≤ z.system.version) :
      Seeking t need rest y later z (.handle (.start none) :: .wait need true seen :: rest)
  | waiting {effects : List Effect} {awaited : Bool} {seen : Nat}
      (known : Known t y later z seen awaited) (le : seen ≤ z.system.version) :
      Seeking t need rest y later z (effects.map .perform ++ .wait need awaited seen :: rest)
  | found {c : ConnectionId} (once : startsOf t later ≤ 1) (took : TookFrom t y later c) :
      Seeking t need rest y later z (.use need (.ok c) :: rest)
  | failed (once : startsOf t later ≤ 1) (missed : Missed t later) :
      Seeking t need rest y later z (.use need (.error .workerUnavailable) :: rest)
  | gone (once : startsOf t later ≤ 1) : Seeking t need rest y later z []

namespace Seeking

variable {t : TaskId} {need : Need} {rest stack : List Instr} {y z z' : Moment}
variable {later : List Occurrence} {o : Occurrence}

/-- A search tells the machine to start at most once. -/
theorem once (h : Seeking t need rest y later z stack) : startsOf t later ≤ 1 := by
  cases h with
  | looking known => exact known.once
  | taking known => exact known.once
  | starting silent => exact silent ▸ Nat.zero_le 1
  | waiting known => exact known.once
  | found once => exact once
  | failed once => exact once
  | gone once => exact once

/-- What others do leaves a search where it is. -/
theorem other (h : Seeking t need rest y later z stack) (step : Happens z o z')
    (other : o.actor? ≠ some t) : Seeking t need rest y (o :: later) z' stack := by
  have silent := starts_of_other other
  have unseen : ∀ state, o.sighting? t = some state → state.wantsStart = false := by
    intro state saw
    rw [sighting?_of_other other] at saw
    cases saw
  have le : z.system.version ≤ z'.system.version := by
    rw [step.published.2]
    exact Nat.le_add_right _ _
  have same := startsOf_cons silent later
  cases h with
  | looking known fresh =>
    exact .looking (known.next step silent unseen) fun awaited =>
      Nat.lt_of_lt_of_le (fresh awaited) le
  | taking known seen => exact .taking (known.next step silent unseen) (Nat.le_trans seen le)
  | starting none depended seen =>
    exact .starting (same.trans none) (depended.next step) (Nat.le_trans seen le)
  | waiting known seen => exact .waiting (known.next step silent unseen) (Nat.le_trans seen le)
  | found once took => exact .found (same ▸ once) (took.next other)
  | failed once missed => exact .failed (same ▸ once) missed.next
  | gone once => exact .gone (same ▸ once)

theorem waits {awaited : Bool} {seen : Nat} (known : Known t y later z seen awaited)
    (le : seen ≤ z.system.version) :
    Seeking t need rest y later z (.wait need awaited seen :: rest) := by
  have nothing : ([] : List Effect).map Instr.perform ++ .wait need awaited seen :: rest =
      .wait need awaited seen :: rest := rfl
  exact nothing ▸ .waiting known le

/-- A search that looks goes by what it sees. -/
theorem look {awaited : Bool} {bound : Nat} {a : Answer} (before : Since y later z)
    (step : Happens z (.moved (.did t (.look need awaited) a) z.system.published) z')
    (known : Known t y later z bound awaited) (fresh : awaited = true → bound < z.system.version) :
    Seeking t need rest y (.moved (.did t (.look need awaited) a) z.system.published :: later) z'
      (z.system.look need awaited ++ rest) := by
  have saw : (Occurrence.moved (.did t (.look need awaited) a) z.system.published).sighting? t =
      some z.system.published := if_pos rfl
  have version : z'.system.version = z.system.version := step.published.2
  have le : z.system.version ≤ z'.system.version := Nat.le_of_eq version.symm
  -- What a search knows that sees nothing from which a start has to come.
  have keep (calm : z.system.published.wantsStart = false) :
      Known t y (.moved (.did t (.look need awaited) a) z.system.published :: later) z'
        z.system.version awaited := by
    have next := known.next step rfl fun state seen => by
      rw [saw] at seen
      exact Option.some.inj seen ▸ calm
    cases next with
    | free silent unseen => exact .free silent unseen
    | bound once depended => exact .bound once (depended.mono (Nat.le_of_lt (fresh rfl)))
  have depend (wants : z.system.published.wantsStart = true) :
      Depended t y (.moved (.did t (.look need awaited) a) z.system.published :: later) z'
        z.system.version := by
    cases known with
    | free _ unseen =>
      exact ⟨[], _, later, z, rfl, before, .next (.here z) step, saw, wants, unseen, Nat.le_refl _⟩
    | bound _ depended => exact (depended.next step).mono (Nat.le_of_lt (fresh rfl))
  have once := (startsOf_cons (t := t) (o := .moved (.did t (.look need awaited) a)
    z.system.published) rfl later).symm ▸ known.once
  unfold System.look
  split
  next running => exact .taking (keep (by rw [running]; rfl)) le
  next idle =>
    have wants : z.system.published.wantsStart = true := by rw [idle]; rfl
    cases known with
    | free silent unseen => exact .starting silent (depend wants) le
    | bound _ depended => exact .failed once (depended.missed (fresh rfl) idle).next
  next starting =>
    exact .waits (.bound once (depend (by rw [starting]; rfl))) le
  next stopping => exact .waits (keep (by rw [stopping]; rfl)) le

/-- A search that takes the connection finds the one with which the machine runs. -/
theorem take {awaited : Bool} {seen : Nat} {a : Answer} (before : Since y later z)
    (step : Happens z (.moved (.did t (.take need awaited seen) a) z.system.published) z')
    (free : z.hold = none) (connected : z.system.machine.state = .running →
      z.system.machine.connection.isSome = true)
    (known : Known t y later z seen awaited) (le : seen ≤ z.system.version) :
    Seeking t need rest y (.moved (.did t (.take need awaited seen) a) z.system.published :: later)
      z' (z.system.take need awaited seen ++ rest) := by
  have version : z'.system.version = z.system.version := step.published.2
  unfold System.take
  split
  next running =>
    split
    next c connection =>
      have once := (startsOf_cons (t := t) (o := .moved (.did t (.take need awaited seen) a)
        z.system.published) rfl later).symm ▸ known.once
      refine .found once ?_
      exact ⟨[], need, awaited, seen, a, _, later, z, rfl, List.forall_mem_nil _, before, free,
        running, connection⟩
    next none =>
      have some := connected running
      rw [none] at some
      cases some
  next =>
    exact .waits (known.next step rfl nofun) (version.symm ▸ le)

/-- How a search goes on with a move. -/
theorem went {i : Instr} {left before : List Instr} {a : Answer} {caller : String} {r : System}
    (h : Seeking t need rest y later z (i :: left)) (since : Since y later z)
    (step : Happens z (.moved (.did t i a) z.system.published) z')
    (permitted : z.Permits (.did t i a)) (connected : z.system.machine.state = .running →
      z.system.machine.connection.isSome = true)
    (going : (Occurrence.moved (.did t i a) z.system.published).uses t = false)
    (exec : z.system.exec t caller i a = some (r, before)) :
    Seeking t need rest y (.moved (.did t i a) z.system.published :: later) z'
      (before ++ left) := by
  have version : z'.system.version = z.system.version := step.published.2
  generalize hstack : i :: left = stack at h
  cases h with
  | looking known fresh =>
    obtain ⟨rfl, rfl⟩ := List.cons.inj hstack
    cases a with
    | nothing =>
      cases exec
      exact look since step known fresh
    | _ => cases exec
  | taking known le =>
    obtain ⟨rfl, rfl⟩ := List.cons.inj hstack
    cases a with
    | nothing =>
      cases exec
      exact take since step (permitted.free_of_locks rfl) connected known le
    | _ => cases exec
  | starting silent depended le =>
    obtain ⟨rfl, rfl⟩ := List.cons.inj hstack
    obtain ⟨effects, rfl⟩ := exec_handle exec
    refine .waiting (.bound ?_ (depended.next step)) (version.symm ▸ le)
    rw [startsOf, List.countP_cons_of_pos (by simp [Occurrence.starts])]
    exact Nat.succ_le_succ (Nat.le_of_eq silent)
  | @waiting effects awaited seen known le =>
    cases effects with
    | nil =>
      obtain ⟨rfl, rfl⟩ := List.cons.inj hstack
      cases a with
      | nothing =>
        simp only [System.exec] at exec
        split at exec
        next other =>
          cases exec
          refine .looking (known.next step rfl fun _ saw => ?_) fun _ => ?_
          · cases saw
          · rw [version]
            exact Nat.lt_of_le_of_ne le (Ne.symm other)
        next => cases exec
      | _ => cases exec
    | cons effect effects =>
      obtain ⟨rfl, rfl⟩ := List.cons.inj hstack
      rw [exec_perform exec]
      refine .waiting (known.next step rfl fun _ saw => ?_) (version.symm ▸ le)
      cases saw
  | found =>
    obtain ⟨rfl, -⟩ := List.cons.inj hstack
    simp [Occurrence.uses] at going
  | failed =>
    obtain ⟨rfl, -⟩ := List.cons.inj hstack
    simp [Occurrence.uses] at going
  | gone => cases hstack

/-- How a search goes on that applies an event. -/
theorem entered {i : Instr} {left before : List Instr} {e : Event}
    (h : Seeking t need rest y later z (i :: left))
    (step : Happens z (.entered t i e (z.system.machine.transition e).effects) z')
    (enters : Enters z.system i e before) :
    Seeking t need rest y (.entered t i e (z.system.machine.transition e).effects :: later) z'
      (before ++ left) := by
  have version : z'.system.version = z.system.version := step.published.2
  generalize hstack : i :: left = stack at h
  cases h with
  | starting silent depended le =>
    obtain ⟨rfl, rfl⟩ := List.cons.inj hstack
    cases enters with
    | handle =>
      refine .waiting (.bound ?_ (depended.next step)) (version.symm ▸ le)
      rw [startsOf, List.countP_cons_of_pos (by simp [Occurrence.starts])]
      exact Nat.succ_le_succ (Nat.le_of_eq silent)
  | @waiting effects =>
    cases effects with
    | nil =>
      obtain ⟨rfl, -⟩ := List.cons.inj hstack
      cases enters
    | cons effect effects =>
      obtain ⟨rfl, -⟩ := List.cons.inj hstack
      cases enters
  | gone => cases hstack
  | _ =>
    obtain ⟨rfl, -⟩ := List.cons.inj hstack
    cases enters

end Seeking

/-! ## A machine that runs -/

/-- A machine that runs has a connection. -/
def Machine.Connected (m : Machine) : Prop :=
  m.state = .running → m.connection.isSome = true

theorem Machine.connected_beginTeardown (m : Machine) (alive : Bool) :
    (m.beginTeardown alive).machine.Connected := by
  unfold beginTeardown
  split
  · exact nofun
  · exact nofun

/-- Whatever happens to a machine, it runs with a connection. -/
theorem Machine.Connected.transition {m : Machine} (h : m.Connected) (e : Event) :
    (m.transition e).machine.Connected := by
  cases e with
  | start path =>
    simp only [Machine.transition]
    split
    · unfold Machine.begin
      dsimp only
      split
      · exact fun running => State.noConfusion running
      · exact fun running => State.noConfusion running
    · exact h
  | stop =>
    simp only [Machine.transition]
    split
    · exact fun running => State.noConfusion running
    · exact m.connected_beginTeardown true
    · exact h
  | setPath path =>
    simp only [Machine.transition]
    split
    · exact h
    · exact h
    · exact h
  | launched generation result =>
    simp only [Machine.transition]
    split
    · split
      · exact fun _ => rfl
      · exact fun running => State.noConfusion running
      · exact h
      · exact fun running => State.noConfusion running
      · exact h
    · exact h
  | exited generation =>
    simp only [Machine.transition]
    split
    · exact m.connected_beginTeardown false
    · exact h
  | tornDown generation =>
    simp only [Machine.transition]
    split
    · exact fun running => State.noConfusion running
    · exact h

/-- **A machine that runs has a connection**, at every moment. -/
theorem connected_of_reachable {options : Options} {z : Moment} (reachable : Reachable options z) :
    z.system.machine.Connected := by
  induction reachable with
  | refl => exact nofun
  | tail _ step ih =>
    cases step with
    | move step permitted =>
      rw [(step.silent permitted.free).machine]
      exact ih
    | enter => exact ih.transition _
    | @publish s t signal =>
      cases signal with
      | idle => exact ih
      | notice n =>
        show ((s.notice n).machine).Connected
        rw [System.machine_notice]
        exact ih
    | @leave s t tail =>
      show (s.letGo t tail).machine.Connected
      rw [(s.silent_letGo t tail).machine]
      exact ih
    | drop => exact ih

/-- Who has something to do was there before. -/
theorem Moment.old_of_stack {options : Options} {z : Moment} (reachable : Reachable options z)
    {t : TaskId} {i : Instr} {rest : List Instr} (stack : z.stack t = i :: rest) :
    t < z.system.pool.next := by
  have attentive := Attentive.of_reachable reachable
  by_contra new
  have nothing := attentive.numbered.stack_of_new (Nat.not_lt.mp new)
  unfold Moment.stack at stack
  split at stack
  next hold held =>
    split at stack
    next same => exact new (same ▸ attentive.held hold held)
    next =>
      rw [nothing] at stack
      cases stack
  next =>
    rw [nothing] at stack
    cases stack

/-- **How a search stands**, from the moment at which it first looks. -/
theorem seeking_of_look {options : Options} {y z : Moment} {later : List Occurrence} {t : TaskId}
    {need : Need} {rest : List Instr} (reachable : Reachable options y)
    (looks : y.stack t = .look need false :: rest) (onward : Since y later z)
    (going : ∀ o ∈ later, o.uses t = false) :
    Seeking t need rest y later z (z.stack t) := by
  have old := Moment.old_of_stack reachable looks
  induction onward with
  | here =>
    rw [looks]
    have blank : Known t y [] y 0 false := .free rfl (List.forall_mem_nil _)
    exact .looking blank nofun
  | @next z z' later o before step ih =>
    have known := ih fun p hp => going p (List.mem_cons_of_mem _ hp)
    have upTo : Reachable options z := reachable.trans before.leads
    have numbered := (Attentive.of_reachable upTo).numbered
    have there := Nat.lt_of_lt_of_le old (before.next_le reachable)
    have use := going o List.mem_cons_self
    cases step.becomes numbered there with
    | same other stack =>
      rw [stack]
      exact known.other step other
    | went move permitted next exec stack =>
      subst move
      rw [next] at known
      rw [stack]
      exact known.went before step permitted (connected_of_reachable upTo) use exec
    | entered move _ next enters stack =>
      subst move
      rw [next] at known
      rw [stack]
      exact known.entered step enters
    | gone other stack =>
      rw [stack]
      exact .gone ((startsOf_cons (starts_of_other other) later).symm ▸ known.once)

/-! ## What a search relies on -/

/-- What a search comes to. -/
inductive Finds (t : TaskId) (y : Moment) (later : List Occurrence) :
    Except SupervisorError ConnectionId → Prop
  | found {c : ConnectionId} (took : TookFrom t y later c) : Finds t y later (.ok c)
  | failed (missed : Missed t later) : Finds t y later (.error .workerUnavailable)

/-- Whoever goes on with what a search came to goes on with what it found. -/
theorem Seeking.finds {t : TaskId} {need : Need} {rest stack : List Instr} {y z : Moment}
    {later : List Occurrence} (h : Seeking t need rest y later z stack) {n : Need}
    {r : Except SupervisorError ConnectionId} {left : List Instr}
    (uses : stack = .use n r :: left) :
    n = need ∧ left = rest ∧ Finds t y later r := by
  cases h with
  | found _ took =>
    cases uses
    exact ⟨rfl, rfl, .found took⟩
  | failed _ missed =>
    cases uses
    exact ⟨rfl, rfl, .failed missed⟩
  | @waiting effects => cases effects <;> cases uses
  | _ => cases uses

/-- What is known of a search that began at the moment `y`, and of the launches of the whole
chronicle. -/
structure Searched (t : TaskId) (need : Need) (rest : List Instr) (past : List Occurrence)
    (y : Moment) (later : List Occurrence) (z : Moment) : Prop where
  /-- It tells the machine to start at most once. -/
  once : startsOf t later ≤ 1
  /-- What it goes on with is a connection with which the machine ran when it took it, and the last
  thing it did was to take it, or that there is no worker, and then the machine became idle after it
  saw for the first time that a start has to come. -/
  returned : ∀ n r left, z.stack t = .use n r :: left → n = need ∧ left = rest ∧ Finds t y later r
  /-- As long as it saw the machine run or stop only, it does not fail. -/
  steady : (∀ state ∈ sightings t later, state.wantsStart = false) →
    ∀ n why left, z.stack t ≠ .use n (.error why) :: left
  /-- The launcher is called for every launch that is issued, once, but for those that are still to
  be made, -/
  launcher : launcherCalls (later ++ past) + z.unlaunched = issuedLaunches (later ++ past)
  /-- and between two that are issued the machine becomes idle. -/
  launches : issuedLaunches (later ++ past) ≤ (enteredStates (later ++ past)).count .idle + 1
  /-- However many tell an idle machine to start, one launch is issued until it is idle again. -/
  together : y.system.machine.state = .idle → .idle ∉ enteredStates later →
    idleEntries z.pending = 0 → issuedLaunches later = min 1 (startsIn later)

/-- Who missed that the machine became idle saw that a start has to come. -/
theorem Missed.saw {t : TaskId} {later : List Occurrence} (h : Missed t later) :
    ∃ state ∈ sightings t later, state.wantsStart = true := by
  obtain ⟨newer, o, older, state, rfl, saw, wants, -⟩ := h
  exact ⟨state, List.mem_filterMap.mpr ⟨o, List.mem_append_right _ List.mem_cons_self, saw⟩, wants⟩

/-- **A search depends on at most one start**, whatever others do meanwhile. -/
theorem searched_of_look {options : Options} {past later : List Occurrence} {y z : Moment}
    {t : TaskId} {need : Need} {rest : List Instr} (history : Since ⟨.initial options, none⟩ past y)
    (looks : y.stack t = .look need false :: rest) (onward : Since y later z)
    (going : later.any (Occurrence.uses t) = false) : Searched t need rest past y later z := by
  have reachable : Reachable options y := history.leads
  have seeking := seeking_of_look reachable looks onward fun o ho =>
    Bool.eq_false_iff.mpr (List.any_eq_false.mp going o ho)
  have whole := history.append onward
  refine ⟨seeking.once, fun _ _ _ => seeking.finds, fun calm n why left uses => ?_,
    launcher_of_since whole, (Frugal.of_since whole).bound,
    fun idle busy quiet => together_of_idle idle onward busy quiet⟩
  cases (seeking.finds uses).2.2 with
  | failed missed =>
    obtain ⟨state, saw, wants⟩ := missed.saw
    rw [calm state saw] at wants
    cases wants

/-- Two calls search while the machine is idle: both tell it to start, and one worker is
launched. -/
theorem searched_of_two_callers : ∃ past y later z, ∃ need : Need,
    Since ⟨.initial .standard, none⟩ past y ∧ Since y later z ∧
    y.stack 2 = [.look need false] ∧ y.stack 4 = [.look need false] ∧
    startsOf 2 later = 1 ∧ startsOf 4 later = 1 ∧ startsIn later = 2 ∧ issuedLaunches later = 1 ∧
    launcherCalls later = 1 ∧ z.stack 2 = [.use need (.ok 7)] ∧
    Searched 2 need [] past y later z := by
  have asked := Run.start.next (.ask (.initial .standard) (.setPath ⟨[47]⟩))
  have acted := asked.next (.act (t := 0) (a := .nothing) rfl rfl rfl)
  have settled := acted.next (.act (t := 0) (a := .nothing) rfl rfl rfl)
  have wanted := settled.next (.ask _ (.call "someone" (.notify "note" (.ok none))))
  have joined := wanted.next (.act (t := 1) (a := .nothing) rfl rfl rfl)
  have begun := joined.next (.act (t := 2) (a := .nothing) rfl rfl rfl)
  have wanted' := begun.next (.ask _ (.call "another" (.notify "note" (.ok none))))
  have joined' := wanted'.next (.act (t := 3) (a := .nothing) rfl rfl rfl)
  have begun' := joined'.next (.act (t := 4) (a := .nothing) rfl rfl rfl)
  obtain ⟨past, history⟩ := Leads.since begun'.reachable
  have looked := history.stay.act (t := 2) (a := .nothing) rfl rfl rfl fun _ _ => nofun
  have looked' := looked.act (t := 4) (a := .nothing) rfl rfl rfl fun _ _ => nofun
  have told := looked'.next (.enter (t := 2) rfl rfl rfl (.handle rfl))
  have left := (told.next .publish).next .leave
  have told' := left.next (.enter (t := 4) rfl rfl rfl (.handle rfl))
  have left' := told'.next .leave
  have performed := left'.act (t := 2) (a := .nothing) rfl rfl rfl fun _ _ => nofun
  have launched := performed.act (t := 5) (a := .launched (.ok ⟨7, some 9⟩)) rfl rfl rfl
    fun _ _ => nofun
  have delivered := launched.next (.enter (t := 5) rfl rfl rfl (.handle rfl))
  have attached := ((delivered.next .publish).next .publish).next .leave
  have woken := attached.act (t := 2) (a := .nothing) rfl rfl rfl fun _ _ => nofun
  have looked'' := woken.act (t := 2) (a := .nothing) rfl rfl rfl fun _ _ => nofun
  have taken := looked''.act (t := 2) (a := .nothing) rfl rfl rfl fun _ _ => nofun
  exact ⟨past, _, _, _, _, history, taken, rfl, rfl, rfl, rfl, rfl, rfl, rfl, rfl,
    searched_of_look history rfl taken rfl⟩

end Supervision.Worker
