import Supervision.Worker.Machine

/-!
# The workspace of a machine

The workspace is set by starts and in between, in any state, and the worker learns of it in two ways:
its launch is given one, and later changes are told. Between the two lies a flag, which is raised by
what is set while the worker starts and lowered by the next start or when the worker comes up. The
law here compares a whole history of events with the effects that come of it, and does without the
flag: which changes are told follows from what was set since the machine left `Idle` last.

`Faithful` says which effects an event has after any history. In it `Cause` says where each change
comes from that is told, so that what was set while the machine was idle or stopping, or in a start
that came to nothing, is told neither then nor later.

A history may hold any events in any order, those of tasks that are long gone among them. That the
effects are carried out, and in which order, is not established here.
-/

namespace Supervision.Worker

/-! ## Histories of events -/

/-- The machine after a history of events, the latest first. -/
def Machine.after : List Event → Machine
  | [] => .initial
  | e :: past => ((after past).transition e).machine

/-- The workspace that an event sets whatever the state. -/
def Event.path? : Event → Option Path
  | .setPath path => some path
  | _ => none

/-- The workspace that was recorded last: it was set, or a start that found the machine idle brought
it. -/
def recorded : List Event → Option Path
  | [] => none
  | .setPath path :: _ => some path
  | .start (some path) :: past =>
    if (Machine.after past).state = .idle then some path else recorded past
  | _ :: past => recorded past

/-- The events since the machine left `Idle` last. -/
def sinceStart : List Event → List Event
  | [] => []
  | .start path :: past =>
    if (Machine.after past).state = .idle then [] else .start path :: sinceStart past
  | e :: past => e :: sinceStart past

/-- Whether a workspace was set since the machine left `Idle` last. -/
def changed (past : List Event) : Bool :=
  (sinceStart past).any fun e => e.path?.isSome

/-- The workspace of the last launch. -/
def launchPath : List Event → Option Path
  | [] => none
  | .start path :: past =>
    if (Machine.after past).state = .idle then recorded (.start path :: past) else launchPath past
  | _ :: past => launchPath past

/-- What comes of an event after a history. -/
def effectsOf (e : Event) (past : List Event) : List Effect :=
  ((Machine.after past).transition e).effects

/-! ## What an event does to the workspace -/

/-- What a machine does with an event, as far as its workspace and its worker are concerned. -/
inductive Machine.Heeds (m : Machine) : Event → Transition → Prop
  /-- A worker is launched. -/
  | launches {brought : Option Path} {p : Path} {t : Transition} (idle : m.state = .idle)
      (known : m.pathFor brought = some p) (state : t.machine.state = .starting)
      (generation : t.machine.generation = m.generation + 1) (path : t.machine.path = some p)
      (pending : t.machine.changePending = false)
      (effects : t.effects = [.launch (m.generation + 1) p]) : Heeds m (.start brought) t
  /-- There is no workspace to start in. -/
  | lacks {brought : Option Path} {t : Transition} (idle : m.state = .idle)
      (unknown : m.pathFor brought = none) (state : t.machine.state = .idle)
      (generation : t.machine.generation = m.generation + 1) (path : t.machine.path = none)
      (effects : t.effects = []) : Heeds m (.start brought) t
  /-- The worker comes up, and is told what was set meanwhile. -/
  | rises {l : Launched} {t : Transition} (starting : m.state = .starting)
      (state : t.machine.state = .running) (generation : t.machine.generation = m.generation)
      (path : t.machine.path = m.path) (connection : t.machine.connection = some l.connection)
      (effects : t.effects = match m.changePending, m.path with
        | true, some p => [.changeWorkspace l.connection p]
        | _, _ => []) : Heeds m (.launched m.generation (.ok l)) t
  /-- The worker that runs is told. -/
  | tells {p : Path} {c : ConnectionId} (running : m.state = .running)
      (connection : m.connection = some c) :
      Heeds m (.setPath p) ⟨{ m with path := some p }, [], [.changeWorkspace c p]⟩
  /-- What is set is kept for the worker that starts. -/
  | keeps {p : Path} (starting : m.state = .starting) :
      Heeds m (.setPath p) ⟨{ m with path := some p, changePending := true }, [], []⟩
  /-- What is set is recorded. -/
  | records {p : Path} (still : m.state ≠ .starting)
      (silent : m.state = .running → m.connection = none) :
      Heeds m (.setPath p) ⟨{ m with path := some p }, [], []⟩
  /-- The event has nothing to do with the workspace. -/
  | passes {e : Event} {t : Transition} (unset : e.path? = none)
      (busy : ∀ brought, e = .start brought → m.state ≠ .idle)
      (generation : t.machine.generation = m.generation) (path : t.machine.path = m.path)
      (pending : t.machine.changePending = m.changePending)
      (starting : t.machine.state = .starting → m.state = .starting)
      (running : t.machine.state = .running →
        m.state = .running ∧ t.machine.connection = m.connection)
      (noLaunch : ∀ generation p, Effect.launch generation p ∉ t.effects)
      (noChange : ∀ c p, Effect.changeWorkspace c p ∉ t.effects) : Heeds m e t

namespace Machine

variable {m : Machine}

/-- An event that changes nothing passes. -/
private theorem heeds_unchanged {e : Event} (unset : e.path? = none)
    (busy : ∀ brought, e = .start brought → m.state ≠ .idle) : m.Heeds e m.unchanged :=
  .passes unset busy rfl rfl rfl id (fun running => ⟨running, rfl⟩) (fun _ _ => List.not_mem_nil)
    fun _ _ => List.not_mem_nil

/-- So does one that ends a worker. -/
private theorem heeds_beginTeardown {e : Event} (unset : e.path? = none)
    (busy : ∀ brought, e = .start brought → m.state ≠ .idle) (alive : Bool) :
    m.Heeds e (m.beginTeardown alive) := by
  unfold beginTeardown
  split <;> refine .passes unset busy rfl rfl rfl nofun nofun (fun _ _ hmem => ?_)
    (fun _ _ hmem => ?_) <;> simp at hmem

/-- **What an event does to the workspace.** -/
theorem heeds_transition (m : Machine) (e : Event) : m.Heeds e (m.transition e) := by
  cases e with
  | start path =>
    by_cases idle : m.state = .idle
    · simp only [transition, if_pos idle]
      cases known : m.pathFor path with
      | some p =>
        simp only [begin, known, enter]
        exact .launches idle known rfl rfl rfl rfl rfl
      | none =>
        simp only [begin, known, enter]
        exact .lacks idle known rfl rfl rfl rfl
    · simp only [transition, if_neg idle]
      exact heeds_unchanged rfl fun _ _ => idle
  | stop =>
    simp only [transition]
    split
    next => exact .passes rfl nofun rfl rfl rfl nofun nofun nofun nofun
    next => exact heeds_beginTeardown (e := .stop) rfl (fun _ => nofun) true
    next => exact heeds_unchanged rfl fun _ => nofun
  | setPath p =>
    simp only [transition]
    split
    next running connection => exact .tells running connection
    next starting => exact .keeps starting
    next still silent =>
      refine .records still fun running => ?_
      cases connection : m.connection with
      | none => rfl
      | some c => exact absurd connection (silent c running)
  | launched generation result =>
    by_cases current : generation = m.generation
    · subst current
      simp only [transition, if_true]
      split
      next l starting => exact .rises starting rfl rfl rfl rfl rfl
      next => exact .passes rfl nofun rfl rfl rfl nofun nofun nofun nofun
      next stopping =>
        refine .passes rfl nofun rfl rfl rfl id (fun running => ⟨running, rfl⟩) ?_ ?_ <;> simp
      next => exact .passes rfl nofun rfl rfl rfl nofun nofun nofun nofun
      next => exact heeds_unchanged rfl fun _ => nofun
    · simp only [transition, if_neg current]
      exact heeds_unchanged rfl fun _ => nofun
  | exited generation =>
    simp only [transition]
    split
    · exact heeds_beginTeardown (e := .exited generation) rfl (fun _ => nofun) false
    · exact heeds_unchanged rfl fun _ => nofun
  | tornDown generation =>
    simp only [transition]
    split
    · exact .passes rfl nofun rfl rfl rfl nofun nofun nofun nofun
    · exact heeds_unchanged rfl fun _ => nofun

end Machine

/-! ## What a history records -/

section Histories

variable {past : List Event} {e : Event}

/-- An event that sets nothing and starts nothing leaves the record as it is. -/
theorem recorded_of_busy (unset : e.path? = none)
    (busy : ∀ brought, e = .start brought → (Machine.after past).state ≠ .idle) :
    recorded (e :: past) = recorded past := by
  cases e with
  | start brought =>
    cases brought with
    | none => rfl
    | some p => exact if_neg (busy _ rfl)
  | setPath p => cases unset
  | _ => rfl

theorem sinceStart_of_busy
    (busy : ∀ brought, e = .start brought → (Machine.after past).state ≠ .idle) :
    sinceStart (e :: past) = e :: sinceStart past := by
  cases e with
  | start brought => exact if_neg (busy _ rfl)
  | _ => rfl

theorem launchPath_of_busy
    (busy : ∀ brought, e = .start brought → (Machine.after past).state ≠ .idle) :
    launchPath (e :: past) = launchPath past := by
  cases e with
  | start brought => exact if_neg (busy _ rfl)
  | _ => rfl

theorem sinceStart_of_idle {brought : Option Path} (idle : (Machine.after past).state = .idle) :
    sinceStart (.start brought :: past) = [] :=
  if_pos idle

theorem launchPath_of_idle {brought : Option Path} (idle : (Machine.after past).state = .idle) :
    launchPath (.start brought :: past) = recorded (.start brought :: past) :=
  if_pos idle

/-- The workspace of a start is recorded. -/
theorem recorded_of_idle {brought : Option Path} (idle : (Machine.after past).state = .idle)
    (path : (Machine.after past).path = recorded past) :
    recorded (.start brought :: past) = (Machine.after past).pathFor brought := by
  cases brought with
  | none => exact path.symm
  | some p => exact if_pos idle

/-- What was set since the start is remembered while nothing else happens. -/
theorem changed_of_busy (unset : e.path? = none)
    (busy : ∀ brought, e = .start brought → (Machine.after past).state ≠ .idle) :
    changed (e :: past) = changed past := by
  simp only [changed, sinceStart_of_busy busy, List.any_cons, unset, Option.isSome_none,
    Bool.false_or]

/-- What a machine keeps of its history. -/
structure Kept (past : List Event) : Prop where
  path : (Machine.after past).path = recorded past
  pending : (Machine.after past).state = .starting →
    (Machine.after past).changePending = changed past
  known : (Machine.after past).state = .starting ∨ (Machine.after past).state = .running →
    ∃ p, recorded past = some p
  stored : (Machine.after past).state = .running →
    ∃ c, (Machine.after past).connection = some c

/-- **What a machine keeps of any history.** The flag says whether anything was set while the worker
starts. -/
theorem kept_of_events (past : List Event) : Kept past := by
  induction past with
  | nil => exact ⟨rfl, nofun, (fun busy => by rcases busy with busy | busy <;> cases busy), nofun⟩
  | cons e past ih =>
    have set {p : Path} (m : (Machine.after (.setPath p :: past)).path = some p) :
        (Machine.after (.setPath p :: past)).path = recorded (.setPath p :: past) := m
    have heeds := (Machine.after past).heeds_transition e
    generalize ht : (Machine.after past).transition e = t at heeds
    have now : Machine.after (e :: past) = t.machine := congrArg Transition.machine ht
    cases heeds with
    | @launches brought p _ idle known state _ path pending =>
      have same : recorded (.start brought :: past) = _ := recorded_of_idle idle ih.path
      refine ⟨?_, fun _ => ?_, fun _ => ⟨_, same.trans known⟩, fun running => ?_⟩
      · rw [now, path, same, known]
      · rw [now, pending, changed, sinceStart_of_idle idle]
        rfl
      · rw [now, state] at running
        cases running
    | @lacks brought _ idle unknown state _ path =>
      have same : recorded (.start brought :: past) = _ := recorded_of_idle idle ih.path
      rw [← now] at state
      refine ⟨?_, fun starting => ?_, fun busy => ?_, fun running => ?_⟩
      · rw [now, path, same, unknown]
      · rw [state] at starting
        cases starting
      · rw [state] at busy
        rcases busy with busy | busy <;> cases busy
      · rw [state] at running
        cases running
    | @rises l _ starting state _ path connection =>
      refine ⟨?_, fun again => ?_, fun _ => ih.known (.inl starting), fun _ => ⟨l.connection, ?_⟩⟩
      · rw [now, path]
        exact ih.path
      · rw [now, state] at again
        cases again
      · rw [now]
        exact connection
    | @tells p c running connection =>
      refine ⟨set (by rw [now]), fun starting => ?_, fun _ => ⟨p, rfl⟩, fun _ => ⟨c, ?_⟩⟩
      · rw [now] at starting
        rw [running] at starting
        cases starting
      · rw [now]
        exact connection
    | @keeps p starting =>
      refine ⟨set (by rw [now]), fun _ => ?_, fun _ => ⟨p, rfl⟩, fun running => ?_⟩
      · rw [now]
        rfl
      · rw [now] at running
        rw [starting] at running
        cases running
    | @records p still =>
      refine ⟨set (by rw [now]), fun starting => ?_, fun _ => ⟨p, rfl⟩, fun running => ?_⟩
      · rw [now] at starting
        exact absurd starting still
      · rw [now] at running ⊢
        exact ih.stored running
    | passes unset busy _ path pending starting running =>
      rw [← now] at path pending starting running
      have same := recorded_of_busy unset busy
      refine ⟨path.trans (ih.path.trans same.symm), fun now => ?_, fun now => ?_, fun now => ?_⟩
      · rw [pending, ih.pending (starting now), changed_of_busy unset busy]
      · rw [same]
        exact ih.known (now.imp starting fun now => (running now).1)
      · rw [(running now).2]
        exact ih.stored (running now).1

/-! ## Where a change comes from -/

/-- A machine that starts has done nothing else since it left `Idle`. -/
theorem starting_since (starting : (Machine.after past).state = .starting) :
    ∃ during before brought, past = during ++ .start brought :: before ∧
      sinceStart past = during ∧ ∀ mid, (.start brought :: before) <:+ mid → mid <:+ past →
        (Machine.after mid).state = .starting := by
  induction past with
  | nil => cases starting
  | cons e past ih =>
    have on (busy : ∀ brought, e = .start brought → (Machine.after past).state ≠ .idle)
        (was : (Machine.after past).state = .starting) : ∃ during before brought,
        e :: past = during ++ .start brought :: before ∧ sinceStart (e :: past) = during ∧
          ∀ mid, (.start brought :: before) <:+ mid → mid <:+ e :: past →
            (Machine.after mid).state = .starting := by
      obtain ⟨during, before, brought, split, since, still⟩ := ih was
      refine ⟨e :: during, before, brought, by rw [split]; rfl, ?_, fun mid above below => ?_⟩
      · rw [sinceStart_of_busy busy, since]
      · rcases List.suffix_cons_iff.mp below with rfl | below
        · exact starting
        · exact still mid above below
    have heeds := (Machine.after past).heeds_transition e
    generalize ht : (Machine.after past).transition e = t at heeds
    have now : Machine.after (e :: past) = t.machine := congrArg Transition.machine ht
    rw [now] at starting
    cases heeds with
    | @launches brought p t idle =>
      refine ⟨[], past, brought, rfl, sinceStart_of_idle idle, fun mid above below => ?_⟩
      rw [(below.eq_of_length_le above.length_le), now]
      exact starting
    | lacks _ _ state => rw [state] at starting; cases starting
    | rises _ state => rw [state] at starting; cases starting
    | tells running => exact absurd (running.symm.trans starting) nofun
    | keeps was => exact on (fun _ => nofun) was
    | records still => exact absurd starting still
    | passes _ busy _ _ _ was => exact on busy (was starting)

/-- A workspace that was set is the last of those that were. -/
theorem exists_last_set {during : List Event} (set : (during.any fun e => e.path?.isSome) = true) :
    ∃ between p earlier, during = between ++ .setPath p :: earlier ∧
      ∀ e ∈ between, e.path? = none := by
  obtain ⟨e, found⟩ := Option.isSome_iff_exists.mp (List.find?_isSome.mpr (List.any_eq_true.mp set))
  obtain ⟨isSet, between, earlier, split, unset⟩ := List.find?_eq_some_iff_append.mp found
  cases e with
  | setPath p =>
    exact ⟨between, p, earlier, split, fun e he => by simpa using unset e he⟩
  | _ => cases isSet

/-- Why a worker is told a workspace. -/
inductive Cause (past : List Event) : Event → ConnectionId → Path → Prop
  /-- It is set while the worker runs. -/
  | set {c : ConnectionId} {p : Path} (running : (Machine.after past).state = .running)
      (stored : (Machine.after past).connection = some c) : Cause past (.setPath p) c p
  /-- It was set last while the worker started that comes up now. -/
  | kept {between older : List Event} {p : Path} {l : Launched}
      (split : past = between ++ .setPath p :: older) (last : ∀ e ∈ between, e.path? = none)
      (starting : ∀ mid, older <:+ mid → mid <:+ past → (Machine.after mid).state = .starting) :
      Cause past (.launched (Machine.after past).generation (.ok l)) l.connection p

/-- A worker that comes up is told what was set last while it started. -/
theorem cause_of_rise (starting : (Machine.after past).state = .starting)
    (set : changed past = true) {l : Launched} {p : Path} (latest : recorded past = some p) :
    Cause past (.launched (Machine.after past).generation (.ok l)) l.connection p := by
  obtain ⟨during, before, brought, split, since, still⟩ := starting_since starting
  rw [changed, since] at set
  obtain ⟨between, q, earlier, rfl, unset⟩ := exists_last_set set
  -- Nothing in between sets a workspace or finds the machine idle.
  have same : ∀ newer, newer <:+ between →
      recorded (newer ++ .setPath q :: (earlier ++ .start brought :: before)) = some q := by
    intro newer
    induction newer with
    | nil => exact fun _ => rfl
    | cons e newer ih =>
      intro part
      have inner := (List.suffix_cons e newer).trans part
      have busy := still (newer ++ .setPath q :: (earlier ++ .start brought :: before))
        ⟨newer ++ .setPath q :: earlier, by simp⟩
        (by
          obtain ⟨front, rfl⟩ := inner
          exact ⟨front, by rw [split]; simp⟩)
      rw [List.cons_append, recorded_of_busy (unset e (part.subset List.mem_cons_self)), ih inner]
      intro _ _ idle
      rw [busy] at idle
      cases idle
  have split : past = between ++ .setPath q :: (earlier ++ .start brought :: before) := by
    rw [split, List.append_assoc, List.cons_append]
  obtain rfl : q = p := by
    have now := same between (List.suffix_refl _)
    rw [← split, latest] at now
    exact (Option.some.inj now).symm
  refine .kept split unset fun mid above below => still mid ?_ below
  exact (List.suffix_append earlier _).trans above

/-! ## What is told -/

/-- Which effects on the worker's workspace an event has after a history. -/
structure Faithful (past : List Event) (e : Event) : Prop where
  /-- A launch is given what was recorded last. -/
  launch : ∀ generation p, .launch generation p ∈ effectsOf e past → recorded (e :: past) = some p
  /-- A running worker is told what is set, once. -/
  running : ∀ p, e = .setPath p → (Machine.after past).state = .running →
    ∃ c, (Machine.after past).connection = some c ∧ effectsOf e past = [.changeWorkspace c p]
  /-- A worker that comes up is told what was recorded last, once, if anything was set since it began
  to start. -/
  entered : (Machine.after past).state ≠ .running →
    (Machine.after (e :: past)).state = .running →
    ∃ c p, (Machine.after (e :: past)).connection = some c ∧ recorded (e :: past) = some p ∧
      effectsOf e past = if changed past then [.changeWorkspace c p] else []
  /-- Nothing else is told. -/
  quiet : ((Machine.after past).state = .running → e.path? = none) →
    ((Machine.after (e :: past)).state = .running → (Machine.after past).state = .running) →
    ∀ c p, .changeWorkspace c p ∉ effectsOf e past
  /-- So what was set while the machine was idle or stopping, or in a start that failed or was
  stopped, is not told. -/
  caused : ∀ c p, .changeWorkspace c p ∈ effectsOf e past → Cause past e c p

/-- An event that tells nobody anything, and brings no worker up. -/
theorem faithful_of_silent (noLaunch : ∀ generation p, .launch generation p ∉ effectsOf e past)
    (noChange : ∀ c p, .changeWorkspace c p ∉ effectsOf e past)
    (unset : (Machine.after past).state = .running → e.path? = none)
    (stays : (Machine.after (e :: past)).state = .running → (Machine.after past).state = .running) :
    Faithful past e where
  launch _ _ launches := absurd launches (noLaunch _ _)
  running p set running := by
    subst set
    cases unset running
  entered other running := absurd (stays running) other
  quiet _ _ := noChange
  caused _ _ told := absurd told (noChange _ _)

/-- **A worker is told each change once, and only its own.** This holds after any history of events,
in whatever order they come. -/
theorem faithful_of_events (past : List Event) (e : Event) : Faithful past e := by
  have kept := kept_of_events past
  have heeds := (Machine.after past).heeds_transition e
  have effects : effectsOf e past = ((Machine.after past).transition e).effects := rfl
  have now : Machine.after (e :: past) = ((Machine.after past).transition e).machine := rfl
  generalize (Machine.after past).transition e = t at heeds effects now
  cases heeds with
  | @launches brought p _ idle known state _ _ _ launch =>
    rw [launch] at effects
    have only (f : Effect) (hf : f ∈ effectsOf (.start brought) past) :
        f = .launch ((Machine.after past).generation + 1) p := by
      rw [effects] at hf
      exact List.mem_singleton.mp hf
    refine ⟨fun _ q hq => ?_, nofun, fun _ running => ?_, fun _ _ c q hq => ?_, fun c q hq => ?_⟩
    · cases only _ hq
      rw [recorded_of_idle idle kept.path, known]
    · rw [now, state] at running
      cases running
    · cases only _ hq
    · cases only _ hq
  | lacks _ _ state _ _ none =>
    rw [none] at effects
    refine faithful_of_silent ?_ ?_ (fun _ => rfl) fun running => ?_
    · simp [effects]
    · simp [effects]
    · rw [now, state] at running
      cases running
  | @rises l _ starting state _ _ connection tell =>
    obtain ⟨p, latest⟩ := kept.known (.inl starting)
    have told : effectsOf (.launched (Machine.after past).generation (.ok l)) past =
        if changed past then [.changeWorkspace l.connection p] else [] := by
      rw [effects, tell, kept.pending starting, kept.path, latest]
      cases changed past <;> rfl
    have only (f : Effect)
        (hf : f ∈ effectsOf (.launched (Machine.after past).generation (.ok l)) past) :
        changed past = true ∧ f = .changeWorkspace l.connection p := by
      rw [told] at hf
      split at hf
      next set => exact ⟨set, List.mem_singleton.mp hf⟩
      next => cases hf
    refine ⟨fun _ q hq => ?_, nofun, fun _ _ => ⟨l.connection, p, ?_, latest, told⟩,
      fun _ stays => ?_, fun c q hq => ?_⟩
    · cases (only _ hq).2
    · rw [now, connection]
    · rw [now, starting] at stays
      exact absurd (stays state) nofun
    · obtain ⟨set, same⟩ := only _ hq
      cases same
      exact cause_of_rise starting set latest
  | @tells p c running stored =>
    have only (f : Effect) (hf : f ∈ effectsOf (.setPath p) past) : f = .changeWorkspace c p := by
      rw [effects] at hf
      exact List.mem_singleton.mp hf
    refine ⟨fun _ q hq => ?_, fun q hq _ => ⟨c, stored, ?_⟩, fun still => absurd running still,
      fun unset => absurd (unset running) nofun, fun d q hq => ?_⟩
    · cases only _ hq
    · cases hq
      exact effects
    · cases only _ hq
      exact .set running stored
  | @keeps p starting =>
    have other : (Machine.after past).state ≠ .running := by
      rw [starting]
      exact nofun
    refine faithful_of_silent ?_ ?_ (fun running => absurd running other) fun running => ?_
    · simp [effects]
    · simp [effects]
    · rw [now] at running
      exact running
  | @records p still silent =>
    refine faithful_of_silent ?_ ?_ (fun running => ?_) fun running => ?_
    · simp [effects]
    · simp [effects]
    · obtain ⟨c, stored⟩ := kept.stored running
      rw [silent running] at stored
      cases stored
    · rw [now] at running
      exact running
  | passes unset busy _ _ _ _ stays noLaunch noChange =>
    refine faithful_of_silent ?_ ?_ (fun _ => unset) fun running => ?_
    · rw [effects]
      exact noLaunch
    · rw [effects]
      exact noChange
    · rw [now] at running
      exact (stays running).1

/-- A workspace that is set while the worker starts, and another one once it is up. -/
example : (effectsOf (.launched 1 (.ok ⟨7, none⟩)) [.setPath ⟨[48]⟩, .start (some ⟨[47]⟩)],
    effectsOf (.setPath ⟨[49]⟩)
      [.launched 1 (.ok ⟨7, none⟩), .setPath ⟨[48]⟩, .start (some ⟨[47]⟩)]) =
    ([.changeWorkspace 7 ⟨[48]⟩], [.changeWorkspace 7 ⟨[49]⟩]) := rfl

/-! ## What a connection shall be told -/

/-- The workspace that an effect tells a connection. -/
def Effect.tells? (c : ConnectionId) : Effect → Option Path
  | .changeWorkspace d p => if d = c then some p else none
  | _ => none

/-- The workspaces that a connection shall be told, the latest first. -/
def issued (c : ConnectionId) : List Event → List Path
  | [] => []
  | e :: past => (effectsOf e past).filterMap (Effect.tells? c) ++ issued c past

theorem tells?_eq_some {c : ConnectionId} {f : Effect} {p : Path} (h : f.tells? c = some p) :
    f = .changeWorkspace c p := by
  cases f with
  | changeWorkspace d q =>
    by_cases same : d = c
    · simp only [Effect.tells?, if_pos same, Option.some.injEq] at h
      rw [same, h]
    · simp only [Effect.tells?, if_neg same] at h
      cases h
  | _ => cases h

/-- A new start has a workspace of its own, and until then it stays the same. -/
theorem launchPath_cons (past : List Event) (e : Event) :
    (Machine.after (e :: past)).generation = (Machine.after past).generation + 1 ∨
      (Machine.after (e :: past)).generation = (Machine.after past).generation ∧
        launchPath (e :: past) = launchPath past := by
  have heeds := (Machine.after past).heeds_transition e
  have now : Machine.after (e :: past) = ((Machine.after past).transition e).machine := rfl
  rw [now]
  generalize (Machine.after past).transition e = t at heeds
  cases heeds with
  | launches _ _ _ generation => exact .inl generation
  | lacks _ _ _ generation => exact .inl generation
  | rises _ _ generation => exact .inr ⟨generation, rfl⟩
  | passes _ busy generation => exact .inr ⟨generation, launchPath_of_busy busy⟩
  | _ => exact .inr ⟨rfl, rfl⟩

/-- A launch is given the workspace of its start. -/
theorem launchPath_of_launch {generation : Nat} {p : Path}
    (launch : .launch generation p ∈ effectsOf e past) :
    generation = (Machine.after (e :: past)).generation ∧ launchPath (e :: past) = some p := by
  have latest := (faithful_of_events past e).launch _ _ launch
  have heeds := (Machine.after past).heeds_transition e
  have now : Machine.after (e :: past) = ((Machine.after past).transition e).machine := rfl
  have effects : effectsOf e past = ((Machine.after past).transition e).effects := rfl
  rw [effects] at launch
  rw [now]
  generalize (Machine.after past).transition e = t at heeds launch
  cases heeds with
  | launches idle _ _ generation _ _ effects =>
    rw [effects] at launch
    cases List.mem_singleton.mp launch
    exact ⟨generation.symm, (launchPath_of_idle idle).trans latest⟩
  | lacks _ _ _ _ _ effects =>
    rw [effects] at launch
    cases launch
  | rises _ _ _ _ _ effects =>
    rw [effects] at launch
    split at launch
    · cases List.mem_singleton.mp launch
    · cases launch
  | tells => cases List.mem_singleton.mp launch
  | keeps => cases launch
  | records => cases launch
  | passes _ _ _ _ _ _ _ noLaunch => exact absurd launch (noLaunch _ _)

/-- While a worker starts and nothing is set, its launch has what is recorded. -/
theorem launchPath_of_unchanged (starting : (Machine.after past).state = .starting)
    (unset : changed past = false) : launchPath past = recorded past := by
  induction past with
  | nil => cases starting
  | cons e past ih =>
    have heeds := (Machine.after past).heeds_transition e
    have now : Machine.after (e :: past) = ((Machine.after past).transition e).machine := rfl
    rw [now] at starting
    generalize (Machine.after past).transition e = t at heeds starting
    cases heeds with
    | launches idle => exact launchPath_of_idle idle
    | lacks _ _ state => rw [state] at starting; cases starting
    | rises _ state => rw [state] at starting; cases starting
    | tells running => exact absurd (running.symm.trans starting) nofun
    | keeps => cases unset
    | records still => exact absurd starting still
    | passes none busy _ _ _ was =>
      rw [changed_of_busy none busy] at unset
      rw [launchPath_of_busy busy, recorded_of_busy none busy]
      exact ih (was starting) unset

/-- Whoever is told a workspace is the connection of a machine that runs. -/
theorem stored_of_issued {c : ConnectionId} {p : Path}
    (told : p ∈ (effectsOf e past).filterMap (Effect.tells? c)) :
    (Machine.after (e :: past)).state = .running ∧
      (Machine.after (e :: past)).connection = some c := by
  obtain ⟨f, hf, tells⟩ := List.mem_filterMap.mp told
  rw [tells?_eq_some tells] at hf
  have heeds := (Machine.after past).heeds_transition e
  have now : Machine.after (e :: past) = ((Machine.after past).transition e).machine := rfl
  have effects : effectsOf e past = ((Machine.after past).transition e).effects := rfl
  rw [effects] at hf
  rw [now]
  generalize (Machine.after past).transition e = t at heeds hf
  cases heeds with
  | launches _ _ _ _ _ _ effects =>
    rw [effects] at hf
    cases List.mem_singleton.mp hf
  | lacks _ _ _ _ _ effects =>
    rw [effects] at hf
    cases hf
  | rises _ state _ _ connection effects =>
    rw [effects] at hf
    split at hf
    · cases List.mem_singleton.mp hf
      exact ⟨state, connection⟩
    · cases hf
  | tells running connection =>
    cases List.mem_singleton.mp hf
    exact ⟨running, connection⟩
  | keeps => cases hf
  | records => cases hf
  | passes _ _ _ _ _ _ _ _ noChange => exact absurd hf (noChange _ _)

/-- **The last workspace that a running worker shall be told is the one that is recorded**, if the
connection was told nothing before it was the machine's: an event keeps it so. -/
theorem issued_cons {c : ConnectionId} (running : (Machine.after (e :: past)).state = .running)
    (connection : (Machine.after (e :: past)).connection = some c)
    (fresh : (Machine.after past).state = .starting → issued c past = [])
    (before : (Machine.after past).state = .running →
      (Machine.after past).connection = some c →
      (issued c past).head?.or (launchPath past) = recorded past) :
    (issued c (e :: past)).head?.or (launchPath (e :: past)) = recorded (e :: past) := by
  have kept := kept_of_events past
  have heeds := (Machine.after past).heeds_transition e
  have now : Machine.after (e :: past) = ((Machine.after past).transition e).machine := rfl
  have effects : effectsOf e past = ((Machine.after past).transition e).effects := rfl
  rw [now] at running connection
  generalize (Machine.after past).transition e = t at heeds effects running connection
  cases heeds with
  | launches _ _ state => rw [state] at running; cases running
  | lacks _ _ state => rw [state] at running; cases running
  | @rises l _ starting _ _ _ stored told =>
    obtain rfl : l.connection = c := Option.some.inj (stored.symm.trans connection)
    obtain ⟨p, latest⟩ := kept.known (.inl starting)
    have same : recorded (.launched (Machine.after past).generation (.ok l) :: past) = some p :=
      latest
    rw [issued, effects, told, fresh starting, kept.pending starting, kept.path, latest, same]
    cases set : changed past with
    | true => simp [Effect.tells?]
    | false => exact (launchPath_of_unchanged starting set).trans latest
  | @tells p d _ stored =>
    obtain rfl : d = c := Option.some.inj (stored.symm.trans connection)
    rw [issued, effects]
    simp [Effect.tells?, recorded]
  | keeps starting => exact absurd (starting.symm.trans running) nofun
  | records _ silent =>
    rw [silent running] at connection
    cases connection
  | passes unset busy _ _ _ _ stays _ noChange =>
    have none : (effectsOf e past).filterMap (Effect.tells? c) = [] := by
      refine List.filterMap_eq_nil_iff.mpr fun f hf => ?_
      cases tells : f.tells? c with
      | none => rfl
      | some p =>
        rw [effects, tells?_eq_some tells] at hf
        exact absurd hf (noChange _ _)
    obtain ⟨was, same⟩ := stays running
    rw [issued, none, List.nil_append, launchPath_of_busy busy, recorded_of_busy unset busy]
    exact before was (same.symm.trans connection)

end Histories

end Supervision.Worker
