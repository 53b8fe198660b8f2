import Supervision.Proofs.Worker.Progress

/-!
# The custody of connections

Every connection that a launch delivers is in custody until its end: its arrival is under way, or
the machine keeps it, or its end is under way. What comes into custody with a move and goes with
another is counted by a `Tally`; a tally is fair if no instruction loses or adds anything, and then
it is balanced in every run. Two tallies are kept here, of connections (`Run.custody`) and of kills
(`Run.killed`).

A start delivers one connection at most (`Run.sole`). So what is true of the connections of all
starts together is true of each.
-/

namespace Supervision.Worker

/-! ## What is under way, move by move -/

theorem System.charges_release (s : System) : s.release.charges = s.charges :=
  s.release_elim rfl (Pool.work_foldl_abort _ _)

namespace Sound

variable {past : List Move} {s s' : System}

/-- A move that is no step of a task leaves the machine, and what is under way, as they are. -/
theorem undisturbed (h : Sound past s) {m : Move} (step : Moves s m s')
    (other : ¬ ∃ t i a, m = .did t i a) : s'.machine = s.machine ∧ s'.charges = s.charges := by
  cases step with
  | ask a =>
    refine ⟨rfl, ?_⟩
    show (s.pool.spawn none [.act a]).work Instr.charge? = s.charges
    rw [Pool.work_spawn]
    exact List.append_nil _
  | act => exact absurd ⟨_, _, _, rfl⟩ other
  | @park t task _ _ found next waits =>
    refine ⟨System.machine_release _, ?_⟩
    rw [System.park, System.charges_release]
    refine Pool.work_park h.numbered fun resting hmem aborted => ?_
    obtain rfl := h.numbered.unique hmem (Pool.mem_of_get? found)
    have orderly : Orderly s.attached t { resting with parked := true } :=
      (h.orderly _ hmem).park next waits
    exact List.filterMap_eq_nil_iff.mpr (orderly.idle (.inr (.inl aborted)) rfl)
  | cancel => exact ⟨rfl, rfl⟩
  | abort => exact ⟨rfl, Pool.work_abort _ _⟩
  | drop => exact ⟨System.machine_release _, System.charges_release _⟩

/-- What a step of a task does to what is under way. -/
theorem booked (h : Sound past s) {t : TaskId} {i : Instr} {a : Answer}
    (step : Moves s (.did t i a) s') :
    ∃ r before caller, s.exec t caller i a = some (r, before) ∧ s'.machine = r.machine ∧
      (∀ x, i.charge? = some x → x ∈ s.charges) ∧
      (s'.charges ++ i.charge?.toList).Perm
        (s.charges ++ (i.begun ++ before.filterMap Instr.charge?)) := by
  cases step with
  | act found next taken =>
    obtain ⟨r, before, hexec, -, result⟩ := step_exec found next taken
    have ledger := (exec_cases hexec).ledger h.numbered found next
    have charged (x : Charge) (hx : i.charge? = some x) : x ∈ s.charges :=
      Pool.mem_work.mpr ⟨_, Pool.mem_of_get? found, i, next ▸ List.mem_cons_self, hx⟩
    refine ⟨r, before, _, hexec, ?_, charged, ?_⟩
    · rcases result with rfl | rfl
      · rfl
      · exact System.machine_release _
    · rcases result with rfl | rfl
      · exact ledger
      · rwa [System.charges_release]

/-- What is under way stays so until a step takes it up. -/
theorem persists (h : Sound past s) {m : Move} (step : Moves s m s') {x : Charge}
    (hx : x ∈ s.charges) : x ∈ s'.charges ∨ ∃ t i a, m = .did t i a ∧ i.charge? = some x := by
  by_cases did : ∃ t i a, m = .did t i a
  · obtain ⟨t, i, a, rfl⟩ := did
    obtain ⟨r, before, caller, -, -, -, ledger⟩ := h.booked step
    rcases List.mem_append.mp (ledger.mem_iff.mpr (List.mem_append_left _ hx)) with hx | hx
    · exact .inl hx
    · exact .inr ⟨t, i, a, rfl, Option.mem_toList.mp hx⟩
  · rw [(h.undisturbed step did).2]
    exact .inl hx

end Sound

/-! ## Tallies -/

/-- What comes into custody with a move, goes with a move, and is kept by the machine or under way
in between. -/
structure Tally (β : Type) where
  comes : Move → Option β
  goes : Move → Option β
  kept : Machine → List β
  under : Charge → Option β

/-- What came is what went and what is in custody. -/
def Tally.Balanced {β : Type} (T : Tally β) (past : List Move) (s : System) : Prop :=
  (past.filterMap T.comes).Perm
    (past.filterMap T.goes ++ (T.kept s.machine ++ s.charges.filterMap T.under))

/-- No instruction loses anything or adds anything. -/
structure Tally.Fair {β : Type} (T : Tally β) : Prop where
  start : T.kept .initial = []
  other : ∀ m, (∀ t i a, m ≠ .did t i a) → T.comes m = none ∧ T.goes m = none
  step : ∀ {past : List Move} {s r : System} {t : TaskId} {caller : String} {i : Instr} {a : Answer}
    {before : List Instr} {cs : List Charge}, s.exec t caller i a = some (r, before) →
    s.alive = true → Phase past s.machine cs → (∀ x, i.charge? = some x → x ∈ cs) →
    ((T.comes (.did t i a)).toList ++ (T.kept s.machine ++ i.charge?.toList.filterMap T.under)).Perm
      ((T.goes (.did t i a)).toList ++ (T.kept r.machine ++
        (i.begun ++ before.filterMap Instr.charge?).filterMap T.under))

/-- The first of several moves, if anything comes with it. -/
theorem filterMap_cons_toList {α β : Type} (f : α → Option β) (x : α) (l : List α) :
    (x :: l).filterMap f = (f x).toList ++ l.filterMap f := by
  cases hx : f x with
  | none => rw [List.filterMap_cons_none hx, Option.toList_none, List.nil_append]
  | some y => rw [List.filterMap_cons_some hx, Option.toList_some, List.singleton_append]

/-- **A fair tally is balanced in every run.** -/
theorem Tally.Fair.balanced {β : Type} {T : Tally β} (fair : T.Fair) {options : Options}
    {past : List Move} {s : System} (run : Run options past s) (alive : s.alive = true) :
    T.Balanced past s := by
  induction run with
  | start =>
    unfold Tally.Balanced
    show List.Perm [] ([] ++ (T.kept .initial ++ []))
    rw [fair.start]
    exact .refl _
  | @next past s s' m run step ih =>
    have existed := step.alive alive
    have balanced := ih existed
    have sound := Sound.of_run run
    unfold Tally.Balanced at balanced ⊢
    rw [filterMap_cons_toList, filterMap_cons_toList]
    by_cases did : ∃ t i a, m = .did t i a
    · obtain ⟨t, i, a, rfl⟩ := did
      obtain ⟨cs, charges, phase⟩ := sound.phase existed
      obtain ⟨r, before, caller, hexec, machine, charged, ledger⟩ := sound.booked step
      have even := fair.step hexec existed phase fun x hx =>
        charges.mem_iff.mp (charged x hx)
      have moved := ledger.filterMap T.under
      rw [machine]
      -- Both sides are counted: what comes and what is taken up is what goes and what is begun.
      classical
      refine List.perm_iff_count.mpr fun b => ?_
      have balanced := balanced.count_eq b
      have even := even.count_eq b
      have moved := moved.count_eq b
      simp only [List.filterMap_append, List.count_append] at balanced even moved ⊢
      omega
    · obtain ⟨comes, goes⟩ := fair.other m fun t i a heq => did ⟨t, i, a, heq⟩
      obtain ⟨machine, charges⟩ := sound.undisturbed step did
      rw [comes, goes, machine, charges]
      exact balanced

/-! ## Connections -/

/-- A connection, and the start that brought it. -/
abbrev Brought := Nat × ConnectionId

/-- The connections that the machine keeps. -/
def Machine.kept (m : Machine) : List Brought :=
  m.connection.toList.map fun c => (m.generation, c)

/-- A worker that is to be shut down, or is being. -/
def Charge.shutDown? : Charge → Option Brought
  | .teardown generation c true => some (generation, c)
  | _ => none

/-- A worker that is known to be gone, and need not be ended. -/
def Charge.departs? : Charge → Option Brought
  | .teardown generation c false => some (generation, c)
  | _ => none

/-- A connection that the machine has not heard of yet. -/
def Charge.arrives? : Charge → Option Brought
  | .arrival generation (.ok l) => some (generation, l.connection)
  | _ => none

/-- A call of `shutdown` comes to an end. -/
def Move.shutDown? : Move → Option Brought
  | .did _ (.shutDown generation c) _ => some (generation, c)
  | _ => none

/-- A worker that is gone is done with. -/
def Move.departs? : Move → Option Brought
  | .did _ (.perform (.teardown generation c false)) _ => some (generation, c)
  | _ => none

/-- The calls of `shutdown`: those that came to an end, those that did not yet, and those that are
to be made. -/
def shutdowns (past : List Move) (s : System) : List Brought :=
  past.filterMap Move.shutDown? ++ s.charges.filterMap Charge.shutDown?

/-- The connections that are given up because their worker is known to be gone. -/
def departures (past : List Move) (s : System) : List Brought :=
  past.filterMap Move.departs? ++ s.charges.filterMap Charge.departs?

/-- The connections that the machine has not heard of yet. -/
def System.arrivals (s : System) : List Brought :=
  s.charges.filterMap Charge.arrives?

/-- What the launches brought, the latest first. -/
def brought (past : List Move) : List Brought :=
  (delivered past).map fun d => (d.1, d.2.connection)

/-- The tally of connections. -/
def custodyTally : Tally Brought where
  comes m := m.delivers.map fun d => (d.1, d.2.connection)
  goes m := m.shutDown?.or m.departs?
  kept := Machine.kept
  under x := (x.shutDown?.or x.departs?).or x.arrives?

theorem kept_of_none {m : Machine} (none : m.connection = none) : m.kept = [] := by
  rw [Machine.kept, none]
  rfl

/-- What an event takes up, and what it begins. -/
def HandsOver (m : Machine) (e : Event) : Prop :=
  (m.kept ++ e.charge?.toList.filterMap custodyTally.under).Perm
    ((m.transition e).machine.kept ++
      ((m.transition e).effects.filterMap Effect.charge?).filterMap custodyTally.under)

namespace HandsOver

variable {past : List Move} {m : Machine} {cs : List Charge}

/-- An event that changes nothing takes nothing up. -/
theorem unchanged {e : Event} (same : m.transition e = m.unchanged) (none : e.charge? = none) :
    HandsOver m e := by
  unfold HandsOver
  rw [same, none]
  exact .refl _

/-- A running machine hands over its connection. -/
theorem teardown (phase : Phase past m cs) (running : m.state = .running) {e : Event} (alive : Bool)
    (same : m.transition e = m.beginTeardown alive) (none : e.charge? = none) : HandsOver m e := by
  obtain ⟨-, l, -, connection, -, -⟩ := phase.of_running running
  unfold HandsOver
  rw [same, none, Machine.kept, connection]
  simp only [Machine.beginTeardown, connection]
  cases alive <;> exact .refl _

/-- A start takes nothing up and hands nothing over, since an idle machine has no connection. -/
theorem start (phase : Phase past m cs) (path : Option Path) : HandsOver m (.start path) := by
  by_cases idle : m.state = .idle
  · obtain ⟨-, -, connection, -⟩ := phase.of_idle idle
    unfold HandsOver
    rw [kept_of_none connection]
    simp only [Machine.transition, if_pos idle]
    unfold Machine.begin
    dsimp only
    split
    · rw [kept_of_none (by exact connection)]
      exact .refl _
    · rw [kept_of_none (by exact connection)]
      exact .refl _
  · exact unchanged (by simp only [Machine.transition, if_neg idle]) rfl

theorem stop (phase : Phase past m cs) : HandsOver m .stop := by
  cases state : m.state with
  | starting =>
    unfold HandsOver
    simp only [Machine.transition, state]
    exact .refl _
  | running =>
    exact teardown phase state true (by simp only [Machine.transition, state]) rfl
  | idle => exact unchanged (by simp only [Machine.transition, state]) rfl
  | stopping => exact unchanged (by simp only [Machine.transition, state]) rfl

theorem setPath (path : Path) : HandsOver m (.setPath path) := by
  unfold HandsOver
  simp only [Machine.transition]
  split
  · exact .refl _
  · exact .refl _
  · exact .refl _

theorem exited (phase : Phase past m cs) (generation : Nat) : HandsOver m (.exited generation) := by
  by_cases hit : m.state = .running ∧ generation = m.generation
  · exact teardown phase hit.1 false (by simp only [Machine.transition, if_pos hit]) rfl
  · exact unchanged (by simp only [Machine.transition, if_neg hit]) rfl

theorem tornDown (generation : Nat) : HandsOver m (.tornDown generation) := by
  unfold HandsOver
  simp only [Machine.transition]
  split
  · exact .refl _
  · exact .refl _

/-- A connection that arrives is taken, or ended at once. -/
theorem launched {generation : Nat} {result : Except TransportError Launched}
    (phase : Phase past m [.arrival generation result]) :
    HandsOver m (.launched generation result) := by
  unfold HandsOver
  cases phase with
  | @arrived l state _ connection =>
    rw [kept_of_none connection]
    rcases state with state | state
    · simp only [Machine.transition, if_true, state, Machine.ready]
      split <;> exact .refl _
    · simp only [Machine.transition, if_true, state]
      rw [kept_of_none connection]
      exact .refl _
  | failed state _ connection =>
    rcases state with state | state
    · simp only [Machine.transition, if_true, state, Machine.fail]
      exact .refl _
    · simp only [Machine.transition, if_true, state]
      exact .refl _

end HandsOver

/-- **An event loses no connection.** -/
theorem handsOver (phase : Phase past m cs) {e : Event} (charged : ∀ x, e.charge? = some x → x ∈ cs) :
    HandsOver m e := by
  cases e with
  | start path => exact .start phase path
  | stop => exact .stop phase
  | setPath path => exact .setPath path
  | launched generation result =>
    obtain rfl := phase.eq_singleton (charged _ rfl) rfl
    exact .launched phase
  | exited generation => exact .exited phase generation
  | tornDown generation => exact .tornDown generation

/-- A plain instruction ends no connection. -/
theorem goes_of_isPlain {t : TaskId} {i : Instr} {a : Answer} (plain : i.isPlain = true) :
    custodyTally.goes (.did t i a) = none := by
  cases i with
  | perform e =>
    cases e with
    | changeWorkspace => rfl
    | _ => cases plain
  | shutDown => cases plain
  | _ => rfl

/-- What a stop begins, before the call waits. -/
theorem filterMap_halted (s : System) (seen : Nat) :
    ((s.apply .stop).2 ++ [Instr.awaitIdle seen]).filterMap Instr.charge? =
      (s.machine.transition .stop).effects.filterMap Effect.charge? := by
  rw [List.filterMap_append, System.apply, filterMap_perform]
  exact List.append_nil _

/-- What goes with a move is taken from what is in custody. -/
private theorem perm_of_gone {β : Type} (l : List β) (x : β) :
    (l ++ [x]).Perm ([x] ++ (l ++ [])) := by
  rw [List.append_nil]
  exact List.perm_append_comm

/-- **The tally of connections is fair.** -/
theorem fair_custody : custodyTally.Fair where
  start := rfl
  other m other := by
    cases m with
    | did t i a => exact absurd rfl (other t i a)
    | _ => exact ⟨rfl, rfl⟩
  step := by
    intro past s r t caller i a before cs hexec alive phase charged
    cases exec_cases hexec with
    | aside plain plains _ alike =>
      have comes : custodyTally.comes (.did t i a) = none := by
        show Option.map _ (Move.delivers _) = none
        rw [delivers_of_isPlain plain]
        rfl
      rw [comes, goes_of_isPlain plain, alike.machine, charge?_of_isPlain plain, begun_of_isPlain plain,
        filterMap_charge?_of_isPlain plains]
      exact .refl _
    | called _ _ machine =>
      rw [machine]
      exact .refl _
    | @handled e =>
      rw [System.machine_apply]
      simp only [System.apply, filterMap_perform]
      exact handsOver phase charged
    | missed gone => exact absurd alive (by simp [gone])
    | @performed e =>
      cases e with
      | launch generation path => exact .refl _
      | teardown generation c there =>
        cases there with
        | true => exact .refl _
        | false => exact perm_of_gone s.machine.kept (generation, c)
      | changeWorkspace c path => exact .refl _
    | halted busy =>
      rw [System.machine_apply, filterMap_halted]
      exact HandsOver.stop phase
    | @launched generation path result =>
      cases result with
      | ok l => exact (perm_of_gone s.machine.kept (generation, l.connection)).symm
      | error why => exact .refl _
    | @ended generation c => exact perm_of_gone s.machine.kept (generation, c)
    | @outlived generation c => exact perm_of_gone s.machine.kept (generation, c)
    | killed => exact .refl _
    | gone => exact .refl _

/-- What two views see together is what each sees. -/
theorem filterMap_or_perm {α β : Type} {f g : α → Option β}
    (apart : ∀ x, f x = none ∨ g x = none) (l : List α) :
    (l.filterMap fun x => (f x).or (g x)).Perm (l.filterMap f ++ l.filterMap g) := by
  induction l with
  | nil => exact .refl _
  | cons x l ih =>
    rw [filterMap_cons_toList, filterMap_cons_toList f, filterMap_cons_toList g]
    rcases apart x with none | none
    · rw [none, Option.none_or, Option.toList_none, List.nil_append]
      exact (ih.append_left _).trans (List.perm_append_comm_assoc _ _ _)
    · rw [none, Option.or_none, Option.toList_none, List.nil_append, List.append_assoc]
      exact ih.append_left _

/-- **Where the connections are.** What the launches brought is shut down, or given up because it
is gone, or kept by the machine, or arrives. -/
theorem Run.custody {options : Options} {past : List Move} {s : System} (run : Run options past s)
    (alive : s.alive = true) :
    (brought past).Perm
      (shutdowns past s ++ (departures past s ++ (s.machine.kept ++ s.arrivals))) := by
  have balanced := fair_custody.balanced run alive
  have came : past.filterMap custodyTally.comes = brought past := by
    rw [brought, delivered, List.map_filterMap]
    rfl
  have went : (past.filterMap custodyTally.goes).Perm
      (past.filterMap Move.shutDown? ++ past.filterMap Move.departs?) := by
    refine filterMap_or_perm (fun m => ?_) past
    unfold Move.shutDown? Move.departs?
    split
    · exact .inr rfl
    · exact .inl rfl
  have under : (s.charges.filterMap custodyTally.under).Perm
      (s.charges.filterMap Charge.shutDown? ++ s.charges.filterMap Charge.departs? ++
        s.arrivals) := by
    refine (filterMap_or_perm (fun x => ?_) s.charges).trans
      ((filterMap_or_perm (fun x => ?_) s.charges).append_right _)
    · cases x with
      | arrival generation result => exact .inl rfl
      | _ => exact .inr rfl
    · cases x with
      | teardown generation c there => cases there <;> first | exact .inl rfl | exact .inr rfl
      | _ => exact .inl rfl
  unfold Tally.Balanced at balanced
  rw [came] at balanced
  refine balanced.trans ?_
  classical
  refine List.perm_iff_count.mpr fun b => ?_
  have went := went.count_eq b
  have under := under.count_eq b
  simp only [shutdowns, departures, List.count_append] at went under ⊢
  have kept : custodyTally.kept s.machine = s.machine.kept := rfl
  rw [kept]
  omega

/-! ## Kills -/

/-- A worker is killed. -/
def Move.kill? : Move → Option ConnectionId
  | .did _ (.kill c) _ => some c
  | _ => none

/-- A call of `shutdown` fails, or has not come to an end in time. -/
def Move.overdue? : Move → Option ConnectionId
  | .did _ (.shutDown _ c) (.ending (.failed _)) => some c
  | .did _ (.shutDown _ c) (.ending .elapsed) => some c
  | _ => none

def kills (past : List Move) : List ConnectionId :=
  past.filterMap Move.kill?

/-- The calls of `shutdown` that failed, and those that had not come to an end in time. -/
def overdue (past : List Move) : List ConnectionId :=
  past.filterMap Move.overdue?

/-- A worker that is to be killed. -/
def Charge.kill? : Charge → Option ConnectionId
  | .kill c => some c
  | _ => none

/-- The tally of kills. -/
def killTally : Tally ConnectionId where
  comes := Move.overdue?
  goes := Move.kill?
  kept _ := []
  under := Charge.kill?

/-- A plain instruction neither kills nor calls for it. -/
theorem killTally_of_isPlain {t : TaskId} {i : Instr} {a : Answer} (plain : i.isPlain = true) :
    killTally.comes (.did t i a) = none ∧ killTally.goes (.did t i a) = none := by
  cases i with
  | shutDown => cases plain
  | kill => cases plain
  | _ => exact ⟨rfl, rfl⟩

/-- No event begins a kill, or takes one up. -/
theorem filterMap_kill?_effects (effects : List Effect) :
    (effects.filterMap Effect.charge?).filterMap Charge.kill? = [] := by
  refine List.filterMap_eq_nil_iff.mpr fun x hx => ?_
  obtain ⟨effect, -, heq⟩ := List.mem_filterMap.mp hx
  cases effect <;> cases heq <;> rfl

/-- **The tally of kills is fair.** -/
theorem fair_kills : killTally.Fair where
  start := rfl
  other m other := by
    cases m with
    | did t i a => exact absurd rfl (other t i a)
    | _ => exact ⟨rfl, rfl⟩
  step := by
    intro past s r t caller i a before cs hexec alive phase charged
    cases exec_cases hexec with
    | aside plain plains =>
      obtain ⟨comes, goes⟩ := killTally_of_isPlain (t := t) (a := a) plain
      rw [comes, goes, charge?_of_isPlain plain, begun_of_isPlain plain,
        filterMap_charge?_of_isPlain plains]
      exact .refl _
    | @handled e =>
      have taken : e.charge?.toList.filterMap Charge.kill? = [] := by
        cases e <;> rfl
      have begun := filterMap_kill?_effects (s.machine.transition e).effects
      simp only [System.apply, filterMap_perform]
      show List.Perm (e.charge?.toList.filterMap Charge.kill?)
        (((s.machine.transition e).effects.filterMap Effect.charge?).filterMap Charge.kill?)
      rw [taken, begun]
    | @performed e =>
      cases e with
      | teardown generation c there => cases there <;> exact .refl _
      | _ => exact .refl _
    | halted busy =>
      rw [filterMap_halted]
      show List.Perm []
        (((s.machine.transition .stop).effects.filterMap Effect.charge?).filterMap Charge.kill?)
      rw [filterMap_kill?_effects]
    | @outlived generation c e text =>
      cases e with
      | ended =>
        have left : [Instr.handle (.tornDown generation)] =
          [.kill c, .handle (.tornDown generation)] := congrArg Prod.snd (Option.some.inj hexec)
        cases left
      | failed why => exact .refl _
      | elapsed => exact .refl _
    | missed gone => exact absurd alive (by simp [gone])
    | _ => exact .refl _

/-- **Where the kills are.** Every call of `shutdown` that failed or was not over in time is
followed by one kill. -/
theorem Run.killed {options : Options} {past : List Move} {s : System} (run : Run options past s)
    (alive : s.alive = true) :
    (overdue past).Perm (kills past ++ s.charges.filterMap Charge.kill?) := by
  have balanced := fair_kills.balanced run alive
  exact balanced

/-! ## Starts -/

/-- The start of something under way that has brought no connection. -/
def Charge.bare? : Charge → Option Nat
  | .launch generation => some generation
  | .arrival generation (.error _) => some generation
  | _ => none

/-- A launch that an event begins belongs to a new start. -/
theorem Machine.launch_of_transition {m : Machine} {e : Event} {generation : Nat} {path : Path}
    (h : Effect.launch generation path ∈ (m.transition e).effects) : m.generation < generation := by
  have teardown {alive : Bool} (h : Effect.launch generation path ∈ (m.beginTeardown alive).effects) :
      m.generation < generation := by
    unfold beginTeardown at h
    split at h
    · cases List.mem_singleton.mp h
    · cases h
  cases e with
  | start p =>
    simp only [transition] at h
    split at h
    · unfold begin at h
      dsimp only at h
      split at h
      · cases List.mem_singleton.mp h
        exact Nat.lt_succ_self _
      · cases h
    · cases h
  | stop =>
    simp only [transition] at h
    split at h
    · cases h
    · exact teardown h
    · cases h
  | setPath p =>
    simp only [transition] at h
    split at h
    · cases List.mem_singleton.mp h
    · cases h
    · cases h
  | launched g result =>
    simp only [transition] at h
    split at h
    · split at h
      next =>
        unfold ready at h
        dsimp only at h
        split at h
        · cases List.mem_singleton.mp h
        · cases h
      next => cases h
      next => cases List.mem_singleton.mp h
      next => cases h
      next => cases h
    · cases h
  | exited g =>
    simp only [transition] at h
    split at h
    · exact teardown h
    · cases h
  | tornDown g =>
    simp only [transition] at h
    split at h <;> cases h

/-- A launch that effects begin is among the effects. -/
private theorem launch_of_effects {m : Machine} {e : Event} {x : Charge} {generation : Nat}
    (hx : x ∈ (m.transition e).effects.filterMap Effect.charge?)
    (launch : x.launch? = some generation) : m.generation < generation := by
  obtain ⟨effect, hmem, charge⟩ := List.mem_filterMap.mp hx
  cases effect with
  | launch g path =>
    cases charge
    cases launch
    exact Machine.launch_of_transition hmem
  | teardown =>
    cases charge
    cases launch
  | changeWorkspace => cases charge

/-- A launch that is under way was so before, or belongs to a new start, or it was one of which
something is heard now. -/
theorem Sound.launch_of_move {past : List Move} {s s' : System} {m : Move} (h : Sound past s)
    (step : Moves s m s') {x : Charge} (hx : x ∈ s'.charges) {generation : Nat}
    (launch : x.launch? = some generation) : x ∈ s.charges ∨ s.machine.generation < generation ∨
      Charge.launch generation ∈ s.charges ∧
        ∃ t path result, m = .did t (.launch generation path) (.launched result) ∧
          x = .arrival generation result := by
  by_cases did : ∃ t i a, m = .did t i a
  · obtain ⟨t, i, a, rfl⟩ := did
    obtain ⟨r, before, caller, hexec, -, charged, ledger⟩ := h.booked step
    rcases List.mem_append.mp (ledger.mem_iff.mp (List.mem_append_left _ hx)) with old | new
    · exact .inl old
    · cases exec_cases hexec with
      | aside plain plains =>
        rw [begun_of_isPlain plain, filterMap_charge?_of_isPlain plains] at new
        cases new
      | handled =>
        rw [System.apply, filterMap_perform] at new
        exact .inr (.inl (launch_of_effects new launch))
      | @performed e =>
        cases e with
        | launch g path =>
          cases List.mem_singleton.mp new
          exact .inl (charged _ rfl)
        | teardown g c there =>
          cases there <;> cases List.mem_singleton.mp new <;> cases launch
        | changeWorkspace => cases new
      | halted =>
        rw [filterMap_halted] at new
        exact .inr (.inl (launch_of_effects new launch))
      | @launched g path result =>
        cases List.mem_singleton.mp new
        cases launch
        exact .inr (.inr ⟨charged _ rfl, t, path, result, rfl, rfl⟩)
      | ended =>
        cases List.mem_singleton.mp new
        cases launch
      | outlived =>
        rcases List.mem_pair.mp new with rfl | rfl <;> cases launch
      | gone => cases new
      | _ => cases new
  · rw [(h.undisturbed step did).2] at hx
    exact .inl hx

/-- A launch that is over does not begin again in the same start. -/
theorem Sound.launches_of_move {past : List Move} {s s' : System} {m : Move} (h : Sound past s)
    (step : Moves s m s') {generation : Nat} (hmem : generation ∈ s'.launches) :
    generation ∈ s.launches ∨ s.machine.generation < generation := by
  obtain ⟨x, hx, launch⟩ := List.mem_filterMap.mp hmem
  rcases h.launch_of_move step hx launch with old | new | ⟨was, -⟩
  · exact .inl (List.mem_filterMap.mpr ⟨x, old, launch⟩)
  · exact .inr new
  · exact .inl (List.mem_filterMap.mpr ⟨_, was, rfl⟩)

/-- What was delivered stays so. -/
theorem mem_delivered_cons {past : List Move} {m : Move} {d : Nat × Launched}
    (h : d ∈ delivered past) : d ∈ delivered (m :: past) :=
  ((List.sublist_cons_self m past).filterMap Move.delivers).subset h

/-- What a start has brought, and what it has not. -/
structure Sole (past : List Move) (s : System) : Prop where
  /-- No start brings two connections. -/
  distinct : ((delivered past).map (·.1)).Nodup
  started : ∀ d ∈ delivered past, d.1 ≤ s.machine.generation
  /-- Nothing more comes from a start that has brought one. -/
  ended : ∀ d ∈ delivered past, ∀ x ∈ s.charges, x.bare? ≠ some d.1

theorem launch?_of_bare? {x : Charge} {generation : Nat} (bare : x.bare? = some generation) :
    x.launch? = some generation := by
  cases x with
  | launch => exact bare
  | arrival g result =>
    cases result with
    | ok => cases bare
    | error => exact bare
  | _ => cases bare

/-- When a connection is delivered its arrival is all that is under way. -/
theorem Sound.charges_of_delivery {past : List Move} {s s' : System} {m : Move} (h : Sound past s)
    (alive : s.alive = true) (step : Moves s m s') {generation : Nat} {l : Launched}
    (delivers : m.delivers = some (generation, l)) :
    s'.charges.Perm [.arrival generation (.ok l)] := by
  obtain ⟨cs, charges, phase⟩ := h.phase alive
  obtain rfl := phase.eq_singleton (charges.mem_iff.mp (step.launching delivers)) rfl
  unfold Move.delivers at delivers
  split at delivers
  next t g path l =>
    cases delivers
    obtain ⟨r, before, caller, hexec, -, -, ledger⟩ := h.booked step
    cases exec_cases hexec with
    | aside plain => cases plain
    | launched =>
      refine (List.perm_append_right_iff [Charge.launch generation]).mp (ledger.trans ?_)
      exact (charges.append_right _).trans List.perm_append_comm
  next => cases delivers

/-- **A start brings one connection at most.** -/
theorem Run.sole {options : Options} {past : List Move} {s : System} (run : Run options past s)
    (alive : s.alive = true) : Sole past s := by
  induction run with
  | start => exact ⟨List.nodup_nil, nofun, nofun⟩
  | @next past s s' m run step ih =>
    have existed := step.alive alive
    have sole := ih existed
    have sound := Sound.of_run run
    have grown := step.progress.generation
    -- Nothing that is bare comes of a start that has brought a connection before.
    have kept : ∀ d ∈ delivered past, ∀ x ∈ s'.charges, x.bare? ≠ some d.1 := by
      intro d hd x hx bare
      rcases sound.launch_of_move step hx (launch?_of_bare? bare) with old | new | ⟨was, -⟩
      · exact sole.ended d hd x old bare
      · exact absurd (sole.started d hd) (Nat.not_le.mpr new)
      · exact sole.ended d hd _ was rfl
    cases delivers : m.delivers with
    | none =>
      have same : delivered (m :: past) = delivered past := List.filterMap_cons_none delivers
      refine ⟨same ▸ sole.distinct, ?_, same ▸ kept⟩
      rw [same]
      exact fun d hd => Nat.le_trans (sole.started d hd) grown
    | some d =>
      have more : delivered (m :: past) = d :: delivered past := List.filterMap_cons_some delivers
      obtain ⟨generation, l⟩ := d
      have underWay := step.launching delivers
      have current := (run.launch existed (List.mem_filterMap.mpr ⟨_, underWay, rfl⟩)).1
      have arrives := sound.charges_of_delivery existed step delivers
      refine ⟨?_, ?_, ?_⟩
      · rw [more, List.map_cons, List.nodup_cons]
        refine ⟨fun hmem => ?_, sole.distinct⟩
        obtain ⟨d, hd, same⟩ := List.mem_map.mp hmem
        exact sole.ended d hd _ underWay (congrArg some same.symm)
      · rw [more]
        intro d hd
        rcases List.mem_cons.mp hd with rfl | hd
        · exact current ▸ grown
        · exact Nat.le_trans (sole.started d hd) grown
      · rw [more]
        intro d hd x hx
        rcases List.mem_cons.mp hd with rfl | hd
        · rw [List.mem_singleton.mp (arrives.mem_iff.mp hx)]
          exact nofun
        · exact kept d hd x hx

/-! ## What is decided on is done -/

/-- What takes up the end of a worker that may be alive: a task of its own is begun, or the call of
`shutdown` comes to an end. -/
theorem takes_shutDown {i : Instr} {generation : Nat} {c : ConnectionId}
    (h : i.charge? = some (.teardown generation c true)) :
    i = .perform (.teardown generation c true) ∨ i = .shutDown generation c := by
  cases i with
  | handle e => cases e <;> cases h
  | perform e =>
    cases e <;> cases h
    exact .inl rfl
  | shutDown =>
    cases h
    exact .inr rfl
  | _ => cases h

/-- What takes up the end of a worker that is gone. -/
theorem takes_departs {i : Instr} {generation : Nat} {c : ConnectionId}
    (h : i.charge? = some (.teardown generation c false)) :
    i = .perform (.teardown generation c false) := by
  cases i with
  | handle e => cases e <;> cases h
  | perform e =>
    cases e <;> cases h
    rfl
  | _ => cases h

/-- What takes up an arrival. -/
theorem takes_arrival {i : Instr} {generation : Nat} {result : Except TransportError Launched}
    (h : i.charge? = some (.arrival generation result)) :
    i = .handle (.launched generation result) := by
  cases i with
  | handle e =>
    cases e <;> cases h
    rfl
  | perform e => cases e <;> cases h
  | _ => cases h

namespace Sound

variable {past : List Move} {s s' : System} {m : Move} {b : Brought}

/-- A call of `shutdown` that is decided on is made. -/
theorem shutdowns_of_move (h : Sound past s) (step : Moves s m s') (hb : b ∈ shutdowns past s) :
    b ∈ shutdowns (m :: past) s' := by
  unfold shutdowns at hb ⊢
  rw [filterMap_cons_toList]
  rcases List.mem_append.mp hb with ended | due
  · exact List.mem_append_left _ (List.mem_append_right _ ended)
  · obtain ⟨x, hx, shut⟩ := List.mem_filterMap.mp due
    have still (there : x ∈ s'.charges) : b ∈ (m.shutDown?.toList ++ past.filterMap Move.shutDown?) ++
        s'.charges.filterMap Charge.shutDown? :=
      List.mem_append_right _ (List.mem_filterMap.mpr ⟨x, there, shut⟩)
    rcases h.persists step hx with there | ⟨t, i, a, rfl, taken⟩
    · exact still there
    · unfold Charge.shutDown? at shut
      split at shut
      next generation c =>
        cases shut
        rcases takes_shutDown taken with rfl | rfl
        · -- The task that is begun has in hand what this one had.
          obtain ⟨r, before, caller, hexec, -, -, ledger⟩ := h.booked step
          cases exec_cases hexec with
          | aside plain => cases plain
          | performed =>
            have same := (List.perm_append_right_iff _).mp ledger
            exact still (same.mem_iff.mpr hx)
        · exact List.mem_append_left _ List.mem_cons_self
      next => cases shut

/-- A connection that is given up stays so. -/
theorem departures_of_move (h : Sound past s) (step : Moves s m s') (hb : b ∈ departures past s) :
    b ∈ departures (m :: past) s' := by
  unfold departures at hb ⊢
  rw [filterMap_cons_toList]
  rcases List.mem_append.mp hb with ended | due
  · exact List.mem_append_left _ (List.mem_append_right _ ended)
  · obtain ⟨x, hx, gone⟩ := List.mem_filterMap.mp due
    rcases h.persists step hx with there | ⟨t, i, a, rfl, taken⟩
    · exact List.mem_append_right _ (List.mem_filterMap.mpr ⟨x, there, gone⟩)
    · unfold Charge.departs? at gone
      split at gone
      next generation c =>
        cases gone
        rw [takes_departs taken]
        exact List.mem_append_left _ List.mem_cons_self
      next => cases gone

/-- What an event begins is under way. -/
theorem begins (h : Sound past s) (alive : s.alive = true) {t : TaskId} {e : Event} {a : Answer}
    (step : Moves s (.did t (.handle e) a) s') :
    s'.machine = (s.machine.transition e).machine ∧
      ∀ x, x ∈ (s.machine.transition e).effects.filterMap Effect.charge? →
        e.charge? ≠ some x → x ∈ s'.charges := by
  obtain ⟨r, before, caller, hexec, machine, -, ledger⟩ := h.booked step
  cases exec_cases hexec with
  | aside _ _ _ _ other => cases other
  | missed gone => exact absurd alive (by simp [gone])
  | handled =>
    rw [System.apply, filterMap_perform] at ledger
    refine ⟨machine.trans (s.machine_apply e), fun x hx other => ?_⟩
    rcases List.mem_append.mp (ledger.mem_iff.mpr (List.mem_append_right _ hx)) with there | taken
    · exact there
    · exact absurd (Option.mem_toList.mp taken) other

end Sound

end Supervision.Worker
