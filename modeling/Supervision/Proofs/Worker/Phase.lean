import Supervision.Proofs.Worker.Run

/-!
# What is under way

A worker that is launched or ended is between two events of the machine: the effect of one and the
cause of another. Until then something is under way, its `Charge`: a launch, its result, the end of
a connection. The `Phase` of a machine says which charges go with which state, and which of the
connections delivered so far may be alive (`living`).

The laws here are about the machine alone: each event leads from one phase to another if its charge
is handed over with it. That the tasks of a supervisor have the charges of a phase in hand is proved
where tasks are.
-/

namespace Supervision.Worker

/-! ## Connections -/

/-- What a launch delivers, and for which start. -/
def Move.delivers : Move → Option (Nat × Launched)
  | .did _ (.launch generation _) (.launched (.ok l)) => some (generation, l)
  | _ => none

/-- The connection that is dead from now on: it shut down, it was killed or it is known to be
gone. -/
def Move.ends : Move → Option ConnectionId
  | .did _ (.shutDown _ c) (.ending .ended) => some c
  | .did _ (.kill c) _ => some c
  | .did _ (.watchExit _ c) (.exited _) => some c
  | _ => none

/-- What was delivered, the latest first. -/
def delivered (past : List Move) : List (Nat × Launched) :=
  past.filterMap Move.delivers

/-- The connections that were delivered and are not known to be dead. -/
def living : List Move → List ConnectionId
  | [] => []
  | m :: past =>
    match m.delivers, m.ends with
    | some (_, l), _ => l.connection :: living past
    | none, some c => (living past).filter (· ≠ c)
    | none, none => living past

/-! ## Charges -/

/-- Something under way that ends in an event. -/
inductive Charge
  | launch (generation : Nat)
  | arrival (generation : Nat) (result : Except TransportError Launched)
  | teardown (generation : Nat) (connection : ConnectionId) (alive : Bool)
  | kill (connection : ConnectionId)
  | ended (generation : Nat)

/-- True of what is not part of killing a worker. -/
def Charge.isPeaceful : Charge → Bool
  | .kill _ | .ended _ => false
  | _ => true

/-- What comes to an end with an event. -/
def Event.charge? : Event → Option Charge
  | .launched generation result => some (.arrival generation result)
  | .tornDown generation => some (.ended generation)
  | _ => none

/-- What an effect begins. -/
def Effect.charge? : Effect → Option Charge
  | .launch generation _ => some (.launch generation)
  | .teardown generation connection alive => some (.teardown generation connection alive)
  | .changeWorkspace .. => none

/-- What a task has in hand with an instruction. -/
def Instr.charge? : Instr → Option Charge
  | .handle e => e.charge?
  | .perform e => e.charge?
  | .launch generation _ => some (.launch generation)
  | .shutDown generation connection => some (.teardown generation connection true)
  | .kill connection => some (.kill connection)
  | _ => none

/-- A plain instruction has nothing in hand. -/
theorem charge?_of_isPlain {i : Instr} (plain : i.isPlain = true) : i.charge? = none := by
  cases i with
  | handle e => cases e <;> first | rfl | exact absurd plain Bool.false_ne_true
  | perform e => cases e <;> first | rfl | exact absurd plain Bool.false_ne_true
  | _ => first | rfl | exact absurd plain Bool.false_ne_true

/-! ## Connections that are watched -/

/-- Something that was learned in an earlier start, or in this one when it was running; if it still
is, `P` holds. -/
def Machine.Recalls (m : Machine) (generation : Nat) (P : Prop) : Prop :=
  generation ≤ m.generation ∧
    (generation = m.generation → m.state ≠ .starting ∧ (m.state = .running → P))

/-- A machine begins a new start, or it starts or runs only as it did before. -/
theorem Machine.transition_start (m : Machine) (e : Event) :
    (m.transition e).machine.generation = m.generation + 1 ∨
      (m.transition e).machine.generation = m.generation ∧
        ((m.transition e).machine.state = .starting → m.state = .starting) ∧
        ((m.transition e).machine.state = .running → m.state = .starting ∨
          m.state = .running ∧ (m.transition e).machine.connection = m.connection) := by
  have teardown (alive : Bool) : (m.beginTeardown alive).machine.generation = m.generation ∧
      (m.beginTeardown alive).machine.state ≠ .starting ∧
      (m.beginTeardown alive).machine.state ≠ .running := by
    unfold beginTeardown
    split <;> simp [enter]
  cases e with
  | start path =>
    simp only [transition]
    split
    · left
      unfold begin
      dsimp only
      split <;> rfl
    · exact .inr ⟨rfl, id, fun h => .inr ⟨h, rfl⟩⟩
  | stop =>
    simp only [transition]
    split
    · exact .inr ⟨rfl, (fun h => by cases h), fun h => by cases h⟩
    · obtain ⟨generation, starting, running⟩ := teardown true
      exact .inr ⟨generation, fun h => absurd h starting, fun h => absurd h running⟩
    · exact .inr ⟨rfl, id, fun h => .inr ⟨h, rfl⟩⟩
  | setPath path =>
    simp only [transition]
    split <;> exact .inr ⟨rfl, id, fun h => .inr ⟨h, rfl⟩⟩
  | launched generation result =>
    simp only [transition]
    split
    · split
      next starting => exact .inr ⟨rfl, fun _ => starting, fun _ => .inl starting⟩
      next => exact .inr ⟨rfl, (fun h => by cases h), fun h => by cases h⟩
      next => exact .inr ⟨rfl, id, fun h => .inr ⟨h, rfl⟩⟩
      next => exact .inr ⟨rfl, (fun h => by cases h), fun h => by cases h⟩
      next => exact .inr ⟨rfl, id, fun h => .inr ⟨h, rfl⟩⟩
    · exact .inr ⟨rfl, id, fun h => .inr ⟨h, rfl⟩⟩
  | exited generation =>
    simp only [transition]
    split
    · obtain ⟨generation, starting, running⟩ := teardown false
      exact .inr ⟨generation, fun h => absurd h starting, fun h => absurd h running⟩
    · exact .inr ⟨rfl, id, fun h => .inr ⟨h, rfl⟩⟩
  | tornDown generation =>
    simp only [transition]
    split
    · exact .inr ⟨rfl, (fun h => by cases h), fun h => by cases h⟩
    · exact .inr ⟨rfl, id, fun h => .inr ⟨h, rfl⟩⟩

/-- What was learned is not forgotten: a later start makes it obsolete, and this one does not run
again once it has run. -/
theorem Machine.Recalls.transition {m : Machine} {generation : Nat} {P Q : Prop}
    (h : m.Recalls generation P) (e : Event)
    (keep : (m.transition e).machine.connection = m.connection → P → Q) :
    (m.transition e).machine.Recalls generation Q := by
  obtain ⟨le, now⟩ := h
  rcases m.transition_start e with later | ⟨same, starting, running⟩
  · exact ⟨by omega, fun heq => by omega⟩
  · refine ⟨by omega, fun heq => ?_⟩
    obtain ⟨notStarting, hP⟩ := now (heq.trans same)
    refine ⟨fun h => notStarting (starting h), fun h => ?_⟩
    rcases running h with h | ⟨h, kept⟩
    · exact absurd h notStarting
    · exact keep kept (hP h)

theorem Machine.Recalls.imp {m : Machine} {generation : Nat} {P Q : Prop}
    (h : m.Recalls generation P) (keep : m.state = .running → P → Q) : m.Recalls generation Q :=
  ⟨h.1, fun heq => ⟨(h.2 heq).1, fun running => keep running ((h.2 heq).2 running)⟩⟩

/-! ## Phases -/

/-- What is under way in each state, with the connections that may be alive. Nothing is known alive
but the connection of this start, and a launch is under way only when nothing is alive. -/
inductive Phase (past : List Move) (m : Machine) : List Charge → Prop
  | idle (state : m.state = .idle) (pid : m.pid = none) (connection : m.connection = none)
      (dead : living past = []) : Phase past m []
  | launching (state : m.state = .starting ∨ m.state = .stopping)
      (pid : m.pid = none) (connection : m.connection = none)
      (dead : living past = []) : Phase past m [.launch m.generation]
  | arrived {l : Launched} (state : m.state = .starting ∨ m.state = .stopping)
      (pid : m.pid = none) (connection : m.connection = none)
      (last : (delivered past).head? = some (m.generation, l))
      (current : (living past).Sublist [l.connection]) :
      Phase past m [.arrival m.generation (.ok l)]
  | failed {why : TransportError} (state : m.state = .starting ∨ m.state = .stopping)
      (pid : m.pid = none) (connection : m.connection = none)
      (dead : living past = []) : Phase past m [.arrival m.generation (.error why)]
  | running {l : Launched} (state : m.state = .running) (pid : m.pid = l.pid)
      (connection : m.connection = some l.connection)
      (last : (delivered past).head? = some (m.generation, l))
      (current : (living past).Sublist [l.connection]) : Phase past m []
  | ending {c : ConnectionId} {alive : Bool} (state : m.state = .stopping)
      (connection : m.connection = none) (current : (living past).Sublist [c])
      (dead : alive = false → living past = []) : Phase past m [.teardown m.generation c alive]
  | killing {c : ConnectionId} (state : m.state = .stopping) (connection : m.connection = none)
      (current : (living past).Sublist [c]) : Phase past m [.kill c, .ended m.generation]
  | ended (state : m.state = .stopping) (connection : m.connection = none)
      (dead : living past = []) : Phase past m [.ended m.generation]

namespace Phase

variable {past : List Move} {m : Machine} {cs : List Charge}

/-! ### What a phase says -/

/-- In `Idle` nothing is under way and nothing is alive. -/
theorem of_idle (h : Phase past m cs) (state : m.state = .idle) :
    cs = [] ∧ m.pid = none ∧ m.connection = none ∧ living past = [] := by
  cases h with
  | idle _ pid connection dead => exact ⟨rfl, pid, connection, dead⟩
  | _ => simp_all

/-- In `Running` nothing is under way, and the connection is the one delivered last. -/
theorem of_running (h : Phase past m cs) (state : m.state = .running) :
    cs = [] ∧ ∃ l : Launched, m.pid = l.pid ∧ m.connection = some l.connection ∧
      (delivered past).head? = some (m.generation, l) ∧
        (living past).Sublist [l.connection] := by
  cases h with
  | running _ pid connection last current => exact ⟨rfl, _, pid, connection, last, current⟩
  | _ => simp_all

/-- Only a running machine has a connection. -/
theorem connection_isSome (h : Phase past m cs) :
    m.connection.isSome = true ↔ m.state = .running := by
  cases h with
  | launching state _ connection => rcases state with state | state <;> simp [state, connection]
  | arrived state _ connection => rcases state with state | state <;> simp [state, connection]
  | failed state _ connection => rcases state with state | state <;> simp [state, connection]
  | _ => simp_all

/-- Everything under way belongs to this start. Nothing else is under way beside it, but for what
follows a kill. -/
theorem eq_of_mem (h : Phase past m cs) {x : Charge} (hx : x ∈ cs) :
    cs = [x] ∨ ∃ c, cs = [.kill c, .ended m.generation] := by
  cases h with
  | idle => exact absurd hx List.not_mem_nil
  | running => exact absurd hx List.not_mem_nil
  | killing => exact .inr ⟨_, rfl⟩
  | _ => exact .inl (by rw [List.mem_singleton.mp hx])

/-- A phase depends on a few fields of the machine only. -/
theorem congr (h : Phase past m cs) {m' : Machine} (state : m'.state = m.state)
    (generation : m'.generation = m.generation) (pid : m'.pid = m.pid)
    (connection : m'.connection = m.connection) : Phase past m' cs := by
  obtain ⟨_, _, _, _, _, _, _⟩ := m
  obtain ⟨_, _, _, _, _, _, _⟩ := m'
  simp only at state generation pid connection
  subst state generation pid connection
  cases h with
  | idle a b c d => exact .idle a b c d
  | launching a b c d => exact .launching a b c d
  | arrived a b c d e => exact .arrived a b c d e
  | failed a b c d => exact .failed a b c d
  | running a b c d e => exact .running a b c d e
  | ending a b c d => exact .ending a b c d
  | killing a b c => exact .killing a b c
  | ended a b c => exact .ended a b c

/-! ### Events -/

/-- After an event its own charge is over and its effects are under way. -/
def After (past : List Move) (m : Machine) (e : Event) (left : List Charge) : Prop :=
  Phase past (m.transition e).machine (left ++ (m.transition e).effects.filterMap Effect.charge?)

theorem unchanged (h : Phase past m cs) {e : Event} (same : m.transition e = m.unchanged) :
    After past m e cs := by
  rw [After, same]
  simpa only [Machine.unchanged, List.filterMap_nil, List.append_nil] using h

/-- A start begins a launch, unless there is no workspace. -/
theorem start (h : Phase past m cs) (path : Option Path) : After past m (.start path) cs := by
  by_cases state : m.state = .idle
  · obtain ⟨rfl, pid, connection, dead⟩ := h.of_idle state
    simp only [After, Machine.transition, if_pos state]
    unfold Machine.begin
    dsimp only
    split
    · exact .launching (.inl rfl) pid connection dead
    · exact .idle rfl pid connection dead
  · exact h.unchanged (by simp only [Machine.transition, if_neg state])

/-- A running machine that gives up its connection begins to end it. -/
private theorem teardown (h : Phase past m cs) (state : m.state = .running) (alive : Bool)
    (gone : alive = false → living past = []) :
    Phase past (m.beginTeardown alive).machine
      (cs ++ (m.beginTeardown alive).effects.filterMap Effect.charge?) := by
  obtain ⟨rfl, l, -, connection, -, current⟩ := h.of_running state
  simp only [Machine.beginTeardown, connection]
  exact .ending rfl rfl current gone

/-- A stop leaves a launch under way, or begins to end a connection. -/
theorem stop (h : Phase past m cs) : After past m .stop cs := by
  cases state : m.state with
  | starting =>
    simp only [After, Machine.transition, state, List.filterMap_nil, List.append_nil]
    cases h with
    | launching _ pid connection dead => exact .launching (.inr rfl) pid connection dead
    | arrived _ pid connection last current =>
      exact .arrived (.inr rfl) pid connection last current
    | failed _ pid connection dead => exact .failed (.inr rfl) pid connection dead
    | _ => simp_all
  | running =>
    simp only [After, Machine.transition, state]
    exact h.teardown state true fun dead => absurd dead (by simp)
  | idle => exact h.unchanged (by simp only [Machine.transition, state])
  | stopping => exact h.unchanged (by simp only [Machine.transition, state])

/-- A workspace that is set begins nothing of account. -/
theorem setPath (h : Phase past m cs) (path : Path) : After past m (.setPath path) cs := by
  simp only [After, Machine.transition]
  split <;> simp only [Machine.unchanged, List.filterMap_cons, List.filterMap_nil, List.append_nil,
    Effect.charge?] <;> exact h.congr rfl rfl rfl rfl

/-- A worker that has come up may have to be told its workspace, which is of no account. -/
private theorem ready_begins (m : Machine) (l : Launched) :
    (m.ready l).effects.filterMap Effect.charge? = [] := by
  unfold Machine.ready
  dsimp only
  split <;> rfl

/-- The result of a launch is the result of the launch that is waited for: a worker that comes up
is kept, or ended at once if a stop came between. -/
theorem launched {generation : Nat} {result : Except TransportError Launched}
    (h : Phase past m [.arrival generation result]) :
    After past m (.launched generation result) [] := by
  cases h with
  | arrived state pid connection last current =>
    rcases state with state | state
    · simp only [After, Machine.transition, if_true, state, ready_begins]
      exact .running rfl rfl rfl last current
    · simp only [After, Machine.transition, if_true, state]
      exact .ending state connection current fun dead => absurd dead (by simp)
  | failed state pid connection dead =>
    rcases state with state | state
    · simp only [After, Machine.transition, if_true, state, Machine.fail]
      exact .idle rfl rfl connection dead
    · simp only [After, Machine.transition, if_true, state]
      exact .idle rfl pid connection dead

/-- A worker that is gone is not waited for any longer. -/
theorem exited (h : Phase past m cs) {generation : Nat}
    (gone : m.state = .running → generation = m.generation → living past = []) :
    After past m (.exited generation) cs := by
  by_cases hit : m.state = .running ∧ generation = m.generation
  · simp only [After, Machine.transition, if_pos hit]
    exact h.teardown hit.1 false fun _ => gone hit.1 hit.2
  · exact h.unchanged (by simp only [Machine.transition, if_neg hit])

/-- A worker that was ended leaves the machine idle. -/
theorem tornDown {generation : Nat} (h : Phase past m [.ended generation]) :
    After past m (.tornDown generation) [] := by
  cases h with
  | ended state connection dead =>
    simp only [After, Machine.transition, state, true_and, if_true]
    exact .idle rfl rfl connection dead

/-! ### Moves outside the machine -/

/-- Nothing comes alive but what is delivered. -/
theorem living_cons {mv : Move} (quiet : mv.delivers = none) :
    (living (mv :: past)).Sublist (living past) := by
  simp only [living, quiet]
  cases mv.ends with
  | some d => exact List.filter_sublist
  | none => exact .refl _

theorem living_cons_nil {mv : Move} (quiet : mv.delivers = none) (dead : living past = []) :
    living (mv :: past) = [] :=
  List.sublist_nil.mp (dead ▸ living_cons quiet)

/-- What is alive after the end of the only connection that may be. -/
theorem living_cons_ends {mv : Move} {c : ConnectionId} (quiet : mv.delivers = none)
    (ends : mv.ends = some c) (current : (living past).Sublist [c]) : living (mv :: past) = [] := by
  simp only [living, quiet, ends, List.filter_eq_nil_iff]
  exact fun d hd => by simpa using List.mem_singleton.mp (current.subset hd)

/-- Whatever happens but a delivery leaves the phase as it is. -/
theorem quiet (h : Phase past m cs) {mv : Move} (quiet : mv.delivers = none) :
    Phase (mv :: past) m cs := by
  have same : delivered (mv :: past) = delivered past := List.filterMap_cons_none quiet
  have fewer {l : List ConnectionId} : (living past).Sublist l → (living (mv :: past)).Sublist l :=
    (living_cons quiet).trans
  cases h with
  | idle a b c dead => exact .idle a b c (living_cons_nil quiet dead)
  | launching a b c dead => exact .launching a b c (living_cons_nil quiet dead)
  | arrived a b c last current => exact .arrived a b c (same ▸ last) (fewer current)
  | failed a b c dead => exact .failed a b c (living_cons_nil quiet dead)
  | running a b c last current => exact .running a b c (same ▸ last) (fewer current)
  | ending a b current dead =>
    exact .ending a b (fewer current) fun alive => living_cons_nil quiet (dead alive)
  | killing a b current => exact .killing a b (fewer current)
  | ended a b dead => exact .ended a b (living_cons_nil quiet dead)

/-- A launch comes to an end. -/
theorem answered {generation : Nat} (h : Phase past m [.launch generation]) (t : TaskId)
    (path : Path) (result : Except TransportError Launched) :
    Phase (.did t (.launch generation path) (.launched result) :: past) m
      [.arrival generation result] := by
  cases h with
  | launching state pid connection dead =>
    cases result with
    | ok l =>
      refine .arrived state pid connection rfl ?_
      simp only [living, Move.delivers, dead, List.Sublist.refl]
    | error why => exact .failed state pid connection (living_cons_nil rfl dead)

/-- A worker has shut down. -/
theorem shutDown {generation : Nat} {c : ConnectionId} {alive : Bool}
    (h : Phase past m [.teardown generation c alive]) (t : TaskId) :
    Phase (.did t (.shutDown generation c) (.ending .ended) :: past) m [.ended generation] := by
  cases h with
  | ending state connection current =>
    exact .ended state connection (living_cons_ends rfl rfl current)

/-- A worker has to be killed. -/
theorem outlived {generation : Nat} {c : ConnectionId} {alive : Bool}
    (h : Phase past m [.teardown generation c alive]) :
    Phase past m [.kill c, .ended generation] := by
  cases h with
  | ending state connection current => exact .killing state connection current

/-- A worker that is gone need not be ended. -/
theorem gone {generation : Nat} {c : ConnectionId}
    (h : Phase past m [.teardown generation c false]) : Phase past m [.ended generation] := by
  cases h with
  | ending state connection _ dead => exact .ended state connection (dead rfl)

/-- A worker is killed. -/
theorem killed {generation : Nat} {c : ConnectionId} (h : Phase past m [.kill c, .ended generation])
    (t : TaskId) (a : Answer) : Phase (.did t (.kill c) a :: past) m [.ended generation] := by
  cases h with
  | killing state connection current =>
    exact .ended state connection (living_cons_ends rfl rfl current)

end Phase

end Supervision.Worker
