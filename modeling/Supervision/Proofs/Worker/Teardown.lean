import Supervision.Proofs.Worker.Custody
import Supervision.Proofs.Worker.Listening

/-!
# As often as needed

Users stop a worker, workers end by themselves, launches come too late, and listeners tell of ends
that are long past. Each of them may begin to end a connection. The law here says that a connection
is ended once all the same, and by what it takes: `shutdown` if its worker may be alive, `kill` only
after that, and nothing if the worker is known to be gone. A worker that comes up after it was
stopped is ended without having been a worker: the machine does not keep its connection, nobody
hears it and its process is not named.

That nothing is ended twice is read off the custody of connections. What happens to one start is
followed from one moment to another: what is decided on stays decided, and a start that was stopped
while it launched takes no connection any more (`Machine.Forgoes`).

Connections are told apart by their numbers. A launch makes a new one, which no other brings; where
the law counts, it does not depend on that.
-/

namespace Supervision.Worker

/-- How often a connection was delivered. -/
def deliveries (past : List Move) (c : ConnectionId) : Nat :=
  (brought past).countP fun b => b.2 = c

/-- How often `shutdown` was called on a connection, or is to be. -/
def shutdownCalls (past : List Move) (s : System) (c : ConnectionId) : Nat :=
  (shutdowns past s).countP fun b => b.2 = c

/-! ## Counts -/

section Counts

variable {options : Options} {past : List Move} {s : System}

/-- A connection is shut down or given up at most as often as it was delivered. -/
theorem Run.calls_le (run : Run options past s) (alive : s.alive = true) (c : ConnectionId) :
    shutdownCalls past s c + (departures past s).countP (fun b => b.2 = c) ≤ deliveries past c := by
  have all := (run.custody alive).countP_eq fun b => b.2 = c
  simp only [List.countP_append] at all
  unfold shutdownCalls deliveries
  omega

/-- What one view sees another sees, too. -/
theorem filterMap_sublist_of_imp {α β : Type} {f g : α → Option β}
    (h : ∀ x b, f x = some b → g x = some b) (l : List α) :
    (l.filterMap f).Sublist (l.filterMap g) := by
  induction l with
  | nil => exact .slnil
  | cons x l ih =>
    rw [filterMap_cons_toList, filterMap_cons_toList g]
    cases hx : f x with
    | none => exact ih.trans (List.sublist_append_right _ _)
    | some b =>
      rw [h x b hx]
      exact ih.cons_cons b

/-- Whatever call was overdue was a call. -/
theorem overdue_le (past : List Move) (s : System) (c : ConnectionId) :
    (overdue past).count c ≤ shutdownCalls past s c := by
  have called : (overdue past).Sublist ((past.filterMap Move.shutDown?).map (·.2)) := by
    rw [List.map_filterMap]
    refine filterMap_sublist_of_imp (fun m d late => ?_) past
    unfold Move.overdue? at late
    split at late
    · cases late
      rfl
    · cases late
      rfl
    · cases late
  refine Nat.le_trans (called.count_le c) ?_
  unfold shutdownCalls shutdowns
  rw [List.countP_append, List.count_eq_countP, List.countP_map]
  exact Nat.le_add_right _ _

/-- A connection is killed at most as often as `shutdown` was called and did not help. -/
theorem Run.kills_le (run : Run options past s) (alive : s.alive = true) (c : ConnectionId) :
    (kills past).count c ≤ (overdue past).count c := by
  rw [(run.killed alive).count_eq c, List.count_append]
  exact Nat.le_add_right _ _

/-- When a connection is about to be killed there is a call that did not help, and was not followed
by a kill. -/
theorem Run.kill_lt (run : Run options past s) (alive : s.alive = true) {c : ConnectionId}
    (due : Charge.kill c ∈ s.charges) : (kills past).count c < (overdue past).count c := by
  rw [(run.killed alive).count_eq c, List.count_append]
  have one : 0 < (s.charges.filterMap Charge.kill?).count c :=
    List.count_pos_iff.mpr (List.mem_filterMap.mpr ⟨_, due, rfl⟩)
  omega

end Counts

/-! ## A start that was stopped while it launched -/

/-- The machine has gone past a start, or it takes no connection in it any more. -/
structure Machine.Forgoes (m : Machine) (generation : Nat) : Prop where
  le : generation ≤ m.generation
  now : m.generation = generation →
    (m.state = .stopping ∨ m.state = .idle) ∧ m.connection = none ∧ m.pid = none

theorem Machine.Forgoes.busy {m : Machine} {generation : Nat} (h : m.Forgoes generation)
    (current : m.generation = generation) : m.state ≠ .starting ∧ m.state ≠ .running := by
  rcases (h.now current).1 with state | state <;> rw [state] <;> exact ⟨nofun, nofun⟩

/-- Without a connection the machine takes none in the same start. -/
theorem Machine.Forgoes.transition {m : Machine} {generation : Nat} (h : m.Forgoes generation)
    (e : Event) : (m.transition e).machine.Forgoes generation := by
  refine ⟨Nat.le_trans h.le (m.progress_transition e).generation, fun same => ?_⟩
  have current : m.generation = generation :=
    Nat.le_antisymm (same ▸ (m.progress_transition e).generation) h.le
  obtain ⟨state, connection, pid⟩ := h.now current
  have unchanged (still : m.transition e = m.unchanged) :
      ((m.transition e).machine.state = .stopping ∨ (m.transition e).machine.state = .idle) ∧
        (m.transition e).machine.connection = none ∧ (m.transition e).machine.pid = none := by
    rw [still]
    exact ⟨state, connection, pid⟩
  have busy := h.busy current
  cases e with
  | start path =>
    by_cases idle : m.state = .idle
    · -- a start of an idle machine is a new one
      have new : (m.begin path).machine.generation = m.generation + 1 := by
        unfold Machine.begin
        dsimp only
        split <;> rfl
      simp only [Machine.transition, if_pos idle] at same
      omega
    · exact unchanged (by simp only [Machine.transition, if_neg idle])
  | stop =>
    rcases state with state | state <;> exact unchanged (by simp only [Machine.transition, state])
  | setPath path =>
    simp only [Machine.transition]
    split
    · exact ⟨state, connection, pid⟩
    next _ starting => exact absurd starting busy.1
    · exact ⟨state, connection, pid⟩
  | launched g result =>
    simp only [Machine.transition]
    split
    · split
      next starting => exact absurd starting busy.1
      next starting => exact absurd starting busy.1
      next => exact ⟨state, connection, pid⟩
      next => exact ⟨.inr rfl, connection, pid⟩
      next => exact ⟨state, connection, pid⟩
    · exact ⟨state, connection, pid⟩
  | exited g =>
    exact unchanged (by simp only [Machine.transition, busy.2, false_and, if_false])
  | tornDown g =>
    simp only [Machine.transition]
    split
    · exact ⟨.inr rfl, connection, rfl⟩
    · exact ⟨state, connection, pid⟩

/-- While a launch is under way the machine has no connection, and names no process. -/
theorem Phase.bare_of_launch {past : List Move} {m : Machine} {cs : List Charge}
    (h : Phase past m cs) {x : Charge} (hx : x ∈ cs) {generation : Nat}
    (launch : x.launch? = some generation) :
    m.generation = generation ∧ m.connection = none ∧ m.pid = none := by
  cases h with
  | launching _ pid connection =>
    cases List.mem_singleton.mp hx
    cases launch
    exact ⟨rfl, connection, pid⟩
  | arrived _ pid connection =>
    cases List.mem_singleton.mp hx
    cases launch
    exact ⟨rfl, connection, pid⟩
  | failed _ pid connection =>
    cases List.mem_singleton.mp hx
    cases launch
    exact ⟨rfl, connection, pid⟩
  | killing =>
    rcases List.mem_pair.mp hx with rfl | rfl <;> cases launch
  | ending =>
    cases List.mem_singleton.mp hx
    cases launch
  | ended =>
    cases List.mem_singleton.mp hx
    cases launch
  | _ => cases hx

/-- A connection that the machine hears of was delivered by the launch of this start. -/
theorem Run.brought_of_arrival {options : Options} {past : List Move} {s : System}
    (run : Run options past s) (alive : s.alive = true) {generation : Nat} {l : Launched}
    (arrives : Charge.arrival generation (.ok l) ∈ s.charges) :
    (generation, l) ∈ delivered past ∧ generation = s.machine.generation := by
  obtain ⟨cs, charges, phase⟩ := (Sound.of_run run).phase alive
  obtain rfl := phase.eq_singleton (charges.mem_iff.mp arrives) rfl
  cases phase with
  | arrived _ _ _ last => exact ⟨List.mem_of_mem_head? last, rfl⟩

/-- What was delivered by a launch that is under way arrives. -/
theorem Run.arrival_of_brought {options : Options} {past : List Move} {s : System}
    (run : Run options past s) (alive : s.alive = true) {generation : Nat} {l : Launched}
    (brought : (generation, l) ∈ delivered past) (underWay : generation ∈ s.launches) :
    Charge.arrival generation (.ok l) ∈ s.charges := by
  have sole := run.sole alive
  obtain ⟨x, hx, launch⟩ := List.mem_filterMap.mp underWay
  have bare := sole.ended _ brought x hx
  cases x with
  | launch g =>
    cases launch
    exact absurd rfl bare
  | arrival g result =>
    cases launch
    cases result with
    | error why => exact absurd rfl bare
    | ok other =>
      have same := List.inj_on_of_nodup_map sole.distinct brought
        (run.brought_of_arrival alive hx).1 rfl
      cases same
      exact hx
  | _ => cases launch

/-! ## Whose connection is kept -/

/-- What a step takes up was under way. -/
theorem Run.taken_up {options : Options} {past : List Move} {s s' : System}
    (run : Run options past s) {t : TaskId} {i : Instr} {a : Answer}
    (step : Moves s (.did t i a) s') {x : Charge} (taken : i.charge? = some x) :
    x ∈ s.charges := by
  obtain ⟨r, before, caller, -, -, charged, -⟩ := (Sound.of_run run).booked step
  exact charged x taken

/-- **A process that is named after an event** was named in the same start, or was brought by its
launch. -/
theorem Machine.named_of_transition {m : Machine} {e : Event} {p : Nat}
    (bare : m.state = .idle → m.pid = none) (named : (m.transition e).machine.pid = some p) :
    (m.transition e).machine.generation = m.generation ∧
      (m.pid = some p ∨ m.state = .starting ∧
        ∃ l : Launched, e = .launched m.generation (.ok l) ∧ l.pid = some p) := by
  have teardown (alive : Bool) : (m.beginTeardown alive).machine.generation = m.generation ∧
      ((m.beginTeardown alive).machine.pid = some p → m.pid = some p) := by
    rw [beginTeardown]
    split
    · exact ⟨rfl, id⟩
    · exact ⟨rfl, fun named => absurd named (Option.some_ne_none p).symm⟩
  revert named
  cases e with
  | start path =>
    rw [transition]
    split
    next idle =>
      -- an idle machine names none, and does not begin to when it starts
      have unnamed : (m.begin path).machine.pid = none := by
        rw [begin]
        split <;> exact bare idle
      intro named
      rw [unnamed] at named
      cases named
    next => exact fun named => ⟨rfl, .inl named⟩
  | stop =>
    simp only [transition]
    split
    · exact fun named => ⟨rfl, .inl named⟩
    · exact fun named => ⟨(teardown true).1, .inl ((teardown true).2 named)⟩
    · exact fun named => ⟨rfl, .inl named⟩
  | setPath path =>
    simp only [transition]
    split <;> exact fun named => ⟨rfl, .inl named⟩
  | launched generation result =>
    simp only [transition]
    split
    next current =>
      subst current
      split
      next l starting => exact fun named => ⟨rfl, .inr ⟨starting, l, rfl, named⟩⟩
      next =>
        intro named
        cases named
      next => exact fun named => ⟨rfl, .inl named⟩
      next => exact fun named => ⟨rfl, .inl named⟩
      next => exact fun named => ⟨rfl, .inl named⟩
    next => exact fun named => ⟨rfl, .inl named⟩
  | exited generation =>
    simp only [transition]
    split
    · exact fun named => ⟨(teardown false).1, .inl ((teardown false).2 named)⟩
    · exact fun named => ⟨rfl, .inl named⟩
  | tornDown generation =>
    simp only [transition]
    split
    · intro named
      cases named
    · exact fun named => ⟨rfl, .inl named⟩

/-- **The process that is named** was brought by the launch of this start. -/
theorem Run.named {options : Options} {past : List Move} {s : System} (run : Run options past s)
    (alive : s.alive = true) {p : Nat} (named : s.machine.pid = some p) :
    ∃ l : Launched, (s.machine.generation, l) ∈ delivered past ∧ l.pid = some p := by
  induction run with
  | start => cases named
  | @next past s s' m run step ih =>
    have existed := step.alive alive
    have onward (before : s.machine.pid = some p) :
        ∃ l : Launched, (s.machine.generation, l) ∈ delivered (m :: past) ∧ l.pid = some p := by
      obtain ⟨l, brought, pid⟩ := ih existed before
      exact ⟨l, mem_delivered_cons brought, pid⟩
    rcases step.machine with machine | ⟨e, told, machine⟩
    · rw [machine] at named ⊢
      exact onward named
    · have bare (idle : s.machine.state = .idle) : s.machine.pid = none := by
        obtain ⟨cs, -, phase⟩ := (Sound.of_run run).phase existed
        exact (phase.of_idle idle).2.1
      rw [machine] at named ⊢
      obtain ⟨same, before | ⟨-, l, rfl, pid⟩⟩ := Machine.named_of_transition bare named
      · rw [same]
        exact onward before
      · rw [same]
        obtain ⟨t, a, rfl⟩ := told.resolve_right Event.noConfusion
        have brought := (run.brought_of_arrival existed (run.taken_up step rfl)).1
        exact ⟨l, mem_delivered_cons brought, pid⟩

/-- **The connection that is kept** was brought by the launch of this start, which runs. -/
theorem Run.kept {options : Options} {past : List Move} {s : System} (run : Run options past s)
    (alive : s.alive = true) {c : ConnectionId} (kept : s.machine.connection = some c) :
    s.machine.state = .running ∧
      ∃ l : Launched, (s.machine.generation, l) ∈ delivered past ∧ l.connection = c := by
  obtain ⟨cs, -, phase⟩ := (Sound.of_run run).phase alive
  have running := phase.connection_isSome.mp (by rw [kept]; rfl)
  obtain ⟨-, l, -, connection, last, -⟩ := phase.of_running running
  refine ⟨running, l, List.mem_of_mem_head? last, ?_⟩
  exact Option.some.inj (connection.symm.trans kept)

/-! ## Who was heard -/

/-- A machine that starts and takes a connection runs with it. -/
theorem Run.running_of_attach {options : Options} {past : List Move} {s s' : System}
    (run : Run options past s) (alive : s.alive = true) {t : TaskId} {a : Answer} {l : Launched}
    (starting : s.machine.state = .starting)
    (step : Moves s (.did t (.handle (.launched s.machine.generation (.ok l))) a) s') :
    s'.machine.RunsWith l.connection := by
  have machine := ((Sound.of_run run).begins alive step).1
  simp only [Machine.transition, if_true, starting] at machine
  rw [machine]
  exact ⟨rfl, rfl⟩

/-- Nothing is launched any more then. -/
theorem Run.launches_of_attach {options : Options} {past : List Move} {s s' : System}
    (run : Run options past s) (alive : s.alive = true) (alive' : s'.alive = true) {t : TaskId}
    {a : Answer} {l : Launched} (starting : s.machine.state = .starting)
    (step : Moves s (.did t (.handle (.launched s.machine.generation (.ok l))) a) s') :
    s'.launches = [] := by
  have running := (run.running_of_attach alive starting step).1
  obtain ⟨cs, charges, phase⟩ := (Sound.of_run (run.next step)).phase alive'
  rw [(phase.of_running running).1] at charges
  rw [System.launches, charges.eq_nil]
  rfl

/-- A connection was brought by a start whose launch is over. -/
def CameUp (past : List Move) (s : System) (c : ConnectionId) : Prop :=
  ∃ generation l, (generation, l) ∈ delivered past ∧ l.connection = c ∧
    generation ≤ s.machine.generation ∧ generation ∉ s.launches

theorem CameUp.next {past : List Move} {s s' : System} {m : Move} {c : ConnectionId}
    (h : CameUp past s c) (sound : Sound past s) (step : Moves s m s') :
    CameUp (m :: past) s' c := by
  obtain ⟨generation, l, brought, conn, le, ended⟩ := h
  refine ⟨generation, l, mem_delivered_cons brought, conn,
    Nat.le_trans le step.progress.generation, fun again => ?_⟩
  rcases sound.launches_of_move step again with still | new
  · exact ended still
  · exact absurd le (Nat.not_le.mpr new)

/-- **Whoever is heard came to run.** A connection whose notifications are taken was brought by a
start whose launch is over. -/
theorem Run.heard {options : Options} {past : List Move} {s : System} (run : Run options past s)
    (alive : s.alive = true) {c : ConnectionId} (taken : Taken past s c) : CameUp past s c := by
  induction run with
  | start =>
    rcases taken with ⟨e, he, -⟩ | ⟨t, a, hm⟩
    · cases he
    · cases hm
  | @next past s s' m run step ih =>
    have existed := step.alive alive
    have sound := Sound.of_run run
    rcases taken_of_move step sound taken with before | ⟨starting, t, a, l, conn, rfl⟩
    · exact (ih existed before).next sound step
    · have brought := (run.brought_of_arrival existed (run.taken_up step rfl)).1
      refine ⟨_, l, mem_delivered_cons brought, conn, step.progress.generation, ?_⟩
      rw [run.launches_of_attach existed alive starting step]
      exact List.not_mem_nil

/-! ## What becomes of a worker that comes up too late -/

/-- A start that was stopped while it launched. -/
structure Overtaken (past : List Move) (s : System) (generation : Nat) : Prop where
  forgoes : s.machine.Forgoes generation
  /-- Its connection arrives, or is shut down. -/
  due : ∀ l, (generation, l) ∈ delivered past →
    Charge.arrival generation (.ok l) ∈ s.charges ∨ (generation, l.connection) ∈ shutdowns past s
  /-- Whoever is heard was brought by another start. -/
  unheard : ∀ c, Taken past s c → ∃ other l, (other, l) ∈ delivered past ∧ l.connection = c ∧
    other ≠ generation

namespace Overtaken

variable {options : Options} {past : List Move} {s s' : System} {generation : Nat}

/-- A start is overtaken when the machine stops while its launch is under way. -/
theorem of_launch (run : Run options past s) (alive : s.alive = true)
    (stopping : s.machine.state = .stopping) (underWay : generation ∈ s.launches) :
    Overtaken past s generation := by
  obtain ⟨cs, charges, phase⟩ := (Sound.of_run run).phase alive
  obtain ⟨x, hx, launch⟩ := List.mem_filterMap.mp underWay
  obtain ⟨current, connection, pid⟩ := phase.bare_of_launch (charges.mem_iff.mp hx) launch
  refine ⟨⟨Nat.le_of_eq current.symm, fun _ => ⟨.inl stopping, connection, pid⟩⟩, fun l hl => ?_,
    fun c taken => ?_⟩
  · exact .inl (run.arrival_of_brought alive hl underWay)
  · obtain ⟨other, l, brought, conn, -, ended⟩ := run.heard alive taken
    exact ⟨other, l, brought, conn, fun same => ended (same ▸ underWay)⟩

/-- A connection that arrives too late is shut down. -/
theorem shutDown (h : Overtaken past s generation) (run : Run options past s)
    (alive : s.alive = true) {t : TaskId} {a : Answer} {l : Launched}
    (step : Moves s (.did t (.handle (.launched generation (.ok l))) a) s') :
    Charge.teardown generation l.connection true ∈ s'.charges := by
  have arrives := run.taken_up step rfl
  obtain ⟨-, current⟩ := run.brought_of_arrival alive arrives
  have stopping : s.machine.state = .stopping := by
    obtain ⟨cs, charges, phase⟩ := (Sound.of_run run).phase alive
    refine (h.forgoes.now current.symm).1.resolve_right fun idle => ?_
    rw [(phase.of_idle idle).1] at charges
    exact absurd (charges.mem_iff.mp arrives) List.not_mem_nil
  refine ((Sound.of_run run).begins alive step).2 _ ?_ nofun
  simp only [Machine.transition, if_pos current, stopping]
  exact List.mem_cons_self

/-- **A move leaves an overtaken start overtaken.** -/
theorem move (h : Overtaken past s generation) (run : Run options past s) {m : Move}
    (step : Moves s m s') (alive : s'.alive = true) : Overtaken (m :: past) s' generation := by
  have existed := step.alive alive
  have sound := Sound.of_run run
  refine ⟨?_, fun l hl => ?_, fun c taken => ?_⟩
  · rcases step.machine with machine | ⟨e, -, machine⟩
    · exact machine ▸ h.forgoes
    · exact machine ▸ h.forgoes.transition e
  · rw [delivered, filterMap_cons_toList] at hl
    rcases List.mem_append.mp hl with new | old
    · have arrives := sound.charges_of_delivery existed step (Option.mem_toList.mp new)
      exact .inl (arrives.mem_iff.mpr List.mem_cons_self)
    · rcases h.due l old with arrives | shut
      · rcases sound.persists step arrives with there | ⟨t, i, a, rfl, taken⟩
        · exact .inl there
        · obtain rfl := takes_arrival taken
          refine .inr (List.mem_append_right _ ?_)
          exact List.mem_filterMap.mpr ⟨_, h.shutDown run existed step, rfl⟩
      · exact .inr (sound.shutdowns_of_move step shut)
  · rcases taken_of_move step sound taken with before | ⟨starting, t, a, l, conn, rfl⟩
    · obtain ⟨other, l, brought, conn, ne⟩ := h.unheard c before
      exact ⟨other, l, mem_delivered_cons brought, conn, ne⟩
    · -- The machine starts, so it has gone past the start that was overtaken.
      have brought := (run.brought_of_arrival existed (run.taken_up step rfl)).1
      exact ⟨_, l, mem_delivered_cons brought, conn, fun same =>
        (h.forgoes.busy same).1 starting⟩

/-- What is true of an overtaken start stays true. -/
theorem onward {later : List Move} (h : Overtaken past s generation) (run : Run options past s)
    (ensues : Ensues s later s') (alive : s'.alive = true) :
    Overtaken (later ++ past) s' generation := by
  induction ensues with
  | here => exact h
  | next before step ih =>
    exact (ih (step.alive alive)).move (before.run run) step alive

end Overtaken

/-- What a start brought is shut down once, if it is shut down. -/
theorem Run.once {options : Options} {past : List Move} {s : System} (run : Run options past s)
    (alive : s.alive = true) {b : Brought} (shut : b ∈ shutdowns past s) :
    (shutdowns past s).filter (fun d => d.1 = b.1) = [b] ∧
      ∀ c, (b.1, c) ∉ departures past s := by
  have one : (brought past).countP (fun d => d.1 = b.1) ≤ 1 := by
    have starts : ((brought past).map (·.1)).Nodup := by
      rw [brought, List.map_map]
      exact (run.sole alive).distinct
    have count := List.nodup_iff_count_le_one.mp starts b.1
    rwa [List.count_eq_countP, List.countP_map] at count
  have all := (run.custody alive).countP_eq fun d => d.1 = b.1
  simp only [List.countP_append] at all
  have here : b ∈ (shutdowns past s).filter fun d => d.1 = b.1 :=
    List.mem_filter.mpr ⟨shut, by simp⟩
  have again : 0 < (shutdowns past s).countP fun d => d.1 = b.1 :=
    List.countP_pos_iff.mpr ⟨b, shut, by simp⟩
  refine ⟨?_, fun c gone => ?_⟩
  · have single : ((shutdowns past s).filter fun d => d.1 = b.1).length = 1 := by
      rw [← List.countP_eq_length_filter]
      omega
    obtain ⟨d, heq⟩ := List.length_eq_one_iff.mp single
    rw [heq] at here ⊢
    rw [List.mem_singleton.mp here]
  · have more : 0 < (departures past s).countP fun d => d.1 = b.1 :=
      List.countP_pos_iff.mpr ⟨(b.1, c), gone, by simp⟩
    omega

/-- What becomes of a start that was stopped while it launched. -/
structure Late (past : List Move) (s : System) (generation : Nat) : Prop where
  /-- Before the next start no connection is kept, and no process is named. -/
  forgone : s.machine.generation = generation →
    s.machine.state ≠ .running ∧ s.machine.connection = none ∧ s.machine.pid = none
  /-- A connection that is kept was brought by another start. -/
  kept : ∀ c, s.machine.connection = some c → ∃ other l, (other, l) ∈ delivered past ∧
    l.connection = c ∧ other ≠ generation
  /-- A process that is named was brought by another start. -/
  named : ∀ p, s.machine.pid = some p → ∃ other l, (other, l) ∈ delivered past ∧
    l.pid = some p ∧ other ≠ generation
  /-- Nobody hears its connection, and nobody has, unless another start brought it, too. -/
  unheard : ∀ c, Taken past s c → ∃ other l, (other, l) ∈ delivered past ∧ l.connection = c ∧
    other ≠ generation
  /-- If it brings a connection, that one is shut down once. -/
  once : ∀ l, (generation, l) ∈ delivered past → generation ∉ s.launches →
    (shutdowns past s).filter (fun b => b.1 = generation) = [(generation, l.connection)] ∧
      ∀ c, (generation, c) ∉ departures past s

/-- A start that was overtaken comes too late. -/
theorem Overtaken.late {options : Options} {past : List Move} {s : System} {generation : Nat}
    (h : Overtaken past s generation) (run : Run options past s) (alive : s.alive = true) :
    Late past s generation := by
  refine ⟨fun current => ?_, fun c kept => ?_, fun p named => ?_, h.unheard,
    fun l brought ended => ?_⟩
  · obtain ⟨-, connection, pid⟩ := h.forgoes.now current
    exact ⟨(h.forgoes.busy current).2, connection, pid⟩
  · obtain ⟨running, l, brought, conn⟩ := run.kept alive kept
    exact ⟨_, l, brought, conn, fun same => (h.forgoes.busy same).2 running⟩
  · obtain ⟨l, brought, pid⟩ := run.named alive named
    refine ⟨_, l, brought, pid, fun same => ?_⟩
    rw [(h.forgoes.now same).2.2] at named
    cases named
  · have shut : (generation, l.connection) ∈ shutdowns past s := by
      refine (h.due l brought).resolve_left fun arrives => ?_
      exact ended (List.mem_filterMap.mpr ⟨_, arrives, rfl⟩)
    exact run.once alive shut

/-! ## As often as needed -/

/-- How the connections of a run are ended. The run makes the moves `past` up to the supervisor `s`,
then the move `m` to `next`, and then the moves `later` up to `s'`. -/
structure Sparing (past : List Move) (s : System) (m : Move) (next : System) (later : List Move)
    (s' : System) : Prop where
  /-- `shutdown` is called on a connection at most as often as a launch delivered it, and a launch
  makes a new one. -/
  shutDown : ∀ c, shutdownCalls (later ++ m :: past) s' c ≤ deliveries (later ++ m :: past) c
  kill : ∀ c, (kills (later ++ m :: past)).count c ≤ deliveries (later ++ m :: past) c
  /-- When a connection is killed, `shutdown` has failed or was not over in time, and that was not
  followed by a kill before. -/
  overdue : ∀ t c a, m = .did t (.kill c) a → (kills past).count c < (overdue past).count c
  /-- Neither is called on the connection of a worker that was running until its end was told. -/
  exited : ∀ t c a, m = .did t (.handle (.exited s.machine.generation)) a →
    s.machine.state = .running → s.machine.connection = some c →
    shutdownCalls (later ++ m :: past) s' c < deliveries (later ++ m :: past) c ∧
      (kills (later ++ m :: past)).count c < deliveries (later ++ m :: past) c
  /-- What becomes of a connection that is delivered after a stop. -/
  late : ∀ generation ∈ s.launches, s.machine.state = .stopping →
    Late (later ++ m :: past) s' generation
  /-- The end of a worker of another start changes nothing. -/
  stale : ∀ t generation a, m = .did t (.handle (.exited generation)) a →
    generation ≠ s.machine.generation → next.machine = s.machine

/-- The end of a worker of another start changes nothing. -/
theorem Run.machine_of_stale {options : Options} {past : List Move} {s s' : System}
    (run : Run options past s) (alive : s.alive = true) {t : TaskId} {generation : Nat} {a : Answer}
    (step : Moves s (.did t (.handle (.exited generation)) a) s')
    (other : generation ≠ s.machine.generation) : s'.machine = s.machine := by
  rw [((Sound.of_run run).begins alive step).1]
  simp only [Machine.transition, other, and_false, if_false]
  rfl

/-- The connection of a worker whose end is told is given up. -/
theorem Run.departs {options : Options} {past : List Move} {s s' : System}
    (run : Run options past s) (alive : s.alive = true) {t : TaskId} {c : ConnectionId} {a : Answer}
    (step : Moves s (.did t (.handle (.exited s.machine.generation)) a) s')
    (running : s.machine.state = .running) (connection : s.machine.connection = some c) :
    (s.machine.generation, c) ∈
      departures (.did t (.handle (.exited s.machine.generation)) a :: past) s' := by
  refine List.mem_append_right _ (List.mem_filterMap.mpr
    ⟨.teardown s.machine.generation c false, ?_, rfl⟩)
  refine ((Sound.of_run run).begins alive step).2 _ ?_ nofun
  simp only [Machine.transition, running, true_and, if_true, Machine.beginTeardown, connection]
  exact List.mem_cons_self

/-- A connection that is given up stays so. -/
theorem Ensues.departures {options : Options} {past later : List Move} {first s : System}
    (h : Ensues first later s) (run : Run options past first) {b : Brought}
    (gone : b ∈ Worker.departures past first) : b ∈ Worker.departures (later ++ past) s := by
  induction h with
  | here => exact gone
  | next before step ih => exact (Sound.of_run (before.run run)).departures_of_move step ih

/-- **Each connection is ended as often as needed,** in every run of a supervisor that stays alive
and from any of its moments to any later one. -/
theorem sparing_of_run {options : Options} {past later : List Move} {s next s' : System} {m : Move}
    (run : Run options past s) (step : Moves s m next) (onward : Ensues next later s')
    (alive : s'.alive = true) : Sparing past s m next later s' := by
  have existed := onward.alive alive
  have existed' := step.alive existed
  have whole := onward.run (run.next step)
  have calls := whole.calls_le alive
  have killed (c : ConnectionId) : (kills (later ++ m :: past)).count c ≤
      shutdownCalls (later ++ m :: past) s' c :=
    Nat.le_trans (whole.kills_le alive c) (overdue_le _ s' c)
  refine ⟨fun c => ?_, fun c => ?_, ?_, ?_, ?_, ?_⟩
  · have := calls c
    omega
  · have := calls c
    have := killed c
    omega
  · rintro t c a rfl
    exact run.kill_lt existed' (run.taken_up step rfl)
  · rintro t c a rfl running connection
    have gone := onward.departures (run.next step) (run.departs existed' step running connection)
    have one : 0 < (departures (later ++ .did t (.handle (.exited s.machine.generation)) a :: past)
        s').countP fun b => b.2 = c := List.countP_pos_iff.mpr ⟨_, gone, by simp⟩
    have := calls c
    have := killed c
    omega
  · intro generation underWay stopping
    have overtaken := (Overtaken.of_launch run existed' stopping underWay).move run step existed
    exact (overtaken.onward (run.next step) onward alive).late whole alive
  · rintro t generation a rfl other
    exact run.machine_of_stale existed' step other

/-- A worker that comes up after it was stopped, and does not end in time. -/
theorem sparing_of_late_launch : ∃ past s m next later s', Run .standard past s ∧ Moves s m next ∧
    Ensues next later s' ∧ s'.alive = true ∧ s.machine.state = .stopping ∧ s.launches = [1] ∧
    delivered (later ++ m :: past) = [(1, ⟨7, some 9⟩)] ∧ kills (later ++ m :: past) = [7] ∧
    Sparing past s m next later s' := by
  have asked := Run.start.next (.ask (.initial .standard) (.start (some ⟨[47]⟩)))
  have acted := asked.next (.act (t := 0) (a := .nothing) rfl rfl rfl)
  have started := acted.next (.act (t := 0) (a := .nothing) rfl rfl rfl)
  have launching := started.next (.act (t := 0) (a := .nothing) rfl rfl rfl)
  have unwanted := launching.next (.ask _ .stop)
  have acted' := unwanted.next (.act (t := 2) (a := .nothing) rfl rfl rfl)
  have stopped := acted'.next (.act (t := 2) (a := .nothing) rfl rfl rfl)
  have launched := stopped.act (t := 1) (a := .launched (.ok ⟨7, some 9⟩)) rfl rfl rfl
  have late := (stopped.next launched).here.next (.act (t := 1) (a := .nothing) rfl rfl rfl)
  have ending := late.next (.act (t := 1) (a := .nothing) rfl rfl rfl)
  have elapsed := ending.next (.act (t := 3) (a := .ending .elapsed) rfl rfl rfl)
  have killed := elapsed.next (.act (t := 3) (a := .nothing) rfl rfl rfl)
  have idle := killed.next (.act (t := 3) (a := .nothing) rfl rfl rfl)
  exact ⟨_, _, _, _, _, _, stopped, launched, idle, rfl, rfl, rfl, rfl, rfl,
    sparing_of_run stopped launched idle rfl⟩

end Supervision.Worker
