import Supervision.Proofs.Worker.Refresh
import Supervision.Proofs.Worker.Teardown

/-!
# Where a completion comes from

A refresh that returns without a failure, and was not cancelled, was told that it is complete. The
law here follows that back (`Heard`): to a notification that was taken, under the method of
refreshes, after the call had begun to listen; and the connection it was taken from back to its
launch (`Ensues.hearing`). Between the call and the moment in which it begins to listen the machine
was idle, and whoever listened to a worker then was given up.

So a completion comes from a worker that was launched since that moment, unless it was in hand then:
whoever is given up in its turn goes on until it rests. But it may come before the call has handed
its own notification over, or from another worker than the one it was handed to. A call listens
before it starts the worker, and does not look at what completes it.
-/

namespace Supervision.Worker

/-! ## What has begun -/

/-- Whoever has executed an instruction is not new, and a call that has not begun has executed
none. -/
theorem Run.fresh {options : Options} {past : List Move} {s : System} (run : Run options past s) :
    (∀ t i a, Move.did t i a ∈ past → t < s.pool.next) ∧
      ∀ e ∈ s.pool.tasks, ∀ c, Instr.begin c ∈ e.2.stack → ∀ i a, Move.did e.1 i a ∉ past := by
  induction run with
  | start =>
    refine ⟨fun _ _ _ did => absurd did List.not_mem_nil, ?_⟩
    intro e he
    cases he
  | @next past s s' m run step ih =>
    have sound := Sound.of_run run
    have le := (step.numbered sound.numbered).2
    refine ⟨?_, ?_⟩
    · intro t i a did
      rcases List.mem_cons.mp did with rfl | did
      · cases step with
        | act found => exact Nat.lt_of_lt_of_le (sound.numbered.below _ (Pool.mem_of_get? found)) le
      · exact Nat.lt_of_lt_of_le (ih.1 t i a did) le
    · intro e he c begins i a did
      rcases List.mem_cons.mp did with rfl | did
      · cases step with
        | @act _ _ task _ rest _ found next taken =>
          obtain ⟨r, before, exec, -, result⟩ := step_exec found next taken
          have stack := (own_of_step sound.numbered found (exec_cases exec).regrouped result _ he).2
          rw [stack] at begins
          rcases List.mem_append.mp begins with begins | begins
          · exact exec_begins_none exec c begins
          · have inside : .begin c ∈ task.stack := next ▸ List.mem_cons_of_mem _ begins
            have alone := run.lone _ (Pool.mem_of_get? found) c inside
            obtain ⟨-, rfl⟩ := List.cons.inj (next.symm.trans alone)
            cases begins
      · cases (step.arises sound.numbered sound.attached e he).springs begins with
        | old mem here => exact ih.2 _ mem c here i a did
        | left _ exec here => exact exec_begins_none exec c here
        | opened new => exact absurd (ih.1 _ i a did) (Nat.not_lt.mpr new)

/-! ## Who is told -/

/-- A notification that a refresh is complete was taken after a call had begun to listen. -/
def Heard (t : TaskId) (past : List Move) : Prop :=
  ∃ newer u c n older, past = newer ++ .did u (.receive c) (.received (some n)) :: older ∧
    n.method = Message.refresh ∧ ∃ a, Move.did t .refreshListen a ∈ older

theorem Heard.next {t : TaskId} {past : List Move} (h : Heard t past) (m : Move) :
    Heard t (m :: past) := by
  obtain ⟨newer, u, c, n, older, rfl, method, listened⟩ := h
  exact ⟨m :: newer, u, c, n, older, rfl, method, listened⟩

/-- Where those come from who wait for completions, and those who are told. -/
structure Traced (past : List Move) (s : System) : Prop where
  listens : ∀ method t, s.listeners.Holds method (.completion t) →
    method = Message.refresh ∧ ∃ a, Move.did t .refreshListen a ∈ past
  due : ∀ e ∈ s.pool.tasks, ∀ t p, Instr.deliver (.completion t) p ∈ e.2.stack → Heard t past
  told : ∀ t, Completed t past → Heard t past

/-- A completion that is to be delivered was taken by the task that delivers it. -/
theorem exec_deliver {s r : System} {u t : TaskId} {caller : String} {i : Instr} {a : Answer}
    {before : List Instr} {p : Json} (h : s.exec u caller i a = some (r, before))
    (due : .deliver (.completion t) p ∈ before) :
    ∃ c n, i = .receive c ∧ a = .received (some n) ∧
      s.listeners.Holds n.method (.completion t) := by
  have leads := exec_leads h _ due
  cases i with
  | receive c =>
    cases a with
    | received n =>
      cases n with
      | none =>
        cases h
        cases due
      | some n =>
        cases h
        rcases List.mem_append.mp due with due | due
        · obtain ⟨callback, hmem, same⟩ := List.mem_map.mp due
          obtain ⟨rfl, -⟩ := Instr.deliver.inj same
          exact ⟨c, n, rfl, rfl, Registry.holds_of_mem_snapshot hmem⟩
        · cases List.mem_singleton.mp due
    | _ => cases h
  | _ => cases leads

/-- **Whoever is told of a completion began to listen before it was taken.** -/
theorem Run.traced {options : Options} {past : List Move} {s : System} (run : Run options past s) :
    Traced past s := by
  induction run with
  | start =>
    refine ⟨?_, ?_, ?_⟩
    · rintro method t ⟨e, he, -⟩
      cases he
    · intro e he
      cases he
    · rintro t ⟨m, hm, -⟩
      cases hm
  | @next past s s' m run step ih =>
    have sound := Sound.of_run run
    refine ⟨?_, ?_, ?_⟩
    · intro method t holds
      rcases step.marks.listeners method t holds with held | ⟨⟨a, rfl⟩, method⟩
      · obtain ⟨method, a, listened⟩ := ih.listens method t held
        exact ⟨method, a, List.mem_cons_of_mem _ listened⟩
      · exact ⟨method, a, List.mem_cons_self⟩
    · intro e he t p due
      cases (step.arises sound.numbered sound.attached e he).springs due with
      | old mem here => exact (ih.due _ mem t p here).next m
      | left move exec here =>
        obtain ⟨c, n, rfl, rfl, holds⟩ := exec_deliver exec here
        obtain ⟨method, listened⟩ := ih.listens _ t holds
        exact ⟨[], e.1, c, n, past, by rw [move]; rfl, method, listened⟩
      | opened _ opens => cases opens
    · rintro t ⟨e, he, completes⟩
      rcases List.mem_cons.mp he with rfl | he
      · cases step with
        | @act _ u task i rest a found next taken =>
          have here : i ∈ task.stack := next ▸ List.mem_cons_self
          cases i with
          | deliver callback p =>
            cases callback with
            | completion u =>
              cases completes
              exact (ih.due _ (Pool.mem_of_get? found) t p here).next _
            | _ => cases completes
          | _ => cases completes
        | _ => cases completes
      · exact (ih.told t ⟨e, he, completes⟩).next m

/-! ## Who listens to a worker -/

/-- Whoever gives up a connection gives up those that listen. -/
theorem System.apply_running {s : System} {c : ConnectionId} (runs : s.machine.RunsWith c)
    (e : Event) : (s.apply e).1.machine.RunsWith c ∨ (s.apply e).1.attached = [] := by
  have teardown (alive : Bool) (r : System) (hr : r = (s.machine.beginTeardown alive).notices.foldl
      notice { s with machine := (s.machine.beginTeardown alive).machine }) : r.attached = [] := by
    subst hr
    unfold Machine.beginTeardown
    split <;> rfl
  obtain ⟨running, connection⟩ := runs
  cases e with
  | start path =>
    simp only [apply, Machine.transition, running]
    exact .inl ⟨running, connection⟩
  | stop =>
    simp only [apply, Machine.transition, running]
    exact .inr (teardown true _ rfl)
  | setPath path =>
    rw [machine_apply]
    simp only [Machine.transition, running, connection]
    exact .inl ⟨rfl, rfl⟩
  | launched generation result =>
    rw [machine_apply]
    simp only [Machine.transition, running]
    split <;> exact .inl ⟨running, connection⟩
  | exited generation =>
    simp only [apply, Machine.transition, running, true_and]
    split
    · exact .inr (teardown false _ rfl)
    · exact .inl ⟨running, connection⟩
  | tornDown generation =>
    simp only [apply, Machine.transition, running]
    exact .inl ⟨running, connection⟩

/-- Whoever gives up a connection with a move gives up those that listen. -/
theorem Moves.running {s s' : System} {m : Move} {c : ConnectionId} (step : Moves s m s')
    (runs : s.machine.RunsWith c) : s'.machine.RunsWith c ∨ s'.attached = [] := by
  have released {r : System} (h : r.machine.RunsWith c ∨ r.attached = []) :
      r.release.machine.RunsWith c ∨ r.release.attached = [] :=
    r.release_elim h (.inr rfl)
  cases step with
  | @act _ t task i rest a found next taken =>
    obtain ⟨r, before, effected, -, result⟩ := step_cases found next taken
    have left : r.machine.RunsWith c ∨ r.attached = [] := by
      cases effected with
      | aside _ _ _ alike => exact .inl (alike.machine ▸ runs)
      | called _ _ machine => exact .inl (machine ▸ runs)
      | handled => exact System.apply_running runs _
      | halted => exact System.apply_running runs .stop
      | _ => exact .inl runs
    rcases result with rfl | rfl
    · exact left
    · exact released left
  | park => exact released (.inl runs)
  | drop => exact released (.inl runs)
  | _ => exact .inl runs

/-- **Whoever listens to a connection with which the machine does not run was given up.** -/
theorem Run.hearing {options : Options} {past : List Move} {s : System} (run : Run options past s)
    (alive : s.alive = true) : ∀ e ∈ s.pool.tasks, ∀ c, Instr.receive c ∈ e.2.stack →
      e.2.aborted = true ∨ e.1 ∈ s.attached ∧ s.machine.RunsWith c := by
  induction run with
  | start =>
    intro e he
    cases he
  | @next past s s' m run step ih =>
    have existed := step.alive alive
    intro e he c hears
    rcases step.hears (Sound.of_run run) he hears with ⟨task, mem, here, stays⟩ | ⟨attaches, listens⟩
    · rcases ih existed _ mem c here with aborted | ⟨hears, runs⟩
      · exact .inl (stays.aborted aborted)
      · rcases stays.listens hears with hears | aborted | starting
        · refine .inr ⟨hears, (step.running runs).resolve_right ?_⟩
          intro none
          rw [none] at hears
          cases hears
        · exact .inl aborted
        · rw [runs.1] at starting
          cases starting
    · obtain ⟨starting, t, a, l, rfl, rfl⟩ := attaches
      rcases listens with hears | aborted
      · exact .inr ⟨hears, run.running_of_attach existed starting step⟩
      · exact .inl aborted

/-- A connection was delivered. -/
def Supplied (c : ConnectionId) (moves : List Move) : Prop :=
  ∃ d ∈ delivered moves, d.2.connection = c

/-- A task that listened to a connection was given up, and may still be in its turn: it comes from a
task that was. -/
def Lingers (mid : System) (u : TaskId) (task : Task Instr) (c : ConnectionId) : Prop :=
  ∃ was, (u, was) ∈ mid.pool.tasks ∧ Instr.receive c ∈ was.stack ∧ was.aborted = true ∧
    (was.parked = true → (task.parked && task.aborted) = true)

/-- **Whoever listens after a moment of idleness** listens to a connection that was delivered since,
or was given up. -/
theorem Ensues.hearing {options : Options} {past after : List Move} {mid s : System}
    (h : Ensues mid after s) (run : Run options past mid) (idle : mid.machine.state = .idle)
    (alive : s.alive = true) : ∀ e ∈ s.pool.tasks, ∀ c, Instr.receive c ∈ e.2.stack →
      Supplied c after ∨ Lingers mid e.1 e.2 c := by
  induction h with
  | here =>
    intro e he c hears
    rcases run.hearing alive e he c hears with aborted | ⟨-, running, -⟩
    · exact .inr ⟨e.2, he, hears, aborted, fun parked => by rw [parked, aborted]; rfl⟩
    · rw [idle] at running
      cases running
  | @next s s' after m before step ih =>
    have existed := step.alive alive
    have upTo := before.run run
    intro e he c hears
    rcases step.hears (Sound.of_run upTo) he hears with ⟨task, mem, here, stays⟩ | ⟨attaches, -⟩
    · rcases ih existed _ mem c here with ⟨d, hd, connection⟩ | ⟨was, there, heard, aborted, doomed⟩
      · exact .inl ⟨d, mem_delivered_cons hd, connection⟩
      · exact .inr ⟨was, there, heard, aborted, fun parked => stays.doomed (doomed parked)⟩
    · obtain ⟨starting, t, a, l, rfl, rfl⟩ := attaches
      -- What arrives was delivered, and not before the machine was idle.
      obtain ⟨brought, -⟩ := upTo.brought_of_arrival existed (upTo.taken_up step rfl)
      rw [delivered, List.filterMap_append] at brought
      refine .inl ?_
      rcases List.mem_append.mp brought with late | early
      · exact ⟨_, mem_delivered_cons late, rfl⟩
      · have le := (run.sole (before.alive existed)).started _ early
        rcases before.started idle with later | ⟨-, still⟩
        · exact absurd later (Nat.not_lt.mpr le)
        · rw [starting] at still
          cases still

/-! ## What a refresh was answered with -/

/-- A task that listened to a connection was given up, and was in its turn. -/
def InTurn (mid : System) (u : TaskId) (c : ConnectionId) : Prop :=
  ∃ task, (u, task) ∈ mid.pool.tasks ∧ Instr.receive c ∈ task.stack ∧ task.aborted = true ∧
    task.parked = false

/-- A notification that a refresh is complete was taken after the call began to listen, and since a
moment in which the machine was idle, which the call has seen. The connection was delivered since
that moment, or the task that took the notification was in its turn then. -/
def Answered (first : System) (t : TaskId) (later : List Move) : Prop :=
  ∃ newer u c n since before mid,
    later = newer ++ .did u (.receive c) (.received (some n)) :: (since ++ before) ∧
    n.method = Message.refresh ∧ (∃ a, Move.did t .refreshListen a ∈ since) ∧
    Ensues first before mid ∧ mid.machine.state = .idle ∧ (Supplied c since ∨ InTurn mid u c)

/-- Whoever is told of a completion after a call is told by a notification taken after it. -/
theorem Heard.since {options : Options} {past later : List Move} {s₀ first : System} {t : TaskId}
    {c : Call} {a : Answer} (h : Heard t (later ++ .did t (.begin c) a :: past))
    (run : Run options past s₀) (called : Moves s₀ (.did t (.begin c) a) first) :
    Heard t later := by
  obtain ⟨newer, u, d, n, older, split, method, b, listened⟩ := h
  -- The call had done nothing before it began.
  have new : ∀ i a, Move.did t i a ∉ past := by
    cases called with
    | act found next =>
      exact run.fresh.2 _ (Pool.mem_of_get? found) c (next ▸ List.mem_cons_self)
  rcases List.append_eq_append_iff.mp split with ⟨front, rfl, tail⟩ | ⟨front, rfl, tail⟩
  · cases front with
    | nil => cases (List.cons.inj tail).1
    | cons m front =>
      obtain ⟨rfl, rfl⟩ := List.cons.inj tail
      exact absurd (List.mem_append_right _ (List.mem_cons_of_mem _ listened)) (new _ b)
  · cases front with
    | nil => cases (List.cons.inj tail).1
    | cons m front =>
      obtain ⟨rfl, rfl⟩ := List.cons.inj tail
      refine ⟨newer, u, d, n, front, rfl, method, b, ?_⟩
      rcases List.mem_append.mp listened with listened | listened
      · exact listened
      · rcases List.mem_cons.mp listened with same | listened
        · cases same
        · exact absurd listened (new _ b)

/-- **A refresh that succeeds was answered.** Its notification was handed to a connection, and a
completion was taken since it began to listen; which of the two came first is left open. -/
theorem answered_of_refresh {options : Options} {past later : List Move} {s₀ first s s' : System}
    {t : TaskId} {cancelled : Bool} (run : Run options past s₀)
    (called : Moves s₀ (.did t (.begin (.refresh cancelled)) .nothing) first)
    (onward : Ensues first later s)
    (returned : Moves s (.did t (.finish (.sent (.ok ()))) .nothing) s') (on : t ∉ s.cancelled) :
    HandedOver t later ∧ Answered first t later := by
  have upTo := onward.run (run.next called)
  have known := refresh_of_begin run called onward
  obtain ⟨r, outcome, same⟩ :=
    Refreshing.returns returned fun task hmem => (known task hmem).2.stage
  obtain ⟨alive, late⟩ : s.alive = true ∧ ListensLate first t later := by
    cases returned with
    | act found =>
      obtain ⟨caller, refresh⟩ := known _ (Pool.mem_of_get? found)
      have there := Pool.hasCaller_iff.mpr ⟨_, Pool.mem_of_get? found, caller⟩
      exact ⟨by simp only [System.alive, there, Bool.or_true], refresh.late⟩
  cases r with
  | error => cases same
  | ok =>
    refine ⟨outcome.1, ?_⟩
    have completed := (upTo.completed t).mp (outcome.2.resolve_right on)
    obtain ⟨newer, u, c, n, older, rfl, method, a, listened⟩ :=
      (upTo.traced.told t completed).since run called
    -- The history up to the notification, cut where the call begins to listen and was idle before.
    obtain ⟨front, back, rfl⟩ := List.append_of_mem listened
    obtain ⟨_, middle, before, mid, rfl, reached, idle, -⟩ :=
      late (newer ++ .did u (.receive c) (.received (some n)) :: front) back a (by simp)
    have cut : front ++ .did t .refreshListen a :: (middle ++ before) =
        (front ++ .did t .refreshListen a :: middle) ++ before := by simp
    rw [cut] at onward ⊢
    obtain ⟨_, taken, rest⟩ := onward.split
    cases taken with
    | @next now _ _ _ whole step =>
      obtain ⟨mid', reached', since⟩ := whole.split
      obtain rfl := reached'.unique reached
      have existed := step.alive (rest.alive alive)
      refine ⟨newer, u, c, n, _, before, mid', rfl, method, ⟨a, ?_⟩, reached, idle, ?_⟩
      · exact List.mem_append_right _ List.mem_cons_self
      · cases step with
        | @act _ _ task _ _ _ found next taken =>
          have hears : .receive c ∈ task.stack := next ▸ List.mem_cons_self
          rcases since.hearing (reached.run (run.next called)) idle existed _
            (Pool.mem_of_get? found) c hears with supplied | ⟨was, there, heard, aborted, doomed⟩
          · exact .inl supplied
          · obtain ⟨_, _, _, free, -⟩ := step_exec found next taken
            refine .inr ⟨was, there, heard, aborted, Bool.eq_false_iff.mpr fun parked => ?_⟩
            rw [doomed parked] at free
            cases free

/-- A worker says that a refresh is complete before anybody asks it, and the refresh succeeds. -/
theorem answered_of_early_notification : ∃ s₀ past first later newer mid s s',
    Run .standard past s₀ ∧ Moves s₀ (.did 2 (.begin (.refresh false)) .nothing) first ∧
    Ensues first later mid ∧ Unasked 2 later ∧ Completed 2 later ∧
    Ensues first (newer ++ later) s ∧ Moves s (.did 2 (.finish (.sent (.ok ()))) .nothing) s' ∧
    2 ∉ s.cancelled ∧ HandedOver 2 (newer ++ later) ∧ Answered first 2 (newer ++ later) := by
  have wanted := Run.start.next (.ask (.initial .standard) (.setPath ⟨[47]⟩))
  have acted := wanted.next (.act (t := 0) (a := .nothing) rfl rfl rfl)
  have set := acted.next (.act (t := 0) (a := .nothing) rfl rfl rfl)
  have asked := set.next (.ask _ (.call "f" (.refresh false)))
  have joined := asked.next (.act (t := 1) (a := .nothing) rfl rfl rfl)
  have called := joined.act (t := 2) (a := .nothing) rfl rfl rfl
  have begun := joined.next called
  have opened := begun.here.next (.act (t := 2) (a := .nothing) rfl rfl rfl)
  have first := opened.next (.act (t := 2) (a := .nothing) rfl rfl rfl)
  have second := first.next (.act (t := 2) (a := .nothing) rfl rfl rfl)
  have halted := second.next (.act (t := 2) (a := .nothing) rfl rfl rfl)
  have listening := halted.next (.act (t := 2) (a := .nothing) rfl rfl rfl)
  have started := listening.next (.act (t := 2) (a := .nothing) rfl rfl rfl)
  have performed := started.next (.act (t := 2) (a := .nothing) rfl rfl rfl)
  have launched := performed.next (.act (t := 3) (a := .launched (.ok ⟨7, some 9⟩)) rfl rfl rfl)
  have running := launched.next (.act (t := 3) (a := .nothing) rfl rfl rfl)
  have early := running.next
    (.act (t := 5) (a := .received (some ⟨Message.refresh, none⟩)) rfl rfl rfl)
  have complete := early.next (.act (t := 5) (a := .nothing) rfl rfl rfl)
  have run := complete.run begun
  have third := run.here.next (.act (t := 2) (a := .nothing) rfl rfl rfl)
  have looked := third.next (.act (t := 2) (a := .nothing) rfl rfl rfl)
  have taken := looked.next (.act (t := 2) (a := .nothing) rfl rfl rfl)
  have used := taken.next (.act (t := 2) (a := .nothing) rfl rfl rfl)
  have told := used.next (.act (t := 2) (a := .sent (.ok ())) rfl rfl rfl)
  have freed := told.next (.act (t := 2) (a := .nothing) rfl rfl rfl)
  have dropped := freed.next (.act (t := 2) (a := .nothing) rfl rfl rfl)
  have ended := dropped.next (.act (t := 2) (a := .nothing) rfl rfl rfl)
  have returned := (ended.run run).act (t := 2) (a := .nothing) rfl rfl rfl
  exact ⟨_, _, _, _, _, _, _, _, joined, called, complete, .of_all rfl,
    ⟨_, List.mem_cons_self, rfl⟩, complete.append ended, returned, List.not_mem_nil,
    answered_of_refresh joined called (complete.append ended) returned List.not_mem_nil⟩

end Supervision.Worker
