import Supervision.Proofs.Worker.Dispatch

/-!
# When listeners hear nothing more of a worker

Once the machine does not run with a connection any more, the task that takes its notifications was
given up. That alone silences nobody who is in its turn: whoever was given up goes on until it comes
to wait, and it comes to wait only when no notification is there to be taken. So a task that rests
when the machine leaves its connection calls nobody any more. One that is in its turn then, because
a listener that it calls stops the worker, passes on what is left of the notification in hand, and
after that whatever was queued; its turn is its last.

The law (`Silenced`) keeps account of that. It is not established that a turn ends.
-/

namespace Supervision.Worker

/-! ## Who was given up -/

/-- A task was given up, if it is there at all. -/
def System.GaveUp (s : System) (t : TaskId) : Prop :=
  ∀ task, (t, task) ∈ s.pool.tasks → task.aborted = true

/-- A task was given up and rests, if it is there at all. -/
def System.Silences (s : System) (t : TaskId) : Prop :=
  ∀ task, (t, task) ∈ s.pool.tasks → (task.parked && task.aborted) = true

/-- Where a task was before a move that is not new. -/
theorem Moves.stays {past : List Move} {s s' : System} {m : Move} (step : Moves s m s')
    (sound : Sound past s) {t : TaskId} (old : t < s.pool.next) {task' : Task Instr}
    (there : (t, task') ∈ s'.pool.tasks) :
    ∃ task, (t, task) ∈ s.pool.tasks ∧ Stays s s' t task task' := by
  cases step.arises sound.numbered sound.attached _ there with
  | kept mem _ stays => exact ⟨_, mem, stays⟩
  | went _ found _ _ _ stays => exact ⟨_, Pool.mem_of_get? found, stays⟩
  | opened new => exact absurd old (Nat.not_lt.mpr new)

/-- Whoever was given up stays so. -/
theorem Ensues.gaveUp {options : Options} {past later : List Move} {s s' : System} {t : TaskId}
    (h : Ensues s later s') (run : Run options past s) (old : t < s.pool.next)
    (gaveUp : s.GaveUp t) : s'.GaveUp t := by
  induction h with
  | here => exact gaveUp
  | next before step ih =>
    have reached := before.run run
    have le := (before.numbered (Sound.of_run run).numbered).2
    intro task' there
    obtain ⟨task, mem, stays⟩ := step.stays (Sound.of_run reached) (Nat.lt_of_lt_of_le old le) there
    exact stays.aborted (ih task mem)

/-- Whoever was given up and rests does nothing any more. -/
theorem Ensues.silences {options : Options} {past later : List Move} {s s' : System} {t : TaskId}
    (h : Ensues s later s') (run : Run options past s) (old : t < s.pool.next)
    (silences : s.Silences t) : s'.Silences t ∧ deeds t later = [] := by
  induction h with
  | here => exact ⟨silences, rfl⟩
  | @next mid s' later m before step ih =>
    have reached := before.run run
    have le := (before.numbered (Sound.of_run run).numbered).2
    obtain ⟨still, none⟩ := ih
    refine ⟨?_, ?_⟩
    · intro task' there
      obtain ⟨task, mem, stays⟩ :=
        step.stays (Sound.of_run reached) (Nat.lt_of_lt_of_le old le) there
      exact stays.doomed (still task mem)
    · have other : ∀ i a, m ≠ .did t i a := by
        rintro i a rfl
        cases step with
        | act found next taken =>
          obtain ⟨_, _, _, free, -⟩ := step_exec found next taken
          rw [still _ (Pool.mem_of_get? found)] at free
          cases free
      rw [deeds_cons, deed?_of_other other, none]
      rfl

/-- Whoever has nothing to do does nothing any more. -/
theorem Ensues.finished {options : Options} {past later : List Move} {s s' : System} {t : TaskId}
    (h : Ensues s later s') (run : Run options past s) (old : t < s.pool.next)
    (nothing : s.pool.stack t = []) : deeds t later = [] := by
  refine (h.turns (P := fun later _ stack => deeds t later = [] ∧ stack = [])
    (Sound.of_run run).numbered old ⟨rfl, nothing⟩ ?_ ?_ ?_).1
  · intro later s m s' stack _ _ other still
    rw [deeds_cons, deed?_of_other other, still.1]
    exact ⟨rfl, still.2⟩
  · intro later s i a s' caller r rest before _ _ _ still
    cases still.2
  · intro later s s' i rest _ _ _ still
    cases still.2

/-- Whoever was given up is gone when it comes to wait. -/
theorem Moves.silences_of_park {s s' : System} {t : TaskId} (step : Moves s (.parked t) s')
    (gaveUp : s.GaveUp t) : s'.Silences t := by
  cases step with
  | @park _ task _ _ found =>
    have gone : ∀ other, (t, other) ∉ (s.pool.park t).tasks := by
      intro other there
      unfold Pool.park at there
      simp only [found, gaveUp task (Pool.mem_of_get? found), if_true] at there
      have ne := (List.mem_filter.mp there).2
      simp at ne
    intro other there
    rcases ({ s with pool := s.pool.park t } : System).release_cases with same | ⟨-, detached⟩
    · rw [System.park, same] at there
      exact absurd there (gone other)
    · rw [System.park, detached] at there
      obtain ⟨was, mem, -⟩ := Pool.mem_foldl_abort.mp there
      exact absurd mem (gone was)

/-! ## What whoever takes notifications still has to do -/

/-- Whoever takes the notifications of a connection goes on to, or is over. -/
theorem Run.takenBy_stack {options : Options} {past : List Move} {s : System}
    (run : Run options past s) {t : TaskId} {c : ConnectionId} (h : TakenBy past s t c) :
    s.pool.stack t = [] ∨ .receive c ∈ s.pool.stack t := by
  rcases h with hears | ⟨a, did⟩
  · exact .inr hears
  · induction run with
    | start => cases did
    | @next past s s' m run step ih =>
      have sound := Sound.of_run run
      have earlier (other : ∀ i a, m ≠ .did t i a) : Move.did t (.receive c) a ∈ past :=
        (List.mem_cons.mp did).resolve_left fun same => other _ _ same.symm
      cases step.turns sound.numbered t with
      | same other stack =>
        rw [stack]
        exact ih (earlier other)
      | begun other new =>
        exact absurd (run.fresh.1 t _ a (earlier other)) (Nat.not_lt.mpr new)
      | dropped move next waits stack => exact .inl stack
      | @went i rest before b caller r move next exec stack =>
        subst move
        have order := run.order t
        rw [next] at order
        -- Taking notifications is the last thing to do.
        have last (takes : i = .receive c) :
            s'.pool.stack t = [] ∨ .receive c ∈ s'.pool.stack t := by
          subst takes
          cases rest with
          | cons j rest =>
            exact absurd rfl (((List.pairwise_cons.mp order).1 j List.mem_cons_self).last c)
          | nil =>
            rw [stack, List.append_nil]
            cases b with
            | received n =>
              cases n with
              | none =>
                cases exec
                exact .inl rfl
              | some n =>
                cases exec
                exact .inr (List.mem_append_right _ List.mem_cons_self)
            | _ => cases exec
        rcases List.mem_cons.mp did with same | did
        · exact last (Move.did.inj same).2.1.symm
        · rcases ih did with nothing | hears
          · rw [next] at nothing
            cases nothing
          · rw [next] at hears
            rcases List.mem_cons.mp hears with takes | hears
            · exact last takes.symm
            · rw [stack]
              exact .inr (List.mem_append_right _ hears)

/-- Whoever takes the notifications of a connection with which the machine does not run was given
up. -/
theorem Run.gaveUp {options : Options} {past : List Move} {s : System} (run : Run options past s)
    (alive : s.alive = true) {t : TaskId} {c : ConnectionId} (left : ¬ s.machine.RunsWith c)
    (hears : .receive c ∈ s.pool.stack t) : s.GaveUp t := by
  intro task there
  cases found : s.pool.get? t with
  | none =>
    rw [Pool.stack, found] at hears
    cases hears
  | some task₀ =>
    have same := (Sound.of_run run).numbered.unique there (Pool.mem_of_get? found)
    rw [Pool.stack_of_get? found, ← same] at hears
    exact (run.hearing alive _ there c hears).resolve_right fun listens => left listens.2

theorem Ensues.cameUp {options : Options} {past later : List Move} {s s' : System}
    {c : ConnectionId} (h : Ensues s later s') (run : Run options past s) (came : CameUp past s c) :
    CameUp (later ++ past) s' c := by
  induction h with
  | here => exact came
  | next before step ih => exact ih.next (Sound.of_run (before.run run)) step

/-- Nobody begins to take from a connection that came up before, if every launch brings another
one. -/
theorem Ensues.takenBy {options : Options} {past later : List Move} {s s' : System}
    {c : ConnectionId} (h : Ensues s later s') (run : Run options past s) (alive : s'.alive = true)
    (distinct : Distinct (later ++ past)) (came : CameUp past s c) {u : TaskId}
    (taken : TakenBy (later ++ past) s' u c) : TakenBy past s u c := by
  induction h with
  | here => exact taken
  | next before step ih =>
    have reached := before.run run
    have existed := step.alive alive
    rcases reached.takenBy_of_move step taken with earlier | begins
    · exact ih existed distinct.tail earlier
    · exact absurd (before.cameUp run came)
        (reached.new_of_begins existed distinct.tail step begins)

/-! ## What is left in hand -/

/-- What a task has left to pass on, the last first. -/
def System.inHand (s : System) (t : TaskId) : List (Callback × Json) :=
  ((s.pool.stack t).filterMap Instr.pass?).reverse

/-- Whom a task has left to call. -/
def System.toCall (s : System) (t : TaskId) : List (Listener × Json) :=
  ((s.pool.stack t).filterMap Instr.call?).reverse

/-- What was taken before the last notification was passed on before that was. -/
theorem Run.passes_older {options : Options} {past : List Move} {s : System}
    (run : Run options past s) {t : TaskId} {k : Taking} {older : List Taking}
    (taken : takings options t past = k :: older) :
    ∃ done, passes t past = done ++ older.flatMap Taking.passed := by
  induction run generalizing k older with
  | start => cases taken
  | @next past s s' m run step ih =>
    have grown : ∃ more, passes t (m :: past) = more ++ passes t past := by
      rw [passes, deeds_cons, List.filterMap_append]
      exact ⟨_, rfl⟩
    obtain ⟨more, grown⟩ := grown
    rw [takings] at taken
    cases takes : m.takes? t with
    | none =>
      rw [takes] at taken
      obtain ⟨done, passed⟩ := ih taken
      exact ⟨more ++ done, by rw [grown, passed, List.append_assoc]⟩
    | some n =>
      rw [takes] at taken
      obtain ⟨-, rfl⟩ := List.cons.inj taken
      -- Nothing is left in hand when the next notification is taken.
      refine ⟨more, ?_⟩
      show passes t (m :: past) = more ++ (takings options t past).flatMap Taking.passed
      rw [grown, ← (run.settles t).passed]
      have nothing : (s.pool.stack t).filterMap Instr.pass? = [] := by
        unfold Move.takes? at takes
        split at takes
        next u c n' =>
          split at takes
          next same =>
            subst same
            cases step with
            | act found next =>
              have due := run.settled found (.inr ⟨_, _, next⟩)
              exact (nothing_of_due due).1
          next => cases takes
        next => cases takes
      rw [nothing]
      rfl

/-- What is left in hand is left of the last notification that was taken. -/
theorem Run.inHand {options : Options} {past : List Move} {s : System} (run : Run options past s)
    (t : TaskId) : s.inHand t = [] ∨
      ∃ k older done, takings options t past = k :: older ∧ s.inHand t ++ done = k.passed := by
  have settled := (run.settles t).passed
  cases taken : takings options t past with
  | nil =>
    rw [taken] at settled
    exact .inl (List.append_eq_nil_iff.mp settled).1
  | cons k older =>
    obtain ⟨done, passed⟩ := run.passes_older taken
    refine .inr ⟨k, older, done, rfl, ?_⟩
    rw [taken, passed, ← List.append_assoc, List.flatMap_cons] at settled
    exact List.append_cancel_right settled

/-- What was taken with some moves comes before what was taken earlier. -/
theorem takings_append (options : Options) (t : TaskId) (later past : List Move) :
    ∃ fresh, takings options t (later ++ past) = fresh ++ takings options t past ∧
      fresh.map (fun k => (k.connection, k.notification)) = later.filterMap (Move.takes? t) := by
  induction later with
  | nil => exact ⟨[], rfl, rfl⟩
  | cons m later ih =>
    obtain ⟨fresh, taken, same⟩ := ih
    cases takes : m.takes? t with
    | none =>
      refine ⟨fresh, ?_, ?_⟩
      · rw [List.cons_append, takings, takes, taken]
        rfl
      · rw [List.filterMap_cons_none takes, same]
    | some n =>
      refine ⟨⟨n.1, n.2, registered options (later ++ past) n.2.method⟩ :: fresh, ?_, ?_⟩
      · rw [List.cons_append, takings, takes, taken]
        rfl
      · rw [List.filterMap_cons_some takes, ← same]
        rfl

/-! ## The law -/

/-- What a task does with the moves `later` that follow the system `s`, when the machine does not
run any more with the connection it takes from. -/
structure Account (options : Options) (past : List Move) (s : System) (later : List Move)
    (s' : System) (t : TaskId) : Prop where
  /-- What it had in hand is left of one notification, the last that it took. -/
  hand : s.inHand t = [] ∨
    ∃ k older done, takings options t past = k :: older ∧ s.inHand t ++ done = k.passed
  /-- It passes on, or has to, what it had in hand, and then what it takes. -/
  passed : ∃ fresh, takings options t (later ++ past) = fresh ++ takings options t past ∧
    fresh.map (fun k => (k.connection, k.notification)) = later.filterMap (Move.takes? t) ∧
    s'.inHand t ++ passes t later = fresh.flatMap Taking.passed ++ s.inHand t
  /-- It calls whoever hears that, and nobody else. -/
  called : s'.toCall t ++ calls t later = (passes t later).filterMap Callback.hears? ++ s.toCall t

/-- What becomes of the tasks that take the notifications of a connection with which the machine
does not run any more. -/
structure Silenced (options : Options) (c : ConnectionId) (past : List Move) (s : System)
    (later : List Move) (s' : System) : Prop where
  /-- They were given up. -/
  gaveUp : ∀ t, TakenBy past s t c → .receive c ∈ s.pool.stack t → s.GaveUp t
  /-- One that rests does nothing any more, so that it calls no listener. -/
  resting : ∀ t, TakenBy past s t c → (∀ task, (t, task) ∈ s.pool.tasks → task.parked = true) →
    deeds t later = []
  /-- One that is in its turn does nothing after it. -/
  lastTurn : ∀ t, TakenBy past s t c → ∀ newer older, later = newer ++ .parked t :: older →
    deeds t newer = []
  /-- In its turn it passes on what it has in hand. -/
  account : ∀ t, TakenBy past s t c → Account options past s later s' t
  /-- If it takes nothing more then that is all it passes on. -/
  finishes : ∀ t, TakenBy past s t c → later.filterMap (Move.takes? t) = [] →
    s'.inHand t ++ passes t later = s.inHand t
  /-- Nobody else takes the notifications of the connection. -/
  sole : s'.alive = true → Distinct (later ++ past) → ∀ t u, TakenBy past s t c →
    TakenBy (later ++ past) s' u c → u = t

theorem Run.account {options : Options} {past later : List Move} {s s' : System}
    (run : Run options past s) (onward : Ensues s later s') (t : TaskId) :
    Account options past s later s' t := by
  have before := run.settles t
  have after := (onward.run run).settles t
  obtain ⟨fresh, taken, same⟩ := takings_append options t later past
  have passes_eq : passes t (later ++ past) = passes t later ++ passes t past := by
    simp only [passes, deeds, List.filterMap_append]
  have calls_eq : calls t (later ++ past) = calls t later ++ calls t past := by
    simp only [calls, deeds, List.filterMap_append]
  refine ⟨run.inHand t, ⟨fresh, taken, same, ?_⟩, ?_⟩
  · have passed := after.passed
    rw [passes_eq, taken, List.flatMap_append, ← before.passed, ← List.append_assoc,
      ← List.append_assoc] at passed
    exact List.append_cancel_right passed
  · have called := after.called
    rw [calls_eq, passes_eq, List.filterMap_append, ← before.called, ← List.append_assoc,
      ← List.append_assoc] at called
    exact List.append_cancel_right called

theorem Account.finishes {options : Options} {past later : List Move} {s s' : System} {t : TaskId}
    (h : Account options past s later s' t) (none : later.filterMap (Move.takes? t) = []) :
    s'.inHand t ++ passes t later = s.inHand t := by
  obtain ⟨fresh, -, same, passed⟩ := h.passed
  rw [none, List.map_eq_nil_iff] at same
  rw [passed, same]
  rfl

/-- **Whom a stopped worker still reaches.** From a moment in which the machine does not run with a
connection, whatever happens afterwards and whoever stopped the worker. -/
theorem silenced_of_run {options : Options} {past later : List Move} {s s' : System}
    {c : ConnectionId} (run : Run options past s) (alive : s.alive = true)
    (left : ¬ s.machine.RunsWith c) (onward : Ensues s later s') :
    Silenced options c past s later s' where
  gaveUp t _ hears := run.gaveUp alive left hears
  resting t taken rests := by
    have old := run.made_of_takenBy taken
    rcases run.takenBy_stack taken with nothing | hears
    · exact onward.finished run old nothing
    · refine (onward.silences run old fun task there => ?_).2
      rw [rests task there, run.gaveUp alive left hears task there]
      rfl
  lastTurn t taken newer older split := by
    subst split
    have old := run.made_of_takenBy taken
    rcases run.takenBy_stack taken with nothing | hears
    · have none := onward.finished run old nothing
      rw [deeds, List.filterMap_append] at none
      exact (List.append_eq_nil_iff.mp none).1
    · obtain ⟨mid, reached, rest⟩ := onward.split
      cases reached with
      | @next now _ _ _ before park =>
        have gaveUp := before.gaveUp run old (run.gaveUp alive left hears)
        have upTo := (before.run run).next park
        have numbered := (Sound.of_run run).numbered
        have le := ((before.next park).numbered numbered).2
        exact (rest.silences upTo (Nat.lt_of_lt_of_le old le) (park.silences_of_park gaveUp)).2
  account t _ := run.account onward t
  finishes t _ none := (run.account onward t).finishes none
  sole alive' distinct t u taken taken' := by
    have came := run.heard alive taken.taken
    have earlier := onward.takenBy run alive' distinct came taken'
    exact run.taker alive (distinct.of_append later) earlier taken

/-- A listener that is called stops the worker, and is called again with a notification that was
queued. -/
theorem silenced_of_stop_from_within : ∃ past s later s', Run .standard past s ∧ s.alive = true ∧
    ¬ s.machine.RunsWith 7 ∧ Ensues s later s' ∧ TakenBy past s 4 7 ∧ s.inHand 4 = [] ∧
    s.toCall 4 = [] ∧ calls 4 past = [(⟨"a", 1⟩, .int 1)] ∧ calls 4 later = [(⟨"a", 1⟩, .int 2)] ∧
    Silenced .standard 7 past s later s' := by
  have any := Run.start.next (.ask (.initial .standard) (.listen ⟨"a", 1⟩ (.any "n")))
  have first := any.next (.act (t := 0) (a := .nothing) rfl rfl rfl)
  have asked := first.next (.ask _ (.start (some ⟨[47]⟩)))
  have acted := asked.next (.act (t := 1) (a := .nothing) rfl rfl rfl)
  have handled := acted.next (.act (t := 1) (a := .nothing) rfl rfl rfl)
  have performed := handled.next (.act (t := 1) (a := .nothing) rfl rfl rfl)
  have launched := performed.next (.act (t := 2) (a := .launched (.ok ⟨7, none⟩)) rfl rfl rfl)
  have running := launched.next (.act (t := 2) (a := .nothing) rfl rfl rfl)
  have taken := running.next
    (.act (t := 4) (a := .received (some ⟨"n", some (.int 1)⟩)) rfl rfl rfl)
  have passed := taken.next (.act (t := 4) (a := .nothing) rfl rfl rfl)
  have called := passed.next (.act (t := 4) (a := .actions [.stop]) rfl rfl rfl)
  have wanted := called.next (.act (t := 4) (a := .nothing) rfl rfl rfl)
  have stopped := wanted.next (.act (t := 4) (a := .nothing) rfl rfl rfl)
  have left : ∀ m : Machine, m.state = .stopping → ¬ m.RunsWith 7 := fun m stopping runs =>
    State.noConfusion (stopping.symm.trans runs.1)
  have ending := stopped.here.next (.act (t := 4) (a := .nothing) rfl rfl rfl)
  have taken' := ending.next
    (.act (t := 4) (a := .received (some ⟨"n", some (.int 2)⟩)) rfl rfl rfl)
  have passed' := taken'.next (.act (t := 4) (a := .nothing) rfl rfl rfl)
  have called' := passed'.next (.act (t := 4) (a := .actions []) rfl rfl rfl)
  exact ⟨_, _, _, _, stopped, rfl, left _ rfl, called', .inl (List.mem_of_getElem? (i := 1) rfl),
    rfl, rfl, rfl, rfl, silenced_of_run stopped rfl (left _ rfl) called'⟩

end Supervision.Worker
