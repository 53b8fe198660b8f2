import Supervision.Proofs.Worker.Barrier
import Supervision.Proofs.Worker.Flow
import Supervision.Proofs.Worker.Teardown
import Supervision.Proofs.Worker.Workspace

/-!
# What a worker is told of the workspace

A workspace that is set while a worker runs is told by a task of its own, so that two of them may
reach the worker in any order. The law here says what holds whatever the order is. What shall be
told is decided in one place and in order, and the last of it is the workspace that the machine
records (`Run.latest`); on the way to the connection nothing is lost and nothing is added
(`Run.ledger`). So a connection knows the workspace when it was told in order, or when the last
change was made while nothing else was on its way.

That the changes reach the worker in order is not established: two that are on the way at once may
overtake each other, and a caller may send changes of its own (`Stale`). A launch is taken to deliver
a connection that no other launch delivers (`Distinct`).
-/

namespace Supervision.Worker

/-! ## The events of a run -/

/-- The event that an instruction applies. -/
def Instr.event? : Instr → Option Event
  | .handle e => some e
  | .halt => some .stop
  | _ => none

def Move.event? : Move → Option Event
  | .did _ i _ => i.event?
  | _ => none

/-- The events that were applied, the latest first. -/
def events (past : List Move) : List Event :=
  past.filterMap Move.event?

/-- True of instructions that carry out an effect. -/
def Instr.performs : Instr → Bool
  | .perform _ => true
  | _ => false

/-- What an instruction does that applies an event: it leaves the effects, and perhaps to wait. -/
theorem exec_applies {s r : System} {t : TaskId} {caller : String} {i : Instr} {a : Answer}
    {before : List Instr} {e : Event} (h : s.exec t caller i a = some (r, before))
    (alive : s.alive = true) (applies : i.event? = some e) :
    r.machine = (s.machine.transition e).machine ∧
      ∃ after, before = (s.machine.transition e).effects.map .perform ++ after ∧
        (after = [] ∨ ∃ seen, after = [.awaitIdle seen]) := by
  cases i with
  | handle =>
    cases applies
    cases a with
    | nothing =>
      simp only [System.exec, alive, if_true] at h
      cases h
      exact ⟨s.machine_apply e, [], (List.append_nil _).symm, .inl rfl⟩
    | _ => cases h
  | halt =>
    cases applies
    cases a with
    | nothing =>
      by_cases idle : s.machine.state = .idle
      · have same : s.machine.transition .stop = s.machine.unchanged := by
          simp only [Machine.transition, idle]
        simp only [System.exec, if_pos idle] at h
        cases h
        rw [same]
        exact ⟨rfl, [], rfl, .inl rfl⟩
      · simp only [System.exec, if_neg idle] at h
        cases h
        exact ⟨s.machine_apply .stop, [_], rfl, .inr ⟨_, rfl⟩⟩
    | _ => cases h
  | _ => cases applies

/-- Only who applies an event leaves effects. -/
theorem event?_of_leads {i : Instr} {f : Effect} (leads : i.leads (.perform f) = true) :
    ∃ e, i.event? = some e := by
  cases i with
  | handle e => exact ⟨e, rfl⟩
  | halt => exact ⟨.stop, rfl⟩
  | _ => cases leads

/-- An instruction that applies no event leaves the machine as it is, and no effects. -/
theorem exec_rests {s r : System} {t : TaskId} {caller : String} {i : Instr} {a : Answer}
    {before : List Instr} (h : s.exec t caller i a = some (r, before)) (other : i.event? = none) :
    r.machine = s.machine ∧ ∀ j ∈ before, j.performs = false := by
  refine ⟨?_, fun j hj => ?_⟩
  · cases exec_cases h with
    | aside _ _ _ alike => exact alike.machine
    | called _ _ machine => exact machine
    | handled => cases other
    | halted => cases other
    | _ => rfl
  · have leads := exec_leads h j hj
    cases j with
    | perform f =>
      obtain ⟨e, applies⟩ := event?_of_leads leads
      rw [applies] at other
      cases other
    | _ => rfl

/-- What a move does to the machine: it applies its event. -/
theorem Moves.applies {s s' : System} {m : Move} (step : Moves s m s') (alive : s.alive = true) :
    (m.event? = none ∧ s'.machine = s.machine) ∨
      ∃ e, m.event? = some e ∧ s'.machine = (s.machine.transition e).machine := by
  cases step with
  | @act _ t _ i rest a found next taken =>
    obtain ⟨r, before, hexec, -, result⟩ := step_exec found next taken
    have same : s'.machine = r.machine := by
      rcases result with rfl | rfl
      · rfl
      · exact System.machine_release _
    cases applies : i.event? with
    | none => exact .inl ⟨applies, same.trans (exec_rests hexec applies).1⟩
    | some e => exact .inr ⟨e, applies, same.trans (exec_applies hexec alive applies).1⟩
  | park => exact .inl ⟨rfl, System.machine_release _⟩
  | drop => exact .inl ⟨rfl, System.machine_release _⟩
  | _ => exact .inl ⟨rfl, rfl⟩

theorem events_none {m : Move} (past : List Move) (none : m.event? = none) :
    events (m :: past) = events past :=
  List.filterMap_cons_none none

theorem events_some {m : Move} {e : Event} (past : List Move) (some : m.event? = some e) :
    events (m :: past) = e :: events past :=
  List.filterMap_cons_some some

/-- **The machine of a run is the machine after its events.** -/
theorem Run.machine {options : Options} {past : List Move} {s : System} (run : Run options past s)
    (alive : s.alive = true) : s.machine = Machine.after (events past) := by
  induction run with
  | start => rfl
  | @next past s s' m _ step ih =>
    have existed := step.alive alive
    rcases step.applies existed with ⟨none, machine⟩ | ⟨e, some, machine⟩
    · rw [events_none past none, machine, ih existed]
    · rw [events_some past some, machine, ih existed]
      rfl

/-- What an event begins, in terms of the events before it. -/
theorem Run.effects {options : Options} {past : List Move} {s : System} (run : Run options past s)
    (alive : s.alive = true) (e : Event) :
    (s.machine.transition e).effects = effectsOf e (events past) := by
  rw [run.machine alive]
  rfl

/-! ## Effects come first -/

/-- Where effects are to be carried out, nothing else comes before. -/
def PerformsFirst (l : List Instr) : Prop :=
  l.Pairwise fun i j => j.performs = true → i.performs = true

theorem performsFirst_of_none {l : List Instr} (h : ∀ j ∈ l, j.performs = false) :
    PerformsFirst l :=
  List.pairwise_of_forall_mem_list fun _ _ j hj performs => by
    rw [h j hj] at performs
    cases performs

theorem performsFirst_map (effects : List Effect) {after : List Instr}
    (h : ∀ j ∈ after, j.performs = false) : PerformsFirst (effects.map .perform ++ after) := by
  refine List.pairwise_append.mpr ⟨?_, performsFirst_of_none h, fun i hi _ _ _ => ?_⟩
  · refine List.pairwise_of_forall_mem_list fun i hi _ _ _ => ?_
    obtain ⟨f, -, rfl⟩ := List.mem_map.mp hi
    rfl
  · obtain ⟨f, -, rfl⟩ := List.mem_map.mp hi
    rfl

/-- What an instruction leaves has its effects first. -/
theorem exec_performsFirst {s r : System} {t : TaskId} {caller : String} {i : Instr} {a : Answer}
    {before : List Instr} (h : s.exec t caller i a = some (r, before)) : PerformsFirst before := by
  cases applies : i.event? with
  | none => exact performsFirst_of_none (exec_rests h applies).2
  | some e =>
    cases i with
    | handle =>
      have performs : ∀ j ∈ before, j.performs = true := fun j hj => by
        have leads := exec_leads h j hj
        cases j with
        | perform => rfl
        | _ => cases leads
      exact List.pairwise_of_forall_mem_list fun j hj _ _ _ => performs j hj
    | halt =>
      cases a with
      | nothing =>
        simp only [System.exec] at h
        split at h <;> cases h
        · exact List.Pairwise.nil
        · refine performsFirst_map _ fun j hj => ?_
          rw [List.mem_singleton.mp hj]
          rfl
      | _ => cases h
    | _ => cases applies

/-- What comes in place of an instruction has its effects first, and what comes after it none. -/
theorem PerformsFirst.exec {s r : System} {t : TaskId} {caller : String} {i : Instr} {a : Answer}
    {rest before : List Instr} (h : PerformsFirst (i :: rest))
    (hexec : s.exec t caller i a = some (r, before)) : PerformsFirst (before ++ rest) := by
  obtain ⟨first, after⟩ := List.pairwise_cons.mp h
  refine List.pairwise_append.mpr ⟨exec_performsFirst hexec, after, fun b hb j hj performs => ?_⟩
  cases i with
  | perform =>
    rw [exec_perform hexec] at hb
    cases hb
  | _ => cases first j hj performs

/-! ## Who tells -/

/-- The params that tell a workspace. -/
def tidings (p : Path) : Option Json :=
  some (.str p.text)

/-- What the tasks of a supervisor keep while they tell workspaces. -/
structure Punctual (s : System) : Prop where
  first : ∀ e ∈ s.pool.tasks, PerformsFirst e.2.stack
  /-- A task that tells a workspace is not given up. -/
  own : ∀ e ∈ s.pool.tasks, ∀ c method params,
    Instr.tell c method params .workspace ∈ e.2.stack → ¬ Abortable s.attached e.1 e.2

theorem Run.punctual {options : Options} {past : List Move} {s : System}
    (run : Run options past s) : Punctual s := by
  induction run with
  | start => exact ⟨nofun, nofun⟩
  | @next past s s' m run step ih =>
    have sound := Sound.of_run run
    have arises := step.arises sound.numbered sound.attached
    refine ⟨fun e he => ?_, fun e he c method params tells => ?_⟩
    · cases arises e he with
      | kept mem stack => exact stack ▸ ih.first _ mem
      | went _ found next exec stack =>
        rw [stack]
        have first : PerformsFirst _ := ih.first _ (Pool.mem_of_get? found)
        rw [next] at first
        exact first.exec exec
      | opened _ stack => exact stack ▸ List.pairwise_singleton _ _
    · cases (arises e he).springs tells with
      | old mem here stays => exact fun given => ih.own _ mem _ _ _ here (stays.abortable given)
      | @left _ i _ _ _ _ exec here =>
        have leads := exec_leads exec _ here
        cases i <;> cases leads
      | opened _ opens own =>
        cases opens with
        | tell => exact own rfl

/-! ## What is on its way -/

/-- What a connection will be told with an instruction. -/
def Instr.news? (c : ConnectionId) : Instr → Option (Option Json)
  | .perform f => (f.tells? c).map tidings
  | .tell d method params .workspace =>
    if d = c ∧ method = Message.changeWorkspace then some params else none
  | _ => none

/-- What was to be told when a task came to the end of telling it, whether it was taken or not. -/
def Move.reported? (c : ConnectionId) : Move → Option (Option Json)
  | .did _ (.tell d method params .workspace) (.sent _) =>
    if d = c ∧ method = Message.changeWorkspace then some params else none
  | _ => none

/-- What a connection is told with a move, by whomever. -/
def Move.told? (c : ConnectionId) : Move → Option (Option Json)
  | .did _ (.tell d method params _) (.sent (.ok ())) =>
    if d = c ∧ method = Message.changeWorkspace then some params else none
  | _ => none

/-- What is on its way to a connection. -/
def System.onTheWay (s : System) (c : ConnectionId) : List (Option Json) :=
  s.pool.work (Instr.news? c)

/-- What a connection was told, the latest first. -/
def told (c : ConnectionId) (past : List Move) : List (Option Json) :=
  past.filterMap (Move.told? c)

/-- What an instruction begins is what it was to tell. -/
theorem filterMap_taskFor (c : ConnectionId) (f : Effect) :
    (System.taskFor f).filterMap (Instr.news? c) = ((Instr.perform f).news? c).toList := by
  cases f with
  | launch => rfl
  | teardown _ _ alive => cases alive <;> rfl
  | changeWorkspace d p =>
    by_cases same : d = c
    · simp [System.taskFor, Instr.news?, Effect.tells?, tidings, same]
    · simp [System.taskFor, Instr.news?, Effect.tells?, same]

/-- Effects are on their way until they are carried out. -/
theorem filterMap_news?_perform (c : ConnectionId) (effects : List Effect) :
    (effects.map Instr.perform).filterMap (Instr.news? c) =
      (effects.filterMap (Effect.tells? c)).map tidings := by
  rw [List.filterMap_map, List.map_filterMap]
  rfl

/-- An instruction that carries out no effect puts nothing on its way in other tasks. -/
theorem System.Regrouped.work_news {s r : System} {i : Instr} (h : Regrouped s r i)
    (other : i.performs = false) (c : ConnectionId) :
    r.pool.work (Instr.news? c) = s.onTheWay c := by
  cases h with
  | same pool => rw [pool]; rfl
  | called pool =>
    rw [pool, Pool.work_spawn]
    exact List.append_nil _
  | performed => cases other
  | attached _ pool =>
    rw [pool, Pool.work_spawn, Pool.work_spawn, List.append_assoc]
    exact List.append_nil _
  | detached pool =>
    rw [pool, Pool.work_foldl_abort]
    rfl

theorem System.onTheWay_release (s : System) (c : ConnectionId) :
    s.release.onTheWay c = s.onTheWay c :=
  s.release_elim rfl (Pool.work_foldl_abort _ _)

/-- A move that is no step of a task leaves everything on its way. -/
theorem Moves.onTheWay_of_other {s s' : System} {m : Move} (step : Moves s m s')
    (numbered : s.pool.Numbered) (punctual : Punctual s) (c : ConnectionId)
    (other : ¬ ∃ t i a, m = .did t i a) : s'.onTheWay c = s.onTheWay c := by
  cases step with
  | ask a =>
    refine (Pool.work_spawn _ _ _).trans ?_
    exact List.append_nil _
  | act => exact absurd ⟨_, _, _, rfl⟩ other
  | @park t task i rest found next waits =>
    rw [System.park, System.onTheWay_release]
    refine Pool.work_park numbered fun resting mem aborted => ?_
    obtain rfl := numbered.unique mem (Pool.mem_of_get? found)
    -- Where a task waits no effects are left, and one that tells is not given up.
    have first := punctual.first _ mem
    have own := punctual.own _ mem
    simp only [next] at first own
    refine List.filterMap_eq_nil_iff.mpr fun j hj => ?_
    rw [next] at hj
    cases j with
    | perform f =>
      rcases List.mem_cons.mp hj with rfl | hj
      · cases waits
      · have performs := (List.pairwise_cons.mp first).1 _ hj rfl
        cases i with
        | perform => cases waits
        | _ => cases performs
    | tell d method params receipt =>
      cases receipt with
      | workspace => exact absurd (.inr (.inl aborted)) (own _ _ _ hj)
      | _ => rfl
    | _ => rfl
  | cancel => rfl
  | abort => exact Pool.work_abort _ _
  | drop => exact System.onTheWay_release { s with handle := false } c

/-- **What a step does to what is on its way**: what its event issues is added, and what it reports
is over. -/
theorem Moves.onTheWay_of_step {s s' : System} {t : TaskId} {i : Instr} {a : Answer}
    (step : Moves s (.did t i a) s') (numbered : s.pool.Numbered) (alive : s.alive = true)
    (c : ConnectionId) : (s'.onTheWay c ++ ((Move.did t i a).reported? c).toList).Perm
      (s.onTheWay c ++ (i.event?.toList.flatMap fun e =>
        ((s.machine.transition e).effects.filterMap (Effect.tells? c)).map tidings)) := by
  cases step with
  | @act _ _ task _ rest _ found next taken =>
    obtain ⟨r, before, exec, -, result⟩ := step_exec found next taken
    have regrouped := (exec_cases exec).regrouped
    obtain ⟨aborted, there⟩ := regrouped.found numbered found
    have ledger := Pool.work_proceed (f := Instr.news? c) (regrouped.numbered numbered) there next
      before
    have same : s'.onTheWay c = (r.pool.proceed t (before ++ rest)).work (Instr.news? c) := by
      rcases result with rfl | rfl
      · rfl
      · exact System.onTheWay_release _ c
    rw [same]
    cases performs : i.performs with
    | true =>
      obtain ⟨f, rfl⟩ : ∃ f, i = .perform f := by
        cases i with
        | perform f => exact ⟨f, rfl⟩
        | _ => cases performs
      have none := exec_perform exec
      cases a with
      | nothing =>
        cases exec
        have begun : (s.spawn (System.taskFor f)).pool.work (Instr.news? c) =
            s.onTheWay c ++ ((Instr.perform f).news? c).toList := by
          rw [← filterMap_taskFor]
          exact Pool.work_spawn _ _ _
        rw [begun] at ledger
        have even := (List.perm_append_right_iff _).mp
          (ledger.trans (by rw [List.filterMap_nil, List.append_nil]))
        simpa [Move.reported?, Instr.event?] using even
      | _ => cases exec
    | false =>
      rw [regrouped.work_news performs] at ledger
      cases applies : i.event? with
      | none =>
        have quiet : before.filterMap (Instr.news? c) = [] := by
          refine List.filterMap_eq_nil_iff.mpr fun j hj => ?_
          have leads := exec_leads exec j hj
          have still := (exec_rests exec applies).2 j hj
          cases j with
          | perform => cases still
          | tell _ _ _ receipt =>
            cases receipt with
            | workspace => cases i <;> cases leads
            | _ => rfl
          | _ => rfl
        have reports : (Move.did t i a).reported? c = i.news? c := by
          cases i with
          | perform => cases performs
          | tell _ _ _ receipt =>
            cases receipt with
            | workspace => cases a <;> first | rfl | cases exec
            | _ => cases a <;> rfl
          | _ => cases a <;> rfl
        rw [reports]
        simpa [quiet] using ledger
      | some e =>
        obtain ⟨-, after, rfl, ends⟩ := exec_applies exec alive applies
        have quiet : after.filterMap (Instr.news? c) = [] := by
          rcases ends with rfl | ⟨seen, rfl⟩ <;> rfl
        have still : i.news? c = none ∧ (Move.did t i a).reported? c = none := by
          cases i with
          | handle => exact ⟨rfl, rfl⟩
          | halt => exact ⟨rfl, rfl⟩
          | _ => cases applies
        rw [List.filterMap_append, quiet, filterMap_news?_perform, still.1] at ledger
        rw [still.2]
        simpa using ledger

/-- **Nothing is lost on the way, and nothing is added.** What a connection shall be told is what was
reported of, and what is on its way. -/
theorem Run.ledger {options : Options} {past : List Move} {s : System} (run : Run options past s)
    (alive : s.alive = true) (c : ConnectionId) :
    ((issued c (events past)).map tidings).Perm
      (past.filterMap (Move.reported? c) ++ s.onTheWay c) := by
  induction run with
  | start => exact .refl _
  | @next past s s' m run step ih =>
    have existed := step.alive alive
    have even := ih existed
    have numbered := (Sound.of_run run).numbered
    rw [filterMap_cons_toList]
    by_cases did : ∃ t i a, m = .did t i a
    · obtain ⟨t, i, a, rfl⟩ := did
      have moved := step.onTheWay_of_step numbered existed c
      have issues : (issued c (events (.did t i a :: past))).map tidings =
          (i.event?.toList.flatMap fun e =>
            ((s.machine.transition e).effects.filterMap (Effect.tells? c)).map tidings) ++
              (issued c (events past)).map tidings := by
        cases applies : i.event? with
        | none => rw [events_none (m := .did t i a) past applies]; rfl
        | some e =>
          rw [events_some (m := .did t i a) past applies, issued, ← run.effects existed]
          simp
      rw [issues]
      classical
      refine List.perm_iff_count.mpr fun n => ?_
      have even := even.count_eq n
      have moved := moved.count_eq n
      simp only [List.count_append] at even moved ⊢
      omega
    · have none : m.event? = none ∧ m.reported? c = none := by
        cases m with
        | did t i a => exact absurd ⟨t, i, a, rfl⟩ did
        | _ => exact ⟨rfl, rfl⟩
      rw [events_none past none.1, none.2, step.onTheWay_of_other numbered run.punctual c did]
      exact even

/-! ## The workspace of a launch -/

/-- The start that an instruction launches a worker for, and its workspace. -/
def Instr.launches? : Instr → Option (Nat × Path)
  | .perform (.launch generation p) | .launch generation p => some (generation, p)
  | _ => none

/-- The workspace of the launch that delivers a connection. -/
def Move.launchPath? (c : ConnectionId) : Move → Option Path
  | .did _ (.launch _ p) (.launched (.ok l)) => if l.connection = c then some p else none
  | _ => none

/-- The workspace that a connection was launched in. -/
def launchedIn (c : ConnectionId) (past : List Move) : Option Path :=
  past.findSome? (Move.launchPath? c)

/-- A launch is of this start, and has its workspace, or of an earlier one. -/
def Dated (past : List Move) (s : System) (generation : Nat) (p : Path) : Prop :=
  generation ≤ s.machine.generation ∧
    (generation = s.machine.generation → launchPath (events past) = some p)

/-- What launches have in hand, and what they were given. -/
structure Dates (past : List Move) (s : System) : Prop where
  due : ∀ e ∈ s.pool.tasks, ∀ i ∈ e.2.stack, ∀ generation p,
    i.launches? = some (generation, p) → Dated past s generation p
  made : ∀ t generation p a, Move.did t (.launch generation p) a ∈ past →
    Dated past s generation p

/-- A start keeps its workspace. -/
theorem Dated.next {options : Options} {past : List Move} {s s' : System} {m : Move}
    {generation : Nat} {p : Path} (h : Dated past s generation p) (run : Run options past s)
    (step : Moves s m s') (alive : s'.alive = true) : Dated (m :: past) s' generation p := by
  have existed := step.alive alive
  have now := (run.next step).machine alive
  obtain ⟨le, same⟩ := h
  rw [run.machine existed] at le same
  rw [Dated, now]
  cases applies : m.event? with
  | none =>
    rw [events_none past applies]
    exact ⟨le, same⟩
  | some e =>
    rw [events_some past applies]
    rcases launchPath_cons (events past) e with later | ⟨still, kept⟩
    · exact ⟨by omega, fun current => by omega⟩
    · rw [still, kept]
      exact ⟨le, same⟩

/-- A launch that is new is an effect of the event that is applied. -/
theorem dated_of_exec {options : Options} {past : List Move} {s s' r : System} {t : TaskId}
    {caller : String} {i j : Instr} {a : Answer} {before : List Instr} {generation : Nat} {p : Path}
    (run : Run options past s) (step : Moves s (.did t i a) s') (alive : s'.alive = true)
    (exec : s.exec t caller i a = some (r, before)) (hj : j ∈ before)
    (launches : j.launches? = some (generation, p)) :
    Dated (.did t i a :: past) s' generation p := by
  have existed := step.alive alive
  have leads := exec_leads exec j hj
  cases j with
  | perform f =>
    cases f with
    | launch =>
      cases launches
      obtain ⟨e, applies⟩ := event?_of_leads leads
      obtain ⟨-, after, rfl, ends⟩ := exec_applies exec existed applies
      have issues : .launch generation p ∈ effectsOf e (events past) := by
        rw [← run.effects existed]
        rcases List.mem_append.mp hj with hj | hj
        · obtain ⟨f, hf, same⟩ := List.mem_map.mp hj
          cases same
          exact hf
        · rcases ends with rfl | ⟨seen, rfl⟩
          · cases hj
          · cases List.mem_singleton.mp hj
      obtain ⟨current, path⟩ := launchPath_of_launch issues
      rw [Dated, (run.next step).machine alive, events_some (m := .did t i a) past applies]
      exact ⟨Nat.le_of_eq current, fun _ => path⟩
    | _ => cases launches
  | launch => cases i <;> cases leads
  | _ => cases launches

theorem Run.dates {options : Options} {past : List Move} {s : System} (run : Run options past s)
    (alive : s.alive = true) : Dates past s := by
  induction run with
  | start => exact ⟨nofun, nofun⟩
  | @next past s s' m run step ih =>
    have dates := ih (step.alive alive)
    have sound := Sound.of_run run
    have old {e : TaskId × Task Instr} (he : e ∈ s.pool.tasks) {i : Instr} (hi : i ∈ e.2.stack)
        {generation : Nat} {p : Path} (launches : i.launches? = some (generation, p)) :
        Dated (m :: past) s' generation p :=
      (dates.due e he i hi _ _ launches).next run step alive
    refine ⟨fun e he i hi generation p launches => ?_, fun t generation p a made => ?_⟩
    · cases (step.arises sound.numbered sound.attached e he).springs hi with
      | old mem here => exact old mem here launches
      | left move exec here =>
        subst move
        exact dated_of_exec run step alive exec here launches
      | opened _ opens =>
        cases opens with
        | launch =>
          -- The effect had the launch in hand.
          cases step with
          | act found next =>
            exact old (i := .perform (.launch _ _)) (Pool.mem_of_get? found)
              (next ▸ List.mem_cons_self) launches
        | _ => cases launches
    · rcases List.mem_cons.mp made with rfl | made
      · cases step with
        | act found next => exact old (Pool.mem_of_get? found) (next ▸ List.mem_cons_self) rfl
      · exact (dates.made t _ _ a made).next run step alive

/-! ## The connection of a running machine -/

/-- No two launches deliver the same connection. -/
def Distinct (past : List Move) : Prop :=
  ((brought past).map (·.2)).Nodup

theorem Distinct.tail {past : List Move} {m : Move} (h : Distinct (m :: past)) : Distinct past :=
  h.sublist ((((List.sublist_cons_self m past).filterMap Move.delivers).map _).map _)

theorem Distinct.of_append {past : List Move} (later : List Move)
    (h : Distinct (later ++ past)) : Distinct past := by
  induction later with
  | nil => exact h
  | cons m later ih => exact ih h.tail

theorem Distinct.eq {past : List Move} (h : Distinct past) {d d' : Nat × Launched}
    (hd : d ∈ delivered past) (hd' : d' ∈ delivered past)
    (same : d.2.connection = d'.2.connection) : d.1 = d'.1 := by
  have pair : (d.1, d.2.connection) = (d'.1, d'.2.connection) :=
    List.inj_on_of_nodup_map h (List.mem_map_of_mem hd) (List.mem_map_of_mem hd') same
  exact (Prod.mk.inj pair).1

/-- The connection of a running machine was delivered for this start. -/
theorem Run.delivered_of_running {options : Options} {past : List Move} {s : System}
    (run : Run options past s) (alive : s.alive = true) (running : s.machine.state = .running)
    {c : ConnectionId} (connection : s.machine.connection = some c) :
    ∃ l : Launched, (s.machine.generation, l) ∈ delivered past ∧ l.connection = c := by
  obtain ⟨cs, -, phase⟩ := (Sound.of_run run).phase alive
  obtain ⟨-, l, -, stored, last, -⟩ := phase.of_running running
  exact ⟨l, List.mem_of_mem_head? last, Option.some.inj (stored.symm.trans connection)⟩

/-- Whoever shall be told anything was delivered, and came to run in its start. -/
theorem Run.delivered_of_issued {options : Options} {past : List Move} {s : System}
    (run : Run options past s) (alive : s.alive = true) {c : ConnectionId} {p : Path}
    (shall : p ∈ issued c (events past)) :
    ∃ d ∈ delivered past, d.2.connection = c ∧ s.machine.Recalls d.1 True := by
  induction run with
  | start => cases shall
  | @next past s s' m run step ih =>
    have existed := step.alive alive
    have now := (run.next step).machine alive
    rcases step.applies existed with ⟨none, same⟩ | ⟨e, some, machine⟩
    · rw [events_none past none] at shall
      obtain ⟨d, hd, connection, recalls⟩ := ih existed shall
      exact ⟨d, mem_delivered_cons hd, connection, same ▸ recalls⟩
    · rw [events_some past some] at shall now
      rcases List.mem_append.mp shall with new | old
      · obtain ⟨running, connection⟩ := stored_of_issued new
        rw [← now] at running connection
        obtain ⟨l, hl, same⟩ := (run.next step).delivered_of_running alive running connection
        refine ⟨_, hl, same, Nat.le_refl _, fun _ => ⟨fun starting => ?_, fun _ => trivial⟩⟩
        rw [running] at starting
        cases starting
      · obtain ⟨d, hd, connection, recalls⟩ := ih existed old
        refine ⟨d, mem_delivered_cons hd, connection, ?_⟩
        rw [machine]
        exact recalls.transition e fun _ _ => trivial

/-- **The last workspace that a running worker shall be told is the one that the machine records**,
and if there is none its launch has that workspace. -/
theorem Run.latest {options : Options} {past : List Move} {s : System} (run : Run options past s)
    (alive : s.alive = true) (distinct : Distinct past) (running : s.machine.state = .running)
    {c : ConnectionId} (connection : s.machine.connection = some c) :
    (issued c (events past)).head?.or (launchPath (events past)) = s.machine.path := by
  induction run with
  | start => cases running
  | @next past s s' m run step ih =>
    have existed := step.alive alive
    have before := ih existed distinct.tail
    have was := run.machine existed
    have now := (run.next step).machine alive
    rcases step.applies existed with ⟨none, same⟩ | ⟨e, some, machine⟩
    · rw [same] at running connection ⊢
      rw [events_none past none]
      exact before running connection
    · rw [events_some past some] at now ⊢
      obtain ⟨l, hl, stored⟩ := (run.next step).delivered_of_running alive running connection
      rw [now] at running connection ⊢
      rw [(kept_of_events _).path]
      refine issued_cons running connection (fun starting => ?_) fun running connection => ?_
      · -- A connection that had been told something came to run, and in another start.
        refine List.eq_nil_iff_forall_not_mem.mpr fun p hp => ?_
        obtain ⟨d, hd, conn, le, recalls⟩ := run.delivered_of_issued existed hp
        have start := distinct.eq (mem_delivered_cons hd) hl (conn.trans stored.symm)
        have grown := step.progress.generation
        rw [was] at le recalls grown
        exact (recalls (by omega)).1 starting
      · rw [← (kept_of_events _).path, ← was]
        rw [← was] at running connection
        exact before running connection

/-- A running worker was launched in the workspace of this start. -/
theorem Run.launchedIn {options : Options} {past : List Move} {s : System} (run : Run options past s)
    (alive : s.alive = true) (distinct : Distinct past) (running : s.machine.state = .running)
    {c : ConnectionId} (connection : s.machine.connection = some c) :
    launchedIn c past = launchPath (events past) := by
  obtain ⟨l, hl, stored⟩ := run.delivered_of_running alive running connection
  have dates := run.dates alive
  cases found : Worker.launchedIn c past with
  | none =>
    obtain ⟨m, hm, delivers⟩ := List.mem_filterMap.mp hl
    have none := List.findSome?_eq_none_iff.mp found m hm
    unfold Move.delivers at delivers
    split at delivers
    · cases delivers
      simp only [Move.launchPath?, if_pos stored] at none
      cases none
    · cases delivers
  | some p =>
    obtain ⟨m, hm, launch⟩ := List.exists_of_findSome?_eq_some found
    unfold Move.launchPath? at launch
    split at launch
    next t generation q l' =>
      split at launch
      next same =>
        cases launch
        have delivers : (generation, l') ∈ delivered past := List.mem_filterMap.mpr ⟨_, hm, rfl⟩
        have current := distinct.eq delivers hl (same.trans stored.symm)
        exact ((dates.made _ _ _ _ hm).2 current).symm
      next => cases launch
    next => cases launch

/-! ## What a connection knows -/

/-- The workspace that a connection was told last: by a notification, or by its launch. -/
def lastTold (c : ConnectionId) (past : List Move) : Option (Option Json) :=
  (told c past).head?.or ((launchedIn c past).map tidings)

/-- Everything has come to a connection, and nobody but the supervisor tells it of workspaces. -/
structure Reached (past : List Move) (s : System) (c : ConnectionId) : Prop where
  arrived : s.onTheWay c = []
  /-- Every notification was taken. -/
  taken : ∀ t method params receipt r,
    Move.did t (.tell c method params receipt) (.sent r) ∈ past → r = .ok ()
  own : ∀ t params receipt a,
    Move.did t (.tell c Message.changeWorkspace params receipt) a ∈ past → receipt = .workspace

/-- What is reported of was told, and by the supervisor alone. -/
theorem Reached.told_eq {past : List Move} {s : System} {c : ConnectionId} (h : Reached past s c)
    {part : List Move} (hpart : part ⊆ past) : told c part = part.filterMap (Move.reported? c) := by
  refine List.filterMap_congr fun m hm => ?_
  have hm := hpart hm
  cases m with
  | did t i a =>
    cases i with
    | tell d method params receipt =>
      cases a with
      | sent r =>
        by_cases here : d = c ∧ method = Message.changeWorkspace
        · obtain ⟨rfl, rfl⟩ := here
          obtain rfl := h.taken _ _ _ _ _ hm
          obtain rfl := h.own _ _ _ _ hm
          rfl
        · cases receipt <;> cases r <;> simp [Move.told?, Move.reported?, here]
      | _ => cases receipt <;> rfl
    | _ => rfl
  | _ => rfl

/-- What the connection of a running machine knows of the workspace that the machine records. -/
structure Informed (options : Options) (past : List Move) (s : System) (c : ConnectionId)
    (p : Path) : Prop where
  /-- It is the last that the connection shall be told, or else the one that it was launched in. -/
  latest : (issued c (events past)).head?.or (launchedIn c past) = some p
  /-- In the end it was told what it should be, in some order. -/
  all : Reached past s c → (told c past).Perm ((issued c (events past)).map tidings)
  /-- If it was in order, it was told this workspace last. -/
  ordered : Reached past s c → told c past = (issued c (events past)).map tidings →
    lastTold c past = some (tidings p)
  /-- So it was if only one change was made since nothing was on its way. -/
  apart : Reached past s c → ∀ later older mid, past = later ++ older → Run options older mid →
    Ensues mid later s → mid.onTheWay c = [] →
    (issued c (events past)).length = (issued c (events older)).length + 1 →
    lastTold c past = some (tidings p)

theorem issued_append (c : ConnectionId) (later older : List Event) :
    ∃ new, issued c (later ++ older) = new ++ issued c older := by
  induction later with
  | nil => exact ⟨[], rfl⟩
  | cons e later ih =>
    obtain ⟨new, same⟩ := ih
    exact ⟨_ ++ new, by rw [List.cons_append, issued, same, List.append_assoc]⟩

/-- **A running worker is told every change, and knows the workspace if it was told in order.** -/
theorem informed_of_run {options : Options} {past : List Move} {s : System}
    (run : Run options past s) (alive : s.alive = true) (distinct : Distinct past)
    (running : s.machine.state = .running) :
    ∃ c p, s.machine.connection = some c ∧ s.machine.path = some p ∧
      Informed options past s c p := by
  have kept := kept_of_events (events past)
  have now := run.machine alive
  obtain ⟨c, connection⟩ := kept.stored (now ▸ running)
  obtain ⟨p, recorded⟩ := kept.known (.inr (now ▸ running))
  have path := kept.path.trans recorded
  rw [← now] at connection path
  have latest := run.latest alive distinct running connection
  have launched := run.launchedIn alive distinct running connection
  rw [← launched, path] at latest
  have all {part : List Move} {mid : System} (hpart : part ⊆ past) (upTo : Run options part mid)
      (existed : mid.alive = true) (none : mid.onTheWay c = []) (reached : Reached past s c) :
      (told c part).Perm ((issued c (events part)).map tidings) := by
    have ledger := upTo.ledger existed c
    rw [none, List.append_nil, ← reached.told_eq hpart] at ledger
    exact ledger.symm
  refine ⟨c, p, connection, path, latest, fun reached => ?_, fun reached inOrder => ?_, ?_⟩
  · exact all (List.Subset.refl _) run alive reached.arrived reached
  · rw [lastTold, inOrder, List.head?_map]
    cases shall : (issued c (events past)).head? with
    | none =>
      rw [shall, Option.none_or] at latest
      rw [latest]
      rfl
    | some q =>
      rw [shall, Option.some_or] at latest
      rw [latest]
      rfl
  · rintro reached later older mid rfl upTo onward none one
    have now := all (List.Subset.refl _) run alive reached.arrived reached
    have then_ := all (List.subset_append_right _ _) upTo (onward.alive alive) none reached
    obtain ⟨new, split⟩ := issued_append c (events later) (events older)
    have split : issued c (events (later ++ older)) = new ++ issued c (events older) := by
      rw [events, List.filterMap_append]
      exact split
    rw [split, List.length_append] at one
    obtain ⟨q, rfl⟩ := List.length_eq_one_iff.mp (by omega : new.length = 1)
    rw [split] at latest now
    obtain rfl : q = p := Option.some.inj latest
    rw [told, List.filterMap_append, List.map_append] at now
    have last := (List.perm_append_right_iff _).mp (now.trans (then_.symm.append_left _))
    rw [lastTold, told, List.filterMap_append, List.perm_singleton.mp last]
    rfl

/-- A workspace that is set while the worker runs. -/
theorem informed_of_change : ∃ past s, Run .standard past s ∧ s.alive = true ∧ Distinct past ∧
    s.machine.state = .running ∧ told 0 past = [tidings ⟨[48]⟩] ∧
    ∃ c p, s.machine.connection = some c ∧ s.machine.path = some p ∧
      Informed .standard past s c p := by
  have asked := Run.start.next (.ask (.initial .standard) (.start (some ⟨[47]⟩)))
  have acted := asked.next (.act (t := 0) (a := .nothing) rfl rfl rfl)
  have handled := acted.next (.act (t := 0) (a := .nothing) rfl rfl rfl)
  have performed := handled.next (.act (t := 0) (a := .nothing) rfl rfl rfl)
  have launched := performed.next (.act (t := 1) (a := .launched (.ok ⟨0, none⟩)) rfl rfl rfl)
  have running := launched.next (.act (t := 1) (a := .nothing) rfl rfl rfl)
  have wanted := running.next (.ask _ (.setPath ⟨[48]⟩))
  have acted' := wanted.next (.act (t := 4) (a := .nothing) rfl rfl rfl)
  have set := acted'.next (.act (t := 4) (a := .nothing) rfl rfl rfl)
  have telling := set.next (.act (t := 4) (a := .nothing) rfl rfl rfl)
  have told := telling.next (.act (t := 5) (a := .sent (.ok ())) rfl rfl rfl)
  exact ⟨_, _, told, rfl, List.nodup_singleton _, rfl, rfl,
    informed_of_run told rfl (List.nodup_singleton _) rfl⟩

/-- A running worker was told another workspace last than the one that is recorded, although nothing
is on its way and every notification was taken. -/
structure Stale (past : List Move) (s : System) (c : ConnectionId) (p : Path) : Prop where
  running : s.machine.state = .running
  connection : s.machine.connection = some c
  path : s.machine.path = some p
  arrived : s.onTheWay c = []
  taken : ∀ t method params receipt r,
    Move.did t (.tell c method params receipt) (.sent r) ∈ past → r = .ok ()
  other : lastTold c past ≠ some (tidings p)

/-- True of moves with which a connection refuses no notification. -/
def Move.accepts (c : ConnectionId) : Move → Bool
  | .did _ (.tell d ..) (.sent (.error _)) => d ≠ c
  | _ => true

theorem Stale.of_last {past : List Move} {s : System} {c : ConnectionId} {p : Path}
    {q : Option Json} (running : s.machine.state = .running)
    (connection : s.machine.connection = some c) (path : s.machine.path = some p)
    (arrived : s.onTheWay c = []) (taken : past.all (Move.accepts c) = true)
    (last : lastTold c past = some q) (other : q ≠ tidings p) : Stale past s c p := by
  refine ⟨running, connection, path, arrived, fun t method params receipt r told => ?_, ?_⟩
  · have accepts := List.all_eq_true.mp taken _ told
    cases r with
    | ok => rfl
    | error => simp [Move.accepts] at accepts
  · rw [last]
    exact fun same => other (Option.some.inj same)

/-- A caller sends a change of its own; and of two changes that are made, the later one is told
first. -/
theorem stale_of_foreign_and_overtaken :
    (∃ past s, Run .standard past s ∧ s.alive = true ∧ Distinct past ∧
      Stale past s 0 ⟨[47, 97]⟩) ∧
    ∃ past s, Run .standard past s ∧ s.alive = true ∧ Distinct past ∧
      Stale past s 0 ⟨[47, 99]⟩ ∧ told 0 past = [tidings ⟨[47, 98]⟩, tidings ⟨[47, 99]⟩] := by
  have b : tidings ⟨[47, 98]⟩ = some (.str "/b") := rfl
  have asked := Run.start.next (.ask (.initial .standard) (.start (some ⟨[47, 97]⟩)))
  have acted := asked.next (.act (t := 0) (a := .nothing) rfl rfl rfl)
  have handled := acted.next (.act (t := 0) (a := .nothing) rfl rfl rfl)
  have performed := handled.next (.act (t := 0) (a := .nothing) rfl rfl rfl)
  have launched := performed.next (.act (t := 1) (a := .launched (.ok ⟨0, none⟩)) rfl rfl rfl)
  have running := launched.next (.act (t := 1) (a := .nothing) rfl rfl rfl)
  constructor
  · have other : tidings ⟨[47, 98]⟩ ≠ tidings ⟨[47, 97]⟩ := by
      have a : tidings ⟨[47, 97]⟩ = some (.str "/a") := rfl
      rw [a, b]
      simp
    have wanted := running.next (.ask _ (.call "n" (.notify Message.changeWorkspace
      (.ok (tidings ⟨[47, 98]⟩)))))
    have acted' := wanted.next (.act (t := 4) (a := .nothing) rfl rfl rfl)
    have begun := acted'.next (.act (t := 5) (a := .nothing) rfl rfl rfl)
    have looked := begun.next (.act (t := 5) (a := .nothing) rfl rfl rfl)
    have taken := looked.next (.act (t := 5) (a := .nothing) rfl rfl rfl)
    have used := taken.next (.act (t := 5) (a := .nothing) rfl rfl rfl)
    have sent := used.next (.act (t := 5) (a := .sent (.ok ())) rfl rfl rfl)
    exact ⟨_, _, sent, rfl, List.nodup_singleton _, .of_last rfl rfl rfl rfl rfl rfl other⟩
  · have other : tidings ⟨[47, 98]⟩ ≠ tidings ⟨[47, 99]⟩ := by
      have c : tidings ⟨[47, 99]⟩ = some (.str "/c") := rfl
      rw [b, c]
      simp
    have first := running.next (.ask _ (.setPath ⟨[47, 98]⟩))
    have acted' := first.next (.act (t := 4) (a := .nothing) rfl rfl rfl)
    have set := acted'.next (.act (t := 4) (a := .nothing) rfl rfl rfl)
    have telling := set.next (.act (t := 4) (a := .nothing) rfl rfl rfl)
    have second := telling.next (.ask _ (.setPath ⟨[47, 99]⟩))
    have acted'' := second.next (.act (t := 6) (a := .nothing) rfl rfl rfl)
    have set' := acted''.next (.act (t := 6) (a := .nothing) rfl rfl rfl)
    have telling' := set'.next (.act (t := 6) (a := .nothing) rfl rfl rfl)
    have later := telling'.next (.act (t := 7) (a := .sent (.ok ())) rfl rfl rfl)
    have earlier := later.next (.act (t := 5) (a := .sent (.ok ())) rfl rfl rfl)
    exact ⟨_, _, earlier, rfl, List.nodup_singleton _, .of_last rfl rfl rfl rfl rfl rfl other, rfl⟩

end Supervision.Worker
