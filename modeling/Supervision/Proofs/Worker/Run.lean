import Supervision.Worker.System
import Supervision.Proofs.Task.Pool

/-!
# Runs of a supervisor

What can happen to a supervisor, in any order and any number: a user asks for something, a task
executes its next instruction with an answer from outside, a task that waits is parked, a refresh is
cancelled, a call is given up, the handle is dropped. A `Run` is a history of such moves from the
beginning; the moves that were made are kept, the latest first, so that a theorem can speak of what
was delivered, ended or called.

Tasks are parked only where they wait (`Instr.waits`). Between two waits a task is not interrupted
by being given up, but every instruction is a move of its own: effects are carried out after the
machine was let go of, and other tasks may come between.

`exec_cases` says once what an instruction can do. Whoever wants an invariant of runs reads it from
there and does not open `exec` again.
-/

namespace Supervision.Worker

/-! ## Moves -/

/-- Something that happens to a supervisor. -/
inductive Move
  /-- A user wants something. -/
  | asked (a : Action)
  /-- A task executed an instruction. -/
  | did (t : TaskId) (i : Instr) (a : Answer)
  | parked (t : TaskId)
  | cancelled (t : TaskId)
  /-- A call is given up. -/
  | aborted (t : TaskId)
  /-- The handle is given up. -/
  | dropped

/-- Whether a task may rest at an instruction: something outside has to happen, or a published
value to change. -/
def Instr.waits : Instr → Bool
  | .wait .. | .awaitIdle _ | .ask .. | .tell .. | .launch .. | .shutDown .. | .watchExit ..
  | .receive _ | .awaitCompletion _ => true
  | _ => false

/-- One move. -/
inductive Moves : System → Move → System → Prop
  | ask (s : System) (a : Action) : Moves s (.asked a) (s.spawn [.act a])
  | act {s s' : System} {t : TaskId} {task : Task Instr} {i : Instr} {rest : List Instr}
      {a : Answer} (found : s.pool.get? t = some task) (next : task.stack = i :: rest)
      (taken : s.step t a = some s') : Moves s (.did t i a) s'
  | park {s : System} {t : TaskId} {task : Task Instr} {i : Instr} {rest : List Instr}
      (found : s.pool.get? t = some task) (next : task.stack = i :: rest)
      (waits : i.waits = true) : Moves s (.parked t) (s.park t)
  | cancel (s : System) (t : TaskId) : Moves s (.cancelled t) (s.cancel t)
  | abort {s : System} {t : TaskId} {task : Task Instr} (found : s.pool.get? t = some task)
      (called : task.caller.isSome = true) :
      Moves s (.aborted t) { s with pool := s.pool.abort t }
  | drop (s : System) : Moves s .dropped s.dropHandle

/-- A history from the beginning: the moves, the latest first, and the supervisor afterwards. -/
inductive Run (options : Options) : List Move → System → Prop
  | start : Run options [] (.initial options)
  | next {past : List Move} {s s' : System} {m : Move} (run : Run options past s)
      (step : Moves s m s') : Run options (m :: past) s'

/-! ## What an instruction can do -/

/-- True of instructions that have no part in launching and ending workers, and that no such part
becomes of before the machine is told to start or to stop. -/
def Instr.isPlain : Instr → Bool
  | .handle (.launched ..) | .handle (.exited _) | .handle (.tornDown _) | .perform (.launch ..)
  | .perform (.teardown ..) | .launch .. | .shutDown .. | .kill _ | .watchExit .. => false
  | _ => true

/-- True of instructions at which a task may come to wait before it has done anything else. -/
def Instr.yields : Instr → Bool
  | .handle _ | .perform _ | .act _ | .trackRest .. | .revoke .. | .kill _ | .deliver ..
  | .listener .. | .report _ | .drop _ | .refreshEnd _ | .finish _ => false
  | _ => true

/-- True of instructions that apply an event. -/
def Instr.handles : Instr → Bool
  | .handle _ => true
  | _ => false

/-- True of instructions that go by something seen before. -/
def Instr.watches : Instr → Bool
  | .wait .. | .take .. | .awaitIdle _ => true
  | _ => false

/-- True of instructions that only calls come to. -/
def Instr.calls : Instr → Bool
  | .begin _ | .look .. | .take .. | .wait .. | .use .. | .halt | .awaitIdle _ | .ask ..
  | .refreshBegin | .refreshListen => true
  | _ => false

/-- The passages from one state to another that were published, the latest first. -/
def System.passages (s : System) : List (State × State) :=
  s.history.filterMap fun h => match h with
    | .entered before after => some (before, after)
    | _ => none

/-- Two systems whose machines, tasks and publications are the same. -/
structure System.Alike (s r : System) : Prop where
  machine : r.machine = s.machine
  pool : r.pool = s.pool
  attached : r.attached = s.attached
  handle : r.handle = s.handle
  published : r.published = s.published
  version : r.version = s.version
  passages : r.passages = s.passages

/-- What an instruction does with an answer: the system afterwards, and what the task has to do
instead. -/
inductive Effected (s : System) : Instr → Answer → System → List Instr → Prop
  /-- It has to do with callers, listeners or notifications only. -/
  | aside {i : Instr} {a : Answer} {r : System} {before : List Instr} (plain : i.isPlain = true)
      (plains : ∀ j ∈ before, j.isPlain = true)
      (yields : i.yields = true ∨ ∀ j ∈ before, j.yields = false) (alike : s.Alike r)
      (other : i.handles = false) (calls : i.calls = true ∨ ∀ j ∈ before, j.calls = false)
      (watches : (∀ j ∈ before, j.watches = false) ∨
        (∃ need awaited, i = .look need awaited ∧ before = s.look need awaited) ∨
        ∃ need awaited seen, i = .take need awaited seen ∧ before = s.take need awaited seen) :
      Effected s i a r before
  /-- A call begins. -/
  | called {name : String} {c : Call} {r : System} (handle : s.handle = true)
      (pool : r.pool = s.pool.spawn (some name) [.begin c]) (machine : r.machine = s.machine)
      (attached : r.attached = s.attached) (kept : r.handle = s.handle)
      (published : r.published = s.published) (version : r.version = s.version)
      (passages : r.passages = s.passages) :
      Effected s (.act (.call name c)) .nothing r []
  | handled {e : Event} (alive : s.alive = true) :
      Effected s (.handle e) .nothing (s.apply e).1 (s.apply e).2
  /-- There is nobody left to whom an event could matter. -/
  | missed {e : Event} (alive : s.alive = false) : Effected s (.handle e) .nothing s []
  | performed {e : Effect} : Effected s (.perform e) .nothing (s.spawn (System.taskFor e)) []
  | halted (busy : s.machine.state ≠ .idle) :
      Effected s .halt .nothing (s.apply .stop).1
        ((s.apply .stop).2 ++ [.awaitIdle s.machine.idleEpoch])
  | launched {generation : Nat} {path : Path} {r : Except TransportError Launched} :
      Effected s (.launch generation path) (.launched r) s [.handle (.launched generation r)]
  | ended {generation : Nat} {c : ConnectionId} :
      Effected s (.shutDown generation c) (.ending .ended) s [.handle (.tornDown generation)]
  | outlived {generation : Nat} {c : ConnectionId} {e : Ending} {text : String} :
      Effected s (.shutDown generation c) (.ending e) (s.warn text)
        [.kill c, .handle (.tornDown generation)]
  | killed {c : ConnectionId} : Effected s (.kill c) .nothing s []
  | gone {generation : Nat} {c : ConnectionId} {reason : ExitReason} {text : String} :
      Effected s (.watchExit generation c) (.exited reason) (s.warn text)
        [.handle (.exited generation)]

/-- Recording anything but a passage leaves machine, tasks and publications as they are. -/
theorem System.alike_record (s : System) {h : Happening}
    (quiet : ∀ before after, h ≠ .entered before after) : s.Alike (s.record h) := by
  refine ⟨rfl, rfl, rfl, rfl, rfl, rfl, ?_⟩
  cases h with
  | entered before after => exact absurd rfl (quiet before after)
  | _ => rfl

theorem System.alike_refl (s : System) : s.Alike s :=
  ⟨rfl, rfl, rfl, rfl, rfl, rfl, rfl⟩

theorem System.alike_warn (s : System) (text : String) : s.Alike (s.warn text) :=
  s.alike_record fun _ _ => nofun

theorem System.Alike.trans {s r q : System} (h : s.Alike r) (k : r.Alike q) : s.Alike q :=
  ⟨k.machine.trans h.machine, k.pool.trans h.pool, k.attached.trans h.attached,
    k.handle.trans h.handle, k.published.trans h.published, k.version.trans h.version,
    k.passages.trans h.passages⟩

/-- An instruction of callers, listeners or notifications that leaves the system alike. -/
theorem Effected.alike {s r : System} {i : Instr} {a : Answer} {before : List Instr}
    (plain : (i.isPlain && !i.handles) = true) (alike : s.Alike r)
    (plains : before.all (fun j => j.isPlain && !j.watches && (i.yields || !j.yields) &&
      (i.calls || !j.calls)) = true) :
    Effected s i a r before := by
  have each : ∀ j ∈ before, ((j.isPlain = true ∧ j.watches = false) ∧
      (i.yields = true ∨ j.yields = false)) ∧ (i.calls = true ∨ j.calls = false) := fun j hj => by
    simpa using List.all_eq_true.mp plains j hj
  simp only [Bool.and_eq_true, Bool.not_eq_true'] at plain
  refine .aside plain.1 (fun j hj => (each j hj).1.1.1) ?_ alike plain.2 ?_
    (.inl fun j hj => (each j hj).1.1.2)
  · cases hi : i.yields with
    | true => exact .inl rfl
    | false => exact .inr fun j hj => (each j hj).1.2.resolve_left (by simp [hi])
  · cases hi : i.calls with
    | true => exact .inl rfl
    | false => exact .inr fun j hj => (each j hj).2.resolve_left (by simp [hi])

theorem act_effected (s : System) (a : Action) :
    Effected s (.act a) .nothing (s.act a).1 (s.act a).2 := by
  cases a with
  | call name c =>
    simp only [System.act]
    split
    next handle =>
      have hcall : ∀ r, s.call name c = r → Effected s (.act (.call name c)) .nothing r [] := by
        rintro r rfl
        unfold System.call
        split <;> exact .called handle rfl rfl rfl rfl rfl rfl rfl
      exact hcall _ rfl
    next => exact .alike rfl s.alike_refl rfl
  | listen listener wish =>
    simp only [System.act, System.listen]
    split <;> exact .alike rfl ⟨rfl, rfl, rfl, rfl, rfl, rfl, rfl⟩ rfl
  | track holder =>
    simp only [System.act, System.listen]
    split <;> exact .alike rfl ⟨rfl, rfl, rfl, rfl, rfl, rfl, rfl⟩ rfl
  | combine holder parts => exact .alike rfl ⟨rfl, rfl, rfl, rfl, rfl, rfl, rfl⟩ rfl
  | dispose holder =>
    simp only [System.act]
    split
    · exact .alike rfl ⟨rfl, rfl, rfl, rfl, rfl, rfl, rfl⟩ rfl
    · exact .alike rfl s.alike_refl rfl
  | _ =>
    simp only [System.act]
    split <;> exact .alike rfl s.alike_refl rfl

theorem begin_effected (s : System) (c : Call) :
    Effected s (.begin c) .nothing (s.begin c).1 (s.begin c).2 := by
  cases c with
  | request method params shape =>
    cases params with
    | ok params => exact .alike rfl s.alike_refl rfl
    | error why =>
      exact .alike rfl (s.alike_warn _) rfl
  | notify method params =>
    cases params <;>
      exact .alike rfl s.alike_refl rfl
  | _ => exact .alike rfl s.alike_refl rfl

theorem use_effected (s : System) (need : Need) (c : Except SupervisorError ConnectionId) :
    Effected s (.use need c) .nothing (s.use need c).1 (s.use need c).2 := by
  cases need <;> cases c <;>
    refine .alike rfl ?_ rfl <;>
    first
      | exact s.alike_refl
      | exact s.alike_warn _

theorem answered_effected (s : System) (c : ConnectionId) (method : String) (params : Option Json)
    (shape : Option Json.Shape) (retries : Nat) (r : Except TransportError Json) :
    Effected s (.ask c method params (.answer shape retries)) (.replied r)
      (s.answered method params shape retries r).1 (s.answered method params shape retries r).2 := by
  unfold System.answered
  split
  · split
    · exact .alike rfl s.alike_refl rfl
    · split
      · exact .alike rfl s.alike_refl rfl
      · exact .alike rfl (s.alike_warn _) rfl
  · split
    · split
      · exact .alike rfl (s.alike_warn _) rfl
      · exact .alike rfl s.alike_refl rfl
    · exact .alike rfl (s.alike_warn _) rfl

theorem receipted_effected (s : System) (c : ConnectionId) (method : String)
    (params : Option Json) (receipt : Receipt) (r : Except TransportError Unit) :
    Effected s (.tell c method params receipt) (.sent r) (s.receipted method receipt r).1
      (s.receipted method receipt r).2 := by
  unfold System.receipted
  split <;>
    refine .alike rfl ?_ rfl <;>
    first
      | exact s.alike_refl
      | exact s.alike_warn _

theorem deliver_effected (s : System) (params : Json) (callback : Callback) :
    Effected s (.deliver callback params) .nothing (s.deliver params callback).1
      (s.deliver params callback).2 := by
  cases callback with
  | shaped listener method shape =>
    simp only [System.deliver]
    split
    · exact .alike rfl s.alike_refl rfl
    · exact .alike rfl (s.alike_warn _) rfl
  | trackStart tracker =>
    simp only [System.deliver]
    split
    · exact .alike rfl ⟨rfl, rfl, rfl, rfl, rfl, rfl, rfl⟩ rfl
    · exact .alike rfl s.alike_refl rfl
  | trackEnd tracker =>
    simp only [System.deliver]
    split
    · exact .alike rfl ⟨rfl, rfl, rfl, rfl, rfl, rfl, rfl⟩ rfl
    · exact .alike rfl s.alike_refl rfl
  | completion task => exact .alike rfl ⟨rfl, rfl, rfl, rfl, rfl, rfl, rfl⟩ rfl
  | _ => exact .alike rfl s.alike_refl rfl

theorem revoke_effected (s : System) (subscription : Subscription String) :
    Effected s (.revoke subscription) .nothing (s.revoke subscription).1
      (s.revoke subscription).2 := by
  cases subscription with
  | combined parts =>
    refine .alike rfl s.alike_refl (List.all_eq_true.mpr fun j hj => ?_)
    obtain ⟨_, _, rfl⟩ := List.mem_map.mp hj
    rfl
  | _ => exact .alike rfl ⟨rfl, rfl, rfl, rfl, rfl, rfl, rfl⟩ rfl

theorem look_aside (s : System) (need : Need) (awaitedStart : Bool) :
    ∀ j ∈ s.look need awaitedStart, j.isPlain = true := by
  unfold System.look
  split <;> (try split) <;> simp [Instr.isPlain]

theorem take_aside (s : System) (need : Need) (awaitedStart : Bool) (seen : Nat) :
    ∀ j ∈ s.take need awaitedStart seen, j.isPlain = true := by
  unfold System.take
  split <;> (try split) <;> simp [Instr.isPlain]

theorem refreshBegin_effected (s : System) :
    Effected s .refreshBegin .nothing s s.refreshBegin := by
  unfold System.refreshBegin
  split <;> exact .alike rfl s.alike_refl rfl

/-- What is known of the two parts of a result is known of the result. -/
@[elab_as_elim]
theorem of_result {P : System → List Instr → Prop} {r : System} {before : List Instr}
    {p : System × List Instr} (h : some p = some (r, before)) (parts : P p.1 p.2) : P r before := by
  obtain rfl : p = (r, before) := Option.some.inj h
  exact parts

/-- **What an instruction can do.** Everything else about a step is how the task goes on. -/
theorem exec_cases {s r : System} {t : TaskId} {caller : String} {i : Instr} {a : Answer}
    {before : List Instr} (h : s.exec t caller i a = some (r, before)) :
    Effected s i a r before := by
  unfold System.exec at h
  split at h
  case h_1 e =>
    cases hs : s.alive with
    | true =>
      rw [hs, if_pos rfl] at h
      cases h
      exact .handled hs
    | false =>
      rw [hs, if_neg (by simp)] at h
      cases h
      exact .missed hs
  case h_2 => cases h; exact .performed
  case h_3 a => exact of_result h (act_effected s a)
  case h_4 c => exact of_result h (begin_effected s c)
  case h_5 need awaited =>
    cases h
    exact .aside rfl (look_aside s _ _) (.inl rfl) s.alike_refl rfl (.inl rfl)
      (.inr (.inl ⟨need, awaited, rfl, rfl⟩))
  case h_6 need awaited seen =>
    cases h
    exact .aside rfl (take_aside s _ _ _) (.inl rfl) s.alike_refl rfl (.inl rfl)
      (.inr (.inr ⟨need, awaited, seen, rfl, rfl⟩))
  case h_7 =>
    split at h <;> cases h
    exact .alike rfl s.alike_refl rfl
  case h_8 need c => exact of_result h (use_effected s need c)
  case h_9 =>
    split at h
    · cases h; exact .alike rfl s.alike_refl rfl
    next busy => cases h; exact .halted busy
  case h_10 =>
    split at h <;> cases h
    exact .alike rfl s.alike_refl rfl
  case h_11 => exact of_result h (answered_effected s _ _ _ _ _ _)
  case h_12 => cases h; exact .alike rfl s.alike_refl rfl
  case h_13 => exact of_result h (receipted_effected s _ _ _ _ _)
  case h_14 => cases h; exact .launched
  case h_15 =>
    split at h <;> cases h
    · exact .ended
    · exact .outlived
    · exact .outlived
  case h_16 => cases h; exact .killed
  case h_17 => cases h; exact .gone
  case h_18 => cases h; exact .alike rfl s.alike_refl rfl
  case h_19 =>
    cases h
    refine .alike rfl s.alike_refl (List.all_eq_true.mpr fun j hj => ?_)
    rcases List.mem_append.mp hj with hj | hj
    · obtain ⟨_, _, rfl⟩ := List.mem_map.mp hj
      rfl
    · rw [List.mem_singleton.mp hj]
      rfl
  case h_20 => exact of_result h (deliver_effected s _ _)
  case h_21 =>
    cases h
    refine .alike rfl (s.alike_record fun _ _ => nofun) (List.all_eq_true.mpr fun j hj => ?_)
    obtain ⟨_, _, rfl⟩ := List.mem_map.mp hj
    rfl
  case h_22 => exact of_result h (refreshBegin_effected s)
  case h_23 =>
    cases h
    refine .alike rfl ?_ rfl
    split
    · exact s.alike_record fun _ _ => nofun
    · exact s.alike_refl
  case h_24 =>
    simp only [System.listen] at h
    cases h
    exact .alike rfl ⟨rfl, rfl, rfl, rfl, rfl, rfl, rfl⟩ rfl
  case h_25 =>
    split at h <;> cases h
    exact .alike rfl s.alike_refl rfl
  case h_26 =>
    cases h
    exact .alike rfl ⟨rfl, rfl, rfl, rfl, rfl, rfl, rfl⟩ rfl
  case h_27 =>
    split at h <;> cases h
    · exact .alike rfl (s.alike_record fun _ _ => nofun) rfl
    · exact .alike rfl ((s.alike_record fun _ _ => by simp).trans
        (System.alike_record _ fun _ _ => by simp)) rfl
  case h_28 => cases h; exact .alike rfl (s.alike_record fun _ _ => nofun) rfl
  case h_29 =>
    simp only [System.listen] at h
    cases h
    exact .alike rfl ⟨rfl, rfl, rfl, rfl, rfl, rfl, rfl⟩ rfl
  case h_30 subscription => exact of_result h (revoke_effected s subscription)
  case h_31 => cases h

/-! ## Applying an event -/

namespace System

@[simp] theorem machine_notice (s : System) (n : Notice) : (s.notice n).machine = s.machine := by
  cases n <;> rfl

@[simp] theorem handle_notice (s : System) (n : Notice) : (s.notice n).handle = s.handle := by
  cases n <;> rfl

/-- Notices do not touch the machine. -/
theorem machine_notices (s : System) (ns : List Notice) :
    (ns.foldl notice s).machine = s.machine := by
  induction ns generalizing s with
  | nil => rfl
  | cons n ns ih => rw [List.foldl_cons, ih, machine_notice]

theorem handle_notices (s : System) (ns : List Notice) : (ns.foldl notice s).handle = s.handle := by
  induction ns generalizing s with
  | nil => rfl
  | cons n ns ih => rw [List.foldl_cons, ih, handle_notice]

/-- The machine goes where its transition leads. -/
@[simp] theorem machine_apply (s : System) (e : Event) :
    (s.apply e).1.machine = (s.machine.transition e).machine :=
  machine_notices _ _

@[simp] theorem handle_apply (s : System) (e : Event) : (s.apply e).1.handle = s.handle :=
  handle_notices _ _

/-- What an instruction does to the tasks, apart from going on with its own. -/
inductive Regrouped (s r : System) : Instr → Prop
  | same {i : Instr} (pool : r.pool = s.pool) (attached : r.attached = s.attached) : Regrouped s r i
  | called {name : String} {c : Call} (pool : r.pool = s.pool.spawn (some name) [.begin c])
      (attached : r.attached = s.attached) : Regrouped s r (.act (.call name c))
  | performed {e : Effect} (pool : r.pool = s.pool.spawn none (taskFor e))
      (attached : r.attached = s.attached) : Regrouped s r (.perform e)
  /-- Two tasks listen to the connection of a worker that has come up. -/
  | attached {l : Launched} (starting : s.machine.state = .starting)
      (pool : r.pool = (s.pool.spawn none [.watchExit s.machine.generation l.connection]).spawn none
        [.receive l.connection])
      (attached : r.attached = [s.pool.next, s.pool.next + 1]) :
      Regrouped s r (.handle (.launched s.machine.generation (.ok l)))
  /-- Nobody listens to the connection of a worker that is torn down. -/
  | detached {i : Instr} (pool : r.pool = s.attached.foldl Pool.abort s.pool)
      (attached : r.attached = []) : Regrouped s r i

/-- What becomes of the tasks when an event is applied follows from the machine. -/
theorem apply_regrouped (s : System) (e : Event) : Regrouped s (s.apply e).1 (.handle e) := by
  have teardown (alive : Bool) (r : System) (hr : r = (s.machine.beginTeardown alive).notices.foldl
      notice { s with machine := (s.machine.beginTeardown alive).machine }) :
      Regrouped s r (.handle e) := by
    subst hr
    unfold Machine.beginTeardown
    split <;> exact .detached rfl rfl
  cases e with
  | start path =>
    simp only [apply, Machine.transition]
    split
    · unfold Machine.begin
      dsimp only
      split <;> exact .same rfl rfl
    · exact .same rfl rfl
  | stop =>
    simp only [apply, Machine.transition]
    split
    next => exact .same rfl rfl
    next => exact teardown true _ rfl
    next => exact .same rfl rfl
  | setPath path =>
    simp only [apply, Machine.transition]
    split <;> exact .same rfl rfl
  | launched generation result =>
    simp only [apply, Machine.transition]
    split
    next current =>
      subst current
      split
      next starting => exact .attached starting rfl rfl
      all_goals exact .same rfl rfl
    next => exact .same rfl rfl
  | exited generation =>
    simp only [apply, Machine.transition]
    split
    next => exact teardown false _ rfl
    next => exact .same rfl rfl
  | tornDown generation =>
    simp only [apply, Machine.transition]
    split <;> exact .same rfl rfl

end System

/-- What an instruction does to the tasks. -/
theorem Effected.regrouped {s r : System} {i : Instr} {a : Answer} {before : List Instr}
    (h : Effected s i a r before) : System.Regrouped s r i := by
  cases h with
  | aside _ _ _ alike => exact .same alike.pool alike.attached
  | called _ pool _ attached => exact .called pool attached
  | handled => exact s.apply_regrouped _
  | performed => exact .performed rfl rfl
  | halted =>
    cases s.apply_regrouped .stop with
    | same pool attached => exact .same pool attached
    | detached pool attached => exact .detached pool attached
  | _ => exact .same rfl rfl

namespace System.Regrouped

variable {s r : System} {i : Instr}

theorem numbered (h : Regrouped s r i) (k : s.pool.Numbered) : r.pool.Numbered := by
  cases h with
  | same pool => rwa [pool]
  | called pool => rw [pool]; exact k.spawn _ _
  | performed pool => rw [pool]; exact k.spawn _ _
  | attached _ pool => rw [pool]; exact (k.spawn _ _).spawn _ _
  | detached pool => rw [pool]; exact k.foldl_abort _

/-- No instruction touches what another task has to do. -/
theorem mem (h : Regrouped s r i) {t : TaskId} {task : Task Instr}
    (hmem : (t, task) ∈ s.pool.tasks) :
    ∃ aborted, (t, { task with aborted := aborted }) ∈ r.pool.tasks := by
  cases h with
  | same pool => exact ⟨task.aborted, pool ▸ hmem⟩
  | called pool => exact ⟨task.aborted, pool ▸ List.mem_append_left _ hmem⟩
  | performed pool => exact ⟨task.aborted, pool ▸ List.mem_append_left _ hmem⟩
  | attached _ pool =>
    exact ⟨task.aborted, pool ▸ List.mem_append_left _ (List.mem_append_left _ hmem)⟩
  | detached pool =>
    rw [pool]
    by_cases ht : t ∈ s.attached
    · exact ⟨true, Pool.mem_foldl_abort.mpr ⟨task, hmem, by simp [ht]⟩⟩
    · exact ⟨task.aborted, Pool.mem_foldl_abort.mpr ⟨task, hmem, by simp [ht]⟩⟩

/-- The task of the instruction is still there. -/
theorem found (h : Regrouped s r i) (k : s.pool.Numbered) {t : TaskId} {task : Task Instr}
    (found : s.pool.get? t = some task) :
    ∃ aborted, r.pool.get? t = some { task with aborted := aborted } := by
  obtain ⟨aborted, hmem⟩ := h.mem (Pool.mem_of_get? found)
  exact ⟨aborted, Pool.get?_of_mem (h.numbered k) hmem⟩

/-- A new task: a call begins, or something is done that no call waits for. -/
def Fresh (caller : Option String) (stack : List Instr) : Prop :=
  (∃ c, caller.isSome = true ∧ stack = [.begin c]) ∨
    ∃ i, stack = [i] ∧ i.calls = false ∧ i.watches = false

theorem fresh_taskFor (e : Effect) : Fresh none (taskFor e) := by
  cases e with
  | teardown _ _ alive => cases alive <;> exact .inr ⟨_, rfl, rfl, rfl⟩
  | _ => exact .inr ⟨_, rfl, rfl, rfl⟩

/-- A task after an instruction was there before, or is new. -/
theorem tasks (h : Regrouped s r i) {e : TaskId × Task Instr} (he : e ∈ r.pool.tasks) :
    (∃ aborted, (e.1, { e.2 with aborted := aborted }) ∈ s.pool.tasks) ∨
      s.pool.next ≤ e.1 ∧ Fresh e.2.caller e.2.stack := by
  have spawned {p : Pool Instr} {caller : Option String} {stack : List Instr}
      (fresh : Fresh caller stack) (later : s.pool.next ≤ p.next)
      (he : e ∈ (p.spawn caller stack).tasks) :
      e ∈ p.tasks ∨ s.pool.next ≤ e.1 ∧ Fresh e.2.caller e.2.stack := by
    rcases List.mem_append.mp he with he | he
    · exact .inl he
    · rw [List.mem_singleton.mp he]
      exact .inr ⟨later, fresh⟩
  cases h with
  | same pool => exact .inl ⟨e.2.aborted, pool ▸ he⟩
  | called pool =>
    exact (spawned (.inl ⟨_, rfl, rfl⟩) (Nat.le_refl _) (pool ▸ he)).imp_left fun he => ⟨_, he⟩
  | performed pool =>
    exact (spawned (fresh_taskFor _) (Nat.le_refl _) (pool ▸ he)).imp_left fun he => ⟨_, he⟩
  | attached _ pool =>
    rcases spawned (.inr ⟨_, rfl, rfl, rfl⟩) (Nat.le_succ _) (pool ▸ he) with he | fresh
    · exact (spawned (.inr ⟨_, rfl, rfl, rfl⟩) (Nat.le_refl _) he).imp_left fun he => ⟨_, he⟩
    · exact .inr fresh
  | detached pool =>
    rw [pool] at he
    obtain ⟨task, hmem, heq⟩ := Pool.mem_foldl_abort.mp he
    refine .inl ⟨task.aborted, ?_⟩
    rw [heq]
    split <;> exact hmem

end System.Regrouped

/-! ## Steps -/

/-- The system when a task has something else to do. -/
def System.proceed (s : System) (t : TaskId) (stack : List Instr) : System :=
  { s with pool := s.pool.proceed t stack }

/-- How a step is taken: an instruction is executed, the task goes on, and when the last handle went
with the task, nothing is listened to any more. -/
theorem step_exec {s s' : System} {t : TaskId} {task : Task Instr} {i : Instr} {rest : List Instr}
    {a : Answer} (found : s.pool.get? t = some task) (next : task.stack = i :: rest)
    (taken : s.step t a = some s') :
    ∃ r before, s.exec t (task.caller.getD "") i a = some (r, before) ∧
      (task.parked && task.aborted) = false ∧
      (s' = r.proceed t (before ++ rest) ∨ s' = (r.proceed t (before ++ rest)).release) := by
  obtain ⟨caller, stack, parked, aborted⟩ := task
  simp only at next
  subst next
  simp only [System.step, found] at taken
  split at taken
  next => cases taken
  next free =>
    split at taken
    next r before hexec =>
      refine ⟨r, before, hexec, by simpa using free, ?_⟩
      rw [← Option.some.inj taken]
      split
      · exact .inr rfl
      · exact .inl rfl
    next => cases taken

/-- What a step is: an instruction takes effect, and the task goes on. -/
theorem step_cases {s s' : System} {t : TaskId} {task : Task Instr} {i : Instr} {rest : List Instr}
    {a : Answer} (found : s.pool.get? t = some task) (next : task.stack = i :: rest)
    (taken : s.step t a = some s') :
    ∃ r before, Effected s i a r before ∧ (task.parked && task.aborted) = false ∧
      (s' = r.proceed t (before ++ rest) ∨ s' = (r.proceed t (before ++ rest)).release) := by
  obtain ⟨r, before, hexec, free, result⟩ := step_exec found next taken
  exact ⟨r, before, exec_cases hexec, free, result⟩

/-- A system that is released has lost its last handle, or nothing happens. -/
theorem System.release_cases (s : System) :
    s.release = s ∨ s.alive = false ∧ s.release = s.detach := by
  unfold System.release
  cases hs : s.alive with
  | true => exact .inl rfl
  | false => exact .inr ⟨rfl, rfl⟩

/-- What is true of a system, and still is when nobody listens to the connection any more, is true
of the system when it is released. -/
@[elab_as_elim]
theorem System.release_elim {P : System → Prop} (s : System) (kept : P s) (detached : P s.detach) :
    P s.release := by
  rcases s.release_cases with same | ⟨-, gone⟩
  · rwa [same]
  · rwa [gone]

/-! ## Whether a supervisor still exists -/

theorem System.alive_eq {s r : System} (handle : r.handle = s.handle)
    (callers : r.pool.hasCaller = s.pool.hasCaller) : r.alive = s.alive := by
  simp only [System.alive, handle, callers]

theorem System.alive_detach (s : System) : s.detach.alive = s.alive :=
  alive_eq rfl (Pool.hasCaller_foldl_abort _ _)

theorem System.alive_release (s : System) : s.release.alive = s.alive :=
  s.release_elim rfl s.alive_detach

/-- A system that still exists is released as it is. -/
theorem System.release_of_alive {s : System} (alive : s.release.alive = true) : s.release = s := by
  rcases s.release_cases with same | ⟨gone, -⟩
  · exact same
  · rw [alive_release, gone] at alive
    cases alive

theorem System.alive_apply (s : System) (e : Event) : (s.apply e).1.alive = s.alive := by
  refine alive_eq (handle_apply s e) ?_
  cases s.apply_regrouped e with
  | same pool => rw [pool]
  | attached _ pool => simp [pool]
  | detached pool => simp [pool]

theorem System.Alike.alive {s r : System} (h : s.Alike r) : r.alive = s.alive :=
  alive_eq h.handle (by rw [h.pool])

/-- An instruction does not bring a supervisor back. -/
theorem Effected.alive {s r : System} {i : Instr} {a : Answer} {before : List Instr}
    (h : Effected s i a r before) (alive : r.alive = true) : s.alive = true := by
  cases h with
  | aside _ _ _ alike => rwa [alike.alive] at alive
  | called handle => simp only [System.alive, handle, Bool.true_or]
  | handled there => exact there
  | halted => rwa [System.alive_apply] at alive
  | performed => simpa [System.alive, System.spawn] using alive
  | outlived => rwa [(s.alike_warn _).alive] at alive
  | gone => rwa [(s.alike_warn _).alive] at alive
  | _ => exact alive

/-- A supervisor that is gone does not come back. -/
theorem Moves.alive {s s' : System} {m : Move} (h : Moves s m s') (alive : s'.alive = true) :
    s.alive = true := by
  cases h with
  | ask => simpa [System.alive, System.spawn] using alive
  | @act _ t _ _ rest _ found next taken =>
    obtain ⟨r, before, effected, -, h⟩ := step_cases found next taken
    have callers : (r.proceed t (before ++ rest)).alive = true := by
      rcases h with rfl | rfl
      · exact alive
      · rwa [System.alive_release] at alive
    refine effected.alive ?_
    simp only [System.alive, System.proceed, Bool.or_eq_true] at callers ⊢
    exact callers.imp_right Pool.hasCaller_proceed
  | park =>
    rw [System.park, System.alive_release] at alive
    simp only [System.alive, Bool.or_eq_true] at alive ⊢
    exact alive.imp_right Pool.hasCaller_park
  | cancel => exact alive
  | abort =>
    simpa only [System.alive, Pool.hasCaller_abort] using alive
  | drop =>
    rw [System.dropHandle, System.alive_release] at alive
    simp only [System.alive, Bool.false_or] at alive
    simp only [System.alive, alive, Bool.or_true]

/-! ## What a move does to the tasks -/

/-- Where a task comes from: it was there and has the same to do, it is new, or it has taken the
step. -/
inductive Comes (s : System) (m : Move) (e : TaskId × Task Instr) : Prop
  | kept {task : Task Instr} (mem : (e.1, task) ∈ s.pool.tasks) (caller : e.2.caller = task.caller)
      (stack : e.2.stack = task.stack)
  | fresh (new : s.pool.next ≤ e.1) (fresh : System.Regrouped.Fresh e.2.caller e.2.stack)
  | went {task : Task Instr} {i : Instr} {rest before : List Instr} {a : Answer} {r : System}
      (move : m = .did e.1 i a) (mem : (e.1, task) ∈ s.pool.tasks) (next : task.stack = i :: rest)
      (effected : Effected s i a r before) (caller : e.2.caller = task.caller)
      (stack : e.2.stack = before ++ rest)

/-- It does not matter who is given up. -/
theorem Comes.congr {s : System} {m : Move} {e f : TaskId × Task Instr} (h : Comes s m e)
    (number : f.1 = e.1) (caller : f.2.caller = e.2.caller) (stack : f.2.stack = e.2.stack) :
    Comes s m f := by
  cases h with
  | kept mem c k => exact .kept (number ▸ mem) (caller.trans c) (stack.trans k)
  | fresh new fresh => exact .fresh (number ▸ new) (by rw [caller, stack]; exact fresh)
  | went move mem next effected c k =>
    exact .went (number ▸ move) (number ▸ mem) next effected (caller.trans c) (stack.trans k)

theorem Comes.of_release {s r : System} {m : Move} (h : ∀ e ∈ r.pool.tasks, Comes s m e) :
    ∀ e ∈ r.release.pool.tasks, Comes s m e := by
  intro e he
  rcases r.release_cases with heq | ⟨-, heq⟩
  · exact h e (heq ▸ he)
  · rw [heq] at he
    obtain ⟨task, hmem, heq'⟩ := Pool.mem_foldl_abort.mp he
    refine (h _ hmem).congr rfl ?_ ?_
    · rw [heq']
      split <;> rfl
    · rw [heq']
      split <;> rfl

/-- **Where the tasks come from** that are there after a move. -/
theorem Moves.comes {s s' : System} {m : Move} (step : Moves s m s') (numbered : s.pool.Numbered) :
    ∀ e ∈ s'.pool.tasks, Comes s m e := by
  cases step with
  | ask a =>
    intro e he
    rcases List.mem_append.mp he with he | he
    · exact .kept he rfl rfl
    · rw [List.mem_singleton.mp he]
      exact .fresh (Nat.le_refl _) (.inr ⟨_, rfl, rfl, rfl⟩)
  | @act _ t task i rest a found next taken =>
    obtain ⟨r, before, effected, -, result⟩ := step_cases found next taken
    have proceeded : ∀ e ∈ (r.proceed t (before ++ rest)).pool.tasks, Comes s (.did t i a) e := by
      intro e he
      rcases Pool.mem_proceed he with ⟨-, hmem⟩ | ⟨rfl, other, hmem, heq⟩
      · rcases effected.regrouped.tasks hmem with ⟨aborted, hold⟩ | ⟨new, fresh⟩
        · exact .kept hold rfl rfl
        · exact .fresh new fresh
      · obtain ⟨aborted, found'⟩ := effected.regrouped.mem (Pool.mem_of_get? found)
        have same := (effected.regrouped.numbered numbered).unique hmem found'
        refine .went rfl (Pool.mem_of_get? found) next effected ?_ ?_
        · rw [heq, same]
        · rw [heq]
    rcases result with rfl | rfl
    · exact proceeded
    · exact Comes.of_release proceeded
  | park =>
    refine Comes.of_release fun e he => ?_
    obtain ⟨task, parked, hmem, -, heq⟩ := Pool.mem_park he
    exact .kept hmem (by rw [heq]) (by rw [heq])
  | cancel => exact fun e he => .kept he rfl rfl
  | abort =>
    intro e he
    obtain ⟨task, hmem, heq⟩ := Pool.mem_modify.mp he
    refine .kept hmem ?_ ?_
    · rw [heq]
      split <;> rfl
    · rw [heq]
      split <;> rfl
  | drop => exact Comes.of_release fun e he => .kept he rfl rfl

theorem System.Regrouped.next_le {s r : System} {i : Instr} (h : Regrouped s r i) :
    s.pool.next ≤ r.pool.next := by
  cases h with
  | same pool => exact Nat.le_of_eq (congrArg Pool.next pool).symm
  | called pool => rw [pool]; exact Nat.le_succ _
  | performed pool => rw [pool]; exact Nat.le_succ _
  | attached _ pool => rw [pool]; exact Nat.le_add_right _ 2
  | detached pool => exact Nat.le_of_eq (by rw [pool, Pool.next_foldl_abort])

theorem System.pool_release {s : System} (numbered : s.pool.Numbered) :
    s.release.pool.Numbered ∧ s.release.pool.next = s.pool.next :=
  s.release_elim ⟨numbered, rfl⟩ ⟨numbered.foldl_abort _, Pool.next_foldl_abort _ _⟩

/-- Numbers stay distinct, and new ones come after the old. -/
theorem Moves.numbered {s s' : System} {m : Move} (step : Moves s m s')
    (numbered : s.pool.Numbered) : s'.pool.Numbered ∧ s.pool.next ≤ s'.pool.next := by
  cases step with
  | ask => exact ⟨numbered.spawn _ _, Nat.le_succ _⟩
  | @act _ t _ _ rest _ found next taken =>
    obtain ⟨r, before, effected, -, result⟩ := step_cases found next taken
    have proceeded := (effected.regrouped.numbered numbered).proceed t (before ++ rest)
    have le : s.pool.next ≤ (r.proceed t (before ++ rest)).pool.next :=
      (r.pool.next_proceed t (before ++ rest)).symm ▸ effected.regrouped.next_le
    rcases result with rfl | rfl
    · exact ⟨proceeded, le⟩
    · have released := System.pool_release (s := r.proceed t (before ++ rest)) proceeded
      exact ⟨released.1, released.2.symm ▸ le⟩
  | @park t _ _ _ _ _ _ =>
    have released := System.pool_release (s := { s with pool := s.pool.park t }) (numbered.park t)
    exact ⟨released.1, Nat.le_of_eq (released.2.trans (s.pool.next_park t)).symm⟩
  | cancel => exact ⟨numbered, Nat.le_refl _⟩
  | @abort t => exact ⟨numbered.abort t, Nat.le_refl _⟩
  | drop =>
    have released := System.pool_release (s := { s with handle := false }) numbered
    exact ⟨released.1, Nat.le_of_eq released.2.symm⟩

end Supervision.Worker
