import Supervision.Fault
import Supervision.Path.Basic

/-!
# The life of a worker

The machine that owns the worker process. `Machine.transition` applies one event under one lock: it
gives the machine afterwards, what others notice meanwhile, in order, and what is to be done once
the lock is released. What takes time, launching and tearing down, is done elsewhere and comes back
as a further event, which names the start it belongs to; what belongs to an earlier start is
ignored.
-/

namespace Supervision.Worker

/-- Where the worker is in its life. -/
inductive State
  | idle
  | starting
  | running
  | stopping
  deriving DecidableEq, Repr, Inhabited

namespace State

def all : List State := [.idle, .starting, .running, .stopping]

/-- The state in which a worker begins. -/
def initial : State := .idle

def name : State → String
  | .idle => "idle"
  | .starting => "starting"
  | .running => "running"
  | .stopping => "stopping"

/-- The name of a state as a title. -/
def title : State → String
  | .idle => "Idle"
  | .starting => "Starting"
  | .running => "Running"
  | .stopping => "Stopping"

end State

/-- A connection, by the order in which it was made. -/
abbrev ConnectionId := Nat

/-- What a launch delivers: a connection, and the process behind it if that is known. -/
structure Launched where
  connection : ConnectionId
  pid : Option Nat
  deriving DecidableEq, Repr

/-- What happens to a worker. -/
inductive Event
  /-- It shall start, perhaps in a new workspace. -/
  | start (path : Option Path)
  | stop
  | setPath (path : Path)
  | launched (generation : Nat) (result : Except TransportError Launched)
  | exited (generation : Nat)
  | tornDown (generation : Nat)

/-- What is to be done once an event has been applied. -/
inductive Effect
  | launch (generation : Nat) (path : Path)
  /-- End a worker; `alive` says whether its process may still run. -/
  | teardown (generation : Nat) (connection : ConnectionId) (alive : Bool)
  | changeWorkspace (connection : ConnectionId) (path : Path)
  deriving DecidableEq, Repr

/-- What others notice while an event is applied. -/
inductive Notice
  /-- The worker went from one state to another, which is published. -/
  | entered (before after : State)
  | logged (level : Level) (text : String)
  /-- A connection is listened to, for its end and for its notifications. -/
  | attached (generation : Nat) (connection : ConnectionId)
  | detached
  deriving DecidableEq, Repr

structure Machine where
  state : State
  /-- The number of starts. -/
  generation : Nat
  /-- The workspace of this start and the next. -/
  path : Option Path
  /-- Whether the worker that is starting has to be told its workspace again. -/
  changePending : Bool
  /-- How often the worker became idle. -/
  idleEpoch : Nat
  pid : Option Nat
  connection : Option ConnectionId
  deriving DecidableEq, Repr

/-- The machine after an event, and what comes of it. -/
structure Transition where
  machine : Machine
  notices : List Notice
  effects : List Effect

namespace Machine

/-- A machine before its first start. -/
def initial : Machine := ⟨.idle, 0, none, false, 0, none, none⟩

/-- The machine in another state. Becoming idle is counted. -/
def enter (m : Machine) (next : State) : Machine :=
  { m with
    state := next
    idleEpoch := if next = .idle then m.idleEpoch + 1 else m.idleEpoch }

/-- The workspace of a start: the one it brings, or else the one that is set. -/
def pathFor (m : Machine) (path : Option Path) : Option Path :=
  match path with
  | some p => some p
  | none => m.path

/-- An idle machine starts. Without a workspace it is idle again at once. -/
def begin (m : Machine) (path : Option Path) : Transition :=
  let m := { m with path := m.pathFor path, generation := m.generation + 1 }.enter .starting
  match m.path with
  | some p =>
    ⟨{ m with changePending := false }, [.entered .idle .starting], [.launch m.generation p]⟩
  | none =>
    ⟨m.enter .idle,
      [.entered .idle .starting, .logged .error "cannot start worker: no workspace path set",
        .entered .starting .idle], []⟩

def ready (m : Machine) (launched : Launched) : Transition :=
  let tell := match m.changePending, m.path with
    | true, some p => [Effect.changeWorkspace launched.connection p]
    | _, _ => []
  ⟨{ m with
      pid := launched.pid
      connection := some launched.connection
      changePending := false }.enter .running,
    [.attached m.generation launched.connection, .entered .starting .running], tell⟩

def fail (m : Machine) (why : TransportError) : Transition :=
  ⟨{ m with pid := none }.enter .idle,
    [.logged .warn s!"worker failed to start: {why.message}", .entered .starting .idle], []⟩

/-- A running machine gives up its connection. -/
def beginTeardown (m : Machine) (alive : Bool) : Transition :=
  match m.connection with
  | some c =>
    ⟨{ m with connection := none }.enter .stopping, [.detached, .entered .running .stopping],
      [.teardown m.generation c alive]⟩
  | none =>
    ⟨{ m.enter .stopping with pid := none }.enter .idle,
      [.detached, .entered .running .stopping, .entered .stopping .idle], []⟩

def unchanged (m : Machine) : Transition := ⟨m, [], []⟩

def transition (m : Machine) : Event → Transition
  | .start path => if m.state = .idle then m.begin path else m.unchanged
  | .stop =>
    match m.state with
    | .starting => ⟨m.enter .stopping, [.entered .starting .stopping], []⟩
    | .running => m.beginTeardown true
    | _ => m.unchanged
  | .setPath path =>
    let m := { m with path := some path }
    match m.state, m.connection with
    | .running, some c => ⟨m, [], [.changeWorkspace c path]⟩
    | .starting, _ => ⟨{ m with changePending := true }, [], []⟩
    | _, _ => m.unchanged
  | .launched generation result =>
    if generation = m.generation then
      match m.state, result with
      | .starting, .ok launched => m.ready launched
      | .starting, .error why => m.fail why
      | .stopping, .ok launched => ⟨m, [], [.teardown generation launched.connection true]⟩
      | .stopping, .error _ => ⟨m.enter .idle, [.entered .stopping .idle], []⟩
      | _, _ => m.unchanged
    else m.unchanged
  | .exited generation =>
    if m.state = .running ∧ generation = m.generation then m.beginTeardown false else m.unchanged
  | .tornDown generation =>
    if m.state = .stopping ∧ generation = m.generation then
      ⟨{ m with pid := none }.enter .idle, [.entered .stopping .idle], []⟩
    else m.unchanged

end Machine

end Supervision.Worker
