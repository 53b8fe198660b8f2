import Supervision.Json.Shape
import Supervision.Listener.Registry
import Supervision.Progress
import Supervision.Task.Pool
import Supervision.Text.Numeral
import Supervision.Worker.Machine

/-!
# Supervising a worker

Everything that runs around the machine of a worker: callers who want something of it, the tasks
that launch and end it, and those that listen to its connection. `System.step` lets one task take
one step. A step takes hold of the machine at most once, and of the listeners at most once, so any
order of steps of different tasks is an order in which the supervisor may run. What lies outside,
the worker, the time and the code of listeners, gives its answers as arguments of the step.
-/

namespace Supervision.Worker

open Message

/-- What may be set. -/
structure Options where
  /-- The code of an answer after which a request is sent again. -/
  busyCode : Int
  /-- How often a request is sent again. -/
  maxBusyRetries : Nat
  /-- How long a worker may take to end, in milliseconds. -/
  shutdownTimeout : Nat
  deriving DecidableEq, Repr

def Options.standard : Options := ⟨Message.busyCode, 3, 2000⟩

/-- What is called when a notification arrives. -/
inductive Callback
  /-- A listener that takes the params as they are. -/
  | any (listener : Listener)
  /-- A listener that takes params of one shape only. -/
  | shaped (listener : Listener) (method : String) (shape : Json.Shape)
  /-- A listener that is told of complete refreshes. -/
  | refreshed (listener : Listener)
  /-- A tracker of refreshes notices that one begins. -/
  | trackStart (tracker : Nat)
  /-- A tracker of refreshes notices that one ends. -/
  | trackEnd (tracker : Nat)
  /-- The refresh that a task asked for is complete. -/
  | completion (task : TaskId)

/-- What a listener wants to hear. -/
inductive Wish
  | any (method : String)
  | shaped (method : String) (shape : Json.Shape)
  | refreshed

/-- What a caller asks for. Params that cannot be written are given by the reason. -/
inductive Call
  /-- A request; its result may have to have a shape. -/
  | request (method : String) (params : Except String (Option Json)) (shape : Option Json.Shape)
  | notify (method : String) (params : Except String (Option Json))
  | shutdown
  /-- A refresh; it may be cancelled from the beginning. -/
  | refresh (cancelled : Bool)

/-- What a user does. -/
inductive Action
  | start (path : Option Path)
  | stop
  | setPath (path : Path)
  | listen (listener : Listener) (wish : Wish)
  | track (holder : String)
  | combine (holder : String) (parts : List String)
  | dispose (holder : String)
  | call (caller : String) (call : Call)

/-- What a caller gets. -/
inductive Result
  | answer (v : Option Json)
  | sent (r : Except SupervisorError Unit)
  | done

/-- Why a task wants a running worker. -/
inductive Need
  | request (method : String) (params : Option Json) (shape : Option Json.Shape) (retries : Nat)
  | notify (method : String) (params : Option Json)
  /-- To ask for a refresh, of whose end the subscription tells. -/
  | refresh (completion : Subscription String)

/-- What becomes of the answer to a request. -/
inductive Use
  | answer (shape : Option Json.Shape) (retries : Nat)
  | ignore

/-- What becomes of a notification that was sent. -/
inductive Receipt
  | caller
  | workspace
  | refresh (completion : Subscription String)

/-- What a task has to do next. -/
inductive Instr
  | handle (e : Event)
  | perform (e : Effect)
  | act (a : Action)
  /-- Listen for the end of refreshes, for a tracker that listens for their beginning. -/
  | trackRest (holder : String) (tracker : Nat) (started : Subscription String)
  /-- Use up a subscription of a user. -/
  | revoke (s : Subscription String)
  | begin (c : Call)
  | look (need : Need) (awaitedStart : Bool)
  /-- Take the connection of a machine that was seen running. -/
  | take (need : Need) (awaitedStart : Bool) (seen : Nat)
  /-- Wait until another state is published. -/
  | wait (need : Need) (awaitedStart : Bool) (seen : Nat)
  /-- Go on with a connection, or without one. -/
  | use (need : Need) (connection : Except SupervisorError ConnectionId)
  /-- Stop the worker, and then wait until it is idle. -/
  | halt
  /-- Wait until the machine has become idle once more. -/
  | awaitIdle (seen : Nat)
  /-- Wait for the answer to a request. -/
  | ask (connection : ConnectionId) (method : String) (params : Option Json) (use : Use)
  /-- Wait until a notification is sent. -/
  | tell (connection : ConnectionId) (method : String) (params : Option Json) (receipt : Receipt)
  | launch (generation : Nat) (path : Path)
  /-- Wait until a worker has ended. -/
  | shutDown (generation : Nat) (connection : ConnectionId)
  /-- End a worker without asking it. -/
  | kill (connection : ConnectionId)
  /-- Wait until a worker is gone. -/
  | watchExit (generation : Nat) (connection : ConnectionId)
  | receive (connection : ConnectionId)
  /-- Call what is registered for a notification. -/
  | deliver (callback : Callback) (params : Json)
  | listener (l : Listener) (payload : Json)
  | refreshBegin
  /-- Tell the caller of a refresh how it goes on. -/
  | report (p : Progress)
  /-- Listen for the end of a refresh. -/
  | refreshListen
  /-- Wait until a refresh is complete or cancelled. -/
  | awaitCompletion (completion : Subscription String)
  | drop (s : Subscription String)
  /-- Tell the caller of a refresh that it is over, and how. -/
  | refreshEnd (r : Except SupervisorError Unit)
  | finish (r : Result)

/-- How an attempt to end a worker went. -/
inductive Ending
  | ended
  | failed (why : TransportError)
  | elapsed

/-- What comes from outside for a step. -/
inductive Answer
  | nothing
  | replied (r : Except TransportError Json)
  | sent (r : Except TransportError Unit)
  | launched (r : Except TransportError Launched)
  | ending (e : Ending)
  | exited (reason : ExitReason)
  /-- A notification, or the end of all notifications. -/
  | received (n : Option Notification)
  /-- What the code of a listener does. -/
  | actions (as : List Action)

/-- What can be seen from outside. -/
inductive Happening
  | entered (before after : State)
  | logged (level : Level) (text : String)
  | delivered (listener : String) (payload : Json)
  | reported (name : String) (p : Progress)
  | finished (caller : String) (r : Result)

/-- Someone who tracks refreshes. -/
structure Tracker where
  name : String
  /-- Whether a refresh has begun and not ended. -/
  active : Bool
  deriving DecidableEq, Repr

/-- A supervisor and its tasks. -/
structure System where
  options : Options
  machine : Machine
  published : State
  /-- How often a state was published. -/
  version : Nat
  /-- Whether there is a handle besides those of the callers. -/
  handle : Bool
  listeners : Registry String Callback
  trackers : List Tracker
  holdings : Holdings String
  pool : Pool Instr
  /-- The tasks that listen to the connection. -/
  attached : List TaskId
  cancelled : List TaskId
  completed : List TaskId
  /-- What happened, the latest first. -/
  history : List Happening

namespace System

def initial (options : Options) : System where
  options := options
  machine := .initial
  published := .idle
  version := 0
  handle := true
  listeners := .empty
  trackers := []
  holdings := []
  pool := .empty
  attached := []
  cancelled := []
  completed := []
  history := []

/-- Whether the supervisor still exists: someone has a handle to it. -/
def alive (s : System) : Bool :=
  s.handle || s.pool.hasCaller

def record (s : System) (h : Happening) : System :=
  { s with history := h :: s.history }

def warn (s : System) (text : String) : System :=
  s.record (.logged .warn text)

def spawn (s : System) (stack : List Instr) : System :=
  { s with pool := s.pool.spawn none stack }

/-- Aborts the tasks that listen to the connection. -/
def detach (s : System) : System :=
  { s with pool := s.attached.foldl Pool.abort s.pool, attached := [] }

/-- Applies what others notice of an event. -/
def notice (s : System) : Notice → System
  | .entered before after =>
    { s with published := after, version := s.version + 1 }.record (.entered before after)
  | .logged level text => s.record (.logged level text)
  | .attached generation connection =>
    let first := s.pool.next
    { (s.spawn [.watchExit generation connection]).spawn [.receive connection] with
      attached := [first, first + 1] }
  | .detached => s.detach

/-- Applies an event to the machine: the system afterwards, and what is to be done. -/
def apply (s : System) (e : Event) : System × List Instr :=
  let t := s.machine.transition e
  (t.notices.foldl notice { s with machine := t.machine }, t.effects.map .perform)

/-- The task that carries out an effect. -/
def taskFor : Effect → List Instr
  | .launch generation path => [.launch generation path]
  | .teardown generation connection true => [.shutDown generation connection]
  | .teardown generation _ false => [.handle (.tornDown generation)]
  | .changeWorkspace connection path =>
    [.tell connection changeWorkspace (some (.str path.text)) .workspace]

/-- The callback that fulfils a wish, and its method. -/
def callbackFor (l : Listener) : Wish → String × Callback
  | .any method => (method, .any l)
  | .shaped method shape => (method, .shaped l method shape)
  | .refreshed => (refresh, .refreshed l)

def listen (s : System) (method : String) (callback : Callback) : System × Subscription String :=
  let (listeners, subscription, _) := s.listeners.insert method callback
  ({ s with listeners := listeners }, subscription)

/-- Uses up a subscription. Whoever still takes notifications when the supervisor is gone has the
registry, too. -/
def dispose (s : System) (subscription : Subscription String) : System :=
  { s with listeners := s.listeners.dispose subscription }

/-- Uses up a subscription, of one made of several the parts one after the other. -/
def revoke (s : System) : Subscription String → System × List Instr
  | .combined parts => (s, parts.map .revoke)
  | part => (s.dispose part, [])

def call (s : System) (caller : String) (c : Call) : System :=
  let task := s.pool.next
  let s := { s with pool := s.pool.spawn (some caller) [.begin c] }
  match c with
  | .refresh true => { s with cancelled := task :: s.cancelled }
  | _ => s

/-- Does what a user wants. Without a handle only subscriptions can be used. What takes hold of the
listeners more than once is gone on with in further steps: each callback of a tracker is registered
in a step of its own, and each that a subscription stands for removed in one. -/
def act (s : System) : Action → System × List Instr
  | .start path => (s, if s.handle then [.handle (.start path)] else [])
  | .stop => (s, if s.handle then [.handle .stop] else [])
  | .setPath path => (s, if s.handle then [.handle (.setPath path)] else [])
  | .listen listener wish =>
    if s.handle then
      let (method, callback) := callbackFor listener wish
      let (s, subscription) := s.listen method callback
      ({ s with holdings := s.holdings.set listener.name subscription }, [])
    else (s, [])
  | .track holder =>
    if s.handle then
      let tracker := s.trackers.length
      let (s, started) := s.listen refreshStarted (.trackStart tracker)
      ({ s with trackers := s.trackers ++ [⟨holder, false⟩] },
        [.trackRest holder tracker started])
    else (s, [])
  | .combine holder parts => ({ s with holdings := s.holdings.combine holder parts }, [])
  | .dispose holder =>
    match s.holdings.get? holder with
    | some subscription =>
      ({ s with holdings := s.holdings.set holder .spent }, [.revoke subscription])
    | none => (s, [])
  | .call caller c => (if s.handle then s.call caller c else s, [])

/-- Calls what is registered for a notification. -/
def deliver (s : System) (params : Json) : Callback → System × List Instr
  | .any listener => (s, [.listener listener params])
  | .shaped listener method shape =>
    match shape.read params with
    | .ok payload => (s, [.listener listener payload])
    | .error why => (s.warn s!"skipping malformed {method} notification: {why.message}", [])
  | .refreshed listener => (s, [.listener listener (.str "refreshed")])
  | .trackStart tracker =>
    match s.trackers[tracker]? with
    | some ⟨name, false⟩ =>
      ({ s with trackers := s.trackers.set tracker ⟨name, true⟩ }.record
        (.reported name (.report (some "Refreshing workspace") none)), [])
    | _ => (s, [])
  | .trackEnd tracker =>
    match s.trackers[tracker]? with
    | some ⟨name, true⟩ =>
      ({ s with trackers := s.trackers.set tracker ⟨name, false⟩ }.record
        (.reported name .finish), [])
    | _ => (s, [])
  | .completion task => ({ s with completed := task :: s.completed }, [])

def begin (s : System) : Call → System × List Instr
  | .request method (.ok params) shape => (s, [.look (.request method params shape 0) false])
  | .request method (.error why) _ =>
    (s.warn s!"could not serialize params for {method}: {why}", [.finish (.answer none)])
  | .notify method (.ok params) => (s, [.look (.notify method params) false])
  | .notify _ (.error why) => (s, [.finish (.sent (.error (.invalidParams why)))])
  | .shutdown => (s, [.halt, .finish .done])
  | .refresh _ => (s, [.refreshBegin])

def look (s : System) (need : Need) (awaitedStart : Bool) : List Instr :=
  match s.published with
  | .running => [.take need awaitedStart s.version]
  | .idle =>
    if awaitedStart then [.use need (.error .workerUnavailable)]
    else [.handle (.start none), .wait need true s.version]
  | .starting => [.wait need true s.version]
  | .stopping => [.wait need awaitedStart s.version]

/-- Goes on with the connection of a running machine. -/
def take (s : System) (need : Need) (awaitedStart : Bool) (seen : Nat) : List Instr :=
  if s.machine.state = .running then
    match s.machine.connection with
    | some c => [.use need (.ok c)]
    | none => [.use need (.error .notInitialized)]
  else [.wait need awaitedStart seen]

/-- Goes on with a connection, or without one. -/
def use (s : System) : Need → Except SupervisorError ConnectionId → System × List Instr
  | .request method params shape retries, .ok c =>
    (s, [.ask c method params (.answer shape retries)])
  | .request method _ _ _, .error why =>
    (s.warn s!"dropping request {method}: {why.message}", [.finish (.answer none)])
  | .notify method params, .ok c => (s, [.tell c method params .caller])
  | .notify _ _, .error why => (s, [.finish (.sent (.error why))])
  | .refresh completion, .ok c => (s, [.tell c refresh none (.refresh completion)])
  | .refresh completion, .error why => (s, [.drop completion, .refreshEnd (.error why)])

/-- Goes on with the answer to a request. -/
def answered (s : System) (method : String) (params : Option Json) (shape : Option Json.Shape)
    (retries : Nat) : Except TransportError Json → System × List Instr
  | .ok v =>
    match shape with
    | none => (s, [.finish (.answer (some v))])
    | some shape =>
      match shape.read v with
      | .ok v => (s, [.finish (.answer (some v))])
      | .error why =>
        (s.warn s!"unexpected result for {method}: {why.message}", [.finish (.answer none)])
  | .error why =>
    if why.responseCode? = some s.options.busyCode then
      if s.options.maxBusyRetries ≤ retries then
        (s.warn s!"worker still busy after {retries} retries, giving up on {method}",
          [.finish (.answer none)])
      else (s, [.look (.request method params shape (retries + 1)) false])
    else (s.warn s!"request {method} failed: {why.message}", [.finish (.answer none)])

/-- Goes on after a notification was sent or not. -/
def receipted (s : System) (method : String) (receipt : Receipt) (r : Except TransportError Unit) :
    System × List Instr :=
  match receipt, r with
  | .caller, .ok () => (s, [.finish (.sent (.ok ()))])
  | .caller, .error why =>
    (s.warn s!"notification {method} not delivered: {why.message}", [.finish (.sent (.ok ()))])
  | .workspace, .ok () => (s, [])
  | .workspace, .error why =>
    (s.warn s!"could not tell worker about workspace change: {why.message}", [])
  | .refresh completion, .ok () => (s, [.awaitCompletion completion])
  | .refresh completion, .error why =>
    (s.warn s!"notification {method} not delivered: {why.message}", [.awaitCompletion completion])

/-- Begins a refresh: a running worker is first asked to stop the daemon. -/
def refreshBegin (s : System) : List Instr :=
  let rest := [.report (.report (some "Restarting worker") (some 30)), .halt, .refreshListen]
  match s.machine.state, s.machine.connection with
  | .running, some c =>
    .report (.report (some "Stopping daemon") (some 10)) :: .ask c stopDaemon none .ignore :: rest
  | _, _ => .report (.report none (some 10)) :: rest

/-- One instruction of a task: the system afterwards, and what the task has to do instead of it.
`none` when the task has to wait, or the answer does not fit. -/
def exec (s : System) (task : TaskId) (caller : String) :
    Instr → Answer → Option (System × List Instr)
  | .handle e, .nothing => some (if s.alive then s.apply e else (s, []))
  | .perform e, .nothing => some (s.spawn (taskFor e), [])
  | .act a, .nothing => some (s.act a)
  | .begin c, .nothing => some (s.begin c)
  | .look need awaitedStart, .nothing => some (s, s.look need awaitedStart)
  | .take need awaitedStart seen, .nothing => some (s, s.take need awaitedStart seen)
  | .wait need awaitedStart seen, .nothing =>
    if s.version ≠ seen then some (s, [.look need awaitedStart]) else none
  | .use need connection, .nothing => some (s.use need connection)
  | .halt, .nothing =>
    if s.machine.state = .idle then some (s, [])
    else
      let seen := s.machine.idleEpoch
      let (s, effects) := s.apply .stop
      some (s, effects ++ [.awaitIdle seen])
  | .awaitIdle seen, .nothing => if seen < s.machine.idleEpoch then some (s, []) else none
  | .ask _ method params (.answer shape retries), .replied r =>
    some (s.answered method params shape retries r)
  | .ask _ _ _ .ignore, .replied _ => some (s, [])
  | .tell _ method _ receipt, .sent r => some (s.receipted method receipt r)
  | .launch generation _, .launched r => some (s, [.handle (.launched generation r)])
  | .shutDown generation connection, .ending e =>
    match e with
    | .ended => some (s, [.handle (.tornDown generation)])
    | .failed why =>
      some (s.warn s!"worker shutdown failed, killing it: {why.message}",
        [.kill connection, .handle (.tornDown generation)])
    | .elapsed =>
      let limit := Text.renderSpan s.options.shutdownTimeout
      some (s.warn s!"worker didn't exit within {limit}, killing it",
        [.kill connection, .handle (.tornDown generation)])
  | .kill _, .nothing => some (s, [])
  | .watchExit generation _, .exited reason =>
    some (s.warn s!"worker {reason.message}", [.handle (.exited generation)])
  | .receive _, .received none => some (s, [])
  | .receive connection, .received (some n) =>
    some (s, (s.listeners.snapshot n.method).map (.deliver · (n.params.getD .null))
      ++ [.receive connection])
  | .deliver callback params, .nothing => some (s.deliver params callback)
  | .listener l payload, .actions as =>
    some (s.record (.delivered l.name payload), as.map .act)
  | .refreshBegin, .nothing => some (s, s.refreshBegin)
  | .report p, .nothing =>
    some (if p.passes (s.cancelled.contains task) then s.record (.reported caller p) else s, [])
  | .refreshListen, .nothing =>
    let (s, completion) := s.listen refresh (.completion task)
    some (s, [.handle (.start none),
      .report (.report (some "Refreshing workspace") (some 30)), .look (.refresh completion) false])
  | .awaitCompletion completion, .nothing =>
    if s.completed.contains task || s.cancelled.contains task then
      some (s, [.drop completion, .refreshEnd (.ok ())])
    else none
  | .drop subscription, .nothing => some (s.dispose subscription, [])
  | .refreshEnd r, .nothing =>
    let s := s.record (.reported caller .finish)
    match r with
    | .ok () => some (s, [.finish (.sent (.ok ()))])
    | .error why =>
      some (s.record (.logged .error s!"workspace refresh failed: {why.message}"),
        [.finish (.sent (.error (.refreshFailed why)))])
  | .finish r, .nothing => some (s.record (.finished caller r), [])
  | .trackRest holder tracker started, .nothing =>
    let (s, ended) := s.listen refresh (.trackEnd tracker)
    some ({ s with holdings := s.holdings.set holder (.combined [started, ended]) }, [])
  | .revoke subscription, .nothing => some (s.revoke subscription)
  | _, _ => none

/-- What is left to do when the last handle is gone. -/
def release (s : System) : System :=
  if s.alive then s else s.detach

/-- One step of a task. A task that was aborted while it was parked takes no further step. -/
def step (s : System) (t : TaskId) (a : Answer) : Option System :=
  match s.pool.get? t with
  | some ⟨caller, i :: rest, parked, aborted⟩ =>
    if parked && aborted then none
    else
      match s.exec t (caller.getD "") i a with
      | some (s, before) =>
        let s := { s with pool := s.pool.proceed t (before ++ rest) }
        some (if before.isEmpty && rest.isEmpty then s.release else s)
      | none => none
  | _ => none

/-- A task finds nothing to go on with. -/
def park (s : System) (t : TaskId) : System :=
  { s with pool := s.pool.park t }.release

def cancel (s : System) (t : TaskId) : System :=
  { s with cancelled := t :: s.cancelled }

def dropHandle (s : System) : System :=
  { s with handle := false }.release

def text (s : System) : String :=
  let shown (o : Option String) : String := match o with
    | some x => s!"Some({x})"
    | none => "None"
  let state := s!"state: {s.machine.state.title}"
  let pid := s!"pid: {shown (s.machine.pid.map toString)}"
  let path := s!"workspace_path: {shown (s.machine.path.map Path.quoted)}"
  s!"WorkerSupervisor \x7b {state}, {pid}, {path}, .. \x7d"

end System

end Supervision.Worker
