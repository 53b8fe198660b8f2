import Supervision.Task.Schedule
import Supervision.Worker.System

/-!
# Rehearsing the supervision of a worker

A supervisor among workers that follow a script: how each launch goes, what a request is answered
with and after how long, and how a worker ends. Tasks take their turns first come, first served, and
time moves on only when it is told to. A rehearsal is carried out step by step; `rest` lets the
tasks run until all of them wait.
-/

namespace Supervision.Worker

open Message

/-- What a request is answered with. -/
inductive Reply
  | echo
  | result (v : Json)
  | fail (why : TransportError)

/-- How a request is answered. -/
structure ReplyScript where
  delay : Option Nat
  /-- Whether the answer waits for the end of the worker. -/
  hold : Bool
  reply : Reply

/-- How a worker ends when it is asked to. -/
structure EndScript where
  /-- Whether it never does. -/
  hang : Bool
  delay : Option Nat
  fail : Option TransportError

/-- How a launch goes. -/
structure LaunchScript where
  delay : Option Nat
  /-- Whether it never comes to an end. -/
  never : Bool
  fail : Option TransportError
  /-- The process, if not the one that follows from the number of the launch. -/
  pid : Option (Option Nat)
  /-- The notifications that are there from the beginning. -/
  early : List Notification
  /-- How the worker ended before the beginning. -/
  exit : Option ExitReason
  ending : EndScript

/-- A request is answered at once, with itself. -/
def ReplyScript.standard : ReplyScript := ⟨none, false, .echo⟩

def EndScript.standard : EndScript := ⟨false, none, none⟩

/-- A launch delivers a worker at once. -/
def LaunchScript.standard : LaunchScript := ⟨none, false, none, none, [], none, .standard⟩

/-- A connection to a worker, and what it got since it was last looked at. -/
structure Connection where
  exit : Option ExitReason
  inbox : List Notification
  /-- Whether notifications may still arrive. -/
  isOpen : Bool
  ending : EndScript
  requests : List Json
  notifications : List Json
  shutdowns : Nat
  kills : Nat

/-- How many notifications a connection holds. -/
def Connection.capacity : Nat := 64

/-- Whether the worker lives. -/
def Connection.alive (c : Connection) : Bool :=
  c.exit.isNone

/-- Where something that takes time stands. -/
inductive Stage
  /-- A launch, until a moment or for ever. -/
  | launching (number : Nat) (script : LaunchScript) (due : Option Nat)
  /-- An answer, until a moment. -/
  | replying (script : ReplyScript) (due : Nat)
  /-- An answer, until the end of the worker. -/
  | holding (connection : ConnectionId) (script : ReplyScript)
  /-- The end of a worker, until a moment or for ever, with a limit. -/
  | ending (script : EndScript) (due : Option Nat) (limit : Nat)

structure Rehearsal where
  system : System
  schedule : Schedule
  codes : List (List Action)
  launches : List LaunchScript
  replies : List ReplyScript
  /-- How many notifications are still refused. -/
  notifyFails : Nat
  /-- Whether a worker says at once that a refresh is complete. -/
  echoRefresh : Bool
  /-- The number of launches so far. -/
  launchCount : Nat
  /-- The launches since they were last looked at, latest first: the workspace, and the number of
  workers alive. -/
  launched : List (Path × Nat)
  connections : List Connection
  stages : List (TaskId × Stage)

/-- A step of a rehearsal. -/
inductive Step
  | script (launches : List LaunchScript) (replies : List ReplyScript) (notifyFails : Option Nat)
      (echoRefresh : Option Bool)
  | act (a : Action)
  | emit (connection : ConnectionId) (n : Notification) (times : Nat)
  | exit (connection : ConnectionId) (reason : ExitReason)
  | closeNotifications (connection : ConnectionId)
  | advance (ms : Nat)
  | cancel (caller : String)
  | abort (caller : String)
  | drop
  | look

namespace Rehearsal

/-- A rehearsal before its first step. -/
def start (options : Options) (codes : List (List Action)) : Rehearsal where
  system := .initial options
  schedule := .start
  codes := codes
  launches := []
  replies := []
  notifyFails := 0
  echoRefresh := false
  launchCount := 0
  launched := []
  connections := []
  stages := []

def onConnection (r : Rehearsal) (c : ConnectionId) (f : Connection → Connection) : Rehearsal :=
  { r with connections := r.connections.modify c f }

/-- Whether a worker lives. -/
def alive (r : Rehearsal) (c : ConnectionId) : Bool :=
  match r.connections[c]? with
  | some conn => conn.alive
  | none => false

/-- The tasks whose next instruction satisfies a test go on. -/
def wake (r : Rehearsal) (test : Instr → Bool) : Rehearsal :=
  { r with schedule := r.schedule.enqueueAll (r.system.pool.waiting test) }

/-- Sets where the business of a task stands. -/
def setStage (r : Rehearsal) (t : TaskId) (stage : Stage) : Rehearsal :=
  { r with stages := (t, stage) :: r.stages.filter (fun e => e.1 ≠ t) }

def settleTask (r : Rehearsal) (t : TaskId) : Rehearsal :=
  { r with
    stages := r.stages.filter (fun e => e.1 ≠ t)
    schedule := r.schedule.forget t }

/-- The tasks whose answers wait for the end of a worker, in the order in which they began to. -/
def heldBy (r : Rehearsal) (c : ConnectionId) : List TaskId :=
  (r.stages.filterMap (fun e => match e.2 with
    | .holding conn _ => if conn = c then some e.1 else none
    | _ => none)).reverse

/-- A worker ends, unless it has. Those who watch for its end notice before those whose answers wait
for it. -/
def endWorker (r : Rehearsal) (c : ConnectionId) (reason : ExitReason) : Rehearsal :=
  if r.alive c then
    let r := r.onConnection c (fun conn => { conn with exit := some reason })
    let r := r.wake (fun i => match i with | .watchExit _ conn => conn == c | _ => false)
    { r with schedule := r.schedule.enqueueAll (r.heldBy c) }
  else r

/-- A notification arrives; one for which there is no room is lost. -/
def arrive (r : Rehearsal) (c : ConnectionId) (n : Notification) : Rehearsal :=
  match r.connections[c]? with
  | some conn =>
    if conn.isOpen && conn.inbox.length < Connection.capacity then
      (r.onConnection c (fun conn => { conn with inbox := conn.inbox ++ [n] })).wake
        (fun i => match i with | .receive conn => conn == c | _ => false)
    else r
  | none => r

/-- A message as it is noted down. -/
def noted (method : String) (params : Option Json) : Json :=
  match params with
  | some v => .arr [.str method, v]
  | none => .arr [.str method]

/-- Goes on with an answer that has been waited for long enough. -/
def resolveReply (r : Rehearsal) (c : ConnectionId) (method : String) (params : Option Json)
    (script : ReplyScript) : Rehearsal × Option Answer :=
  if !r.alive c then (r, some (.replied (.error .closed)))
  else
    match script.reply with
    | .result v => (r, some (.replied (.ok v)))
    | .fail why => (r, some (.replied (.error why)))
    | .echo =>
      (r, some (.replied (.ok (Json.object
        [("method", .str method), ("params", params.getD .null)]))))

/-- Goes on with an answer after its delay. -/
def holdReply (r : Rehearsal) (t : TaskId) (c : ConnectionId) (method : String)
    (params : Option Json) (script : ReplyScript) : Rehearsal × Option Answer :=
  if script.hold && r.alive c then (r.setStage t (.holding c script), none)
  else r.resolveReply c method params script

/-- How the answer to a request stands. -/
def reply (r : Rehearsal) (t : TaskId) (c : ConnectionId) (method : String)
    (params : Option Json) : Rehearsal × Option Answer :=
  match r.stages.lookup t with
  | some (.replying script due) =>
    if due ≤ r.schedule.now then r.holdReply t c method params script else (r, none)
  | some (.holding _ script) =>
    if r.alive c then (r, none) else r.resolveReply c method params script
  | _ =>
    let r := r.onConnection c (fun conn =>
      { conn with requests := noted method params :: conn.requests })
    if !r.alive c then (r, some (.replied (.error .closed)))
    else
      let script := r.replies.headD .standard
      let r := { r with replies := r.replies.tail }
      match script.delay with
      | some (d + 1) =>
        let due := r.schedule.now + (d + 1)
        let r := r.setStage t (.replying script due)
        ({ r with schedule := r.schedule.wakeAt due t }, none)
      | _ => r.holdReply t c method params script

def accept (r : Rehearsal) (c : ConnectionId) (method : String) (params : Option Json) :
    Rehearsal × Option Answer :=
  if !r.alive c then (r, some (.sent (.error .closed)))
  else
    match r.notifyFails with
    | n + 1 => ({ r with notifyFails := n }, some (.sent (.error .closed)))
    | 0 =>
      let r := r.onConnection c (fun conn =>
        { conn with notifications := noted method params :: conn.notifications })
      let r := if r.echoRefresh && method == refresh then r.arrive c ⟨refresh, none⟩ else r
      (r, some (.sent (.ok ())))

def resolveLaunch (r : Rehearsal) (number : Nat) (script : LaunchScript) :
    Rehearsal × Option Answer :=
  match script.fail with
  | some why => (r, some (.launched (.error why)))
  | none =>
    let connection : Connection :=
      { exit := script.exit
        inbox := script.early.take Connection.capacity
        isOpen := true
        ending := script.ending
        requests := []
        notifications := []
        shutdowns := 0
        kills := 0 }
    ({ r with connections := r.connections ++ [connection] },
      some (.launched (.ok ⟨r.connections.length, script.pid.getD (some (1000 + number))⟩)))

def launch (r : Rehearsal) (t : TaskId) (path : Path) : Rehearsal × Option Answer :=
  match r.stages.lookup t with
  | some (.launching number script due) =>
    match due with
    | none => (r, none)
    | some due =>
      if r.schedule.now < due then (r, none)
      else if script.never then (r.setStage t (.launching number script none), none)
      else r.resolveLaunch number script
  | _ =>
    let live := r.connections.countP Connection.alive
    let number := r.launchCount
    let script := r.launches.headD .standard
    let r := { r with
      launched := (path, live) :: r.launched
      launchCount := number + 1
      launches := r.launches.tail }
    match script.delay with
    | some (d + 1) =>
      let due := r.schedule.now + (d + 1)
      let r := r.setStage t (.launching number script (some due))
      ({ r with schedule := r.schedule.wakeAt due t }, none)
    | _ =>
      if script.never then (r.setStage t (.launching number script none), none)
      else r.resolveLaunch number script

/-- Goes on with the end of a worker: it may have come, or the limit. -/
def resolveEnd (r : Rehearsal) (c : ConnectionId) (script : EndScript) (due : Option Nat)
    (limit : Nat) : Rehearsal × Option Answer :=
  if due.any (· ≤ r.schedule.now) then
    match script.fail with
    | some why => (r, some (.ending (.failed why)))
    | none => (r.endWorker c (.exited (some 0)), some (.ending .ended))
  else if limit ≤ r.schedule.now then (r, some (.ending .elapsed))
  else (r, none)

/-- How the end of a worker stands. -/
def shutDown (r : Rehearsal) (t : TaskId) (c : ConnectionId) : Rehearsal × Option Answer :=
  match r.stages.lookup t with
  | some (.ending script due limit) => r.resolveEnd c script due limit
  | _ =>
    let r := r.onConnection c (fun conn => { conn with shutdowns := conn.shutdowns + 1 })
    let script := match r.connections[c]? with
      | some conn => conn.ending
      | none => .standard
    let now := r.schedule.now
    let due := if script.hang then none else some (now + script.delay.getD 0)
    let limit := now + r.system.options.shutdownTimeout
    match r.resolveEnd c script due limit with
    | (r, some answer) => (r, some answer)
    | (r, none) =>
      let r := r.setStage t (.ending script due limit)
      let schedule := match due with
        | some due => r.schedule.wakeAt due t
        | none => r.schedule
      ({ r with schedule := schedule.wakeAt limit t }, none)

/-- What comes from outside for an instruction of a task, if it is there. -/
def respond (r : Rehearsal) (t : TaskId) : Instr → Rehearsal × Option Answer
  | .ask c method params _ => r.reply t c method params
  | .tell c method params _ => r.accept c method params
  | .launch _ path => r.launch t path
  | .shutDown _ c => r.shutDown t c
  | .kill c =>
    let r := r.onConnection c (fun conn => { conn with kills := conn.kills + 1 })
    (r.endWorker c (.exited none), some .nothing)
  | .watchExit _ c =>
    match r.connections[c]? with
    | some conn => (r, conn.exit.map .exited)
    | none => (r, none)
  | .receive c =>
    match r.connections[c]? with
    | some conn =>
      match conn.inbox with
      | n :: rest =>
        (r.onConnection c (fun conn => { conn with inbox := rest }), some (.received n))
      | [] => (r, if conn.isOpen then none else some (.received none))
    | none => (r, none)
  | .listener l _ => (r, some (.actions ((r.codes[l.code]?).getD [])))
  | _ => (r, some .nothing)

/-- Takes over the system after a step: new tasks queue, and those go on for whom something
changed. -/
def adopt (r : Rehearsal) (s : System) : Rehearsal :=
  let before := r.system
  let fresh := (List.range (s.pool.next - before.pool.next)).map (· + before.pool.next)
  let r := { r with
    system := s
    schedule := (r.schedule.enqueueAll s.pool.doomed).enqueueAll fresh }
  let r := if s.machine.idleEpoch ≠ before.machine.idleEpoch then
      r.wake (fun i => match i with | .awaitIdle _ => true | _ => false) else r
  let r := if s.version ≠ before.version then
      r.wake (fun i => match i with | .wait .. => true | _ => false) else r
  if s.completed.length ≠ before.completed.length ∨
      s.cancelled.length ≠ before.cancelled.length then
    r.wake (fun i => match i with | .awaitCompletion _ => true | _ => false)
  else r

def turn : Nat → Rehearsal → TaskId → Rehearsal
  | 0, r, _ => r
  | fuel + 1, r, t =>
    match r.system.pool.get? t with
    | none => r.settleTask t
    | some task =>
      if task.parked && task.aborted then (r.adopt (r.system.park t)).settleTask t
      else
        match task.stack with
        | [] => r
        | i :: _ =>
          match r.respond t i with
          | (r, none) => r.adopt (r.system.park t)
          | (r, some answer) =>
            match r.system.step t answer with
            | none => r.adopt (r.system.park t)
            | some s =>
              let r := match answer with
                | .nothing => r
                | _ => r.settleTask t
              turn fuel (r.adopt s) t

/-- How many instructions a turn may take. -/
def turnFuel : Nat := 1000000

/-- Gives turns, at most so many, until all tasks wait. -/
def settle : Nat → Rehearsal → Rehearsal
  | 0, r => r
  | fuel + 1, r =>
    match r.schedule.pop? with
    | none => r
    | some (t, schedule) => settle fuel (turn turnFuel { r with schedule := schedule } t)

/-- How many turns may be taken before all tasks wait. -/
def settleFuel : Nat := 1000000

/-- Lets time pass up to a moment. -/
def passTo (limit : Nat) : Nat → Rehearsal → Rehearsal
  | 0, r => r
  | fuel + 1, r =>
    match r.schedule.advance? limit with
    | none => { r with schedule := { r.schedule with now := limit } }
    | some schedule => passTo limit fuel (settle settleFuel { r with schedule := schedule })

/-- Does at once what a user wants. -/
def perform (r : Rehearsal) (a : Action) : Rehearsal :=
  let t := r.system.pool.next
  turn turnFuel { r with system := r.system.spawn [.act a] } t

/-- The latest unfinished call of a caller. -/
def callOf? (r : Rehearsal) (caller : String) : Option TaskId :=
  ((r.system.pool.tasks.filter (fun e => e.2.caller = some caller)).getLast?).map (·.1)

/-- Carries out a step, without giving turns. -/
def step (r : Rehearsal) : Step → Rehearsal
  | .script launches replies notifyFails echoRefresh =>
    { r with
      launches := r.launches ++ launches
      replies := r.replies ++ replies
      notifyFails := notifyFails.getD r.notifyFails
      echoRefresh := echoRefresh.getD r.echoRefresh }
  | .act a => r.perform a
  | .emit c n times => (List.range times).foldl (fun r _ => r.arrive c n) r
  | .exit c reason => r.endWorker c reason
  | .closeNotifications c =>
    (r.onConnection c (fun conn => { conn with isOpen := false })).wake
      (fun i => match i with | .receive conn => conn == c | _ => false)
  | .advance ms => passTo (r.schedule.now + ms) settleFuel (settle settleFuel r)
  | .cancel caller =>
    match r.callOf? caller with
    | some t => r.adopt (r.system.cancel t)
    | none => r
  | .abort caller =>
    match r.callOf? caller with
    | some t => r.adopt { r.system with pool := r.system.pool.abort t }
    | none => r
  | .drop => r.adopt r.system.dropHandle
  | .look => r

/-- Gives turns until all tasks wait. -/
def rest (r : Rehearsal) : Rehearsal :=
  settle settleFuel r

def forgetPast (r : Rehearsal) : Rehearsal :=
  { r with
    system := { r.system with history := [] }
    launched := []
    connections := r.connections.map (fun c =>
      { c with requests := [], notifications := [], shutdowns := 0, kills := 0 }) }

end Rehearsal

end Supervision.Worker
