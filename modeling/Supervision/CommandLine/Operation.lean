import Supervision.CommandLine.Reader
import Supervision.Session.Launch
import Supervision.Task.Schedule
import Supervision.Worker.System

/-!
# Carrying out a command

A supervisor whose workers are sessions. The command is a call of the supervisor; once it is done
the worker is shut down. Tasks take turns as long as any can go on, then the sessions do, and time
moves on when nothing else can.
-/

namespace Supervision.CommandLine

open Worker

/-- A supervisor, its workers and the time. -/
structure Operation where
  system : System
  launcher : Launcher
  host : Host
  now : Nat
  sessions : List Session
  /-- The errands of tasks: on which connection, and which. -/
  errands : List (TaskId × ConnectionId × ErrandId)
  /-- Until when tasks wait for the end of a worker. -/
  limits : List (TaskId × Nat)
  /-- The number of steps that were taken. -/
  steps : Nat

namespace Operation

/-- The one who calls for the command. -/
def caller : String := "command"

/-- The one who calls for the end. -/
def closer : String := "shutdown"

/-- A supervisor before the command. -/
def start (options : Options) (launcher : Launcher) (host : Host) : Operation where
  system := .initial options
  launcher := launcher
  host := host
  now := 0
  sessions := []
  errands := []
  limits := []
  steps := 0

def begin (o : Operation) (t : TaskId) (c : ConnectionId)
    (errand : Session → ErrandId × Session) : Operation :=
  match o.sessions[c]? with
  | some s =>
    let (e, s) := errand s
    { o with sessions := o.sessions.set c s, errands := (t, c, e) :: o.errands }
  | none => o

def forget (o : Operation) (t : TaskId) : Operation :=
  { o with
    errands := o.errands.filter (fun e => e.1 ≠ t)
    limits := o.limits.filter (fun e => e.1 ≠ t) }

/-- How the errand of a task stands: not begun, on its way, or done. -/
inductive Standing
  | absent
  | busy (c : ConnectionId) (e : ErrandId)
  | done (c : ConnectionId) (r : Report)

/-- How the errand of a task stands. -/
def standing (o : Operation) (t : TaskId) : Standing :=
  match o.errands.lookup t with
  | none => .absent
  | some (c, e) =>
    match o.sessions[c]?.bind (·.report? e) with
    | some r => .done c r
    | none => .busy c e

def onSession (o : Operation) (c : ConnectionId) (f : Session → Session) : Operation :=
  { o with sessions := o.sessions.modify c f }

def launch (o : Operation) (t : TaskId) (path : Path) : Operation × Option Answer :=
  match o.standing t with
  | .absent =>
    match o.launcher.spawn o.host path with
    | .error causes => (o, some (.launched (.error (.launch causes))))
    | .ok (e, s) =>
      ({ o with
          sessions := o.sessions ++ [s]
          errands := (t, o.sessions.length, e) :: o.errands }, none)
  | .busy _ _ => (o, none)
  | .done c r =>
    match r with
    | .opened (.ok pid) => (o, some (.launched (.ok ⟨c, some pid⟩)))
    | .opened (.error causes) =>
      (o.onSession c Session.destroy, some (.launched (.error (.launch causes))))
    | _ => (o, none)

def ask (o : Operation) (t : TaskId) (c : ConnectionId) (method : String) (params : Option Json) :
    Operation × Option Answer :=
  match o.standing t with
  | .absent => (o.begin t c (·.ask method params o.launcher.requestLimit), none)
  | .busy _ _ => (o, none)
  | .done _ (.asked r) => (o, some (.replied r))
  | .done _ _ => (o, none)

def tell (o : Operation) (t : TaskId) (c : ConnectionId) (method : String) (params : Option Json) :
    Operation × Option Answer :=
  match o.standing t with
  | .absent => (o.begin t c (·.tell method params), none)
  | .busy _ _ => (o, none)
  | .done _ (.told r) => (o, some (.sent r))
  | .done _ _ => (o, none)

/-- How the end of a worker stands. -/
def shutDown (o : Operation) (t : TaskId) (c : ConnectionId) : Operation × Option Answer :=
  match o.standing t with
  | .absent =>
    let o := o.begin t c Session.close
    ({ o with limits := (t, o.now + o.system.options.shutdownTimeout) :: o.limits }, none)
  | .busy c e =>
    if (o.limits.lookup t).any (· ≤ o.now) then
      (o.onSession c (·.giveUp e), some (.ending .elapsed))
    else (o, none)
  | .done _ _ => (o, some (.ending .ended))

/-- What comes from outside for an instruction of a task, if it is there. -/
def respond (o : Operation) (t : TaskId) : Instr → Operation × Option Answer
  | .launch _ path => o.launch t path
  | .ask c method params _ => o.ask t c method params
  | .tell c method params _ => o.tell t c method params
  | .shutDown _ c => o.shutDown t c
  | .kill c => (o.onSession c Session.kill, some .nothing)
  | .watchExit _ c => (o, (o.sessions[c]?.bind (·.peer.exit)).map .exited)
  | .receive c =>
    match o.sessions[c]? with
    | none => (o, none)
    | some s =>
      match s.takeOne with
      | some (n, s) => ({ o with sessions := o.sessions.set c s }, some (.received (some n)))
      | none => (o, if s.isDrained then some (.received none) else none)
  | .listener _ _ => (o, some (.actions []))
  | _ => (o, some .nothing)

/-- A turn of a task, of at most so many steps. -/
def turn : Nat → Operation → TaskId → Operation
  | 0, o, _ => o
  | fuel + 1, o, t =>
    match o.system.pool.get? t with
    | none => o
    | some task =>
      match task.stack with
      | [] => o
      | i :: _ =>
        match o.respond t i with
        | (o, none) => { o with system := o.system.park t }
        | (o, some answer) =>
          match o.system.step t answer with
          | none => { o with system := o.system.park t }
          | some system =>
            let o := match answer with
              | .nothing => o
              | _ => o.forget t
            turn fuel { o with system := system, steps := o.steps + 1 } t

/-- How many steps a turn may have. -/
def turnFuel : Nat := 100000

/-- A turn of every task, in the order in which they were made. -/
def round (o : Operation) : Operation :=
  (o.system.pool.tasks.map (·.1)).foldl (turn turnFuel) o

/-- The sessions do what they can at present, as long as they may. Says whether they did
anything. -/
def settleSessions (o : Operation) : Bool × Operation :=
  let busy := o.sessions.any (fun s => (s.pulse o.now).isSome)
  (busy, { o with sessions := o.sessions.map (·.settle o.now) })

/-- How often a worker interrupted the program. -/
def interrupts (o : Operation) : Nat :=
  o.sessions.foldl (fun n s => n + s.peer.interrupts) 0

def result? (o : Operation) (name : String) : Option Result :=
  o.system.history.findSome? (fun h => match h with
    | .finished caller r => if caller = name then some r else none
    | _ => none)

/-- The latest unfinished task of a caller. -/
def taskOf? (o : Operation) (name : String) : Option TaskId :=
  ((o.system.pool.tasks.filter (fun e => e.2.caller = some name)).getLast?).map (·.1)

def cancel (o : Operation) (name : String) : Operation :=
  match o.taskOf? name with
  | some t => { o with system := o.system.cancel t }
  | none => o

/-- The next moment at which something may happen by itself. -/
def nextMoment? (o : Operation) : Option Nat :=
  ((o.sessions.filterMap (·.nextMoment?) ++ o.limits.map (·.2)).filter (o.now < ·)).min?

/-- How a wait ended. -/
inductive Wait
  | finished (r : Result)
  | interrupted
  /-- It never ends. -/
  | stuck

/-- Waits, through at most so many rounds, until a caller has its result. An interrupt cancels what
the caller waits for if the program heeds it, and ends the program if not. -/
def await (name : String) (heeds : Bool) : Nat → Operation → Wait × Operation
  | 0, o => (.stuck, o)
  | fuel + 1, o =>
    let steps := o.steps
    let o := o.round
    match o.result? name with
    | some r => (.finished r, o)
    | none =>
      let (busy, o) := o.settleSessions
      if 0 < o.interrupts ∧ !heeds then (.interrupted, o)
      else
        let o := if 0 < o.interrupts then o.cancel caller else o
        if busy || steps < o.steps then await name heeds fuel o
        else
          match o.nextMoment? with
          | some t => await name heeds fuel { o with now := t }
          | none => (.stuck, o)

/-- How many rounds a wait may have. -/
def awaitFuel : Nat := 100000

def perform (o : Operation) (a : Action) : Operation :=
  let t := o.system.pool.next
  turn turnFuel { o with system := o.system.spawn [.act a] } t

/-- The call that carries out a command. -/
def callFor : Command → Call
  | .request method params => .request method (.ok params) none
  | .notify method params => .notify method (.ok params)
  | .refresh => .refresh false

/-- Whether an interrupt is heeded while a command is carried out. -/
def heeds : Command → Bool
  | .refresh => true
  | _ => false

/-- How a command ended: what it came to, if it came to anything, whether there had been an
interrupt by then, and whether the worker was shut down afterwards. -/
structure Ending where
  result : Option Result
  interrupted : Bool
  closed : Bool

/-- Carries out a command in a workspace, and shuts the worker down. -/
def carryOut (o : Operation) (workspace : Path) (command : Command) : Ending × Operation :=
  let o := (o.perform (.setPath workspace)).perform (.call caller (callFor command))
  match await caller (heeds command) awaitFuel o with
  | (.finished r, o) =>
    let interrupted : Bool := 0 < o.interrupts
    match await closer (heeds command) awaitFuel (o.perform (.call closer .shutdown)) with
    | (.finished _, o) => (⟨some r, interrupted, true⟩, o)
    | (_, o) => (⟨some r, interrupted, false⟩, o)
  | (_, o) => (⟨none, 0 < o.interrupts, false⟩, o)

def progress (o : Operation) : List Progress :=
  o.system.history.reverse.filterMap (fun h => match h with
    | .reported _ p => some p
    | _ => none)

/-- What the supervisor wrote in the log. -/
def warnings (o : Operation) : List String :=
  o.system.history.reverse.filterMap (fun h => match h with
    | .logged level text => some s!"{level.name} {text}"
    | _ => none)

def received (o : Operation) : List Json :=
  (o.sessions.filter (fun s => !s.peer.echoes)).flatMap (·.peer.heard)

end Operation

end Supervision.CommandLine
