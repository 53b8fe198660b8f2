import Supervision.Link.Basic
import Supervision.Message.Handshake

/-!
# Errands

What someone does with a link from beginning to end: open it, ask for something, tell something,
close it. An errand goes on one step of the link at a time and may have to wait between any two.
-/

namespace Supervision

open Message

/-- How an errand ended. -/
inductive Report
  | asked (result : Except TransportError Json)
  | told (result : Except TransportError Unit)
  /-- The process number, or the causes of a failure. -/
  | opened (result : Except (List String) Nat)
  | closed

/-- Where an errand stands. -/
inductive Errand
  | ask (c : CallId)
  /-- A notification is handed to the writer. -/
  | tell (frame : Json)
  /-- The first call is waited for. -/
  | greet (child : Nat) (c : CallId)
  /-- The worker is told that it may begin. -/
  | welcome (pid : Nat)
  | retire (c : CallId)
  | farewell
  | hangUp
  /-- The end of the process is waited for. -/
  | linger
  | done (r : Report)
  /-- Nobody wants its report. -/
  | dropped

namespace Errand

/-- How long the first call and the last may wait, in milliseconds. -/
def handshakeLimit : Nat := 30000

/-- The first call of a link. -/
def openingMethod : String := "initialize"

/-- What follows the first call. -/
def readyMethod : String := "initialized"

def closingMethod : String := "shutdown"

def exitMethod : String := "exit"

def asking (l : Link) (method : String) (params : Option Json) (limit : Option Nat) :
    Link × Errand :=
  let (c, l) := l.call method params limit
  (l, .ask c)

def telling (method : String) (params : Option Json) : Errand :=
  .tell (notification method params)

/-- Begins to open a link to a process. -/
def opening (l : Link) (child : Nat) (processId : Json) (workspace : Path) : Link × Errand :=
  let params := initializeParams processId workspace
  let (c, l) := l.call openingMethod (some params) (some handshakeLimit)
  (l, .greet child c)

def closing (l : Link) : Link × Errand :=
  let (c, l) := l.call closingMethod none (some handshakeLimit)
  (l, .retire c)

def openingFault (why : TransportError) : List String :=
  [s!"initialize failed: {why.message}"]

/-- Goes on with a call: with its result if it is finished, else by the step it takes. -/
def goOn (l : Link) (c : CallId) (again : Errand)
    (after : Except TransportError Json → Errand) : Option (Link × Errand) :=
  match l.result? c with
  | some r => some (l, after r)
  | none => (l.nextOf c).map (·, again)

/-- The next step of an errand; `none` when it has to wait. `exited` says whether the process has
ended. -/
def advance (exited : Bool) (l : Link) : Errand → Option (Link × Errand)
  | .ask c => goOn l c (.ask c) (fun r => .done (.asked r))
  | .tell frame =>
    if l.isMute then some (l, .done (.told (.error .closed)))
    else (l.post? (.send frame)).map (·, .done (.told (.ok ())))
  | .greet child c =>
    goOn l c (.greet child c) (fun r => match r with
      | .ok v => .welcome (Group.pidAfter child v)
      | .error why => .done (.opened (.error (openingFault why))))
  | .welcome pid =>
    if l.isMute then some (l, .done (.opened (.error ["writer channel closed"])))
    else
      (l.post? (.send (notification readyMethod (some (Json.object []))))).map
        (·, .done (.opened (.ok pid)))
  | .retire c =>
    goOn l c (.retire c) (fun r => match r with
      | .ok _ => .farewell
      | .error _ => .hangUp)
  | .farewell => (l.post? (.send (notification exitMethod none))).map (·, .hangUp)
  | .hangUp => (l.post? .stop).map (·, .linger)
  | .linger => if exited then some (l, .done .closed) else none
  | .done _ => none
  | .dropped => none

/-- The call that an errand waits for. -/
def call? : Errand → Option CallId
  | .ask c => some c
  | .greet _ c => some c
  | .retire c => some c
  | _ => none

def drop (l : Link) (e : Errand) : Link × Errand :=
  match e with
  | .done r => (l, .done r)
  | e =>
    match e.call?.bind (fun c => l.step (.abandon c)) with
    | some l => (l, .dropped)
    | none => (l, .dropped)

end Errand

end Supervision
