import Supervision.Frame.Reader
import Supervision.Link.Errand
import Supervision.Peer.Basic

/-!
# Sessions

A link and the process at its other end, with the bytes between them. `pulse` lets one of the
parties take one step that it can take at a moment: errands go first, then the writer, the process
and the reader, and what has waited too long gives up only when nothing else can be done. `settle`
goes on until nothing can.
-/

namespace Supervision

/-- An errand of a session, by the order in which it was begun. -/
abbrev ErrandId := Nat

/-- A link with a process. -/
structure Session where
  link : Link
  peer : Peer
  /-- The number of the process. -/
  child : Nat
  /-- The number by which the worker goes. -/
  pid : Nat
  /-- What the process wrote and the reader has yet to read. -/
  wire : List UInt8
  deadlines : List (CallId × Nat)
  errands : List Errand

namespace Session

/-- A session with a process that was just launched. -/
def start (child : Nat) (peer : Peer) : Session where
  link := .start
  peer := peer
  child := child
  pid := child
  wire := []
  deadlines := []
  errands := []

/-- A new errand, and the session with it. -/
def add (s : Session) (link : Link) (e : Errand) : ErrandId × Session :=
  (s.errands.length, { s with link := link, errands := s.errands ++ [e] })

def ask (s : Session) (method : String) (params : Option Json) (limit : Option Nat) :
    ErrandId × Session :=
  let (link, e) := Errand.asking s.link method params limit
  s.add link e

def tell (s : Session) (method : String) (params : Option Json) : ErrandId × Session :=
  s.add s.link (.telling method params)

def greet (s : Session) (processId : Json) (workspace : Path) : ErrandId × Session :=
  let (link, e) := Errand.opening s.link s.child processId workspace
  s.add link e

def close (s : Session) : ErrandId × Session :=
  let (link, e) := Errand.closing s.link
  s.add link e

/-- The report of an errand that is done. -/
def report? (s : Session) (e : ErrandId) : Option Report :=
  match s.errands[e]? with
  | some (.done r) => some r
  | _ => none

def giveUp (s : Session) (e : ErrandId) : Session :=
  match s.errands[e]? with
  | some errand =>
    let (link, errand) := errand.drop s.link
    { s with link := link, errands := s.errands.set e errand }
  | none => s

/-- Notes until when a call waits that has begun to. -/
def watch (s : Session) (now : Nat) (e : Errand) : Session :=
  match e.call? with
  | none => s
  | some c =>
    match s.link.calls[c]? with
    | some ⟨_, _, some limit, .waiting _, _⟩ =>
      if s.deadlines.any (fun d => d.1 = c) then s
      else { s with deadlines := s.deadlines ++ [(c, now + limit)] }
    | _ => s

/-- The first errand that can go on does, from a given one. -/
def advanceFrom (s : Session) (now : Nat) : ErrandId → List Errand → Option Session
  | _, [] => none
  | i, e :: rest =>
    match e.advance (!s.peer.alive) s.link with
    | some (link, e) =>
      let s := { s with link := link, errands := s.errands.set i e }
      let s := match e with
        | .done (.opened (.ok pid)) => { s with pid := pid }
        | _ => s
      some (s.watch now e)
    | none => s.advanceFrom now (i + 1) rest

/-- The writer does what it can. When it is gone, the input of the process ends. -/
def write (s : Session) : Option Session :=
  match s.link.writer with
  | .idle => (s.link.step .take).map (fun link => { s with link := link })
  | .writing frame =>
    if s.peer.alive then
      (s.link.step .wrote).map (fun link =>
        { s with link := link, peer := { s.peer with input := s.peer.input ++ [frame] } })
    else (s.link.step .fail).map (fun link => { s with link := link })
  | .ended =>
    if s.peer.inputOpen then some { s with peer := { s.peer with inputOpen := false } } else none

def act (s : Session) (now : Nat) : Option Session :=
  (s.peer.act now).map (fun (peer, bytes) => { s with peer := peer, wire := s.wire ++ bytes })

/-- The step of a reader that waits for a frame. Once the process is silent, the beginning of a
frame counts as the end. -/
def readStep? (s : Session) : Option (Link.Step × List UInt8) :=
  match Frame.arrival s.wire with
  | .frame v rest => some (.arrive v, rest)
  | .fault _ => some (.cease, [])
  | .incomplete => if s.peer.speaks then none else some (.cease, [])

def read (s : Session) : Option Session :=
  match s.link.reader with
  | .reading =>
    s.readStep?.bind (fun (step, rest) =>
      (s.link.step step).map (fun link => { s with link := link, wire := rest }))
  | .forwarding _ => (s.link.step .pass).map (fun link => { s with link := link })
  | .refusing _ => (s.link.step .pass).map (fun link => { s with link := link })
  | .leaving => (s.link.step .clear).map (fun link => { s with link := link })
  | .ended => none

/-- The first call whose time is up expires, if it still waits. -/
def expire (s : Session) (now : Nat) : Option Session :=
  match s.deadlines.find? (fun d => d.2 ≤ now) with
  | some (c, due) =>
    let s := { s with deadlines := s.deadlines.filter (· ≠ (c, due)) }
    match s.link.step (.expire c) with
    | some link => some { s with link := link }
    | none => some s
  | none => none

/-- One step of one of the parties at a moment. -/
def pulse (s : Session) (now : Nat) : Option Session :=
  s.advanceFrom now 0 s.errands <|> s.write <|> s.act now <|> s.read <|> s.expire now

/-- Steps, at most so many, until none can be taken at a moment. -/
def settleWith (now : Nat) : Nat → Session → Session
  | 0, s => s
  | fuel + 1, s =>
    match s.pulse now with
    | some s => settleWith now fuel s
    | none => s

/-- How many steps may be taken at a moment. -/
def settleFuel : Nat := 1000000

/-- Steps until none can be taken at a moment. -/
def settle (s : Session) (now : Nat) : Session :=
  settleWith now settleFuel s

/-- The next moment at which something may happen by itself. -/
def nextMoment? (s : Session) : Option Nat :=
  let sleep := if s.peer.alive then s.peer.asleep.toList else []
  (sleep ++ s.deadlines.map (·.2)).min?

/-- The process is ended from outside. -/
def destroy (s : Session) : Session :=
  { s with peer := s.peer.die (.exited none) }

/-- Stops the group of a process; only that of this session may be running. -/
def killGroup (s : Session) (pid : Nat) : KillOutcome × Session :=
  match Group.kill (fun group => group == s.child && s.peer.alive) pid with
  | .killed => (.killed, s.destroy)
  | .notRunning => (.notRunning, s)

/-- Stops the worker without asking it. -/
def kill (s : Session) : Session :=
  (s.killGroup s.pid).2

def takeAll (s : Session) : List Message.Notification × Session :=
  (s.link.inbox, { s with link := { s.link with inbox := [] } })

/-- Takes the first notification that has arrived. -/
def takeOne (s : Session) : Option (Message.Notification × Session) :=
  match s.link.inbox with
  | n :: _ => (s.link.step .fetch).map (fun link => (n, { s with link := link }))
  | [] => none

/-- Whether all notifications were taken and no more can arrive. -/
def isDrained (s : Session) : Bool :=
  s.link.isDeaf && s.link.inbox.isEmpty

def text (pid : String) : String :=
  s!"Launched \x7b pid: Some({pid}), .. \x7d"

end Session

end Supervision
