import Supervision.Session.Launch

/-!
# Rehearsing a session

A user of a session who takes one step after the other and waits for each to be done. Time moves on
only while someone waits.
-/

namespace Supervision.Session

/-- What a user does with a session. -/
inductive Act
  | request (method : String) (params : Option Json)
  | notify (method : String) (params : Option Json)
  /-- Requests that are sent in order and waited for together. -/
  | together (requests : List (String × Option Json))
  /-- Takes notifications: those that are there, or all up to the end. -/
  | notifications (untilClosed : Bool)
  | closeNotifications
  | shutDown
  /-- Waits for the end of the worker for so long. -/
  | shutDownWithin (ms : Nat)
  | kill
  | exited
  | killGroup (pid : Nat)
  | sleep (ms : Nat)
  | look

/-- What comes of a step. `none` stands for what never comes. -/
inductive Outcome
  | replied (r : Option (Except TransportError Json))
  | sent (r : Except TransportError Unit)
  | all (rs : List (Option (Except TransportError Json)))
  | notifications (ns : List Message.Notification)
  | done
  | elapsed
  | never
  | gone (reason : Option ExitReason)
  | group (outcome : KillOutcome)

/-- A session and the time. -/
structure Rehearsal where
  session : Session
  launcher : Launcher
  now : Nat

namespace Rehearsal

/-- Lets all parties do what they can at present. -/
def rest (r : Rehearsal) : Rehearsal :=
  { r with session := r.session.settle r.now }

/-- Waits, through at most so many moments, until something holds; for no longer than to a moment,
if one is given. Says whether it holds. -/
def waitWith (ready : Session → Bool) (limit : Option Nat) : Nat → Rehearsal → Bool × Rehearsal
  | 0, r => (false, r)
  | fuel + 1, r =>
    let r := r.rest
    if ready r.session then (true, r)
    else
      match r.session.nextMoment?, limit with
      | none, none => (false, r)
      | none, some limit => (false, { r with now := max r.now limit })
      | some t, none => waitWith ready none fuel { r with now := max r.now t }
      | some t, some limit =>
        if t ≤ limit then waitWith ready (some limit) fuel { r with now := max r.now t }
        else (false, { r with now := max r.now limit })

/-- How many moments may pass while someone waits. -/
def waitFuel : Nat := 100000

/-- Waits until something holds, for no longer than to a moment, if one is given. -/
def wait (r : Rehearsal) (ready : Session → Bool) (limit : Option Nat) : Bool × Rehearsal :=
  waitWith ready limit waitFuel r

/-- Launches a worker and waits until the link is open. A worker that cannot be used is ended. -/
def launch (launcher : Launcher) (host : Host) (workspace : Path) :
    Except TransportError Rehearsal :=
  match launcher.spawn host workspace with
  | .error causes => .error (.launch causes)
  | .ok (errand, session) =>
    let (_, r) := wait ⟨session, launcher, 0⟩ (fun s => (s.report? errand).isSome) none
    match r.session.report? errand with
    | some (.opened (.ok _)) => .ok r
    | some (.opened (.error causes)) => .error (.launch causes)
    | _ => .error .closed

def result? (s : Session) (e : ErrandId) : Option (Except TransportError Json) :=
  match s.report? e with
  | some (.asked result) => some result
  | _ => none

def askAll (limit : Option Nat) : Session → List (String × Option Json) → List ErrandId × Session
  | s, [] => ([], s)
  | s, (method, params) :: rest =>
    let (e, s) := s.ask method params limit
    let (es, s) := askAll limit s rest
    (e :: es, s)

/-- Takes all notifications up to the end, through at most so many moments. -/
def drain : Nat → Rehearsal → List Message.Notification × Rehearsal
  | 0, r => ([], r)
  | fuel + 1, r =>
    let (ready, r) := r.wait (fun s => !s.link.inbox.isEmpty || s.link.isDeaf) none
    let (ns, session) := r.session.takeAll
    let r := { r with session := session }
    if !ready || (ns.isEmpty && session.isDrained) then (ns, r)
    else
      let (more, r) := drain fuel r
      (ns ++ more, r)

/-- Carries out a step, and waits until it is done. -/
def act (r : Rehearsal) : Act → Outcome × Rehearsal
  | .request method params =>
    let (e, session) := r.session.ask method params r.launcher.requestLimit
    let (_, r) := wait { r with session := session } (fun s => (s.report? e).isSome) none
    (.replied (result? r.session e), r)
  | .notify method params =>
    let (e, session) := r.session.tell method params
    let (_, r) := wait { r with session := session } (fun s => (s.report? e).isSome) none
    match r.session.report? e with
    | some (.told result) => (.sent result, r)
    | _ => (.never, r)
  | .together requests =>
    let (es, session) := askAll r.launcher.requestLimit r.session requests
    let (_, r) := wait { r with session := session }
      (fun s => es.all (fun e => (s.report? e).isSome)) none
    (.all (es.map (result? r.session)), r)
  | .notifications false =>
    let r := r.rest
    let (ns, session) := r.session.takeAll
    (.notifications ns, rest { r with session := session })
  | .notifications true =>
    let (ns, r) := drain waitFuel r
    (.notifications ns, r)
  | .closeNotifications =>
    match r.session.link.step .deafen with
    | some link => (.done, rest { r with session := { r.session with link := link } })
    | none => (.never, r)
  | .shutDown =>
    let (e, session) := r.session.close
    let (ended, r) := wait { r with session := session } (fun s => (s.report? e).isSome) none
    (if ended then .done else .never, r)
  | .shutDownWithin ms =>
    let (e, session) := r.session.close
    let (ended, r) :=
      wait { r with session := session } (fun s => (s.report? e).isSome) (some (r.now + ms))
    if ended then (.done, r) else (.elapsed, { r with session := r.session.giveUp e })
  | .kill => (.done, rest { r with session := r.session.kill })
  | .exited =>
    let (_, r) := r.wait (fun s => !s.peer.alive) none
    (.gone r.session.peer.exit, r)
  | .killGroup pid =>
    let (outcome, session) := r.session.killGroup pid
    (.group outcome, rest { r with session := session })
  | .sleep ms =>
    let (_, r) := r.wait (fun _ => false) (some (r.now + ms))
    (.done, r.rest)
  | .look => (.done, r)

end Rehearsal

end Supervision.Session
