import Supervision.Fault

/-!
# A link to a worker

What holds a connection together: a table of the calls that wait for an answer, a writer that sends
one frame after the other, and a reader that sorts what arrives. Writer and reader take orders and
pass on notifications through queues of limited length, and wait while a queue is full. `Link.step`
is one step of one of the parties; a step that the party cannot take gives `none`. The bytes, and
the process at the other end, are not part of it.
-/

namespace Supervision

open Message

/-- A call, by the order in which it was begun. -/
abbrev CallId := Nat

namespace Link

/-- What a call has been told by the table. -/
inductive Slot
  | empty
  | told (outcome : Outcome)
  /-- Nothing will be told. -/
  | lost

/-- Where a call stands. -/
inductive Phase
  | begun
  | numbered (id : Nat)
  | entered (id : Nat)
  /-- Its frame was handed to the writer. -/
  | waiting (id : Nat)
  /-- The writer is gone; it is still in the table. -/
  | refused (id : Nat)
  /-- Its time is up; it may still be in the table. -/
  | expired (id : Nat)
  | finished (result : Except TransportError Json)
  /-- Nobody wants its result. -/
  | abandoned

structure Call where
  method : String
  params : Option Json
  /-- How long it may wait, in milliseconds. -/
  limit : Option Nat
  phase : Phase
  slot : Slot

/-- What the writer is to do. -/
inductive Order
  | send (frame : Json)
  | stop

/-- Where the writer stands. -/
inductive Writer
  | idle
  | writing (frame : Json)
  | ended

/-- Where the reader stands. -/
inductive Reader
  | reading
  /-- It has a notification to pass on. -/
  | forwarding (n : Notification)
  /-- It has an answer to hand to the writer. -/
  | refusing (reply : Json)
  /-- It reads no more, and has yet to clear the table. -/
  | leaving
  | ended

end Link

structure Link where
  /-- The number of the next call. -/
  nextId : Nat
  calls : List Link.Call
  /-- The calls that wait for an answer, by their numbers. -/
  pending : List (Nat × CallId)
  orders : List Link.Order
  writer : Link.Writer
  reader : Link.Reader
  inbox : List Notification
  /-- Whether someone takes notifications. -/
  heeded : Bool

namespace Link

/-- A step of one of the parties. -/
inductive Step
  | begin (method : String) (params : Option Json) (limit : Option Nat)
  | number (c : CallId)
  | enter (c : CallId)
  /-- A call hands its frame to the writer. -/
  | hand (c : CallId)
  /-- A call takes what it has been told. -/
  | collect (c : CallId)
  /-- The time of a call is up. -/
  | expire (c : CallId)
  /-- A call that came to nothing leaves the table. -/
  | withdraw (c : CallId)
  | abandon (c : CallId)
  /-- Someone gives the writer an order. -/
  | post (order : Order)
  /-- The writer takes an order. -/
  | take
  /-- The writer has written a frame. -/
  | wrote
  /-- The writer cannot write. -/
  | fail
  /-- The reader gets a frame. -/
  | arrive (frame : Json)
  /-- The reader gets rid of what it has to pass on. -/
  | pass
  /-- The reader finds nothing more to read. -/
  | cease
  /-- The reader clears the table. -/
  | clear
  /-- Someone takes a notification. -/
  | fetch
  /-- Nobody takes notifications any more. -/
  | deafen

/-- How many orders wait for the writer at most. -/
def orderCapacity : Nat := 64

/-- How many notifications wait to be taken at most. -/
def inboxCapacity : Nat := 256

/-- A link before anything was said. -/
def start : Link where
  nextId := 1
  calls := []
  pending := []
  orders := []
  writer := .idle
  reader := .reading
  inbox := []
  heeded := true

/-- Whether the writer takes no more orders. -/
def isMute (l : Link) : Bool :=
  match l.writer with
  | .ended => true
  | _ => false

/-- Whether no more notifications can arrive. -/
def isDeaf (l : Link) : Bool :=
  match l.reader with
  | .ended => true
  | _ => false

def modify (l : Link) (c : CallId) (f : Call → Call) : Link :=
  { l with calls := l.calls.modify c f }

def setPhase (l : Link) (c : CallId) (phase : Phase) : Link :=
  l.modify c (fun call => { call with phase := phase })

/-- Strikes a number from the table. -/
def strike (l : Link) (id : Nat) : Link :=
  { l with pending := l.pending.filter (fun e => e.1 ≠ id) }

/-- Gives the writer an order, for which there may be no room. A writer that is gone takes none, and
whoever gives it can see that it is gone. -/
def post? (l : Link) (order : Order) : Option Link :=
  if l.isMute then some l
  else if l.orders.length < orderCapacity then some { l with orders := l.orders ++ [order] }
  else none

/-- The writer goes, and with it all orders. -/
def silence (l : Link) : Link :=
  { l with writer := .ended, orders := [] }

/-- Tells an answer to the call that waits for it, if one does. -/
def route (l : Link) (id : Nat) (outcome : Outcome) : Link :=
  match l.pending.lookup id with
  | some c => (l.strike id).modify c (fun call => { call with slot := .told outcome })
  | none => l

/-- Sorts a frame that arrived. What is no message is ignored. -/
def dispatch (l : Link) (frame : Json) : Link :=
  match Incoming.ofFrame? frame with
  | none => l
  | some (.response id outcome) => l.route id outcome
  | some (.serverRequest id method) => { l with reader := .refusing (methodNotFound id method) }
  | some (.notification method params) => { l with reader := .forwarding ⟨method, params⟩ }

/-- A call is told that nothing will come, unless it has been told something. -/
def Call.lose (call : Call) : Call :=
  match call.slot with
  | .empty => { call with slot := .lost }
  | _ => call

/-- Clears the table. The calls in it are told that nothing will come. -/
def clearTable (l : Link) : Link :=
  { (l.pending.foldl (fun l e => l.modify e.2 Call.lose) l) with pending := [] }

/-- A new call, and the link with it. -/
def call (l : Link) (method : String) (params : Option Json) (limit : Option Nat) : CallId × Link :=
  (l.calls.length, { l with calls := l.calls ++ [⟨method, params, limit, .begun, .empty⟩] })

def number (l : Link) (c : CallId) (call : Call) : Option Link :=
  match call.phase with
  | .begun => some { l.setPhase c (.numbered l.nextId) with nextId := l.nextId + 1 }
  | _ => none

def enter (l : Link) (c : CallId) (call : Call) : Option Link :=
  match call.phase with
  | .numbered id =>
    let l := (l.strike id).setPhase c (.entered id)
    some { l with pending := l.pending ++ [(id, c)] }
  | _ => none

/-- A call hands its frame to the writer. -/
def hand (l : Link) (c : CallId) (call : Call) : Option Link :=
  match call.phase with
  | .entered id =>
    if l.isMute then some (l.setPhase c (.refused id))
    else (l.post? (.send (request id call.method call.params))).map (·.setPhase c (.waiting id))
  | _ => none

/-- What a call makes of what it was told. -/
def resultOf : Outcome → Except TransportError Json
  | .ok v => .ok v
  | .error e => .error (.response e)

/-- A call takes what it was told. -/
def collect (l : Link) (c : CallId) (call : Call) : Option Link :=
  match call.phase, call.slot with
  | .waiting _, .told outcome => some (l.setPhase c (.finished (resultOf outcome)))
  | .waiting _, .lost => some (l.setPhase c (.finished (.error .closed)))
  | _, _ => none

/-- The time of a call is up. One that has been told something takes that instead. -/
def expire (l : Link) (c : CallId) (call : Call) : Option Link :=
  match call.phase, call.slot, call.limit with
  | .waiting id, .empty, some _ => some (l.setPhase c (.expired id))
  | _, _, _ => none

/-- A call that came to nothing leaves the table. -/
def withdraw (l : Link) (c : CallId) (call : Call) : Option Link :=
  match call.phase with
  | .refused id => some ((l.strike id).setPhase c (.finished (.error .closed)))
  | .expired id => some ((l.strike id).setPhase c (.finished (.error (.timeout call.method))))
  | _ => none

/-- A call is given up; it stays in the table. -/
def abandon (l : Link) (c : CallId) (call : Call) : Option Link :=
  match call.phase with
  | .finished _ => none
  | _ => some (l.setPhase c .abandoned)

def take (l : Link) : Option Link :=
  match l.writer, l.orders with
  | .idle, .send frame :: rest => some { l with writer := .writing frame, orders := rest }
  | .idle, .stop :: _ => some l.silence
  | _, _ => none

/-- The reader gets rid of what it has to pass on. A notification that nobody takes is dropped, and
so is an answer that nobody writes. -/
def pass (l : Link) : Option Link :=
  match l.reader with
  | .forwarding n =>
    if !l.heeded then some { l with reader := .reading }
    else if l.inbox.length < inboxCapacity then
      some { l with reader := .reading, inbox := l.inbox ++ [n] }
    else none
  | .refusing reply => (l.post? (.send reply)).map (fun l => { l with reader := .reading })
  | _ => none

/-- One step; `none` when the party cannot take it. -/
def step (l : Link) : Step → Option Link
  | .begin method params limit => some (l.call method params limit).2
  | .number c => l.calls[c]?.bind (l.number c)
  | .enter c => l.calls[c]?.bind (l.enter c)
  | .hand c => l.calls[c]?.bind (l.hand c)
  | .collect c => l.calls[c]?.bind (l.collect c)
  | .expire c => l.calls[c]?.bind (l.expire c)
  | .withdraw c => l.calls[c]?.bind (l.withdraw c)
  | .abandon c => l.calls[c]?.bind (l.abandon c)
  | .post order => l.post? order
  | .take => l.take
  | .wrote =>
    match l.writer with
    | .writing _ => some { l with writer := .idle }
    | _ => none
  | .fail =>
    match l.writer with
    | .writing _ => some l.silence
    | _ => none
  | .arrive frame =>
    match l.reader with
    | .reading => some (l.dispatch frame)
    | _ => none
  | .pass => l.pass
  | .cease =>
    match l.reader with
    | .reading => some { l with reader := .leaving }
    | _ => none
  | .clear =>
    match l.reader with
    | .leaving => some { l.clearTable with reader := .ended }
    | _ => none
  | .fetch =>
    match l.inbox with
    | _ :: rest => some { l with inbox := rest }
    | [] => none
  | .deafen => some { l with heeded := false, inbox := [] }

/-- Steps, one after the other; `none` when one of them cannot be taken. -/
def run (l : Link) : List Step → Option Link
  | [] => some l
  | s :: rest => (l.step s).bind (fun l => run l rest)

/-- The step that a call takes by itself. -/
def nextOf (l : Link) (c : CallId) : Option Link :=
  match (l.calls[c]?).map Call.phase with
  | some .begun => l.step (.number c)
  | some (.numbered _) => l.step (.enter c)
  | some (.entered _) => l.step (.hand c)
  | some (.waiting _) => l.step (.collect c)
  | some (.refused _) => l.step (.withdraw c)
  | some (.expired _) => l.step (.withdraw c)
  | _ => none

/-- The result of a call that is finished. -/
def result? (l : Link) (c : CallId) : Option (Except TransportError Json) :=
  match (l.calls[c]?).map Call.phase with
  | some (.finished r) => some r
  | _ => none

end Link

end Supervision
