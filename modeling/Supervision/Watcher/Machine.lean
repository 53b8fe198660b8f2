import Supervision.Fault
import Supervision.Task.Pool

/-!
# The life of a watcher

The machine that keeps one listener registered with the daemon. Each function here is what happens
under one lock. A registration is numbered, so that what comes of an earlier one is not taken for
the present one. A lost registration is tried again after a delay from a list; once the list is used
up the watcher stays idle.
-/

namespace Supervision.Watcher

/-- Where the watcher is in its life. -/
inductive State
  | idle
  | starting
  | listening
  deriving DecidableEq, Repr, Inhabited

namespace State

def all : List State := [.idle, .starting, .listening]

/-- The state in which a watcher begins. -/
def initial : State := .idle

def name : State → String
  | .idle => "idle"
  | .starting => "starting"
  | .listening => "listening"

/-- The name of a state as a title. -/
def title : State → String
  | .idle => "Idle"
  | .starting => "Starting"
  | .listening => "Listening"

end State

/-- The right to give up a registration, by the order in which it was granted. -/
abbrev HandleId := Nat

/-- What the daemon says. -/
inductive Signal
  | ok
  | error (why : String)
  | closed
  /-- The daemon lost its own connection and tries again. -/
  | reconnecting
  | reconnected
  deriving DecidableEq, Repr

structure Machine where
  state : State
  /-- The number of registrations begun. -/
  generation : Nat
  unregister : Option HandleId
  /-- How many delays have been used. -/
  attempts : Nat
  /-- The task that will try again. -/
  reconnect : Option TaskId
  disposed : Bool
  deriving DecidableEq, Repr

/-- What others notice while the machine changes, and what it has others do. -/
inductive Notice
  /-- The watcher went from one state to another, which is published. -/
  | entered (before after : State)
  | logged (level : Level) (text : String)
  /-- A task begins that registers a listener. -/
  | register (generation : Nat)
  /-- A task begins that tries again after a delay, in milliseconds. -/
  | retry (delay : Nat)
  | abort (task : TaskId)
  deriving DecidableEq, Repr

/-- What is to be done once the lock is released. -/
inductive Effect
  | unregister (h : HandleId)
  /-- Tell whether the daemon is listened to. -/
  | tell (flag : Bool)
  deriving DecidableEq, Repr

/-- The machine after a change, and what comes of it. -/
structure Change where
  machine : Machine
  notices : List Notice
  effects : List Effect

namespace Machine

/-- A machine before its first start. -/
def initial : Machine := ⟨.idle, 0, none, 0, none, false⟩

def unchanged (m : Machine) : Change := ⟨m, [], []⟩

/-- The task that will try again is aborted. -/
def cancelled (m : Machine) : List Notice :=
  match m.reconnect with
  | some t => [.abort t]
  | none => []

/-- What is to be done with the right to give up a registration. -/
def giveUp (m : Machine) : List Effect :=
  match m.unregister with
  | some h => [.unregister h]
  | none => []

/-- What is told of the end of a registration that was listened to. -/
def lost (m : Machine) : List Effect :=
  if m.state = .listening then [.tell false] else []

/-- An idle machine begins a registration, unless it was disposed of. `retried` says whether the
task that tries again asks for it. -/
def begin (m : Machine) (retried : Bool) : Change :=
  if m.disposed ∨ m.state ≠ .idle then m.unchanged
  else
    let notices := if retried then [] else m.cancelled
    let m := { m with reconnect := none, generation := m.generation + 1, state := .starting }
    ⟨m, notices ++ [.entered .idle .starting, .register m.generation], []⟩

def stop (m : Machine) : Change :=
  let entered := if m.state = .idle then [] else [Notice.entered m.state .idle]
  ⟨{ m with reconnect := none, attempts := 0, state := .idle, unregister := none },
    m.cancelled ++ entered, m.giveUp ++ m.lost⟩

/-- Will try again after the next delay, if there is one. -/
def scheduleRetry (m : Machine) (delays : List Nat) : Machine × List Notice :=
  match delays[m.attempts]? with
  | some delay => ({ m with attempts := m.attempts + 1 }, m.cancelled ++ [.retry delay])
  | none =>
    if delays.isEmpty then (m, [])
    else (m, [.logged .warn s!"giving up on daemon after {m.attempts} reconnect attempts"])

/-- Whether a registration is the one that is waited for. -/
def isCurrent (m : Machine) (generation : Nat) : Bool :=
  generation = m.generation ∧ m.state = .starting ∧ !m.disposed

/-- A registration came to an end. One that is no longer wanted is given up. -/
def registered (m : Machine) (delays : List Nat) (generation : Nat)
    (result : Except DaemonError HandleId) : Change :=
  match result with
  | .ok h =>
    if m.isCurrent generation then
      ⟨{ m with unregister := some h, state := .listening }, [.entered .starting .listening],
        [.tell true]⟩
    else ⟨m, [], [.unregister h]⟩
  | .error why =>
    if m.isCurrent generation then
      let (m, notices) := { m with state := .idle }.scheduleRetry delays
      ⟨m, .logged .warn s!"could not subscribe to daemon: {why.message}"
        :: .entered .starting .idle :: notices, [.tell false]⟩
    else m.unchanged

/-- Whether a signal of a registration is passed on. -/
def hears (m : Machine) (generation : Nat) : Bool :=
  generation = m.generation ∧ m.state ≠ .idle

def lose (m : Machine) (delays : List Nat) (generation : Nat) (why : String) : Change :=
  if m.hears generation then
    let effects := m.giveUp ++ m.lost
    let entered := Notice.entered m.state .idle
    let (m, notices) := { m with state := .idle, unregister := none }.scheduleRetry delays
    ⟨m, .logged .warn s!"daemon subscription lost: {why}" :: entered :: notices, effects⟩
  else m.unchanged

def dropped (m : Machine) : Change :=
  ⟨{ m with reconnect := none, unregister := none }, m.cancelled, m.giveUp⟩

end Machine

end Supervision.Watcher
