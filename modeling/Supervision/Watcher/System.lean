import Supervision.Json.Basic
import Supervision.Listener.Registry
import Supervision.Watcher.Machine

/-!
# Watching a daemon

Everything that runs around the machine of a watcher: users, signals of the daemon, registrations
and the task that tries again. `System.step` lets one task take one step, which takes hold of the
machine at most once, and of the listeners at most once. The daemon, the time, and the code of
listeners and of the one who is told whether the daemon is listened to, give their answers as
arguments of the step.
-/

namespace Supervision.Watcher

/-- What a user does. -/
inductive Action
  | start
  | stop
  | dispose
  | listen (listener : Listener)
  | unlisten (holder : String)
  | combine (holder : String) (parts : List String)
  /-- The daemon sends a signal to the listener of a registration. -/
  | signal (generation : Nat) (s : Signal) (payload : Option Json)
  | drop

/-- What a task has to do next. -/
inductive Instr
  | act (a : Action)
  /-- Use up a subscription. -/
  | revoke (s : Subscription Unit)
  | begin (retried : Bool)
  | stop
  | clear
  /-- Wait for the daemon to register a listener. -/
  | register (generation : Nat)
  /-- Take note of the end of a registration. -/
  | registered (generation : Nat) (result : Except DaemonError HandleId)
  | unregister (h : HandleId)
  /-- Tell whether the daemon is listened to. -/
  | tell (flag : Bool)
  | signal (generation : Nat) (s : Signal) (payload : Option Json)
  /-- Pass a signal on to those who listen by now. -/
  | deliver (generation : Nat) (s : Signal) (payload : Option Json)
  | listener (l : Listener) (s : Signal) (payload : Option Json)
  | conclude (generation : Nat) (s : Signal)
  /-- Take note of the loss of a registration. -/
  | lose (generation : Nat) (why : String)
  /-- Wait for a while. -/
  | sleep (ms : Nat)

/-- What comes from outside for a step. -/
inductive Answer
  | nothing
  | registered (r : Except DaemonError HandleId)
  /-- What is done from within: the code of a listener, or what the daemon sends meanwhile. -/
  | actions (as : List Action)

/-- What can be seen from outside. -/
inductive Happening
  | entered (before after : State)
  | logged (level : Level) (text : String)
  | delivered (listener : String) (s : Signal) (payload : Option Json)
  | told (flag : Bool)

/-- A watcher and its tasks. -/
structure System where
  /-- The delays before further attempts, in milliseconds. -/
  delays : List Nat
  machine : Machine
  published : State
  /-- Whether there is a handle. -/
  handle : Bool
  listeners : Registry Unit Listener
  holdings : Holdings Unit
  pool : Pool Instr
  /-- What happened, the latest first. -/
  history : List Happening

namespace System

def initial (delays : List Nat) : System where
  delays := delays
  machine := .initial
  published := .idle
  handle := true
  listeners := .empty
  holdings := []
  pool := .empty
  history := []

def record (s : System) (h : Happening) : System :=
  { s with history := h :: s.history }

def spawn (s : System) (stack : List Instr) : System :=
  { s with pool := s.pool.spawn none stack }

/-- Applies what others notice of a change. -/
def notice (s : System) : Notice → System
  | .entered before after => { s with published := after }.record (.entered before after)
  | .logged level text => s.record (.logged level text)
  | .register generation => s.spawn [.register generation]
  | .retry delay =>
    { s.spawn [.sleep delay, .begin true] with
      machine := { s.machine with reconnect := some s.pool.next } }
  | .abort task => { s with pool := s.pool.abort task }

/-- What a task has to do for an effect. -/
def instrFor : Effect → Instr
  | .unregister h => .unregister h
  | .tell flag => .tell flag

/-- Applies a change: the system afterwards, and what is to be done. -/
def apply (s : System) (c : Change) : System × List Instr :=
  (c.notices.foldl notice { s with machine := c.machine }, c.effects.map instrFor)

/-- Uses up a subscription. A watcher that is gone has no listeners. -/
def dispose (s : System) (subscription : Subscription Unit) : System :=
  if s.handle then { s with listeners := s.listeners.dispose subscription } else s

/-- Uses up a subscription: the parts of a combined one are left to be used up in steps of their
own. -/
def revoke (s : System) : Subscription Unit → System × List Instr
  | .combined parts => (s, parts.map .revoke)
  | part => (s.dispose part, [])

/-- Does what a user wants. Without a handle only subscriptions can be used. -/
def act (s : System) : Action → System × List Instr
  | .start => (s, if s.handle then [.begin false] else [])
  | .stop => (s, if s.handle then [.stop] else [])
  | .dispose =>
    if s.handle ∧ !s.machine.disposed then
      ({ s with machine := { s.machine with disposed := true } }, [.stop, .clear])
    else (s, [])
  | .listen listener =>
    if s.handle then
      let (listeners, subscription, _) := s.listeners.insert () listener
      ({ s with
          listeners := listeners
          holdings := s.holdings.set listener.name subscription }, [])
    else (s, [])
  | .unlisten holder =>
    match s.holdings.get? holder with
    | some subscription =>
      ({ s with holdings := s.holdings.set holder .spent }, [.revoke subscription])
    | none => (s, [])
  | .combine holder parts => ({ s with holdings := s.holdings.combine holder parts }, [])
  | .signal generation signal payload => (s, [.signal generation signal payload])
  | .drop =>
    if s.handle then { s with handle := false }.apply s.machine.dropped else (s, [])

/-- Draws the consequence of a signal that was passed on. -/
def conclude (s : System) (generation : Nat) : Signal → System × List Instr
  | .ok => ({ s with machine := { s.machine with attempts := 0 } }, [])
  | .error why => (s, [.lose generation why])
  | .closed => (s, [.lose generation "connection closed"])
  | .reconnecting => (s, [])
  | .reconnected => (s, [])

/-- Takes note of the end of a registration. What is registered for nobody is given up. -/
def registered (s : System) (generation : Nat) (result : Except DaemonError HandleId) :
    System × List Instr :=
  if s.handle then s.apply (s.machine.registered s.delays generation result)
  else
    match result with
    | .ok h => (s, [.unregister h])
    | .error _ => (s, [])

/-- One instruction of a task: the system afterwards, and what the task has to do instead of it.
`none` when the answer does not fit. -/
def exec (s : System) : Instr → Answer → Option (System × List Instr)
  | .act a, .nothing => some (s.act a)
  | .revoke subscription, .nothing => some (s.revoke subscription)
  | .begin retried, .nothing =>
    some (if s.handle then s.apply (s.machine.begin retried) else (s, []))
  | .stop, .nothing => some (s.apply s.machine.stop)
  | .clear, .nothing => some ({ s with listeners := s.listeners.clear }, [])
  | .register generation, .actions as => some (s, as.map .act ++ [.register generation])
  | .register generation, .registered r => some (s, [.registered generation r])
  | .registered generation r, .nothing => some (s.registered generation r)
  | .unregister _, .actions as => some (s, as.map .act)
  | .tell flag, .actions as => some (s.record (.told flag), as.map .act)
  | .signal generation signal payload, .nothing =>
    if s.handle ∧ s.machine.hears generation then
      some (s, [.deliver generation signal payload])
    else some (s, [])
  | .deliver generation signal payload, .nothing =>
    some (s, (s.listeners.snapshot ()).map (.listener · signal payload)
      ++ [.conclude generation signal])
  | .listener l signal payload, .actions as =>
    some (s.record (.delivered l.name signal payload), as.map .act)
  | .conclude generation signal, .nothing => some (s.conclude generation signal)
  | .lose generation why, .nothing => some (s.apply (s.machine.lose s.delays generation why))
  | .sleep _, .nothing => some (s, [])
  | _, _ => none

/-- One step of a task. A task that was aborted while it was parked takes no further step. -/
def step (s : System) (t : TaskId) (a : Answer) : Option System :=
  match s.pool.get? t with
  | some ⟨_, i :: rest, parked, aborted⟩ =>
    if parked && aborted then none
    else
      match s.exec i a with
      | some (s, before) => some { s with pool := s.pool.proceed t (before ++ rest) }
      | none => none
  | _ => none

/-- A task finds nothing to go on with. -/
def park (s : System) (t : TaskId) : System :=
  { s with pool := s.pool.park t }

/-- Whether the daemon is listened to. -/
def isOperational (s : System) : Bool :=
  s.machine.state = .listening

def text (s : System) : String :=
  let m := s.machine
  let state := s!"state: {m.state.title}"
  let generation := s!"generation: {m.generation}"
  s!"PassiveWatcherSupervisor \x7b {state}, {generation}, disposed: {m.disposed}, .. \x7d"

end System

end Supervision.Watcher
