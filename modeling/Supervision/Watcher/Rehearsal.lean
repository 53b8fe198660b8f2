import Supervision.Broadcast
import Supervision.Task.Schedule
import Supervision.Watcher.System

/-!
# Rehearsing the watch over a daemon

A watcher and a daemon that follows a script: how long each registration takes, what the daemon
sends meanwhile, and how it ends. Tasks take their turns first come, first served, and time moves on
only when it is told to. A rehearsal is carried out step by step; `rest` lets the tasks run until
all of them wait.
-/

namespace Supervision.Watcher

/-- How a registration goes. -/
structure RegistrationScript where
  delay : Option Nat
  /-- What is sent before it comes to an end. -/
  early : List (Signal × Option Json)
  /-- Whether it never comes to an end. -/
  never : Bool
  fail : Option DaemonError
  /-- What is sent when it is given up. -/
  onUnregister : Option Signal

def RegistrationScript.standard : RegistrationScript := ⟨none, [], false, none, none⟩

/-- A registration that was granted. -/
structure Grant where
  generation : Nat
  onUnregister : Option Signal

/-- The one who is told whether the daemon is listened to. -/
inductive Audience
  /-- Keeps a record, and runs code when it is told a value. -/
  | record (code : List (Bool × Action))
  | nobody
  | broadcast (b : Broadcast)

/-- Where something that takes time stands. -/
inductive Stage
  /-- A registration, until a moment. -/
  | delayed (script : RegistrationScript) (due : Nat)
  /-- A registration after what was sent early. -/
  | announced (script : RegistrationScript)
  /-- A while, until a moment. -/
  | asleep (due : Nat)

structure Rehearsal where
  system : System
  schedule : Schedule
  audience : Audience
  codes : List (List Action)
  script : List RegistrationScript
  /-- The registrations asked for so far, by their numbers, the first first. -/
  callbacks : List Nat
  /-- The registrations granted so far, the first first. -/
  grants : List Grant
  /-- How many registrations were given up. -/
  unregisters : Nat
  stages : List (TaskId × Stage)

/-- A step of a rehearsal. -/
inductive Step
  | script (registrations : List RegistrationScript)
  | act (a : Action)
  /-- The daemon sends a signal through a callback, the latest unless said otherwise. -/
  | emit (s : Signal) (payload : Option Json) (index : Option Nat)
  | advance (ms : Nat)
  | look

namespace Rehearsal

/-- A rehearsal before its first step. -/
def start (delays : List Nat) (audience : Audience) (codes : List (List Action)) : Rehearsal where
  system := .initial delays
  schedule := .start
  audience := audience
  codes := codes
  script := []
  callbacks := []
  grants := []
  unregisters := 0
  stages := []

/-- How many granted registrations were not given up. -/
def live (r : Rehearsal) : Int :=
  r.grants.length - r.unregisters

/-- Sets where the business of a task stands. -/
def setStage (r : Rehearsal) (t : TaskId) (stage : Stage) : Rehearsal :=
  { r with stages := (t, stage) :: r.stages.filter (fun e => e.1 ≠ t) }

def settleTask (r : Rehearsal) (t : TaskId) : Rehearsal :=
  { r with
    stages := r.stages.filter (fun e => e.1 ≠ t)
    schedule := r.schedule.forget t }

def announce (r : Rehearsal) (t : TaskId) (generation : Nat) (script : RegistrationScript) :
    Rehearsal × Option Answer :=
  (r.setStage t (.announced script),
    some (.actions (script.early.map (fun e => .signal generation e.1 e.2))))

def register (r : Rehearsal) (t : TaskId) (generation : Nat) : Rehearsal × Option Answer :=
  match r.stages.lookup t with
  | some (.delayed script due) =>
    if due ≤ r.schedule.now then r.announce t generation script else (r, none)
  | some (.announced script) =>
    if script.never then (r, none)
    else
      match script.fail with
      | some why => (r, some (.registered (.error why)))
      | none =>
        ({ r with grants := r.grants ++ [⟨generation, script.onUnregister⟩] },
          some (.registered (.ok r.grants.length)))
  | _ =>
    let script := r.script.headD .standard
    let r := { r with callbacks := r.callbacks ++ [generation], script := r.script.tail }
    match script.delay with
    | some (d + 1) =>
      let due := r.schedule.now + (d + 1)
      let r := r.setStage t (.delayed script due)
      ({ r with schedule := r.schedule.wakeAt due t }, none)
    | _ => r.announce t generation script

def unregister (r : Rehearsal) (h : HandleId) : Rehearsal × Option Answer :=
  let actions := match r.grants[h]? with
    | some ⟨generation, some signal⟩ => [Action.signal generation signal none]
    | _ => []
  ({ r with unregisters := r.unregisters + 1 }, some (.actions actions))

/-- Tells whether the daemon is listened to. -/
def tell (r : Rehearsal) (flag : Bool) : Rehearsal × Option Answer :=
  match r.audience with
  | .record code => (r, some (.actions ((code.filter (fun c => c.1 = flag)).map (·.2))))
  | .nobody => (r, some (.actions []))
  | .broadcast b => ({ r with audience := .broadcast (b.publish flag) }, some (.actions []))

/-- How a while stands. -/
def sleep (r : Rehearsal) (t : TaskId) (ms : Nat) : Rehearsal × Option Answer :=
  match r.stages.lookup t with
  | some (.asleep due) => (r, if due ≤ r.schedule.now then some .nothing else none)
  | _ =>
    if ms = 0 then (r, some .nothing)
    else
      let due := r.schedule.now + ms
      let r := r.setStage t (.asleep due)
      ({ r with schedule := r.schedule.wakeAt due t }, none)

/-- What comes from outside for an instruction of a task, if it is there. -/
def respond (r : Rehearsal) (t : TaskId) : Instr → Rehearsal × Option Answer
  | .register generation => r.register t generation
  | .unregister h => r.unregister h
  | .tell flag => r.tell flag
  | .listener l _ _ => (r, some (.actions ((r.codes[l.code]?).getD [])))
  | .sleep ms => r.sleep t ms
  | _ => (r, some .nothing)

/-- Takes over the system after a step: aborted and new tasks queue. -/
def adopt (r : Rehearsal) (s : System) : Rehearsal :=
  let before := r.system.pool.next
  let fresh := (List.range (s.pool.next - before)).map (· + before)
  { r with
    system := s
    schedule := (r.schedule.enqueueAll s.pool.doomed).enqueueAll fresh }

/-- Whether an answer ends what a task was waiting for. -/
def ends : Instr → Answer → Bool
  | .register _, .registered _ => true
  | .sleep _, _ => true
  | _, _ => false

def turn : Nat → Rehearsal → TaskId → Rehearsal
  | 0, r, _ => r
  | fuel + 1, r, t =>
    match r.system.pool.get? t with
    | none => r.settleTask t
    | some task =>
      if task.parked && task.aborted then (r.adopt (r.system.park t)).settleTask t
      else
        match task.stack with
        | [] => r
        | i :: _ =>
          match r.respond t i with
          | (r, none) => r.adopt (r.system.park t)
          | (r, some answer) =>
            match r.system.step t answer with
            | none => r.adopt (r.system.park t)
            | some s =>
              let r := if ends i answer then r.settleTask t else r
              turn fuel (r.adopt s) t

/-- How many instructions a turn may take. -/
def turnFuel : Nat := 1000000

/-- Gives turns, at most so many, until all tasks wait. -/
def settle : Nat → Rehearsal → Rehearsal
  | 0, r => r
  | fuel + 1, r =>
    match r.schedule.pop? with
    | none => r
    | some (t, schedule) => settle fuel (turn turnFuel { r with schedule := schedule } t)

/-- How many turns may be taken before all tasks wait. -/
def settleFuel : Nat := 1000000

/-- Lets time pass up to a moment. -/
def passTo (limit : Nat) : Nat → Rehearsal → Rehearsal
  | 0, r => r
  | fuel + 1, r =>
    match r.schedule.advance? limit with
    | none => { r with schedule := { r.schedule with now := limit } }
    | some schedule => passTo limit fuel (settle settleFuel { r with schedule := schedule })

/-- Does at once what a user wants. -/
def perform (r : Rehearsal) (a : Action) : Rehearsal :=
  let t := r.system.pool.next
  turn turnFuel { r with system := r.system.spawn [.act a] } t

/-- The registration that a signal is sent to. -/
def target? (r : Rehearsal) : Option Nat → Option Nat
  | some index => r.callbacks[index]?
  | none => r.callbacks.getLast?

/-- Carries out a step, without giving turns. -/
def step (r : Rehearsal) : Step → Rehearsal
  | .script registrations => { r with script := r.script ++ registrations }
  | .act a => r.perform a
  | .emit s payload index =>
    match r.target? index with
    | some generation => r.perform (.signal generation s payload)
    | none => r
  | .advance ms => passTo (r.schedule.now + ms) settleFuel (settle settleFuel r)
  | .look => r

/-- Gives turns until all tasks wait. -/
def rest (r : Rehearsal) : Rehearsal :=
  settle settleFuel r

def forgetPast (r : Rehearsal) : Rehearsal :=
  { r with system := { r.system with history := [] } }

end Rehearsal

end Supervision.Watcher
