import Supervision.Task.Pool

/-!
# Turns and time

Tasks that can go on wait in a queue and take their turns in order. A task may also wait for a
moment; time stands still while tasks run and moves on to the next moment for which one waits. Tasks
that wait for the same moment go on in the order in which they began to wait.
-/

namespace Supervision

/-- A task that waits for a moment. -/
structure Timer where
  due : Nat
  /-- The order in which timers were set. -/
  order : Nat
  task : TaskId
  deriving DecidableEq, Repr

/-- Who goes on next, and when. -/
structure Schedule where
  now : Nat
  queue : List TaskId
  timers : List Timer
  nextOrder : Nat
  deriving Repr

namespace Schedule

def start : Schedule := ⟨0, [], [], 0⟩

/-- Puts a task at the end of the queue, unless it is in it. -/
def enqueue (s : Schedule) (t : TaskId) : Schedule :=
  if s.queue.contains t then s else { s with queue := s.queue ++ [t] }

/-- Puts tasks at the end of the queue. -/
def enqueueAll (s : Schedule) (ts : List TaskId) : Schedule :=
  ts.foldl enqueue s

/-- Takes the first task off the queue. -/
def pop? (s : Schedule) : Option (TaskId × Schedule) :=
  match s.queue with
  | [] => none
  | t :: rest => some (t, { s with queue := rest })

def place (timer : Timer) : List Timer → List Timer
  | [] => [timer]
  | x :: rest =>
    if timer.due < x.due ∨ (timer.due = x.due ∧ timer.order < x.order) then timer :: x :: rest
    else x :: place timer rest

/-- Has a task go on at a moment. -/
def wakeAt (s : Schedule) (due : Nat) (t : TaskId) : Schedule :=
  { s with timers := place ⟨due, s.nextOrder, t⟩ s.timers, nextOrder := s.nextOrder + 1 }

def forget (s : Schedule) (t : TaskId) : Schedule :=
  { s with timers := s.timers.filter (fun x => x.task ≠ t) }

/-- Moves on to the next moment for which a task waits, if it is not after `limit`, and queues the
tasks that wait for it. -/
def advance? (s : Schedule) (limit : Nat) : Option Schedule :=
  match s.timers with
  | [] => none
  | x :: _ =>
    if x.due ≤ limit then
      let ready := s.timers.takeWhile (fun y => y.due ≤ max x.due s.now)
      let left := s.timers.dropWhile (fun y => y.due ≤ max x.due s.now)
      let s : Schedule := { s with now := max x.due s.now, timers := left }
      some (s.enqueueAll (ready.map Timer.task))
    else none

end Schedule

end Supervision
