/-!
# Tasks

A task is a stack of instructions: what it still has to do, the next first. Tasks take turns; which
one is next is not decided here. A task that finds nothing to go on with is parked until its next
turn, and so is a new one. Aborting a task does not stop it in its turn: it goes on until it would
be parked, and a parked one goes no further.
-/

namespace Supervision

/-- A task, by the order in which it was made. -/
abbrev TaskId := Nat

/-- What a task still has to do, in instructions of type `ι`. -/
structure Task (ι : Type) where
  /-- The one who waits for the task, if anyone does. -/
  caller : Option String
  stack : List ι
  /-- Whether it is between two turns. -/
  parked : Bool
  aborted : Bool
  deriving Repr

/-- The tasks that are not finished, in the order in which they were made. -/
structure Pool (ι : Type) where
  tasks : List (TaskId × Task ι)
  next : TaskId
  deriving Repr

namespace Pool

variable {ι : Type}

def empty : Pool ι := ⟨[], 0⟩

/-- A task that is not finished. -/
def get? (p : Pool ι) (t : TaskId) : Option (Task ι) :=
  p.tasks.lookup t

def modify (p : Pool ι) (t : TaskId) (f : Task ι → Task ι) : Pool ι :=
  { p with tasks := p.tasks.map (fun e => if e.1 = t then (e.1, f e.2) else e) }

/-- The tasks that were aborted and are between two turns. -/
def doomed (p : Pool ι) : List TaskId :=
  (p.tasks.filter (fun e => e.2.parked && e.2.aborted)).map (·.1)

def remove (p : Pool ι) (t : TaskId) : Pool ι :=
  { p with tasks := p.tasks.filter (fun e => e.1 ≠ t) }

def spawn (p : Pool ι) (caller : Option String) (stack : List ι) : Pool ι :=
  ⟨p.tasks ++ [(p.next, ⟨caller, stack, true, false⟩)], p.next + 1⟩

/-- Sets what a task still has to do; one that has nothing left is finished. -/
def proceed (p : Pool ι) (t : TaskId) (stack : List ι) : Pool ι :=
  if stack.isEmpty then p.remove t
  else p.modify t (fun task => { task with stack := stack, parked := false })

/-- Parks a task; one that was aborted is dropped instead. -/
def park (p : Pool ι) (t : TaskId) : Pool ι :=
  match p.get? t with
  | some task =>
    if task.aborted then p.remove t else p.modify t (fun task => { task with parked := true })
  | none => p

def abort (p : Pool ι) (t : TaskId) : Pool ι :=
  p.modify t (fun task => { task with aborted := true })

/-- Whether anyone waits for a task. -/
def hasCaller (p : Pool ι) : Bool :=
  p.tasks.any (fun e => e.2.caller.isSome)

/-- The tasks whose next instruction satisfies a test. -/
def waiting (p : Pool ι) (test : ι → Bool) : List TaskId :=
  (p.tasks.filter (fun e => match e.2.stack with | i :: _ => test i | [] => false)).map (·.1)

end Pool

end Supervision
