import Supervision.Message.Basic
import Supervision.Number.Binary64
import Supervision.Path.Basic

/-!
# The handshake

What a new worker is told about its workspace, and what is taken from its answer: the number of the
process whose group a forced stop is aimed at. A worker leads a group of processes, so that a forced
stop also reaches what it has started. The group goes by the number of the worker's process, or by
the number that the worker named.
-/

namespace Supervision

namespace Message

open Json

/-- The params of the first request: who asks, and for which workspace. -/
def initializeParams (processId : Json) (workspace : Path) : Json :=
  object [
    ("processId", processId),
    ("rootUri", match workspace.directoryUri? with | some uri => .str uri | none => .null),
    ("capabilities", object []),
    ("initializationOptions", object [("workspacePath", .str workspace.text)])]

/-- The process id in the result of the first request. A worker that runs under a wrapper names the
process to stop with it. -/
def reportedPid? (result : Json) : Option Nat :=
  match (result.get? "pid").bind Json.nat? with
  | some n => if n < Number.twoTo 32 then some n else none
  | none => none

end Message

/-! ## The group of a worker -/

/-- What came of a forced stop. -/
inductive KillOutcome
  | killed
  | notRunning
  deriving DecidableEq, Repr

def KillOutcome.message : KillOutcome → String
  | .killed => "killed"
  | .notRunning => "not running"

namespace Group

/-- The group that a process number stands for; none when it is out of the range of group
numbers. -/
def ofPid? (pid : Nat) : Option Nat :=
  if pid < Number.twoTo 31 then some pid else none

/-- The number by which a worker goes once it has answered the first request. -/
def pidAfter (child : Nat) (result : Json) : Nat :=
  (Message.reportedPid? result).getD child

/-- Stops the group of a process among those that are running. -/
def kill (running : Nat → Bool) (pid : Nat) : KillOutcome :=
  match ofPid? pid with
  | some group => if running group then .killed else .notRunning
  | none => .notRunning

end Group

end Supervision
