import Supervision.Path.Basic
import Supervision.Session.Basic

/-!
# Launching a worker

A command is looked up, a process begins in the workspace, and the link is opened. Each of the three
may fail, with causes of its own.
-/

namespace Supervision

/-- Where processes are launched. -/
structure Host where
  /-- The program that a command with arguments stands for. -/
  find : String → List String → Option Executable
  /-- Why no process can begin in a directory. -/
  obstacle : Path → Option FileFault
  /-- The number of the process that launches others. -/
  self : Nat

/-- How a worker is launched. -/
structure Launcher where
  command : String
  arguments : List String
  /-- How long a request may wait, in milliseconds. -/
  requestLimit : Option Nat

namespace Launcher

/-- The number of the process that is launched; any will do. -/
def childNumber : Nat := 1387024911

/-- Begins a process for a workspace: a session that is being opened, or the causes of a failure. -/
def spawn (launcher : Launcher) (host : Host) (workspace : Path) :
    Except (List String) (ErrandId × Session) :=
  match host.find launcher.command launcher.arguments with
  | none => .error [s!"{launcher.command} not found in PATH", "cannot find binary path"]
  | some program =>
    match host.obstacle workspace with
    | some why => .error [s!"spawning {launcher.command}", why.message]
    | none => .ok ((Session.start childNumber (.launch program)).greet (.int host.self) workspace)

end Launcher

end Supervision
