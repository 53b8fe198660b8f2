import Supervision.Message.Basic

/-!
# What can go wrong between the parties

Causes, each with the text that stands for it: of a connection to a worker, of a supervisor's call,
of a worker's end, and of a daemon. How bad it is when a line of a log tells of one is its level.
-/

namespace Supervision

/-- How bad a line of a log is. -/
inductive Level
  | warn
  | error
  deriving DecidableEq, Repr

def Level.name : Level → String
  | .warn => "WARN"
  | .error => "ERROR"

/-- Why a request, a notification or a launch failed. A chain lists causes, outermost first. -/
inductive TransportError
  | launch (chain : List String)
  | closed
  | timeout (method : String)
  | response (error : Message.ErrorObject)
  | protocol (chain : List String)
  deriving Repr, Inhabited

namespace TransportError

def message : TransportError → String
  | .launch chain => "failed to launch worker: " ++ ": ".intercalate chain
  | .closed => "worker connection closed"
  | .timeout method => s!"request '{method}' timed out"
  | .response error => s!"worker returned error {error.code}: {error.message}"
  | .protocol chain => chain.headD ""

/-- The code of the worker's answer, when it answered with an error. -/
def responseCode? : TransportError → Option Int
  | .response error => some error.code
  | _ => none

end TransportError

/-- Why a supervisor's call failed. -/
inductive SupervisorError
  /-- The worker runs, but there is no connection to it. -/
  | notInitialized
  | workerUnavailable
  | invalidParams (why : String)
  | refreshFailed (source : SupervisorError)
  deriving Repr, DecidableEq, Inhabited

namespace SupervisorError

/-- The text of a failure; that of a failed refresh does not say why. -/
def message : SupervisorError → String
  | .notInitialized => "Worker connection not initialized. This should not happen."
  | .workerUnavailable => "worker failed to start"
  | .invalidParams why => s!"invalid params: {why}"
  | .refreshFailed _ => "Couldn't refresh workspace. Please view the logs for more information."

end SupervisorError

/-- Why a worker process is gone. -/
inductive ExitReason
  /-- It exited; no code when a signal ended it. -/
  | exited (code : Option Int)
  | failed (why : String)
  deriving Repr, DecidableEq, Inhabited

namespace ExitReason

def message : ExitReason → String
  | .exited (some code) => s!"exited with code {code}"
  | .exited none => "terminated by signal"
  | .failed why => s!"lost: {why}"

end ExitReason

/-- Why a daemon took no listener. -/
inductive DaemonError
  | unavailable (why : String)
  | disabled
  | registration (why : String)
  deriving Repr, DecidableEq, Inhabited

namespace DaemonError

def message : DaemonError → String
  | .unavailable why => s!"daemon unavailable: {why}"
  | .disabled => "daemon is disabled"
  | .registration why => s!"failed to register with daemon: {why}"

end DaemonError

end Supervision
