import Supervision.Environment
import Supervision.Message.Basic
import Supervision.Number.Binary64
import Supervision.Text.Character
import Supervision.Toml.Basic

/-!
# Settings

What a user may set: how the worker is run, and when a lost daemon is tried again. Each setting has
a value that holds when it is not set. Texts may refer to variables; the accessors put their values
in.
-/

namespace Supervision

open Text Number

/-- How the worker is run. -/
structure WorkerSettings where
  /-- The program, looked up on the search path. -/
  command : Option String
  args : List String
  workspacePath : Option String
  /-- The code of an answer after which a request is sent again. -/
  busyErrorCode : Int
  /-- How often a request is sent again. -/
  maxBusyRetries : Nat
  /-- How long a worker may take to end, in milliseconds. -/
  shutdownTimeout : Nat
  /-- How long a request may take, in seconds; no bound when it is not set. -/
  requestTimeout : Option Nat
  deriving DecidableEq, Repr

/-- When a lost daemon is tried again. -/
structure WatcherSettings where
  /-- The delay before each further attempt, in milliseconds. -/
  reconnectDelays : List Nat
  deriving DecidableEq, Repr

structure Settings where
  worker : WorkerSettings
  watcher : WatcherSettings
  deriving DecidableEq, Repr

namespace WorkerSettings

def standard : WorkerSettings where
  command := none
  args := []
  workspacePath := none
  busyErrorCode := Message.busyCode
  maxBusyRetries := 3
  shutdownTimeout := 2000
  requestTimeout := none

/-- The program to run. A blank one counts as not set. -/
def program? (s : WorkerSettings) (env : Environment) : Option String :=
  (s.command.map env.expand).filter (fun c => !isAllBlank c)

def arguments (s : WorkerSettings) (env : Environment) : List String :=
  s.args.map env.expand

/-- The workspace to start in. An empty one counts as not set. -/
def workspace? (s : WorkerSettings) (env : Environment) : Option String :=
  (s.workspacePath.map env.expand).filter (fun p => !p.isEmpty)

end WorkerSettings

namespace WatcherSettings

def standard : WatcherSettings where
  reconnectDelays := [2000, 5000, 10000, 20000]

end WatcherSettings

namespace Settings

def standard : Settings where
  worker := .standard
  watcher := .standard

/-- A whole number from `low` to `high`. -/
def whole? (low high : Int) : Toml → Option Int
  | .int i => if low ≤ i ∧ i ≤ high then some i else none
  | _ => none

/-- A whole number below `limit`. -/
def count? (limit : Nat) (v : Toml) : Option Nat :=
  (whole? 0 (limit - 1) v).map Int.toNat

def text? : Toml → Option String
  | .str s => some s
  | _ => none

/-- Items, each read in the same way. -/
def list? {α : Type} (read : Toml → Option α) : Toml → Option (List α)
  | .arr items => items.mapM read
  | _ => none

/-- The settings of a group by name. A group may also be an array of values in the order of the
names; a date is a group that sets nothing. -/
def group? (names : List String) : Toml → Option (List (String × Toml))
  | .table entries => some entries
  | .arr items => some (names.zip items)
  | .date => some []
  | _ => none

def setting? {α : Type} (entries : List (String × Toml)) (name : String) (standard : α)
    (read : Toml → Option α) : Option α :=
  match entries.lookup name with
  | some v => read v
  | none => some standard

def workerNames : List String :=
  ["command", "args", "workspace_path", "busy_error_code", "max_busy_retries",
    "shutdown_timeout_ms", "request_timeout_secs"]

def worker? (v : Toml) : Option WorkerSettings := do
  let es ← group? workerNames v
  let d := WorkerSettings.standard
  return {
    command := ← setting? es "command" d.command (fun v => (text? v).map some)
    args := ← setting? es "args" d.args (list? text?)
    workspacePath := ← setting? es "workspace_path" d.workspacePath (fun v => (text? v).map some)
    busyErrorCode := ← setting? es "busy_error_code" d.busyErrorCode
      (whole? (-(twoTo 63 : Int)) (twoTo 63 - 1))
    maxBusyRetries := ← setting? es "max_busy_retries" d.maxBusyRetries (count? (twoTo 32))
    shutdownTimeout := ← setting? es "shutdown_timeout_ms" d.shutdownTimeout (count? (twoTo 64))
    requestTimeout := ← setting? es "request_timeout_secs" d.requestTimeout
      (fun v => (count? (twoTo 64) v).map some) }

def watcher? (v : Toml) : Option WatcherSettings := do
  let es ← group? ["reconnect_delays_ms"] v
  return {
    reconnectDelays := ← setting? es "reconnect_delays_ms" WatcherSettings.standard.reconnectDelays
      (list? (count? (twoTo 64))) }

/-- Reads all settings of a document. What it sets besides them does not matter. -/
def ofToml? (entries : List (String × Toml)) : Option Settings := do
  return {
    worker := ← setting? entries "worker" .standard worker?
    watcher := ← setting? entries "watcher" .standard watcher? }

end Settings

end Supervision
