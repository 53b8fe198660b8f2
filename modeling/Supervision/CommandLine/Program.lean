import Supervision.CommandLine.LogFile
import Supervision.CommandLine.Operation

/-!
# The program

From the command line to the exit code: the command line is read, the log is begun, settings are
loaded, and the command is carried out. The files are those of a site, so that the same program runs
on the files of a machine and on a tree of files in memory.
-/

namespace Supervision.CommandLine

structure Journal where
  /-- The file that it goes to; without one it goes to the error output. -/
  file : Option Path
  lines : List String

/-- What is left when the program ends. -/
structure Conclusion where
  /-- The exit code; none when a signal ended the program. -/
  code : Option Nat
  output : String
  /-- The lines of the error output, without those of the log. -/
  errors : List String
  journal : Option Journal
  received : List Json

/-- What is to be done once settings are loaded. -/
structure Plan where
  launcher : Launcher
  options : Worker.Options
  workspace : Path
  command : Command
  journal : Journal
  /-- Whether warnings are written in the log. -/
  warns : Bool

namespace Program

/-- The variable that sets the filter of the log. -/
def filterVariable : String := "RUST_LOG"

/-- The end of a program that only says something. -/
def saying (text : String) : Conclusion :=
  ⟨some 0, text, [], none, []⟩

/-- The end of a program that does not understand its command line. -/
def complaining (c : Complaint) : Conclusion :=
  let lines := match c with
    | .nothing => Topic.program.lines
    | c => [c.message, "", "For more information, try '--help'."]
  ⟨some 2, "", lines, none, []⟩

def failureLine (message : String) : String :=
  s!"Error: {message}"

/-- The end of a program that failed. -/
def failing (journal : Journal) (message : String) : Conclusion :=
  ⟨some 1, "", [failureLine message], some journal, []⟩

/-- Whether warnings are written in the log. -/
def warns (env : Environment) : Bool :=
  Filter.warns ((env.get? filterVariable).bind Text.Utf8.decode?) programName

/-- Begins the log, with what was wrong with the files that it could not go to. -/
def beginLog {m : Type → Type} [Monad m] (site : Site m) (env : Environment) : m Journal := do
  let (file, warnings) ← LogFile.choose site (LogFile.directories env)
  return ⟨file, if warns env then warnings else []⟩

/-- Loads settings from the file that is named, or from the standard one if it exists. -/
def loadSettings {m : Type → Type} [Monad m] (site : Site m) (env : Environment)
    (config : Option Path) : m (Except Settings.LoadError Settings) := do
  match config, Settings.file? env with
  | some path, _ => return Settings.load path (← site.read path)
  | none, some path =>
    return (Settings.loadPresent path (← site.read path)).map (·.getD .standard)
  | none, none => return .ok .standard

/-- The text of a program without a worker. -/
def noCommand : String :=
  "no worker command configured; set [worker].command in ~/.tether/config.toml"

/-- What is to be done, by the settings and the command line. -/
def plan (env : Environment) (current : Path) (journal : Journal) (settings : Settings)
    (invocation : Invocation) : Except Conclusion Plan :=
  let worker := settings.worker
  match worker.program? env with
  | none => .error (failing journal noCommand)
  | some command =>
    .ok {
      launcher := ⟨command, worker.arguments env, worker.requestTimeout.map (· * 1000)⟩
      options := ⟨worker.busyErrorCode, worker.maxBusyRetries, worker.shutdownTimeout⟩
      workspace :=
        (invocation.workspace.or ((worker.workspace? env).map Path.ofString)).getD current
      command := invocation.command
      journal := journal
      warns := warns env }

/-- Gets ready to carry out a command; or there is nothing to carry out. -/
def prepare {m : Type → Type} [Monad m] (site : Site m) (env : Environment) (current : Path)
    (arguments : List String) : m (Except Conclusion Plan) := do
  match read arguments with
  | .help topic => return .error (saying topic.text)
  | .complain c => return .error (complaining c)
  | .run invocation =>
    let journal ← beginLog site env
    match ← loadSettings site env invocation.config with
    | .error why => return .error (failing journal why.message)
    | .ok settings => return plan env current journal settings invocation

/-- What is printed of the answer to a request. -/
def answerText : Option Json → String
  | some v => v.renderIndented ++ "\n"
  | none => "no result\n"

/-- What is printed once a command has come to something, and whether it failed, with what text. -/
def outcomeOf (command : Command) (interrupted : Bool) :
    Worker.Result → String × List String × Option String
  | .answer v => (answerText v, [], none)
  | .sent (.error why) => ("", [], some why.message)
  | _ =>
    match command with
    | .refresh =>
      ("", [if interrupted then "Stopped waiting for the refresh" else "Workspace refreshed"], none)
    | _ => ("", [], none)

/-- The log with what the supervisor wrote in it. -/
def journalOf (plan : Plan) (o : Operation) : Journal :=
  if plan.warns then { plan.journal with lines := plan.journal.lines ++ o.warnings }
  else plan.journal

/-- What the end of a command leaves. A failure is told last, once the worker is shut down. -/
def conclude (plan : Plan) (ending : Operation.Ending) (o : Operation) : Conclusion :=
  let lines := Progress.percentLines 0 o.progress
  let journal := some (journalOf plan o)
  match ending.result with
  | none => ⟨none, "", lines, journal, o.received⟩
  | some r =>
    let (output, said, failure) := outcomeOf plan.command ending.interrupted r
    if ending.closed then
      let last := failure.toList.map failureLine
      ⟨some (if failure.isSome then 1 else 0), output, lines ++ said ++ last, journal, o.received⟩
    else ⟨none, output, lines ++ said, journal, o.received⟩

/-- Carries out a plan among the programs of a host. -/
def carryOut (host : Host) (plan : Plan) : Conclusion :=
  let o := Operation.start plan.options plan.launcher host
  let (ending, o) := o.carryOut plan.workspace plan.command
  conclude plan ending o

end Program

end Supervision.CommandLine
