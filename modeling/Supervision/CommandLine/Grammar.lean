import Supervision.Json.Basic

/-!
# What may be written on the command line

The commands, the options that every command takes, and what help says of them.
-/

namespace Supervision.CommandLine

def programName : String := "tether"

def programAbout : String := "Drive a supervised worker from the command line"

/-- An option with a value, that every command takes. -/
inductive Setting
  | config
  | workspace
  deriving DecidableEq, Repr

namespace Setting

def all : List Setting := [.config, .workspace]

def name : Setting → String
  | .config => "config"
  | .workspace => "workspace"

def shown : Setting → String
  | .config => "--config <CONFIG>"
  | .workspace => "--workspace <WORKSPACE>"

def help : Setting → String
  | .config => "Config file to read instead of ~/.tether/config.toml"
  | .workspace =>
    "Workspace root; defaults to [worker].workspace_path, then the current directory"

end Setting

inductive Verb
  | request
  | notify
  | refresh
  deriving DecidableEq, Repr

namespace Verb

def all : List Verb := [.request, .notify, .refresh]

def name : Verb → String
  | .request => "request"
  | .notify => "notify"
  | .refresh => "refresh"

def about : Verb → String
  | .request => "Send a request and print the result"
  | .notify => "Send a notification"
  | .refresh => "Restart the worker and wait for a workspace refresh"

/-- How many arguments a command takes at most. -/
def arity : Verb → Nat
  | .request => 2
  | .notify => 2
  | .refresh => 0

def ofName? (name : String) : Option Verb :=
  all.find? (fun v => v.name = name)

end Verb

def methodShown : String := "<METHOD>"

def paramsShown : String := "[PARAMS]"

def helpName : String := "help"

def helpAbout : String := "Print this message or the help of the given subcommand(s)"

/-- What help is about. -/
inductive Topic
  | program
  | verb (v : Verb)
  | help
  deriving DecidableEq, Repr

namespace Topic

/-- Rows of two columns, the second aligned. -/
def rows (entries : List (String × String)) : List String :=
  let width := (entries.map (fun e => e.1.length)).foldl max 0
  entries.map (fun (left, right) =>
    "  " ++ left ++ String.ofList (List.replicate (width - left.length) ' ') ++ "  " ++ right)

def optionRows : List String :=
  rows (Setting.all.map (fun s => ("    " ++ s.shown, s.help)) ++ [("-h, --help", "Print help")])

def commandRows : List String :=
  rows (Verb.all.map (fun v => (v.name, v.about)) ++ [(helpName, helpAbout)])

/-- The arguments of a command that takes any. -/
def argumentRows (v : Verb) : List String :=
  if v.arity = 0 then []
  else ["", "Arguments:"] ++ rows [(methodShown, ""), (paramsShown, "JSON params")]

def lines : Topic → List String
  | .program =>
    [programAbout, "", s!"Usage: {programName} [OPTIONS] <COMMAND>", "", "Commands:"]
      ++ commandRows ++ ["", "Options:"] ++ optionRows
  | .verb v =>
    let arguments := if v.arity = 0 then "" else s!" {methodShown} {paramsShown}"
    [v.about, "", s!"Usage: {programName} {v.name} [OPTIONS]" ++ arguments]
      ++ argumentRows v ++ ["", "Options:"] ++ optionRows
  | .help =>
    [helpAbout, "", s!"Usage: {programName} {helpName} [COMMAND]...", "", "Arguments:"]
      ++ rows [("[COMMAND]...", "Print help for the subcommand(s)")]

def text (t : Topic) : String :=
  String.join (t.lines.map (· ++ "\n"))

end Topic

/-- What is wrong with a command line. -/
inductive Complaint
  | nothing
  | unexpected (argument : String)
  | unknownCommand (name : String)
  | missingCommand
  | missingArguments
  | missingValue (s : Setting)
  | repeated (s : Setting)
  | notJson (value : String)
  /-- The option that shows help has a value. -/
  | helpWithValue (value : String)
  deriving DecidableEq, Repr

/-- The first line of a complaint. -/
def Complaint.message : Complaint → String
  | .nothing => programAbout
  | .unexpected argument => s!"error: unexpected argument '{argument}' found"
  | .unknownCommand name => s!"error: unrecognized subcommand '{name}'"
  | .missingCommand => s!"error: '{programName}' requires a subcommand but one was not provided"
  | .missingArguments => "error: the following required arguments were not provided:"
  | .missingValue s => s!"error: a value is required for '{s.shown}' but none was supplied"
  | .repeated s => s!"error: the argument '{s.shown}' cannot be used multiple times"
  | .notJson value => s!"error: invalid value '{value}' for '{paramsShown}': params are not JSON"
  | .helpWithValue value =>
    s!"error: unexpected value '{value}' for '--help' found; no more were expected"

end Supervision.CommandLine
