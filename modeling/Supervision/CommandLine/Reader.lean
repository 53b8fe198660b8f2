import Supervision.CommandLine.Grammar
import Supervision.Json.Reader
import Supervision.Path.Basic

/-!
# Reading the command line

Arguments are read from left to right. What was written is judged when the next thing begins, or at
the end, so that of two mistakes the one that is noticed first counts. Options may stand before the
command and after it; the latter count more.
-/

namespace Supervision.CommandLine

open Text

/-- What a user wants. -/
inductive Command
  | request (method : String) (params : Option Json)
  | notify (method : String) (params : Option Json)
  | refresh

/-- A command line that makes sense. -/
structure Invocation where
  config : Option Path
  workspace : Option Path
  command : Command

/-- What there is to do with a command line. -/
inductive Reading
  | run (invocation : Invocation)
  | help (topic : Topic)
  | complain (c : Complaint)

/-- What an argument was written for. -/
inductive Item
  | setting (s : Setting)
  | method
  | params
  deriving DecidableEq, Repr

/-- What has been read of the part of a command line before the command, or after it. -/
structure Scan where
  settings : List (Setting × String)
  method : Option String
  params : Option Json
  /-- What is still to be judged: for what, and the value, which may be missing. -/
  pending : Option (Item × Option String)
  /-- Whether only arguments may follow. -/
  trailing : Bool
  /-- The number of arguments that were read. -/
  count : Nat

namespace Scan

def start : Scan := ⟨[], none, none, none, false, 0⟩

def judgeSetting (r : Scan) (s : Setting) : Option String → Except Complaint Scan
  | none => .error (.missingValue s)
  | some value =>
    if r.settings.any (fun e => e.1 = s) then .error (.repeated s)
    else if value.isEmpty then .error (.missingValue s)
    else .ok { r with settings := r.settings ++ [(s, value)] }

/-- Judges what is still to be judged. -/
def resolve (r : Scan) : Except Complaint Scan :=
  let rest := { r with pending := none }
  match r.pending with
  | none => .ok r
  | some (.setting s, value) => rest.judgeSetting s value
  | some (.method, value) => .ok { rest with method := value }
  | some (.params, value) =>
    let value := value.getD ""
    match Json.read (Utf8.encode value) with
    | .ok v => .ok { rest with params := some v }
    | .error _ => .error (.notJson value)

/-- Whether an option waits for its value. -/
def isWaiting (r : Scan) : Bool :=
  match r.pending with
  | some (.setting _, none) => true
  | _ => false

def value? (r : Scan) (s : Setting) : Option String :=
  r.settings.lookup s

/-- Whether nothing was written. -/
def isEmpty (r : Scan) : Bool :=
  r.settings.isEmpty

/-- The name and the value of an argument of the form `--name=value`, without the dashes. -/
def splitValue : List Char → List Char × Option (List Char)
  | [] => ([], none)
  | c :: rest =>
    if c = '=' then ([], some rest)
    else
      let (name, value) := splitValue rest
      (c :: name, value)

/-- What an argument that is no value turned out to be. -/
inductive Found
  | read (r : Scan)
  | help
  | wrong (c : Complaint)

def long (r : Scan) (name : String) (value : Option String) : Found :=
  match Setting.all.find? (fun s => s.name = name), value with
  | some s, some value =>
    match r.resolve with
    | .error c => .wrong c
    | .ok r =>
      match r.judgeSetting s (some value) with
      | .ok r => .read r
      | .error c => .wrong c
  | some s, none =>
    match r.resolve with
    | .error c => .wrong c
    | .ok r => .read { r with pending := some (.setting s, none) }
  | none, value =>
    if name = "help" then
      match value with
      | some value => .wrong (.helpWithValue value)
      | none =>
        match r.resolve with
        | .error c => .wrong c
        | .ok _ => .help
    else .wrong (.unexpected s!"--{name}")

def short (r : Scan) (letter : Char) : Found :=
  if letter = 'h' then
    match r.resolve with
    | .error c => .wrong c
    | .ok _ => .help
  else .wrong (.unexpected s!"-{letter}")

/-- Reads what is marked as an option, or is the value of one; `none` for everything else. -/
def option? (r : Scan) (argument : String) : Option Found :=
  if r.trailing then none
  else
    match argument.toList with
    | ['-', '-'] => some (.read { r with trailing := true })
    | '-' :: '-' :: rest =>
      let (name, value) := splitValue rest
      some (r.long (String.ofList name) (value.map String.ofList))
    | '-' :: letter :: _ => some (r.short letter)
    | _ =>
      match r.pending with
      | some (.setting s, none) =>
        some (.read { r with pending := some (.setting s, some argument) })
      | _ => none

def argument (r : Scan) (v : Verb) (argument : String) : Found :=
  if v.arity ≤ r.count then .wrong (.unexpected argument)
  else
    match r.resolve with
    | .error c => .wrong c
    | .ok r =>
      let item := if r.count = 0 then Item.method else .params
      .read { r with pending := some (item, some argument), count := r.count + 1 }

end Scan

/-- What help is wanted for, by the names that follow. -/
def readTopic : List String → Reading
  | [] => .help .program
  | name :: rest =>
    let inner (t : Topic) : Reading :=
      match rest with
      | [] => .help t
      | name :: _ => .complain (.unknownCommand name)
    match Verb.ofName? name with
    | some v => inner (.verb v)
    | none => if name = helpName then inner .help else .complain (.unknownCommand name)

def readArguments (v : Verb) (r : Scan) : List String → Except Reading Scan
  | [] => .ok r
  | a :: rest =>
    match (r.option? a).getD (r.argument v a) with
    | .read r => readArguments v r rest
    | .help => .error (.help (.verb v))
    | .wrong c => .error (.complain c)

def commandOf (v : Verb) (r : Scan) : Option Command :=
  match v, r.method with
  | .request, some method => some (.request method r.params)
  | .notify, some method => some (.notify method r.params)
  | .refresh, _ => some .refresh
  | _, none => none

/-- Judges a command line of which all has been read. -/
def conclude (v : Verb) (before after : Scan) : Reading :=
  match after.resolve with
  | .error c => .complain c
  | .ok after =>
    match commandOf v after with
    | none => .complain .missingArguments
    | some command =>
      match before.resolve with
      | .error c => .complain c
      | .ok before =>
        let setting (s : Setting) : Option Path :=
          ((after.value? s).or (before.value? s)).map Path.ofString
        .run ⟨setting .config, setting .workspace, command⟩

/-- Judges a command line without a command. -/
def concludeWithout (r : Scan) : Reading :=
  match r.resolve with
  | .error c => .complain c
  | .ok r => .complain (if r.isEmpty then .nothing else .missingCommand)

/-- Complains of an argument in the place of a command. -/
def misplaced (r : Scan) (a : String) : Complaint :=
  if r.trailing && ((Verb.ofName? a).isSome || a = helpName) then .unexpected a
  else .unknownCommand a

/-- Reads a command line from some point before the command. -/
def readFrom (r : Scan) : List String → Reading
  | [] => concludeWithout r
  | a :: rest =>
    let other : Reading :=
      match r.option? a with
      | some (.read r) => readFrom r rest
      | some .help => .help .program
      | some (.wrong c) => .complain c
      | none => .complain (misplaced r a)
    if r.trailing || r.isWaiting then other
    else
      match Verb.ofName? a with
      | some v =>
        match readArguments v .start rest with
        | .ok after => conclude v r after
        | .error reading => reading
      | none => if a = helpName then readTopic rest else other

def read (arguments : List String) : Reading :=
  readFrom .start arguments

end Supervision.CommandLine
