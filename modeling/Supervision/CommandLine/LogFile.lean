import Supervision.Path.Tree
import Supervision.Settings.File

/-!
# The log of the program

The log goes to a file in the user's directory, else to one in the current directory, else to the
error output. Which of its lines are written is set by a filter.

Of the files around it the program needs little (`Site`). They may be those of a machine, or a tree
in memory.
-/

namespace Supervision.CommandLine

/-! ## Where the program runs -/

/-- What the program needs of the files around it. -/
structure Site (m : Type → Type) where
  read : Path → m (Except FileFault (List UInt8))
  makeDirectories : Path → m (Except FileFault Unit)
  openToAppend : Path → m (Except FileFault Unit)

namespace Site

/-- Replaces a tree by what a change makes of it, unless it fails. -/
def change (f : FileTree → Except FileFault FileTree) : StateM FileTree (Except FileFault Unit) :=
  fun t =>
    match f t with
    | .ok t => (.ok (), t)
    | .error why => (.error why, t)

def ofTree : Site (StateM FileTree) where
  read p := fun t => (t.read p, t)
  makeDirectories p := change (·.makeDirectories p)
  openToAppend p := change (·.openToAppend p)

end Site

/-! ## The file -/

namespace LogFile

def fileName : Path := .ofString "tether.log"

/-- The directories in which the file may be, the best first. -/
def directories (env : Environment) : List Path :=
  (Settings.directory? env).toList.map (·.join (.ofString "logs"))
    ++ [(Path.ofString ".tether").join (.ofString "logs")]

/-- Opens the first file that can be opened: the file, if there is one, and a warning for each that
cannot. -/
def choose {m : Type → Type} [Monad m] (site : Site m) :
    List Path → m (Option Path × List String)
  | [] => pure (none, [])
  | directory :: rest => do
    match ← site.makeDirectories directory with
    | .error why =>
      let (file, warnings) ← choose site rest
      return (file, s!"Failed to create log dir {directory.text}: {why.message}" :: warnings)
    | .ok () =>
      let file := directory.join fileName
      match ← site.openToAppend file with
      | .ok () => return (some file, [])
      | .error why =>
        let (other, warnings) ← choose site rest
        return (other, s!"Failed to open log file {file.text}: {why.message}" :: warnings)

end LogFile

/-- A rule of a filter: the lines of a part of the program up to a degree of detail. -/
structure FilterRule where
  /-- The part, or all of it. -/
  target : Option (List Char)
  /-- From 0, nothing, to 5, everything. -/
  detail : Nat
  deriving DecidableEq, Repr

namespace Filter

/-- The degree of detail that a word stands for. -/
def detail? (word : List Char) : Option Nat :=
  let lower := String.ofList (word.map Char.toLower)
  if lower = "off" ∨ lower = "0" then some 0
  else if lower = "error" ∨ lower = "1" then some 1
  else if lower = "warn" ∨ lower = "2" then some 2
  else if lower = "info" ∨ lower = "3" then some 3
  else if lower = "debug" ∨ lower = "4" then some 4
  else if lower = "trace" ∨ lower = "5" then some 5
  else none

/-- Whether a character may stand in the name of a part. -/
def isTargetChar (c : Char) : Bool :=
  c.isAlphanum || c = '_' || c = ':' || c = '-'

def splitAt (sep : Char) : List Char → List (List Char)
  | [] => [[]]
  | c :: rest =>
    if c = sep then [] :: splitAt sep rest
    else
      match splitAt sep rest with
      | [] => [[c]]
      | part :: parts => (c :: part) :: parts

def rule? (cs : List Char) : Option FilterRule :=
  match detail? cs with
  | some detail => some ⟨none, detail⟩
  | none =>
    match splitAt '=' cs with
    | [target] => if target.all isTargetChar then some ⟨some target, 5⟩ else none
    | [target, word] =>
      if target.all isTargetChar ∧ target ≠ [] then
        if word.isEmpty then some ⟨some target, 5⟩
        else (detail? word).map (fun detail => ⟨some target, detail⟩)
      else none
    | _ => none

/-- What holds when no filter is set, or it cannot be read. -/
def standard : List FilterRule := [⟨none, 3⟩]

/-- The rules that a filter sets. An empty one lets errors through. -/
def rules (filter : Option String) : List FilterRule :=
  match filter with
  | none => standard
  | some text =>
    match ((splitAt ',' text.toList).filter (fun r => !r.isEmpty)).mapM rule? with
    | none => standard
    | some [] => [⟨none, 1⟩]
    | some rules => rules

/-- How well a rule fits a part: the length of what it names of it; `none` when it does not. -/
def fit (target : List Char) (rule : FilterRule) : Option Nat :=
  match rule.target with
  | none => some 0
  | some name => if name.isPrefixOf target then some (name.length + 1) else none

/-- The degree of detail for a part: of the rules that fit it best, the last decides. -/
def detailFor (target : List Char) (rules : List FilterRule) : Nat :=
  (rules.foldl (fun (best : Nat × Nat) rule =>
    match fit target rule with
    | some n => if best.1 ≤ n then (n, rule.detail) else best
    | none => best) (0, 0)).2

/-- Whether warnings of a part are written. -/
def warns (filter : Option String) (target : String) : Bool :=
  2 ≤ detailFor target.toList (rules filter)

end Filter

end Supervision.CommandLine
