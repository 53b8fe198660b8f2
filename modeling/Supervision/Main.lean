import Supervision.CommandLine.Program
import Supervision.Peer.Script

/-!
# The command

Reads the command line, the environment and the files of the machine, and writes what the program
leaves. Workers are rehearsed: a worker's command names a file that holds a script.
-/

namespace Supervision.CommandLine.Console

/-- The fault that is nearest to an error of the system. -/
def faultOf : IO.Error → FileFault
  | .noFileOrDirectory .. => .notFound
  | .alreadyExists .. => .exists
  | .inappropriateType .. => .notADirectory
  | _ => .isADirectory

def attempt {α : Type} (action : IO α) : IO (Except FileFault α) := do
  try
    return .ok (← action)
  catch e =>
    return .error (faultOf e)

def machineSite : Site IO where
  read p := attempt (do return (← IO.FS.readBinFile p.text).toList)
  makeDirectories p := attempt (IO.FS.createDirAll p.text)
  openToAppend p := attempt (do discard (IO.FS.Handle.mk p.text .append))

/-- The variables in the block of an environment. -/
def variablesOf (block : List UInt8) : List (String × List UInt8) :=
  let entry (bytes : List UInt8) : Option (String × List UInt8) :=
    let name := bytes.takeWhile (· ≠ 0x3D)
    (Text.Utf8.decode? name).map (fun s => (s, bytes.drop (name.length + 1)))
  (block.splitOn 0).filterMap entry

def currentEnvironment : IO Environment := do
  match ← attempt (IO.FS.readBinFile "/proc/self/environ") with
  | .ok block => return ⟨variablesOf block.toList, none⟩
  | .error _ => return ⟨[], none⟩

/-- The bytes of a script that are written as they are. -/
def rawBytes (v : Json) : List UInt8 :=
  Text.Utf8.encode (v.str?.getD "")

def programAt (file : String) : IO (Option Executable) := do
  match ← attempt (IO.FS.readBinFile file) with
  | .ok bytes =>
    return match Json.read bytes.toList with
      | .ok v => some (.scripted (Script.ofJson rawBytes v))
      | .error _ => none
  | .error _ => return none

/-- Why no process can begin in a directory. -/
def obstacleAt (directory : Path) : IO (Option FileFault) := do
  let place ← IO.FS.realPath directory.text
  if ← place.isDir then return none
  else if ← place.pathExists then return some .notADirectory
  else return some .notFound

def write (journal : Journal) : IO Unit := do
  match journal.file with
  | none => journal.lines.forM (fun line => IO.eprintln line)
  | some file =>
    let handle ← IO.FS.Handle.mk file.text .append
    journal.lines.forM (fun line => handle.putStrLn line)

/-- Writes what a program leaves, and gives its exit code. -/
def finish (c : Conclusion) : IO UInt32 := do
  c.journal.forM write
  IO.print c.output
  c.errors.forM (fun line => IO.eprintln line)
  return (c.code.getD 130).toUInt32

def run (arguments : List String) : IO UInt32 := do
  let env ← currentEnvironment
  let current := Path.ofString (← IO.currentDir).toString
  match ← Program.prepare machineSite env current arguments with
  | .error c => finish c
  | .ok plan =>
    let program ← programAt plan.launcher.command
    let obstacle ← obstacleAt plan.workspace
    finish (Program.carryOut ⟨fun _ _ => program, fun _ => obstacle, 0⟩ plan)

end Supervision.CommandLine.Console

def main (arguments : List String) : IO UInt32 :=
  Supervision.CommandLine.Console.run arguments
