import Supervision.Path.Basic
import Supervision.Settings.Basic
import Supervision.Toml.Reader

/-!
# The settings file

Where settings are kept, and how a file that cannot be had or understood is reported.
-/

namespace Supervision

open Text

namespace Settings

/-- The directory of the settings file and of logs. -/
def directory? (env : Environment) : Option Path :=
  env.home?.map (·.join (.ofString ".tether"))

def file? (env : Environment) : Option Path :=
  (directory? env).map (·.join (.ofString "config.toml"))

/-- Why settings could not be loaded. -/
inductive LoadError
  | read (path : Path) (why : FileFault)
  | parse (path : Path)
  deriving DecidableEq, Repr

def LoadError.path : LoadError → Path
  | .read path _ => path
  | .parse path => path

def LoadError.message : LoadError → String
  | .read path why => s!"failed to read {path.text}: {why.message}"
  | .parse path => s!"failed to parse {path.text}"

/-- Loads settings from what a file turned out to hold. -/
def load (path : Path) (content : Except FileFault (List UInt8)) : Except LoadError Settings :=
  match content with
  | .error why => .error (.read path why)
  | .ok bytes =>
    match Utf8.decode? bytes with
    | none => .error (.read path .notUtf8)
    | some s =>
      match (Toml.read? s).bind ofToml? with
      | some settings => .ok settings
      | none => .error (.parse path)

/-- Loads settings from a file that need not exist. -/
def loadPresent (path : Path) (content : Except FileFault (List UInt8)) :
    Except LoadError (Option Settings) :=
  match content with
  | .error .notFound => .ok none
  | .error .notADirectory => .ok none
  | content => (load path content).map some

end Settings

end Supervision
