import Supervision.Path.Basic
import Supervision.Text.Expansion

/-!
# The environment of a process

Variables and their values. A value is a sequence of bytes and counts as a text only when it is
UTF-8. `expand` puts the values in place of the references of a text.
-/

namespace Supervision

open Text

/-- The variables of a process, and the home directory of the account that it runs under. -/
structure Environment where
  values : List (String × List UInt8)
  account : Option Path
  deriving Inhabited

namespace Environment

def get? (env : Environment) (name : String) : Option (List UInt8) :=
  env.values.lookup name

/-- The value of a variable as text; empty when there is none or it is not UTF-8. -/
def text (env : Environment) (name : List Char) : List Char :=
  match (env.get? (String.ofList name)).bind Utf8.decode? with
  | some s => s.toList
  | none => []

/-- Replaces the references in a text by the values of variables. -/
def expand (env : Environment) (s : String) : String :=
  String.ofList ((Expansion.run env.text ⟨[], s.toList⟩).get (Expansion.run_isSome _ _))

/-- The home directory: the one that is set, or that of the account. -/
def home? (env : Environment) : Option Path :=
  match env.get? "HOME" with
  | some (b :: bytes) => some ⟨b :: bytes⟩
  | _ => env.account

end Environment

end Supervision
