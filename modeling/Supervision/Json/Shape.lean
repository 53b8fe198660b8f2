import Supervision.Json.Printer
import Supervision.Number.Binary64
import Supervision.Text.Character

/-!
# Shapes of values

What a listener or a caller expects a value to look like. `Shape.read` checks a value against a
shape and returns it in canonical form: a record has exactly its fields, absent ones filled in. A
value that does not fit is answered by a `Mismatch`, which names what was found and what was
expected.
-/

namespace Supervision.Json

/-- What stands in a message for a value that was found. -/
def described : Json → String
  | .null => "null"
  | .bool b => s!"boolean `{b}`"
  | .int i => s!"integer `{i}`"
  | .float x => s!"floating point `{floatLayout.render x}`"
  | .str s => s!"string {Text.Quoted.render s}"
  | .arr _ => "sequence"
  | .obj _ => "map"

/-- Why a value does not have a shape. -/
inductive Mismatch
  | kind (found : Json) (expected : String)
  /-- A value of the right kind outside its bounds. -/
  | bounds (found : Json) (expected : String)
  /-- An array that is too short or too long for a record. -/
  | count (found : Nat) (expected : String)
  /-- A field that must be there and is not. -/
  | missing (field : String)
  deriving Inhabited

def Mismatch.message : Mismatch → String
  | .kind found expected => s!"invalid type: {described found}, expected {expected}"
  | .bounds found expected => s!"invalid value: {described found}, expected {expected}"
  | .count found expected => s!"invalid length {found}, expected {expected}"
  | .missing field => s!"missing field `{field}`"

/-- Mismatches of members, in the order of the members' names. -/
abbrev Faults := List (String × Mismatch)

def Faults.insert (key : String) (e : Mismatch) : Faults → Faults
  | [] => [(key, e)]
  | (k, f) :: rest => if key < k then (key, e) :: (k, f) :: rest else (k, f) :: insert key e rest

/-- What a value is expected to be. -/
inductive Shape
  | any
  /-- A whole number from `low` to `high`; the name stands in messages. -/
  | whole (low high : Int) (name : String)
  | text
  | unit
  /-- `null` or a value of the shape. -/
  | optional (shape : Shape)
  /-- An array of values of the shape. -/
  | list (shape : Shape)
  /-- An object with the fields, in the order of their declaration, each with the value that stands
  in for it when it is absent. An array of the fields' values in that order is accepted too. -/
  | record (name : String) (fields : List (String × Shape × Option Json))

namespace Shape

/-- A 32-bit number without sign. -/
def u32 : Shape := .whole 0 (Number.twoTo 32 - 1) "u32"

/-- A 64-bit number with a sign. -/
def i64 : Shape := .whole (-(Number.twoTo 63 : Int)) (Number.twoTo 63 - 1) "i64"

mutual

/-- Checks a value against a shape and returns it in canonical form. -/
def read : Shape → Json → Except Mismatch Json
  | .any, v => .ok v
  | .whole low high name, v =>
    match v with
    | .int i => if low ≤ i ∧ i ≤ high then .ok v else .error (.bounds v name)
    | _ => .error (.kind v name)
  | .text, v =>
    match v with
    | .str _ => .ok v
    | _ => .error (.kind v "a string")
  | .unit, v =>
    match v with
    | .null => .ok v
    | _ => .error (.kind v "unit")
  | .optional shape, v =>
    match v with
    | .null => .ok v
    | _ => read shape v
  | .list shape, v =>
    match v with
    | .arr xs => (readList shape xs).map .arr
    | _ => .error (.kind v "a sequence")
  | .record name fields, v =>
    match v with
    | .arr xs =>
      let full := s!"struct {name} with {fields.length} elements"
      match readPositions full 0 fields xs with
      | .error e => .error e
      | .ok pairs =>
        if fields.length < xs.length then .error (.count xs.length "fewer elements in array")
        else .ok (object pairs)
    | .obj ms =>
      match readFields fields ms with
      | [] => (fillFields fields ms).map object
      | e :: _ => .error e.2
    | _ => .error (.kind v s!"struct {name}")

/-- Checks items one after the other. -/
def readList (shape : Shape) : List Json → Except Mismatch (List Json)
  | [] => .ok []
  | x :: xs => do
    let y ← read shape x
    let ys ← readList shape xs
    return y :: ys

/-- Checks items against fields by position; `i` is the position. Fields beyond the last item take
the value that stands in for them. -/
def readPositions (full : String) (i : Nat) :
    List (String × Shape × Option Json) → List Json → Except Mismatch (List (String × Json))
  | [], _ => .ok []
  | (key, shape, _) :: fields, x :: xs => do
    let y ← read shape x
    let rest ← readPositions full (i + 1) fields xs
    return (key, y) :: rest
  | (key, _, absent) :: fields, [] =>
    match absent with
    | none => .error (.count i full)
    | some d => do
      let rest ← readPositions full (i + 1) fields []
      return (key, d) :: rest

/-- The mismatches of the members that are fields, in the order of their names. -/
def readFields : List (String × Shape × Option Json) → Members → Faults
  | [], _ => []
  | (key, shape, _) :: fields, ms =>
    let others := readFields fields ms
    match Members.get? key ms with
    | none => others
    | some v =>
      match read shape v with
      | .ok _ => others
      | .error e => Faults.insert key e others

/-- The fields' values in the order of declaration. -/
def fillFields :
    List (String × Shape × Option Json) → Members → Except Mismatch (List (String × Json))
  | [], _ => .ok []
  | (key, shape, absent) :: fields, ms => do
    let y ←
      match Members.get? key ms with
      | some v => read shape v
      | none =>
        match absent with
        | some d => .ok d
        | none => .error (.missing key)
    let rest ← fillFields fields ms
    return (key, y) :: rest

end

end Shape

end Supervision.Json
