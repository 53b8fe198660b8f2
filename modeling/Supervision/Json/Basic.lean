import Supervision.Number.Binary64

/-!
# JSON values

Whole numbers and doubles are kept apart: `1` and `1.0` are different values and are written back as
they were. The members of an object are kept in the order of their names, one for each name.
-/

namespace Supervision

open Number

inductive Json
  | null
  | bool (b : Bool)
  | int (i : Int)
  | float (x : Binary64)
  | str (s : String)
  | arr (items : List Json)
  | obj (members : List (String × Json))
  deriving Inhabited, Repr

namespace Json

/-- The members of an object, in the order of their names. -/
abbrev Members := List (String × Json)

namespace Members

def get? (key : String) : Members → Option Json
  | [] => none
  | (k, v) :: rest => if k = key then some v else get? key rest

/-- Sets the value under a name and keeps the order. -/
def insert (key : String) (value : Json) : Members → Members
  | [] => [(key, value)]
  | (k, v) :: rest =>
    if key < k then (key, value) :: (k, v) :: rest
    else if k = key then (key, value) :: rest
    else (k, v) :: insert key value rest

/-- Members in any order; of two with one name the later counts. -/
def ofList (pairs : List (String × Json)) : Members :=
  pairs.foldl (fun ms p => insert p.1 p.2 ms) []

@[simp] theorem get?_insert_self (key : String) (value : Json) (ms : Members) :
    get? key (insert key value ms) = some value := by
  induction ms with
  | nil => simp [insert, get?]
  | cons m rest ih =>
    obtain ⟨k, v⟩ := m
    unfold insert
    split
    · simp [get?]
    · split
      · simp [get?]
      · next h => simp [get?, h, ih]

theorem get?_insert_of_ne {key other : String} (h : other ≠ key) (value : Json) (ms : Members) :
    get? other (insert key value ms) = get? other ms := by
  induction ms with
  | nil => simp [insert, get?, Ne.symm h]
  | cons m rest ih =>
    obtain ⟨k, v⟩ := m
    unfold insert
    split
    · simp [get?, Ne.symm h]
    · split
      · next hk => subst hk; simp [get?, Ne.symm h]
      · simp [get?, ih]

end Members

/-- An object from its members in any order; of two with one name the later counts. -/
def object (pairs : List (String × Json)) : Json :=
  .obj (Members.ofList pairs)

/-- The member of an object under a name; `none` on any other value. -/
def get? (key : String) : Json → Option Json
  | .obj ms => Members.get? key ms
  | _ => none

def str? : Json → Option String
  | .str s => some s
  | _ => none

/-- A whole number that is not negative. -/
def nat? : Json → Option Nat
  | .int (.ofNat n) => some n
  | _ => none

def bool? : Json → Option Bool
  | .bool b => some b
  | _ => none

def arr? : Json → Option (List Json)
  | .arr xs => some xs
  | _ => none

/-- True of `null` alone. -/
def isNull : Json → Bool
  | .null => true
  | _ => false

mutual

/-- How deep arrays and objects lie in one another. -/
def depth : Json → Nat
  | .arr xs => depthItems xs + 1
  | .obj ms => depthMembers ms + 1
  | _ => 0

def depthItems : List Json → Nat
  | [] => 0
  | v :: rest => max v.depth (depthItems rest)

def depthMembers : List (String × Json) → Nat
  | [] => 0
  | (_, v) :: rest => max v.depth (depthMembers rest)

end

end Json

end Supervision
