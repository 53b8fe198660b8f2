import Supervision.Proofs.Json.Double

/-!
# What comes back of a value

A value that may be written (`Sound`) is read again, and `reread` says as what: as itself, but that
each double is the one its own text is read as, and that the members of an object are in the order
of their names, one for each name. Members keep their names and come back one by one
(`member_rereadMembers`).
-/

namespace Supervision.Json

open Number

/-- A value that may be written: whole numbers of 64 bits, and doubles as the format has them. -/
inductive Sound : Json → Prop
  | null : Sound .null
  | bool (b : Bool) : Sound (.bool b)
  | int {i : Int} (low : -(2 ^ 63) ≤ i) (high : i < 2 ^ 64) : Sound (.int i)
  | float {x : Binary64} (finite : x.Finite) : Sound (.float x)
  | str (s : String) : Sound (.str s)
  | arr {xs : List Json} (items : ∀ v ∈ xs, Sound v) : Sound (.arr xs)
  | obj {ms : Members} (values : ∀ m ∈ ms, Sound m.2) : Sound (.obj ms)

/-- The double that the text of a double is read as. -/
def rereadFloat (x : Binary64) : Binary64 :=
  ((Json.float x).settle.bind float?).getD x

mutual

/-- A value after it was written and read: each double is the one that its own text is read as, and
the members of an object are in the order of their names, the later of two with one name. -/
def reread : Json → Json
  | .float x => .float (rereadFloat x)
  | .arr xs => .arr (rereadItems xs)
  | .obj ms => object (rereadMembers ms)
  | v => v

def rereadItems : List Json → List Json
  | [] => []
  | v :: rest => v.reread :: rereadItems rest

def rereadMembers : List (String × Json) → List (String × Json)
  | [] => []
  | (k, v) :: rest => (k, v.reread) :: rereadMembers rest

end

theorem settle_float {x : Binary64} (finite : x.Finite) :
    (Json.float x).settle = some (.float (rereadFloat x)) := by
  obtain ⟨y, settled⟩ := exists_settle_float finite
  rw [rereadFloat, settled, Option.bind_some, float?_eq_some.2 rfl, Option.getD_some]

/-- **Whatever may be written is read**, and nothing changes but doubles and the order of
members. -/
theorem settle_of_sound {v : Json} (sound : Sound v) : v.settle = some v.reread := by
  induction sound with
  | null | bool | str => rfl
  | int low high => exact settle_int low high
  | float finite => exact settle_float finite
  | @arr xs sound settled =>
    clear sound
    have items : settleItems xs = some (rereadItems xs) := by
      induction xs with
      | nil => rfl
      | cons v xs ih =>
        rw [settleItems, settled v List.mem_cons_self,
          Option.bind_some, ih fun w mem => settled w (List.mem_cons_of_mem v mem)]
        rfl
    rw [settle, items]
    rfl
  | @obj ms sound settled =>
    clear sound
    have members : settleMembers ms = some (rereadMembers ms) := by
      induction ms with
      | nil => rfl
      | cons m ms ih =>
        rw [settleMembers, settled m List.mem_cons_self,
          Option.bind_some, ih fun n mem => settled n (List.mem_cons_of_mem m mem)]
        rfl
    rw [settle, members]
    rfl

/-- A value that a text can stand for comes back as it was. -/
theorem reread_of_writable {v : Json} (writable : Writable v) (sound : Sound v) : v.reread = v := by
  have settled := settle_of_writable writable
  rw [settle_of_sound sound] at settled
  exact Option.some.inj settled

/-! ## Members -/

/-- The member of an object in any order; of two with one name the later counts. -/
def member (key : String) (pairs : List (String × Json)) : Option Json :=
  Members.get? key (Members.ofList pairs)

@[simp] theorem member_nil (key : String) : member key [] = none := rfl

/-- A member counts if none of its name comes after it. -/
@[simp] theorem member_cons (key : String) (p : String × Json) (pairs : List (String × Json)) :
    member key (p :: pairs) =
      (member key pairs).or (if p.1 = key then some p.2 else none) := by
  have concat (pairs : List (String × Json)) (p : String × Json) :
      member key (pairs ++ [p]) = if p.1 = key then some p.2 else member key pairs := by
    rw [member, Members.ofList, List.foldl_concat]
    split
    next same => rw [same, Members.get?_insert_self]
    next other => exact Members.get?_insert_of_ne (Ne.symm other) _ _
  induction pairs using List.reverseRecOn with
  | nil => exact concat [] p
  | append_singleton pairs q ih =>
    rw [← List.cons_append, concat, concat, ih]
    split <;> rfl

/-- Members that were put in order are the members they were. -/
theorem member_ofList (key : String) (pairs : List (String × Json)) :
    member key (Members.ofList pairs) = member key pairs := by
  rw [member, ofList_of_ordered (ordered_ofList pairs).1, member]

/-- Members come back one by one, and none comes or goes. -/
theorem member_rereadMembers (key : String) (pairs : List (String × Json)) :
    member key (rereadMembers pairs) = (member key pairs).map reread := by
  induction pairs with
  | nil => rw [rereadMembers, member_nil, Option.map_none]
  | cons p pairs ih =>
    rw [rereadMembers, member_cons, member_cons, ih, Option.map_or]
    split <;> rfl

/-- Values that may be written make an object that may be, put in order. -/
theorem sound_object {pairs : List (String × Json)} (sound : ∀ p ∈ pairs, p.2.Sound) :
    (object pairs).Sound :=
  .obj fun m mem => sound m ((ordered_ofList pairs).2 m mem)

end Supervision.Json
