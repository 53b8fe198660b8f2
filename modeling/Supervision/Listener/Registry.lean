/-!
# Listeners

A registry holds callbacks under keys: under each key those that were inserted for it, each with a
number of its own, in the order of insertion. A key is there exactly as long as it has a callback. A
subscription is the right to remove a callback; it can be spent once, and several can be made into
one. A registry that listeners share for all events has one key only.
-/

namespace Supervision

/-- A listener: its name, and which code it runs. -/
structure Listener where
  name : String
  code : Nat
  deriving DecidableEq, Repr

/-- Callbacks of type `α` under keys of type `κ`. -/
structure Registry (κ α : Type) where
  /-- The callbacks under each key, each with its number. -/
  entries : List (κ × List (Nat × α))
  /-- The number that the next callback gets. -/
  next : Nat
  deriving Repr

/-- The right to remove callbacks. -/
inductive Subscription (κ : Type)
  | spent
  | single (key : κ) (number : Nat)
  /-- For all that its parts stand for. -/
  | combined (parts : List (Subscription κ))
  deriving Inhabited

namespace Registry

variable {κ α : Type} [DecidableEq κ]

/-- A registry without callbacks. -/
def empty : Registry κ α := ⟨[], 0⟩

/-- The callbacks under a key, with their numbers. -/
def under (r : Registry κ α) (key : κ) : List (Nat × α) :=
  (r.entries.lookup key).getD []

def snapshot (r : Registry κ α) (key : κ) : List α :=
  (r.under key).map (·.2)

/-- The number of callbacks under a key. -/
def count (r : Registry κ α) (key : κ) : Nat :=
  (r.under key).length

/-- Adds an item at the end of what is under a key. -/
def addUnder (key : κ) (item : Nat × α) :
    List (κ × List (Nat × α)) → List (κ × List (Nat × α))
  | [] => [(key, [item])]
  | (k, items) :: rest =>
    if k = key then (k, items ++ [item]) :: rest else (k, items) :: addUnder key item rest

/-- Removes the item with a number under a key, and the key with its last item. -/
def removeUnder (key : κ) (number : Nat) :
    List (κ × List (Nat × α)) → List (κ × List (Nat × α))
  | [] => []
  | (k, items) :: rest =>
    if k = key then
      match items.filter (fun item => item.1 ≠ number) with
      | [] => rest
      | left => (k, left) :: rest
    else (k, items) :: removeUnder key number rest

/-- Inserts a callback. The flag says whether it is the first under its key. -/
def insert (r : Registry κ α) (key : κ) (callback : α) : Registry κ α × Subscription κ × Bool :=
  ({ entries := addUnder key (r.next, callback) r.entries, next := r.next + 1 },
    .single key r.next, r.count key = 0)

def remove (r : Registry κ α) (key : κ) (number : Nat) : Registry κ α :=
  { r with entries := removeUnder key number r.entries }

/-- Removes all callbacks. Numbers are not used again. -/
def clear (r : Registry κ α) : Registry κ α :=
  { r with entries := [] }

mutual

def dispose (r : Registry κ α) : Subscription κ → Registry κ α
  | .spent => r
  | .single key number => r.remove key number
  | .combined parts => r.disposeAll parts

/-- Uses up subscriptions one after the other. -/
def disposeAll (r : Registry κ α) : List (Subscription κ) → Registry κ α
  | [] => r
  | s :: rest => (r.dispose s).disposeAll rest

end

end Registry

namespace Subscription

variable {κ : Type}

/-- True of a subscription that has not been used. -/
def isActive : Subscription κ → Bool
  | .spent => false
  | _ => true

def text (s : Subscription κ) : String :=
  s!"Subscription \x7b active: {s.isActive} \x7d"

end Subscription

/-- Subscriptions by the names of those who hold them. -/
abbrev Holdings (κ : Type) := List (String × Subscription κ)

namespace Holdings

variable {κ : Type}

def get? (h : Holdings κ) (holder : String) : Option (Subscription κ) :=
  h.lookup holder

/-- Takes a subscription from its holder. -/
def drop (h : Holdings κ) (holder : String) : Holdings κ :=
  h.filter (fun p => p.1 ≠ holder)

/-- Gives a subscription to a holder; one already held is forgotten. -/
def set (h : Holdings κ) (holder : String) (s : Subscription κ) : Holdings κ :=
  (holder, s) :: h.drop holder

def takeAll (h : Holdings κ) : List String → List (Subscription κ) × Holdings κ
  | [] => ([], h)
  | holder :: rest =>
    let (parts, left) := (h.drop holder).takeAll rest
    (match h.get? holder with | some s => s :: parts | none => parts, left)

/-- Makes the subscriptions of several holders into one. -/
def combine (h : Holdings κ) (holder : String) (from_ : List String) : Holdings κ :=
  let (parts, left) := h.takeAll from_
  left.set holder (.combined parts)

end Holdings

end Supervision
