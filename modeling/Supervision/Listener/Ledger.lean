import Supervision.Listener.Registry

/-!
# A ledger of listeners

A registry in use: who holds which subscription, and which listeners an event reaches. The registry
lives as long as there is a handle to it; all handles are alike, and any of them may be used.
Subscriptions and snapshots may outlive it.
-/

namespace Supervision

/-- Whether events reach the listeners of their method only, or all listeners. -/
inductive Reach
  | method
  | all
  deriving DecidableEq, Repr

/-- A registry in use. A callback is the name of the holder it was inserted for. -/
structure Ledger where
  reach : Reach
  registry : Registry String String
  /-- How many handles to the registry there are. -/
  handles : Nat
  /-- Whether one of them is put aside. -/
  spare : Bool
  holdings : Holdings String
  /-- The callbacks of the snapshot that was kept last. -/
  kept : List String

/-- What can be done with it. -/
inductive Ledger.Action
  | insert (holder method : String)
  | dispose (holder : String)
  | forget (holder : String)
  | combine (holder : String) (parts : List String)
  | fire (method : String)
  | snapshot (method : String)
  | fireSnapshot
  | clear
  /-- Put a handle aside, unless one is. -/
  | clone
  /-- Give someone else a handle. -/
  | share
  /-- Give up a handle, and use the one that was put aside. -/
  | drop
  | idle
  deriving Repr

/-- What an action tells: whether an insertion was the first, and which callbacks ran. -/
structure Ledger.Report where
  first : Option Bool
  fired : List String
  deriving Repr

namespace Ledger

def new (reach : Reach) : Ledger where
  reach := reach
  registry := .empty
  handles := 1
  spare := false
  holdings := []
  kept := []

/-- The key of a method: where events reach all listeners there is only one. -/
def key (l : Ledger) (method : String) : String :=
  match l.reach with
  | .method => method
  | .all => ""

/-- Whether there is a handle to the registry. -/
def alive (l : Ledger) : Bool :=
  l.handles != 0

/-- The number of listeners of a method, as long as there is a registry. -/
def count? (l : Ledger) (method : String) : Option Nat :=
  if l.alive then some (l.registry.count (l.key method)) else none

def silent : Report := ⟨none, []⟩

def act (l : Ledger) : Action → Ledger × Report
  | .insert holder method =>
    if l.alive then
      let (registry, subscription, first) := l.registry.insert (l.key method) holder
      ({ l with registry := registry, holdings := l.holdings.set holder subscription },
        ⟨if l.reach = .method then some first else none, []⟩)
    else (l, silent)
  | .dispose holder =>
    match l.holdings.get? holder with
    | none => (l, silent)
    | some s =>
      ({ l with
          registry := if l.alive then l.registry.dispose s else l.registry
          holdings := l.holdings.set holder .spent }, silent)
  | .forget holder => ({ l with holdings := l.holdings.drop holder }, silent)
  | .combine holder parts => ({ l with holdings := l.holdings.combine holder parts }, silent)
  | .fire method =>
    (l, ⟨none, if l.alive then l.registry.snapshot (l.key method) else []⟩)
  | .snapshot method =>
    (if l.alive then { l with kept := l.registry.snapshot (l.key method) } else l, silent)
  | .fireSnapshot => (l, ⟨none, l.kept⟩)
  | .clear =>
    (if l.alive ∧ l.reach = .all then { l with registry := l.registry.clear } else l, silent)
  | .clone =>
    (if l.alive ∧ !l.spare then { l with handles := l.handles + 1, spare := true } else l, silent)
  | .share => (if l.alive then { l with handles := l.handles + 1 } else l, silent)
  | .drop => ({ l with handles := l.handles - 1, spare := false }, silent)
  | .idle => (l, silent)

end Ledger

end Supervision
