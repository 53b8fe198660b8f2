/-!
# Broadcasting a flag

A flag is published to any number of receivers. Each reads at its own pace; only the latest values
are kept, and a receiver that falls behind them is told once how many it missed. The last value
published can be asked for at any time.
-/

namespace Supervision

/-- What is kept of the values that were sent. -/
structure Channel where
  /-- How many values are kept at most. -/
  capacity : Nat
  /-- The latest values, oldest first. -/
  kept : List Bool
  /-- How many values have been sent. -/
  total : Nat
  deriving DecidableEq, Repr

/-- What a receiver gets. -/
inductive Received
  | value (b : Bool)
  | empty
  | closed
  | lagged (missed : Nat)
  deriving DecidableEq, Repr

namespace Channel

/-- The capacity of a channel that is asked to keep `n` values: the next power of two. -/
def capacityFor (n : Nat) : Nat :=
  (max n 1).nextPowerOfTwo

/-- A channel that keeps at least `n` values. -/
def new (n : Nat) : Channel := ⟨capacityFor n, [], 0⟩

/-- The number of the oldest value that is kept. -/
def oldest (c : Channel) : Nat :=
  c.total - c.kept.length

def send (c : Channel) (b : Bool) : Channel :=
  let kept := c.kept ++ [b]
  { c with kept := kept.drop (kept.length - c.capacity), total := c.total + 1 }

/-- What the receiver at a position gets, and its next position. -/
def receive (c : Channel) (isOpen : Bool) (position : Nat) : Received × Nat :=
  if position < c.oldest then (.lagged (c.oldest - position), c.oldest)
  else
    match c.kept[position - c.oldest]? with
    | some b => (.value b, position + 1)
    | none => (if isOpen then .empty else .closed, position)

end Channel

/-- A flag that is broadcast. It is open as long as there is a handle or a callback to publish
with. -/
structure Broadcast where
  channel : Channel
  /-- The last value; `false` before there is one. -/
  last : Bool
  handle : Bool
  callback : Bool
  receivers : List (String × Nat)
  deriving Repr

namespace Broadcast

/-- How many values are kept unless said otherwise. -/
def standardCapacity : Nat := 16

/-- A broadcast without receivers. -/
def new (capacity : Nat) : Broadcast := ⟨.new capacity, false, true, false, []⟩

/-- Whether something may still be published. -/
def isOpen (b : Broadcast) : Bool :=
  b.handle || b.callback

/-- Publishes a value. Without receivers it is recorded and not sent. -/
def publish (b : Broadcast) (value : Bool) : Broadcast :=
  { b with
    last := value
    channel := if b.receivers.isEmpty then b.channel else b.channel.send value }

/-- Adds a receiver, which gets what is published from now on. -/
def subscribe (b : Broadcast) (name : String) : Broadcast :=
  { b with receivers := (name, b.channel.total) :: b.receivers.filter (fun r => r.1 ≠ name) }

def unsubscribe (b : Broadcast) (name : String) : Broadcast :=
  { b with receivers := b.receivers.filter (fun r => r.1 ≠ name) }

/-- What a receiver gets, if it is there. -/
def receive (b : Broadcast) (name : String) : Option Received × Broadcast :=
  match b.receivers.lookup name with
  | none => (none, b)
  | some position =>
    let (got, next) := b.channel.receive b.isOpen position
    (some got, { b with
      receivers := b.receivers.map (fun r => if r.1 = name then (r.1, next) else r) })

def text (b : Broadcast) : String :=
  s!"OperationalStateBroadcaster \x7b operational: {b.last}, receivers: {b.receivers.length} \x7d"

/-- What can be done with a broadcast. -/
inductive Action
  | publish (value : Bool)
  | asCallback
  | callback (value : Bool)
  | dropCallback
  | subscribe (name : String)
  | unsubscribe (name : String)
  | receive (name : String)
  | drop
  deriving DecidableEq, Repr

/-- What an action tells. -/
inductive Report
  | silent
  | nothing
  | got (r : Received)
  deriving DecidableEq, Repr

def act (b : Broadcast) : Action → Broadcast × Report
  | .publish value => if b.handle then (b.publish value, .silent) else (b, .nothing)
  | .asCallback => if b.handle then ({ b with callback := true }, .silent) else (b, .nothing)
  | .callback value => if b.callback then (b.publish value, .silent) else (b, .nothing)
  | .dropCallback => ({ b with callback := false }, .silent)
  | .subscribe name => if b.handle then (b.subscribe name, .silent) else (b, .nothing)
  | .unsubscribe name => (b.unsubscribe name, .silent)
  | .receive name =>
    match b.receive name with
    | (some got, b) => (b, .got got)
    | (none, b) => (b, .nothing)
  | .drop => ({ b with handle := false }, .silent)

end Broadcast

end Supervision
