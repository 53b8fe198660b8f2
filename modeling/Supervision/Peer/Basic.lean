import Supervision.Fault
import Supervision.Frame.Basic

/-!
# Workers that follow a script

A worker reads frames and does, for each message, what its script says for the method: the next list
of deeds, and the last one again and again. Methods that the script does not name are treated as a
plain worker treats them. `Peer.act` is one deed; a worker that sleeps, or has nothing to read, does
nothing.
-/

namespace Supervision

open Message

/-- Something that a worker does. -/
inductive Deed
  | reply (v : Json)
  | replyError (e : Json)
  | frame (v : Json)
  | raw (bytes : List UInt8)
  /-- Keeps the id of the message at hand under a name. -/
  | defer (name : String)
  /-- Answers the message whose id was kept. -/
  | replyDeferred (name : String) (v : Json)
  /-- Something that the other side does not see. -/
  | mutter
  | sleep (ms : Nat)
  | exit (code : Int)
  | signal (n : Nat)
  /-- Interrupts the process at the other side. -/
  | interruptParent
  | closeOutput

/-- The script of a worker. -/
structure Script where
  /-- What is done for a method: lists of deeds, one for each message. -/
  handlers : List (String × List (List Deed))
  /-- The exit code at the end of the input. -/
  eofExit : Int
  /-- How long it goes on after the end of the input, in milliseconds. -/
  linger : Nat

/-- What can be launched. -/
inductive Executable
  | scripted (script : Script)
  /-- Does something at once, whatever it is sent. -/
  | plain (deeds : List Deed)
  | echoing

structure Peer where
  /-- What it will do for the methods of its script. -/
  handlers : List (String × List (List Deed))
  eofExit : Int
  linger : Nat
  echoes : Bool
  /-- The frames that it has yet to read. -/
  input : List Json
  /-- Whether more may come. -/
  inputOpen : Bool
  heard : List Json
  agenda : List Deed
  /-- The id of the message at hand. -/
  current : Option Json
  deferred : List (String × Json)
  asleep : Option Nat
  /-- Whether it went on after the end of the input. -/
  lingered : Bool
  /-- Whether a signal has halted it. -/
  halted : Bool
  outputOpen : Bool
  /-- How often it interrupted the process at the other side. -/
  interrupts : Nat
  exit : Option ExitReason

namespace Peer

def fresh : Peer where
  handlers := []
  eofExit := 0
  linger := 0
  echoes := false
  input := []
  inputOpen := true
  heard := []
  agenda := []
  current := none
  deferred := []
  asleep := none
  lingered := false
  halted := false
  outputOpen := true
  interrupts := 0
  exit := none

def launch : Executable → Peer
  | .scripted script =>
    { fresh with handlers := script.handlers, eofExit := script.eofExit, linger := script.linger }
  | .plain deeds => { fresh with agenda := deeds }
  | .echoing => { fresh with echoes := true }

/-- Whether the process runs. -/
def alive (p : Peer) : Bool :=
  p.exit.isNone

/-- Whether the other side can get more from the process. -/
def speaks (p : Peer) : Bool :=
  p.alive && p.outputOpen

def answer (id : Option Json) (member : String) (v : Json) : Json :=
  Json.object [("jsonrpc", .str version), ("id", id.getD .null), (member, v)]

/-- What a plain worker does for a message. -/
def customary (method : String) (params : Option Json) (id : Option Json) (heard : List Json) :
    List Deed :=
  match id with
  | some _ =>
    if method = "initialize" then [.reply (Json.object [])]
    else if method = "shutdown" then [.reply .null]
    else if method = "dump" then [.reply (.arr heard)]
    else [.reply (Json.object [("method", .str method), ("params", params.getD .null)])]
  | none => if method = "exit" then [.exit 0] else []

/-- What the script says for a method, and what it says afterwards. -/
def consult (method : String) :
    List (String × List (List Deed)) → Option (List Deed) × List (String × List (List Deed))
  | [] => (none, [])
  | (name, lists) :: rest =>
    if name = method then
      match lists with
      | [] => (none, (name, []) :: rest)
      | [last] => (some last, (name, [last]) :: rest)
      | first :: others => (some first, (name, others) :: rest)
    else
      let (found, rest) := consult method rest
      (found, (name, lists) :: rest)

/-- Reads a frame. One that names no method is only taken note of. -/
def read (p : Peer) (frame : Json) : Peer :=
  let p := { p with heard := p.heard ++ [frame] }
  if p.echoes then { p with agenda := [.frame frame] }
  else
    match (frame.get? "method").bind Json.str? with
    | none => p
    | some method =>
      let id := frame.get? "id"
      let p := { p with current := id }
      match consult method p.handlers with
      | (some deeds, handlers) => { p with agenda := deeds, handlers := handlers }
      | (none, _) =>
        { p with agenda := customary method (frame.get? "params") id p.heard }

def die (p : Peer) (reason : ExitReason) : Peer :=
  match p.exit with
  | some _ => p
  | none => { p with exit := some reason }

/-- The exit code that the system keeps of a code. -/
def keptCode (code : Int) : Int :=
  code % 256

/-- The signals that do nothing to a worker. -/
def isHarmless (n : Nat) : Bool :=
  [0, 13, 17, 18, 23, 28].contains n

/-- The signals that halt a process until further notice. -/
def isHalting (n : Nat) : Bool :=
  [19, 20, 21, 22].contains n

/-- Sends a frame, if the output is open. -/
def say (p : Peer) (v : Json) : Peer × List UInt8 :=
  (p, if p.outputOpen then Frame.encode v else [])

/-- Does something: the process afterwards, and what it wrote. -/
def perform (p : Peer) (now : Nat) : Deed → Peer × List UInt8
  | .reply v => p.say (answer p.current "result" v)
  | .replyError e => p.say (answer p.current "error" e)
  | .frame v => p.say v
  | .raw bytes => (p, if p.outputOpen then bytes else [])
  | .defer name =>
    ({ p with deferred := (name, p.current.getD .null) :: p.deferred }, [])
  | .replyDeferred name v => p.say (answer (p.deferred.lookup name) "result" v)
  | .mutter => (p, [])
  | .sleep ms => ({ p with asleep := some (now + ms) }, [])
  | .exit code => (p.die (.exited (some (keptCode code))), [])
  | .signal n =>
    if isHarmless n then (p, [])
    else if isHalting n then ({ p with halted := true }, [])
    else (p.die (.exited none), [])
  | .interruptParent => ({ p with interrupts := p.interrupts + 1 }, [])
  | .closeOutput => ({ p with outputOpen := false }, [])

/-- The process does the next thing, if it can: the process afterwards, and what it wrote. At the
end of the input it goes on for a while and exits. -/
def act (p : Peer) (now : Nat) : Option (Peer × List UInt8) :=
  if !p.alive || p.halted then none
  else
    match p.asleep with
    | some due => if due ≤ now then some ({ p with asleep := none }, []) else none
    | none =>
      match p.agenda, p.input with
      | deed :: rest, _ => some ({ p with agenda := rest }.perform now deed)
      | [], frame :: rest => some ({ p with input := rest }.read frame, [])
      | [], [] =>
        if p.inputOpen then none
        else if !p.lingered && 0 < p.linger then
          some ({ p with lingered := true, asleep := some (now + p.linger) }, [])
        else some (p.die (.exited (some (keptCode p.eofExit))), [])

end Peer

end Supervision
