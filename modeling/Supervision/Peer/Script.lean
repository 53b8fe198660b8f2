import Supervision.Peer.Basic

/-!
# Scripts as JSON

A script is written as an object: under `handlers` lists of deeds by method, under `eof_exit` and
`linger_ms` what happens at the end of the input. A deed is an object whose first telling member
says what is done. What a script does not say, or says in a way that makes no sense, it leaves to a
plain worker.
-/

namespace Supervision

namespace Deed

/-- A whole number, or zero. -/
def whole : Json → Int
  | .int i => i
  | _ => 0

/-- A text, or none. -/
def text (v : Json) : String :=
  v.str?.getD ""

/-- What the members of a deed may say, by their names. `bytes` reads bytes that are written as they
are. -/
def ways (bytes : Json → List UInt8) (deed : Json) : List (String × (Json → Deed)) :=
  [("reply", .reply), ("reply_error", .replyError), ("frame", .frame),
    ("raw", fun v => .raw (bytes v)), ("defer", fun v => .defer (text v)),
    ("reply_deferred", fun v => .replyDeferred (text v) ((deed.get? "result").getD .null)),
    ("sleep_ms", fun v => .sleep (whole v).toNat), ("exit", fun v => .exit (whole v)),
    ("signal", fun v => .signal (whole v).toNat), ("interrupt_parent", fun _ => .interruptParent),
    ("close_stdout", fun _ => .closeOutput)]

def ofJson (bytes : Json → List UInt8) (v : Json) : Deed :=
  ((ways bytes v).findSome? (fun (name, way) => (v.get? name).map way)).getD .mutter

end Deed

/-- The items of a list, or none. -/
def Script.items (v : Json) : List Json :=
  v.arr?.getD []

/-- Reads a script. `bytes` reads bytes that are written as they are. -/
def Script.ofJson (bytes : Json → List UInt8) (v : Json) : Script where
  handlers := match v.get? "handlers" with
    | some (.obj ms) => ms.map (fun m =>
        (m.1, (items m.2).map (fun deeds => (items deeds).map (Deed.ofJson bytes))))
    | _ => []
  eofExit := Deed.whole ((v.get? "eof_exit").getD .null)
  linger := (Deed.whole ((v.get? "linger_ms").getD .null)).toNat

end Supervision
