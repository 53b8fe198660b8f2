import Supervision.Json.Shape

/-!
# Messages

What the two sides of a connection say to each other: requests, which carry an id and are answered,
notifications, which are not, and answers. `Incoming.ofFrame?` sorts a value that arrived by its
shape: the id and the method decide, the rest is content.
-/

namespace Supervision.Message

open Json

def version : String := "2.0"

/-- The code of the answer to a request for an unknown method. -/
def methodNotFoundCode : Int := -32601

/-- The code with which a worker asks for a request to be sent again. -/
def busyCode : Int := -32097

/-- Asks the worker to stop the background daemon. -/
def stopDaemon : String := "daemon/stop"

def changeWorkspace : String := "workspace/change"

/-- Asks the worker for a refresh; the worker says the same once it is complete. -/
def refresh : String := "workspace/refresh"

/-- Said by the worker when it begins a refresh on its own. -/
def refreshStarted : String := "workspace/refreshStarted"

/-- The members that params add to a message: none when they are absent. -/
def paramsMember : Option Json → List (String × Json)
  | none => []
  | some v => [("params", v)]

def request (id : Nat) (method : String) (params : Option Json) : Json :=
  object ([("jsonrpc", .str version), ("id", .int id), ("method", .str method)]
    ++ paramsMember params)

def notification (method : String) (params : Option Json) : Json :=
  object ([("jsonrpc", .str version), ("method", .str method)] ++ paramsMember params)

/-- The refusal of a request for an unknown method; the id comes back as it was. -/
def methodNotFound (id : Json) (method : String) : Json :=
  object [("jsonrpc", .str version), ("id", id),
    ("error", object [("code", .int methodNotFoundCode),
      ("message", .str s!"Method not found: {method}")])]

/-- Params of a typed message: `null` is the same as no params. -/
def typedParams (v : Json) : Option Json :=
  if v.isNull then none else some v

/-- An answer that is an error. -/
structure ErrorObject where
  code : Int
  message : String
  data : Option Json
  deriving Repr, Inhabited

namespace ErrorObject

/-- What the error of an answer looks like. -/
def shape : Shape :=
  .record "ResponseError" [("code", .i64, none), ("message", .text, none),
    ("data", .optional .any, some .null)]

def ofJson (v : Json) : Except Mismatch ErrorObject :=
  match shape.read v with
  | .error e => .error e
  | .ok r =>
    match r.get? "code", r.get? "message" with
    | some (.int code), some (.str message) =>
      .ok ⟨code, message, (r.get? "data").bind typedParams⟩
    | _, _ => .error (.missing "code")

/-- The error of an answer whose error cannot be read. -/
def unreadable (why : Mismatch) : ErrorObject :=
  ⟨0, s!"unparseable error object: {why.message}", none⟩

end ErrorObject

/-- A notification that arrived. -/
structure Notification where
  method : String
  params : Option Json
  deriving Repr

/-- What an answer brings. -/
abbrev Outcome := Except ErrorObject Json

/-- A message that arrived, by its shape. -/
inductive Incoming
  /-- The answer to the request with an id. -/
  | response (id : Nat) (outcome : Outcome)
  /-- A request, with an id of any kind. -/
  | serverRequest (id : Json) (method : String)
  | notification (method : String) (params : Option Json)

/-- The outcome in the members of an answer: an error counts more than a result, and neither is the
result `null`. -/
def Outcome.ofMembers (ms : Members) : Outcome :=
  match Members.get? "error" ms with
  | some e =>
    match ErrorObject.ofJson e with
    | .ok error => .error error
    | .error why => .error (.unreadable why)
  | none => .ok ((Members.get? "result" ms).getD .null)

/-- Sorts a value that arrived; `none` when it is no message. -/
def Incoming.ofFrame? : Json → Option Incoming
  | .obj ms =>
    match Members.get? "id" ms, (Members.get? "method" ms).bind Json.str? with
    | some id, some method => some (.serverRequest id method)
    | some id, none => id.nat?.map (fun n => .response n (Outcome.ofMembers ms))
    | none, some method => some (.notification method (Members.get? "params" ms))
    | none, none => none
  | _ => none

end Supervision.Message
