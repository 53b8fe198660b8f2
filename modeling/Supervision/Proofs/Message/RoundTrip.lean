import Supervision.Message.Basic
import Supervision.Proofs.Frame.RoundTrip
import Supervision.Proofs.Json.Reread

/-!
# What one side writes and the other side sorts

A message that was written as a frame is read as a frame and sorted as the message it was, whatever
comes behind it in the stream (`Conveys`): notifications with their params, requests and refusals
with their ids, and answers with their result or their error, in any order of their members and
beside any others. The law is put together in `Conveyance`.

What may differ is said by `Json.reread`, and it concerns doubles: one that is written comes back
as the double that its own text is read as, and that may be its neighbour.
The size of a frame and how deep it may nest are bounded.
-/

namespace Supervision.Message

open Json Supervision.Frame

/-- A value that is written to a sink that never fails arrives as a message: any stream that brings
what the sink took starts with a frame that is sorted so, and what comes behind is untouched. -/
def Conveys (v : Json) (m : Incoming) : Prop :=
  ∀ sink : Sink, sink.Faultless → ∃ after bytes, writeFrame sink v = (.ok (), after) ∧
    after.taken = sink.taken ++ bytes ∧
    ∀ (s : Source) (rest : List UInt8) (failure : Option String),
      s.Brings (bytes ++ rest) failure → ∃ w left, readFrame s = (.ok (some w), left) ∧
        left.Brings rest failure ∧ Incoming.ofFrame? w = some m

/-- A value that is within the limits of a frame. -/
structure Fits (v : Json) : Prop where
  shallow : v.depth ≤ maxDepth
  short : v.encode.length ≤ maxBytes

/-- Members that make up an answer to a request. -/
structure Answers (pairs : List (String × Json)) (id : Nat) : Prop where
  bound : id < 2 ^ 64
  number : member "id" pairs = some (.int id)
  /-- It is not a request. -/
  nameless : ∀ method, member "method" pairs ≠ some (.str method)
  sound : (Json.obj pairs).Sound
  fits : Fits (.obj pairs)

/-- What messages arrive as. -/
structure Conveyance : Prop where
  notification : ∀ (method : String) (params : Option Json), (∀ v ∈ params, v.Sound) →
    Fits (notification method params) →
    Conveys (notification method params) (.notification method (params.map reread))
  request : ∀ (id : Nat) (method : String) (params : Option Json), id < 2 ^ 64 →
    (∀ v ∈ params, v.Sound) → Fits (request id method params) →
    Conveys (request id method params) (.serverRequest (.int id) method)
  refusal : ∀ (id : Nat) (method : String), id < 2 ^ 64 → Fits (methodNotFound (.int id) method) →
    Conveys (methodNotFound (.int id) method)
      (.response id (.error ⟨methodNotFoundCode, s!"Method not found: {method}", none⟩))
  /-- A result counts when there is no error. -/
  success : ∀ (pairs : List (String × Json)) (id : Nat) (result : Json), Answers pairs id →
    member "error" pairs = none → member "result" pairs = some result →
    Conveys (.obj pairs) (.response id (.ok result.reread))
  /-- An error counts, whatever is beside it; data that are `null` are none. -/
  failure : ∀ (pairs : List (String × Json)) (id : Nat) (error : List (String × Json)) (code : Int)
    (message : String), Answers pairs id → member "error" pairs = some (.obj error) →
    member "code" error = some (.int code) → -(2 ^ 63) ≤ code → code < 2 ^ 63 →
    member "message" error = some (.str message) →
    Conveys (.obj pairs) (.response id
      (.error ⟨code, message, ((member "data" error).map reread).bind typedParams⟩))

/-! ## Frames -/

variable {v : Json} {m : Incoming} {pairs : List (String × Json)} {id : Nat}

/-- A value arrives as what comes back of it is sorted. -/
theorem conveys_of_sound (sound : v.Sound) (fits : Fits v)
    (sorted : Incoming.ofFrame? v.reread = some m) : Conveys v m := by
  intro sink faultless
  obtain ⟨after, written, -, taken⟩ := faultless.writeFrame v
  refine ⟨after, Frame.encode v, written, taken, fun s rest failure brings => ?_⟩
  have read := read_encode_of_settle (settle_of_sound sound) fits.shallow
  obtain ⟨left, first, brought⟩ := readFrame_encode read fits.short brings
  exact ⟨v.reread, left, first, brought, sorted⟩

/-- An object in any order of its members. -/
theorem conveys_obj (sound : (Json.obj pairs).Sound) (fits : Fits (.obj pairs))
    (sorted : ∀ ns, (∀ key, Members.get? key ns = (member key pairs).map reread) →
      Incoming.ofFrame? (.obj ns) = some m) : Conveys (.obj pairs) m :=
  conveys_of_sound sound fits (sorted _ fun key => member_rereadMembers key pairs)

/-- An object with its members put in order. -/
theorem conveys_object (sound : ∀ p ∈ pairs, p.2.Sound) (fits : Fits (object pairs))
    (sorted : ∀ ns, (∀ key, Members.get? key ns = (member key pairs).map reread) →
      Incoming.ofFrame? (.obj ns) = some m) : Conveys (object pairs) m :=
  conveys_obj (sound_object sound) fits fun ns back =>
    sorted ns fun key => member_ofList key pairs ▸ back key

theorem member_paramsMember (key : String) (params : Option Json) :
    member key (paramsMember params) = if key = "params" then params else none := by
  cases params with
  | none => simp [paramsMember]
  | some v => simp [paramsMember, eq_comm]

/-- A value arrives as one message only. -/
theorem Conveys.unique {m' : Incoming} (one : Conveys v m) (other : Conveys v m') : m = m' := by
  have faultless : Sink.Faultless ⟨fun _ => 0, none, "", none, 0, 0, []⟩ := ⟨rfl, rfl⟩
  obtain ⟨after, bytes, written, taken, arrives⟩ := one _ faultless
  obtain ⟨after', bytes', written', taken', arrives'⟩ := other _ faultless
  obtain rfl : after = after' := congrArg Prod.snd (written.symm.trans written')
  obtain rfl : bytes = bytes' := List.append_cancel_left (taken.symm.trans taken')
  have brings : Source.Brings ⟨[bytes], none⟩ (bytes ++ []) none := ⟨rfl, rfl⟩
  obtain ⟨w, left, read, -, sorted⟩ := arrives _ [] none brings
  obtain ⟨w', left', read', -, sorted'⟩ := arrives' _ [] none brings
  obtain rfl : w = w' := by
    have same := congrArg Prod.fst (read.symm.trans read')
    exact Option.some.inj (Except.ok.inj same)
  exact Option.some.inj (sorted.symm.trans sorted')

/-! ## Errors -/

/-- Anything is read as it is where data may stand. -/
theorem read_optional_any (v : Json) : Shape.read (.optional .any) v = .ok v := by
  cases v <;> simp only [Shape.read]

/-- An error object is read field by field, whatever else it says. -/
theorem errorObject_ofJson {ms : Members} {code : Int} {message : String}
    (number : Members.get? "code" ms = some (.int code)) (low : -(2 ^ 63) ≤ code)
    (high : code < 2 ^ 63) (text : Members.get? "message" ms = some (.str message)) :
    ErrorObject.ofJson (.obj ms) =
      .ok ⟨code, message, (Members.get? "data" ms).bind typedParams⟩ := by
  have whole : Shape.read .i64 (.int code) = .ok (.int code) := by
    have within : -(Number.twoTo 63 : Int) ≤ code ∧ code ≤ Number.twoTo 63 - 1 := by
      have power : (Number.twoTo 63 : Int) = 2 ^ 63 := rfl
      omega
    simp only [Shape.i64, Shape.read, if_pos within]
  have said : Shape.read .text (.str message) = .ok (.str message) := by rw [Shape.read]
  have read : ErrorObject.shape.read (.obj ms) = .ok (object [("code", .int code),
      ("message", .str message), ("data", (Members.get? "data" ms).getD .null)]) := by
    have none_wrong : Shape.readFields [("code", .i64, none), ("message", .text, none),
        ("data", .optional .any, some .null)] ms = [] := by
      cases data : Members.get? "data" ms <;>
        simp only [Shape.readFields, number, text, data, whole, said, read_optional_any]
    have filled : Shape.fillFields [("code", .i64, none), ("message", .text, none),
        ("data", .optional .any, some .null)] ms = .ok [("code", .int code),
          ("message", .str message), ("data", (Members.get? "data" ms).getD .null)] := by
      cases data : Members.get? "data" ms <;>
        simp only [Shape.fillFields, number, text, data, whole, said, read_optional_any] <;> rfl
    simp only [ErrorObject.shape, Shape.read, none_wrong, filled]
    rfl
  have field (key : String) : (object [("code", .int code), ("message", .str message),
      ("data", (Members.get? "data" ms).getD .null)]).get? key = member key [("code", .int code),
        ("message", .str message), ("data", (Members.get? "data" ms).getD .null)] := rfl
  have fields (data : Json) :
      let pairs := [("code", .int code), ("message", .str message), ("data", data)]
      member "code" pairs = some (.int code) ∧ member "message" pairs = some (.str message) ∧
        member "data" pairs = some data := by simp
  obtain ⟨first, second, third⟩ := fields ((Members.get? "data" ms).getD .null)
  simp only [ErrorObject.ofJson, read, field, first, second, third, Option.bind_some]
  cases Members.get? "data" ms <;> rfl

/-! ## Messages -/

theorem sound_paramsMember {params : Option Json} (sound : ∀ v ∈ params, v.Sound) :
    ∀ p ∈ paramsMember params, p.2.Sound := by
  intro p mem
  cases params with
  | none => cases mem
  | some v =>
    rw [List.mem_singleton.1 mem]
    exact sound v rfl

theorem sound_nat (bound : id < 2 ^ 64) : (Json.int id).Sound :=
  .int (by omega) (by omega)

theorem conveys_notification {method : String} {params : Option Json}
    (sound : ∀ v ∈ params, v.Sound) (fits : Fits (notification method params)) :
    Conveys (notification method params) (.notification method (params.map reread)) := by
  refine conveys_object (fun p mem => ?_) fits fun ns back => ?_
  · rcases List.mem_append.1 mem with mem | mem
    · rcases List.mem_pair.1 mem with rfl | rfl
      · exact .str version
      · exact .str method
    · exact sound_paramsMember sound p mem
  · have id : Members.get? "id" ns = none := by simp [back, member_paramsMember]
    have name : Members.get? "method" ns = some (.str method) := by
      simp [back, member_paramsMember, reread]
    have content : Members.get? "params" ns = params.map reread := by
      simp [back, member_paramsMember]
    simp only [Incoming.ofFrame?, id, name, content, Option.bind_some, str?]

theorem conveys_request {method : String} {params : Option Json} (bound : id < 2 ^ 64)
    (sound : ∀ v ∈ params, v.Sound) (fits : Fits (request id method params)) :
    Conveys (request id method params) (.serverRequest (.int id) method) := by
  refine conveys_object (fun p mem => ?_) fits fun ns back => ?_
  · rcases List.mem_append.1 mem with mem | mem
    · simp only [List.mem_cons, List.not_mem_nil, or_false] at mem
      rcases mem with rfl | rfl | rfl
      · exact .str version
      · exact sound_nat bound
      · exact .str method
    · exact sound_paramsMember sound p mem
  · have number : Members.get? "id" ns = some (.int id) := by
      simp [back, member_paramsMember, reread]
    have name : Members.get? "method" ns = some (.str method) := by
      simp [back, member_paramsMember, reread]
    simp only [Incoming.ofFrame?, number, name, Option.bind_some, str?]

/-- What is common to all answers: they are sorted by their outcome. -/
theorem Answers.ofFrame? {ns : Members} (answers : Answers pairs id)
    (back : ∀ key, Members.get? key ns = (member key pairs).map reread) :
    Incoming.ofFrame? (.obj ns) = some (.response id (Outcome.ofMembers ns)) := by
  have there : Members.get? "id" ns = some (.int id) := by
    rw [back, answers.number]
    rfl
  have nameless : (Members.get? "method" ns).bind str? = none := by
    rw [back, Option.bind_map]
    cases name : member "method" pairs with
    | none => rfl
    | some v =>
      cases v with
      | str method => exact absurd name (answers.nameless method)
      | _ => rfl
  simp only [Incoming.ofFrame?, there, nameless, nat?, Option.map_some]

theorem conveys_success {result : Json} (answers : Answers pairs id)
    (error : member "error" pairs = none) (found : member "result" pairs = some result) :
    Conveys (.obj pairs) (.response id (.ok result.reread)) := by
  refine conveys_obj answers.sound answers.fits fun ns back => ?_
  have none_wrong : Members.get? "error" ns = none := by rw [back, error, Option.map_none]
  have there : Members.get? "result" ns = some result.reread := by
    rw [back, found, Option.map_some]
  rw [answers.ofFrame? back]
  simp only [Outcome.ofMembers, none_wrong, there, Option.getD_some]

theorem conveys_failure {error : List (String × Json)} {code : Int} {message : String}
    (answers : Answers pairs id) (wrong : member "error" pairs = some (.obj error))
    (number : member "code" error = some (.int code)) (low : -(2 ^ 63) ≤ code)
    (high : code < 2 ^ 63) (text : member "message" error = some (.str message)) :
    Conveys (.obj pairs) (.response id
      (.error ⟨code, message, ((member "data" error).map reread).bind typedParams⟩)) := by
  refine conveys_obj answers.sound answers.fits fun ns back => ?_
  have there : Members.get? "error" ns = some (.obj (Members.ofList (rereadMembers error))) := by
    rw [back, wrong]
    rfl
  have fields (key : String) : Members.get? key (Members.ofList (rereadMembers error)) =
      (member key error).map reread := member_rereadMembers key error
  have first : Members.get? "code" (Members.ofList (rereadMembers error)) = some (.int code) := by
    rw [fields, number]
    rfl
  have second : Members.get? "message" (Members.ofList (rereadMembers error)) =
      some (.str message) := by
    rw [fields, text]
    rfl
  have read := errorObject_ofJson first low high second
  rw [fields] at read
  rw [answers.ofFrame? back]
  simp only [Outcome.ofMembers, there, read]

/-- The refusal of a request is an answer with an error. -/
theorem conveys_refusal {method : String} (bound : id < 2 ^ 64)
    (fits : Fits (methodNotFound (.int id) method)) :
    Conveys (methodNotFound (.int id) method)
      (.response id (.error ⟨methodNotFoundCode, s!"Method not found: {method}", none⟩)) := by
  let error : List (String × Json) := [("code", .int methodNotFoundCode),
    ("message", .str s!"Method not found: {method}")]
  let pairs : List (String × Json) := [("jsonrpc", .str version), ("id", .int id),
    ("error", object error)]
  have sound : (object error).Sound := by
    refine sound_object fun p mem => ?_
    rcases List.mem_pair.1 mem with rfl | rfl
    · exact .int (by decide) (by decide)
    · exact .str _
  have answers : Answers (Members.ofList pairs) id := by
    refine ⟨bound, ?_, fun name => ?_, sound_object fun p mem => ?_, fits⟩
    · rw [member_ofList]
      simp [pairs]
    · rw [member_ofList]
      simp [pairs]
    · simp only [pairs, List.mem_cons, List.not_mem_nil, or_false] at mem
      rcases mem with rfl | rfl | rfl
      · exact .str version
      · exact sound_nat bound
      · exact sound
  have wrong : member "error" (Members.ofList pairs) = some (.obj (Members.ofList error)) := by
    rw [member_ofList]
    simp [pairs]
    rfl
  have fields (key : String) : member key (Members.ofList error) = member key error :=
    member_ofList key error
  have number : member "code" (Members.ofList error) = some (.int methodNotFoundCode) := by
    simp [fields, error]
  have text : member "message" (Members.ofList error) =
      some (.str s!"Method not found: {method}") := by simp [fields, error]
  have failure := conveys_failure answers wrong number (by decide) (by decide) text
  have none : member "data" (Members.ofList error) = none := by simp [fields, error]
  rw [none] at failure
  exact failure

/-- **What one side writes, the other side sorts as what it is.** -/
theorem ofFrame_writeFrame : Conveyance where
  notification _ _ := conveys_notification
  request _ _ _ := conveys_request
  refusal _ _ := conveys_refusal
  success _ _ _ := conveys_success
  failure _ _ _ _ _ := conveys_failure

/-! ## Doubles -/

section Doubles

/-- Three times ten to the power of 23, or what comes nearest. -/
def great : Number.Binary64 :=
  ⟨false, 8940696716308594, 25⟩

/-- The double below it. -/
def lesser : Number.Binary64 :=
  ⟨false, 8940696716308593, 25⟩

theorem finite_great : great.Finite :=
  ⟨by decide, by decide⟩

/-- The text of a double may be read as its neighbour: the power of ten in it is rounded before it
is multiplied. -/
theorem settle_great : (Json.float great).settle = some (.float lesser) := by
  have text : Json.encode (.float great) = [0x33, 0x65, 0x2B, 0x32, 0x33] := by decide +kernel
  have value : Numeral.toFloat? ⟨false, [3], none, some 23⟩ = some lesser := by decide +kernel
  rw [settle, settleNumber_eq_some, text, readNumber_eq_ok]
  refine ⟨[3], none, some 23, [0x65, 0x2B, 0x32, 0x33], [0x65, 0x2B, 0x32, 0x33], rfl, rfl, rfl,
    ?_⟩
  show (Numeral.toFloat? ⟨false, [3], none, some 23⟩).map Json.float = _
  rw [value]
  rfl

/-- Such a double among others. -/
def load : Json :=
  .arr [.float great]

theorem sound_load : load.Sound :=
  .arr fun _ mem => List.mem_singleton.1 mem ▸ .float finite_great

theorem reread_load : load.reread = .arr [.float lesser] := by
  have back := (settle_of_sound (.float finite_great)).symm.trans settle_great
  rw [load, reread, rereadItems, rereadItems, Option.some.inj back]

/-- A notification with such a double among its params does not arrive as it was. -/
theorem not_conveys_double : load.Sound ∧ Fits (notification "m" (some load)) ∧
    ¬Conveys (notification "m" (some load)) (.notification "m" (some load)) := by
  have fits : Fits (notification "m" (some load)) := ⟨by decide, by decide +kernel⟩
  refine ⟨sound_load, fits, fun conveys => ?_⟩
  have sound : ∀ v ∈ some load, v.Sound := fun v mem => Option.mem_some.1 mem ▸ sound_load
  have same := conveys.unique (conveys_notification sound fits)
  rw [Option.map_some, reread_load] at same
  simp [load, great, lesser] at same

/-- The error of a worker that is busy, with more to it than an error needs. -/
def busyError : List (String × Json) :=
  [("message", .str "busy"), ("load", load), ("code", .int busyCode), ("data", .null)]

/-- An answer with an error beside a result, its members in no order. -/
def busyAnswer : List (String × Json) :=
  [("result", .int 1), ("error", .obj busyError), ("id", .int 7)]

theorem answers_busyAnswer : Answers busyAnswer 7 := by
  refine ⟨by decide, by simp [busyAnswer], by simp [busyAnswer], .obj fun m mem => ?_,
    ⟨by decide, by decide +kernel⟩⟩
  simp only [busyAnswer, List.mem_cons, List.not_mem_nil, or_false] at mem
  rcases mem with rfl | rfl | rfl
  · exact .int (by decide) (by decide)
  · refine .obj fun m mem => ?_
    simp only [busyError, List.mem_cons, List.not_mem_nil, or_false] at mem
    rcases mem with rfl | rfl | rfl | rfl
    · exact .str "busy"
    · exact sound_load
    · exact .int (by decide) (by decide)
    · exact .null
  · exact .int (by decide) (by decide)

/-- A notification with such a double, and an answer that is an error in spite of its result. -/
theorem ofFrame_writeFrame_great :
    Conveys (notification "m" (some load)) (.notification "m" (some (.arr [.float lesser]))) ∧
      Conveys (.obj busyAnswer) (.response 7 (.error ⟨busyCode, "busy", none⟩)) := by
  have first := ofFrame_writeFrame.notification "m" (some load)
    (fun v mem => Option.mem_some.1 mem ▸ sound_load) ⟨by decide, by decide +kernel⟩
  have second := ofFrame_writeFrame.failure busyAnswer 7 busyError busyCode "busy"
    answers_busyAnswer (by simp [busyAnswer]) (by simp [busyError]) (by decide) (by decide)
    (by simp [busyError])
  have data : member "data" busyError = some .null := by simp [busyError]
  rw [Option.map_some, reread_load] at first
  rw [data] at second
  exact ⟨first, second⟩

end Doubles

end Supervision.Message
