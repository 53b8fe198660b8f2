import Supervision.Proofs.Json.Reread
import Supervision.Proofs.Link.Routing

/-!
# How frames are sorted

Whatever arrives, in whatever order: notifications are forwarded, requests are refused, and calls
that wait for an answer are told it; anything else changes nothing. The law says that the frames of
a run are divided among these three and that nothing is lost, made up, done twice or put in another
order (`Partitioned`), as long as someone takes the notifications and someone writes the refusals.

Frames are told apart here by what they say, whatever else they are: by their method, if it is a
string, and their id, if they have one. What is done with them is read off the link: what comes at the
end of the two queues when the reader moves, and who leaves the table with what. The reader has at
most one frame in hand that it could not pass on yet, because a queue is full.
-/

namespace Supervision.Link

open Message

/-! ## Kinds of frames -/

/-- The method of a frame. What is no string is no method. -/
def methodOf? (frame : Json) : Option String :=
  (frame.get? "method").bind Json.str?

/-- What is notified by a frame that has a method and no id. -/
def notice? (frame : Json) : Option Notification :=
  if frame.get? "id" = none then
    (methodOf? frame).map fun method => ⟨method, frame.get? "params"⟩
  else none

/-- The id and the method of a request: any id will do. -/
def inquiry? (frame : Json) : Option (Json × String) :=
  (frame.get? "id").bind fun id => (methodOf? frame).map fun method => (id, method)

/-- What a response brings: its error, or else its result. -/
def outcomeOf (frame : Json) : Outcome :=
  match frame.get? "error" with
  | some e =>
    match ErrorObject.ofJson e with
    | .ok error => .error error
    | .error why => .error (.unreadable why)
  | none => .ok ((frame.get? "result").getD .null)

/-- The number and the outcome of a response: its id is a number of a call, and it has no method. -/
def response? (frame : Json) : Option (Nat × Outcome) :=
  if methodOf? frame = none then
    ((frame.get? "id").bind Json.nat?).map fun id => (id, outcomeOf frame)
  else none

/-- A frame is of one kind at most, and the reader takes it for that. -/
inductive Kind (frame : Json) : Prop
  | notice {n : Notification} (notice : notice? frame = some n) (asks : inquiry? frame = none)
    (answers : response? frame = none)
    (taken : Incoming.ofFrame? frame = some (.notification n.method n.params))
  | inquiry {id : Json} {method : String} (asks : inquiry? frame = some (id, method))
    (notice : notice? frame = none) (answers : response? frame = none)
    (taken : Incoming.ofFrame? frame = some (.serverRequest id method))
  | response {id : Nat} {outcome : Outcome} (answers : response? frame = some (id, outcome))
    (notice : notice? frame = none) (asks : inquiry? frame = none)
    (taken : Incoming.ofFrame? frame = some (.response id outcome))
  | noise (notice : notice? frame = none) (asks : inquiry? frame = none)
    (answers : response? frame = none) (taken : Incoming.ofFrame? frame = none)

theorem kind_of_frame (frame : Json) : Kind frame := by
  cases frame with
  | obj ms =>
    cases identity : (Json.obj ms).get? "id" with
    | none =>
      have unnumbered : Json.Members.get? "id" ms = none := identity
      have asks : inquiry? (.obj ms) = none := by rw [inquiry?, identity, Option.bind_none]
      have answers : response? (.obj ms) = none := by
        rw [response?, identity, Option.bind_none, Option.map_none, ite_self]
      cases named : methodOf? (.obj ms) with
      | none =>
        have unnamed : (Json.Members.get? "method" ms).bind Json.str? = none := named
        have notice : notice? (.obj ms) = none := by
          rw [notice?, named, Option.map_none, ite_self]
        have taken : Incoming.ofFrame? (.obj ms) = none := by
          simp only [Incoming.ofFrame?, unnumbered, unnamed]
        exact .noise notice asks answers taken
      | some method =>
        have notice : notice? (.obj ms) = some ⟨method, (Json.obj ms).get? "params"⟩ := by
          rw [notice?, if_pos identity, named, Option.map_some]
        have said : (Json.Members.get? "method" ms).bind Json.str? = some method := named
        have taken : Incoming.ofFrame? (.obj ms) =
            some (.notification method ((Json.obj ms).get? "params")) := by
          simp only [Incoming.ofFrame?, unnumbered, said]
          rfl
        exact .notice notice asks answers taken
    | some id =>
      have numbered : Json.Members.get? "id" ms = some id := identity
      have notice : notice? (.obj ms) = none := by
        rw [notice?, identity, if_neg (Option.some_ne_none id)]
      cases named : methodOf? (.obj ms) with
      | none =>
        have asks : inquiry? (.obj ms) = none := by
          rw [inquiry?, identity, Option.bind_some, named, Option.map_none]
        have answers : response? (.obj ms) = id.nat?.map fun n => (n, outcomeOf (.obj ms)) := by
          rw [response?, if_pos named, identity, Option.bind_some]
        have unnamed : (Json.Members.get? "method" ms).bind Json.str? = none := named
        have taken : Incoming.ofFrame? (.obj ms) =
            id.nat?.map fun n => .response n (outcomeOf (.obj ms)) := by
          simp only [Incoming.ofFrame?, numbered, unnamed]
          rfl
        cases number : id.nat? with
        | none =>
          rw [number] at answers
          simp only [number, Option.map_none] at taken
          exact .noise notice asks answers taken
        | some n =>
          rw [number] at answers
          simp only [number, Option.map_some] at taken
          exact .response answers notice asks taken
      | some method =>
        have asks : inquiry? (.obj ms) = some (id, method) := by
          rw [inquiry?, identity, Option.bind_some, named, Option.map_some]
        have answers : response? (.obj ms) = none := by
          rw [response?, named, if_neg (Option.some_ne_none method)]
        have said : (Json.Members.get? "method" ms).bind Json.str? = some method := named
        have taken : Incoming.ofFrame? (.obj ms) = some (.serverRequest id method) := by
          simp only [Incoming.ofFrame?, numbered, said]
        exact .inquiry asks notice answers taken
  | null | bool | int | float | str | arr => exact .noise rfl rfl rfl rfl

/-! ## What the reader does with them -/

/-- The frame that arrives by a step. -/
def Step.frame? : Step → Option Json
  | .arrive frame => some frame
  | _ => none

/-- Whether a step is one of the reader with a frame. -/
def Step.sorts : Step → Bool
  | .arrive _ | .pass => true
  | _ => false

/-- The notification that a reader has in hand. -/
def Reader.notices : Reader → List Notification
  | .forwarding n => [n]
  | _ => []

/-- The refusal that a reader has in hand. -/
def Reader.refusals : Reader → List Order
  | .refusing reply => [.send reply]
  | _ => []

/-- A step that was taken, with the link before it and after it. -/
structure Move where
  before : Link
  step : Step
  after : Link

/-- The steps of a run. -/
def moves (l : Link) : List Step → List Move
  | [] => []
  | s :: rest =>
    match l.step s with
    | some l' => ⟨l, s, l'⟩ :: moves l' rest
    | none => []

namespace Move

/-- The notifications that the reader puts at the end of their queue. -/
def forwards (m : Move) : List Notification :=
  if m.step.sorts then m.after.inbox.drop m.before.inbox.length else []

/-- The orders that the reader puts at the end of theirs. -/
def replies (m : Move) : List Order :=
  if m.step.sorts then m.after.orders.drop m.before.orders.length else []

/-- The calls that leave the table by what the reader does, and what they have been told then. -/
def tells (m : Move) : List ((Nat × CallId) × Option Slot) :=
  if m.step.sorts then
    (m.before.pending.filter (· ∉ m.after.pending)).map fun e =>
      (e, (m.after.calls[e.2]?).map Call.slot)
  else []

/-- The call in the table to which the frame that arrives is the response, and its outcome. -/
def answer? (m : Move) : Option ((Nat × CallId) × Option Slot) :=
  ((m.step.frame?).bind response?).bind fun r =>
    (m.before.pending.lookup r.1).map fun c => ((r.1, c), some (.told r.2))

end Move

/-- The order to refuse a request. -/
def refusal? (frame : Json) : Option Order :=
  (inquiry? frame).map fun r => .send (methodNotFound r.1 r.2)

/-- Whether someone takes notifications, and someone writes. -/
structure Alive (l : Link) : Prop where
  heeded : l.heeded = true
  heard : l.isMute = false

variable {past : List Step} {l l' : Link} {s : Step} {c : CallId} {id : Nat} {frame : Json}

/-! ## Other steps -/

/-- What a step that is not the reader's with a frame leaves alone. -/
structure Spares (l l' : Link) : Prop where
  notices : l'.reader.notices = l.reader.notices
  refusals : l'.reader.refusals = l.reader.refusals
  /-- Whoever is gone stays away. -/
  alive : Alive l' → Alive l

theorem Spares.of_eq (notices : l'.reader.notices = l.reader.notices)
    (refusals : l'.reader.refusals = l.reader.refusals) (heeded : l'.heeded = l.heeded)
    (writer : l'.writer = l.writer) : Spares l l' where
  notices := notices
  refusals := refusals
  alive alive := by
    refine ⟨heeded ▸ alive.heeded, ?_⟩
    have heard := alive.heard
    unfold isMute at heard ⊢
    rwa [writer] at heard

theorem Spares.post {order : Order} (posted : l.post? order = some l') : Spares l l' := by
  unfold post? at posted
  split at posted
  · cases posted
    exact .of_eq rfl rfl rfl rfl
  · split at posted <;> cases posted
    exact .of_eq rfl rfl rfl rfl

/-- A writer that is gone is not alive. -/
theorem Spares.silence (h : l'.writer = .ended) (reader : l'.reader = l.reader) : Spares l l' where
  notices := by rw [reader]
  refusals := by rw [reader]
  alive alive := by
    have heard := alive.heard
    rw [isMute, h] at heard
    cases heard

/-- Clearing the table concerns calls only. -/
theorem spares_clearTable (l : Link) :
    l.clearTable.heeded = l.heeded ∧ l.clearTable.writer = l.writer := by
  have folded (pending : List (Nat × CallId)) (l : Link) :
      (pending.foldl (fun l e => l.modify e.2 Call.lose) l).heeded = l.heeded ∧
        (pending.foldl (fun l e => l.modify e.2 Call.lose) l).writer = l.writer := by
    induction pending generalizing l with
    | nil => exact ⟨rfl, rfl⟩
    | cons e pending ih => exact ih (l.modify e.2 Call.lose)
  exact folded l.pending l

theorem spares_of_step (taken : l.step s = some l') (other : s.sorts = false) : Spares l l' := by
  cases s with
  | begin =>
    cases taken
    exact .of_eq rfl rfl rfl rfl
  | number | enter | collect | expire | withdraw | abandon =>
    obtain ⟨call, -, taken⟩ := Option.bind_eq_some_iff.mp taken
    simp only [Link.number, Link.enter, Link.collect, Link.expire, Link.withdraw,
      Link.abandon] at taken
    split at taken <;> cases taken <;> exact .of_eq rfl rfl rfl rfl
  | hand =>
    obtain ⟨call, -, taken⟩ := Option.bind_eq_some_iff.mp taken
    unfold Link.hand at taken
    split at taken
    · split at taken
      · cases taken
        exact .of_eq rfl rfl rfl rfl
      · obtain ⟨posted, post, rfl⟩ := Option.map_eq_some_iff.mp taken
        obtain ⟨notices, refusals, alive⟩ := Spares.post post
        exact ⟨notices, refusals, fun h => alive ⟨h.heeded, h.heard⟩⟩
    · cases taken
  | post order => exact .post taken
  | take =>
    simp only [Link.step, Link.take] at taken
    split at taken <;> cases taken
    next idle _ =>
      refine ⟨rfl, rfl, fun alive => ⟨alive.heeded, ?_⟩⟩
      rw [isMute, idle]
    next => exact .silence rfl rfl
  | wrote =>
    simp only [Link.step] at taken
    split at taken <;> cases taken
    next writing =>
      refine ⟨rfl, rfl, fun alive => ⟨alive.heeded, ?_⟩⟩
      rw [isMute, writing]
  | fail =>
    simp only [Link.step] at taken
    split at taken <;> cases taken
    exact .silence rfl rfl
  | cease =>
    simp only [Link.step] at taken
    split at taken <;> cases taken
    next reading =>
      refine .of_eq ?_ ?_ rfl rfl <;> rw [reading] <;> rfl
  | clear =>
    simp only [Link.step] at taken
    split at taken <;> cases taken
    next leaving =>
      obtain ⟨heeded, writer⟩ := spares_clearTable l
      refine .of_eq ?_ ?_ heeded writer <;> rw [leaving] <;> rfl
  | fetch =>
    simp only [Link.step] at taken
    split at taken <;> cases taken
    exact .of_eq rfl rfl rfl rfl
  | deafen =>
    cases taken
    refine ⟨rfl, rfl, fun alive => ?_⟩
    cases alive.heeded
  | arrive | pass => cases other

/-! ## Steps of the reader -/

/-- What a step makes of the frame that arrives, and of the one in hand. -/
structure Sorts (m : Move) : Prop where
  alive : Alive m.after → Alive m.before
  forwards : Alive m.after → m.forwards ++ m.after.reader.notices =
    m.before.reader.notices ++ (m.step.frame?.bind notice?).toList
  replies : Alive m.after → m.replies ++ m.after.reader.refusals =
    m.before.reader.refusals ++ (m.step.frame?.bind refusal?).toList
  tells : m.tells = m.answer?.toList
  left : m.step.sorts = true →
    m.after.pending = m.before.pending.filter (· ∉ m.tells.map Prod.fst)
  noise : ∀ frame, m.step = .arrive frame → notice? frame = none → inquiry? frame = none →
    m.answer? = none → m.after = m.before

/-- If nobody leaves the table, nobody is told anything. -/
theorem tells_eq_nil (kept : l'.pending = l.pending) : Move.tells ⟨l, s, l'⟩ = [] := by
  have none : l.pending.filter (· ∉ l'.pending) = [] := by
    refine List.filter_eq_nil_iff.mpr ?_
    intro e mem
    simpa [kept] using mem
  simp only [Move.tells, none, List.map_nil, ite_self]

theorem filter_not_mem_nil (entries : List (Nat × CallId)) :
    entries.filter (· ∉ ([] : List ((Nat × CallId) × Option Slot)).map Prod.fst) = entries := by
  simp

theorem Sorts.other (spares : Spares l l') (still : s.sorts = false) (silent : s.frame? = none) :
    Sorts ⟨l, s, l'⟩ where
  alive := spares.alive
  forwards _ := by
    simp only [Move.forwards, still, silent, Option.bind_none, Option.toList_none]
    exact spares.notices.trans (List.append_nil _).symm
  replies _ := by
    simp only [Move.replies, still, silent, Option.bind_none, Option.toList_none]
    exact spares.refusals.trans (List.append_nil _).symm
  tells := by
    simp only [Move.tells, Move.answer?, still, silent, Option.bind_none]
    rfl
  left sorts := by
    rw [still] at sorts
    cases sorts
  noise frame arrives := by
    rw [show s = .arrive frame from arrives] at silent
    cases silent

theorem Sorts.pass (passed : l.pass = some l') : Sorts ⟨l, .pass, l'⟩ := by
  have told (kept : l'.pending = l.pending) := tells_eq_nil (s := .pass) kept
  have left (kept : l'.pending = l.pending) : l'.pending =
      l.pending.filter (· ∉ (Move.tells ⟨l, .pass, l'⟩).map Prod.fst) := by
    rw [told kept, filter_not_mem_nil]
    exact kept
  unfold Link.pass at passed
  split at passed
  next n forwarding =>
    split at passed
    next deaf =>
      cases passed
      have gone : ¬Alive { l with reader := .reading } := by
        intro alive
        have heeded : l.heeded = true := alive.heeded
        rw [heeded] at deaf
        cases deaf
      exact ⟨fun alive => absurd alive gone, fun alive => absurd alive gone,
        fun alive => absurd alive gone, told rfl, fun _ => left rfl,
        fun _ arrives => Step.noConfusion arrives⟩
    next =>
      split at passed <;> cases passed
      refine ⟨fun alive => ⟨alive.heeded, alive.heard⟩, fun _ => ?_, fun _ => ?_, told rfl,
        fun _ => left rfl, fun _ arrives => Step.noConfusion arrives⟩
      · simp [Move.forwards, Step.sorts, Step.frame?, forwarding, Reader.notices]
      · simp [Move.replies, Step.sorts, Step.frame?, forwarding, Reader.refusals]
  next reply refusing =>
    obtain ⟨posted, post, rfl⟩ := Option.map_eq_some_iff.mp passed
    have alive_of : Alive { posted with reader := .reading } → Alive l := by
      intro alive
      exact (Spares.post post).alive ⟨alive.heeded, alive.heard⟩
    have room : Alive { posted with reader := .reading } →
        posted = { l with orders := l.orders ++ [.send reply] } := by
      intro alive
      simp only [post?, (alive_of alive).heard, Bool.false_eq_true, if_false] at post
      split at post <;> cases post
      rfl
    have kept : posted.pending = l.pending := by
      unfold post? at post
      split at post
      · cases post
        rfl
      · split at post <;> cases post
        rfl
    refine ⟨alive_of, fun alive => ?_, fun alive => ?_, told kept, fun _ => left kept,
      fun _ arrives => Step.noConfusion arrives⟩
    · rw [room alive]
      simp [Move.forwards, Step.sorts, Step.frame?, refusing, Reader.notices]
    · rw [room alive]
      simp [Move.replies, Step.sorts, Step.frame?, refusing, Reader.refusals]
  next => cases passed

/-- Who is struck from the table with a number. -/
theorem struck_eq {pending : List (Nat × CallId)} (keys : (pending.map (·.1)).Nodup)
    (listed : (id, c) ∈ pending) :
    (pending.filter fun e => e ∉ pending.filter fun e => e.1 ≠ id) = [(id, c)] ∧
      pending.filter (fun e => e.1 ≠ id) = pending.filter fun e => e ∉ [(id, c)] := by
  have only : ∀ e ∈ pending, (e.1 = id ↔ e = (id, c)) := by
    intro e mem
    refine ⟨fun same => List.inj_on_of_nodup_map keys mem listed same, ?_⟩
    rintro rfl
    rfl
  constructor
  · have once := List.count_eq_one_of_mem (List.Nodup.of_map _ keys) listed
    rw [show [(id, c)] = List.replicate 1 (id, c) from rfl, ← once, ← List.filter_eq]
    refine List.filter_congr fun e mem => ?_
    simp [mem, only e mem]
  · refine List.filter_congr fun e mem => ?_
    simp [only e mem]

/-- A frame that is taken in hand, or ignored, tells nobody anything. -/
theorem Sorts.arrive_quiet (reading : l.reader = .reading) (reader : Reader)
    (answers : response? frame = none)
    (notices : reader.notices = (notice? frame).toList)
    (refusals : reader.refusals = (refusal? frame).toList)
    (noise : notice? frame = none → inquiry? frame = none → reader = .reading) :
    Sorts ⟨l, .arrive frame, { l with reader := reader }⟩ where
  alive alive := ⟨alive.heeded, alive.heard⟩
  forwards _ := by
    simpa [Move.forwards, Step.sorts, Step.frame?, reading, Reader.notices] using notices
  replies _ := by
    simpa [Move.replies, Step.sorts, Step.frame?, reading, Reader.refusals] using refusals
  tells := by
    have untold : Move.tells ⟨l, .arrive frame, { l with reader := reader }⟩ = [] := tells_eq_nil rfl
    rw [untold, Move.answer?, Step.frame?, Option.bind_some, answers, Option.bind_none]
    rfl
  left _ := by
    have untold : Move.tells ⟨l, .arrive frame, { l with reader := reader }⟩ = [] := tells_eq_nil rfl
    rw [untold, filter_not_mem_nil]
  noise found arrives notice asks _ := by
    cases arrives
    show { l with reader := reader } = l
    rw [noise notice asks, ← reading]

/-- A response tells whoever waits for it, and nobody else. -/
theorem Sorts.arrive_response (sound : Sound past l) {outcome : Outcome}
    (answers : response? frame = some (id, outcome)) (notice : notice? frame = none)
    (asks : inquiry? frame = none) :
    Sorts ⟨l, .arrive frame, l.route id outcome⟩ := by
  cases found : l.pending.lookup id with
  | none =>
    have same : l.route id outcome = l := by rw [route, found]
    have untold : Move.tells ⟨l, .arrive frame, l⟩ = [] := tells_eq_nil rfl
    have unasked : Move.answer? ⟨l, .arrive frame, l⟩ = none := by
      rw [Move.answer?, Step.frame?, Option.bind_some, answers, Option.bind_some, found]
      rfl
    rw [same]
    refine ⟨fun alive => alive, fun _ => ?_, fun _ => ?_, ?_, fun _ => ?_, fun _ _ _ _ _ => rfl⟩
    · simp [Move.forwards, Step.frame?, notice]
    · simp [Move.replies, Step.frame?, refusal?, asks]
    · rw [untold, unasked]
      rfl
    · rw [untold, filter_not_mem_nil]
  | some c =>
    have after : l.route id outcome =
        (l.strike id).modify c fun call => { call with slot := .told outcome } := by
      rw [route, found]
    have listed := mem_of_lookup found
    obtain ⟨struck, left⟩ := struck_eq sound.keys listed
    have pending : (l.route id outcome).pending = l.pending.filter fun e => e.1 ≠ id := by
      rw [after]
      rfl
    have slot : ((l.route id outcome).calls[c]?).map Call.slot = some (.told outcome) := by
      have there := List.getElem?_eq_getElem (sound.known id c listed)
      rw [after, calls_modify, if_pos rfl]
      show Option.map _ (Option.map _ l.calls[c]?) = _
      rw [there]
      rfl
    have tells : Move.tells ⟨l, .arrive frame, l.route id outcome⟩ =
        [((id, c), some (.told outcome))] := by
      simp only [Move.tells, Step.sorts, if_true, pending, struck, List.map_cons, List.map_nil, slot]
    have asked : Move.answer? ⟨l, .arrive frame, l.route id outcome⟩ =
        some ((id, c), some (.told outcome)) := by
      rw [Move.answer?, Step.frame?, Option.bind_some, answers, Option.bind_some, found]
      rfl
    refine ⟨fun alive => ?_, fun _ => ?_, fun _ => ?_, ?_, fun _ => ?_, fun _ _ _ _ none => ?_⟩
    · rw [after] at alive
      exact ⟨alive.heeded, alive.heard⟩
    · simp [Move.forwards, Step.frame?, notice, after, modify, strike]
    · simp [Move.replies, Step.frame?, refusal?, asks, after, modify, strike]
    · rw [tells, asked]
      rfl
    · rw [tells]
      exact pending.trans left
    · rw [asked] at none
      cases none

theorem Sorts.arrive (sound : Sound past l) (reading : l.reader = .reading) (frame : Json) :
    Sorts ⟨l, .arrive frame, l.dispatch frame⟩ := by
  cases kind_of_frame frame with
  | @notice n notice asks answers taken =>
    have after : l.dispatch frame = { l with reader := .forwarding n } := by
      simp only [dispatch, taken]
    rw [after]
    refine .arrive_quiet reading _ answers ?_ ?_ fun none => ?_
    · rw [notice]
      rfl
    · rw [refusal?, asks]
      rfl
    · rw [notice] at none
      cases none
  | @inquiry id method asks notice answers taken =>
    have after : l.dispatch frame = { l with reader := .refusing (methodNotFound id method) } := by
      simp only [dispatch, taken]
    rw [after]
    refine .arrive_quiet reading _ answers ?_ ?_ fun _ none => ?_
    · rw [notice]
      rfl
    · rw [refusal?, asks]
      rfl
    · rw [asks] at none
      cases none
  | @response id outcome answers notice asks taken =>
    have after : l.dispatch frame = l.route id outcome := by simp only [dispatch, taken]
    rw [after]
    exact .arrive_response sound answers notice asks
  | noise notice asks answers taken =>
    have after : l.dispatch frame = { l with reader := .reading } := by
      simp only [dispatch, taken, ← reading]
    rw [after]
    refine .arrive_quiet reading _ answers ?_ ?_ fun _ _ => rfl
    · rw [notice]
      rfl
    · rw [refusal?, asks]
      rfl

/-- **What a step makes of frames**: each goes where its kind says. -/
theorem sorts_of_step (sound : Sound past l) (taken : l.step s = some l') : Sorts ⟨l, s, l'⟩ := by
  cases s with
  | arrive frame =>
    simp only [Link.step] at taken
    split at taken <;> cases taken
    next reading => exact .arrive sound reading frame
  | pass => exact .pass taken
  | _ => exact .other (spares_of_step taken rfl) rfl rfl

/-! ## Runs -/

variable {steps : List Step} {m : Move}

/-- The frames that arrive in a run. -/
def frames (steps : List Step) : List Json :=
  steps.filterMap Step.frame?

theorem moves_cons {next : Link} (taken : l.step s = some next) (rest : List Step) :
    moves l (s :: rest) = ⟨l, s, next⟩ :: moves next rest := by
  rw [moves, taken]

theorem run_append (front back : List Step) :
    l.run (front ++ back) = (l.run front).bind fun k => k.run back := by
  induction front generalizing l with
  | nil => rfl
  | cons s front ih =>
    rw [List.cons_append, run, run, Option.bind_assoc]
    exact Option.bind_congr fun next _ => ih

/-- Every step of a run sorts frames, and nobody is gone before the end who is there at the end. -/
theorem sorts_of_run (history : History past l) (run : l.run steps = some l') (alive : Alive l') :
    Alive l ∧ ∀ m ∈ moves l steps, Sorts m ∧ Alive m.after := by
  induction steps generalizing past l with
  | nil =>
    cases run
    exact ⟨alive, fun m mem => absurd mem List.not_mem_nil⟩
  | cons s steps ih =>
    obtain ⟨next, taken, run⟩ := Option.bind_eq_some_iff.mp run
    obtain ⟨alive, later⟩ := ih (history.next taken) run
    have sorts := sorts_of_step (.of_history history) taken
    refine ⟨sorts.alive alive, ?_⟩
    rw [moves_cons taken]
    exact List.forall_mem_cons.mpr ⟨⟨sorts, alive⟩, later⟩

/-- What one step passes on, keeps in hand and gets in balances over a run. -/
theorem conserved_of_run {β : Type} {deeds : Move → List β} (hand : Reader → List β)
    {kind? : Json → Option β} (run : l.run steps = some l')
    (each : ∀ m ∈ moves l steps, deeds m ++ hand m.after.reader =
      hand m.before.reader ++ (m.step.frame?.bind kind?).toList) :
    (moves l steps).flatMap deeds ++ hand l'.reader =
      hand l.reader ++ (frames steps).filterMap kind? := by
  induction steps generalizing l with
  | nil =>
    cases run
    exact (List.append_nil _).symm
  | cons s steps ih =>
    obtain ⟨next, taken, run⟩ := Option.bind_eq_some_iff.mp run
    rw [moves_cons taken] at each ⊢
    obtain ⟨here, later⟩ := List.forall_mem_cons.mp each
    have arrived : (frames (s :: steps)).filterMap kind? =
        (s.frame?.bind kind?).toList ++ (frames steps).filterMap kind? := by
      unfold frames
      cases frame : s.frame? with
      | none => simp [List.filterMap_cons_none frame]
      | some f =>
        rw [List.filterMap_cons_some frame, List.filterMap_cons, Option.bind_some]
        cases kind? f <;> rfl
    calc (deeds ⟨l, s, next⟩ ++ (moves next steps).flatMap deeds) ++ hand l'.reader
        = deeds ⟨l, s, next⟩ ++ (hand next.reader ++ (frames steps).filterMap kind?) := by
          rw [List.append_assoc, ih run later]
      _ = hand l.reader ++ (s.frame?.bind kind?).toList ++ (frames steps).filterMap kind? := by
          rw [← List.append_assoc, here]
      _ = hand l.reader ++ (frames (s :: steps)).filterMap kind? := by
          rw [arrived, List.append_assoc]

/-- Who is told, and what, in a run. -/
theorem told_of_run (each : ∀ m ∈ moves l steps, Sorts m) :
    (moves l steps).flatMap Move.tells = (moves l steps).filterMap Move.answer? := by
  rw [List.filterMap_eq_flatMap_toList]
  exact List.flatMap_congr fun m mem => (each m mem).tells

theorem step_mem_of_mem (mem : m ∈ moves l steps) : m.step ∈ steps := by
  induction steps generalizing l with
  | nil => cases mem
  | cons s steps ih =>
    rw [moves] at mem
    split at mem
    · rcases List.mem_cons.mp mem with rfl | mem
      · exact List.mem_cons_self
      · exact List.mem_cons_of_mem _ (ih mem)
    · cases mem

/-! ## The law -/

/-- The error for an unknown method, with the id of the request as it came. -/
structure Refuses (reply id : Json) (method : String) : Prop where
  id : reply.get? "id" = some id
  code : (reply.get? "error").bind (Json.get? "code") = some (.int (-32601))
  message : (reply.get? "error").bind (Json.get? "message") =
    some (.str s!"Method not found: {method}")
  /-- It is an answer and has no result. -/
  nameless : reply.get? "method" = none
  vain : reply.get? "result" = none

/-- How the frames of a run are divided. -/
structure Partitioned (l : Link) (steps : List Step) (l' : Link) : Prop where
  /-- All notifications are forwarded, in order and as they are, up to one in hand. -/
  forwarded : (moves l steps).flatMap Move.forwards ++ l'.reader.notices =
    l.reader.notices ++ (frames steps).filterMap notice?
  /-- All requests are refused, once each and in order, up to one in hand, -/
  replied : (moves l steps).flatMap Move.replies ++ l'.reader.refusals =
    l.reader.refusals ++ (frames steps).filterMap refusal?
  /-- each with its own id, of whatever type. -/
  refused : ∀ frame id method, inquiry? frame = some (id, method) →
    ∃ reply, refusal? frame = some (.send reply) ∧ Refuses reply id method
  /-- All responses to calls in the table are told to these, -/
  told : (moves l steps).flatMap Move.tells = (moves l steps).filterMap Move.answer?
  /-- and nobody else leaves it by what arrives. -/
  left : ∀ m ∈ moves l steps, m.step.sorts = true →
    m.after.pending = m.before.pending.filter (· ∉ m.tells.map Prod.fst)
  /-- Any other frame changes nothing. -/
  noise : ∀ m ∈ moves l steps, ∀ frame, m.step = .arrive frame → notice? frame = none →
    inquiry? frame = none → m.answer? = none → m.after = m.before
  /-- Up to the next frame, a frame has one effect at most. -/
  single : ∀ before frame between rest k,
    steps = before ++ (.arrive frame :: between ++ rest) → frames between = [] →
    l.run before = some k →
    ((moves k (.arrive frame :: between)).flatMap Move.forwards).length +
      ((moves k (.arrive frame :: between)).flatMap Move.replies).length +
      ((moves k (.arrive frame :: between)).flatMap Move.tells).length ≤ 1
  /-- With room in the queues, what is in hand can be passed on, -/
  passes : l'.inbox.length < inboxCapacity → l'.orders.length < orderCapacity →
    l'.reader.notices ≠ [] ∨ l'.reader.refusals ≠ [] →
    ∃ next, l'.step .pass = some next ∧ next.reader = .reading
  /-- and whatever comes then is taken. -/
  takes : l'.reader = .reading → ∀ frame, (l'.step (.arrive frame)).isSome = true

/-- A refusal is an error for an unknown method. -/
theorem refuses_methodNotFound (id : Json) (method : String) :
    Refuses (methodNotFound id method) id method := by
  have members (key : String) (pairs : List (String × Json)) :
      (Json.object pairs).get? key = Json.member key pairs := rfl
  constructor <;> simp [methodNotFound, members, methodNotFoundCode]

/-- What is told in a run with one frame is what this frame answers. -/
theorem told_of_single {next : Link} (taken : l.step (.arrive frame) = some next)
    (alone : frames steps = []) :
    ((moves l (.arrive frame :: steps)).filterMap Move.answer?).length ≤
      (response? frame).toList.length := by
  have quiet : (moves next steps).filterMap Move.answer? = [] := by
    refine List.filterMap_eq_nil_iff.mpr ?_
    intro m mem
    have nothing := List.filterMap_eq_nil_iff.mp alone m.step (step_mem_of_mem mem)
    rw [Move.answer?, nothing, Option.bind_none, Option.bind_none]
  rw [moves_cons taken, List.filterMap_cons, quiet, Move.answer?, Step.frame?, Option.bind_some]
  cases response? frame with
  | none => exact Nat.le_refl _
  | some r =>
    rw [Option.bind_some]
    cases l.pending.lookup r.1 with
    | none => exact Nat.zero_le _
    | some c => exact Nat.le_refl _

/-- **A frame has one effect at most** until the next one comes. -/
theorem single_of_run (history : History past l)
    (run : l.run (.arrive frame :: steps) = some l') (alive : Alive l') (alone : frames steps = []) :
    ((moves l (.arrive frame :: steps)).flatMap Move.forwards).length +
      ((moves l (.arrive frame :: steps)).flatMap Move.replies).length +
      ((moves l (.arrive frame :: steps)).flatMap Move.tells).length ≤ 1 := by
  obtain ⟨-, each⟩ := sorts_of_run history run alive
  obtain ⟨next, taken, -⟩ := Option.bind_eq_some_iff.mp run
  have only : frames (.arrive frame :: steps) = [frame] := congrArg (frame :: ·) alone
  have reading : l.reader = .reading := by
    simp only [Link.step] at taken
    split at taken
    · assumption
    · cases taken
  have one {β : Type} (kind? : Json → Option β) :
      [frame].filterMap kind? = (kind? frame).toList := by
    rw [List.filterMap_cons]
    cases kind? frame <;> rfl
  have forwarded := conserved_of_run Reader.notices run
    fun m mem => (each m mem).1.forwards (each m mem).2
  have replied := conserved_of_run Reader.refusals run
    fun m mem => (each m mem).1.replies (each m mem).2
  have told := told_of_run fun m mem => (each m mem).1
  rw [only, reading, one] at forwarded replied
  have forwards := congrArg List.length forwarded
  have replies := congrArg List.length replied
  have tells := told_of_single taken alone
  rw [← told] at tells
  rw [List.length_append, List.length_append] at forwards replies
  have kinds : (notice? frame).toList.length + (refusal? frame).toList.length +
      (response? frame).toList.length ≤ 1 := by
    cases kind_of_frame frame <;> simp [refusal?, *]
  have empty : (Reader.notices .reading).length = 0 ∧ (Reader.refusals .reading).length = 0 :=
    ⟨rfl, rfl⟩
  omega

/-- What is in hand can be passed on if there is room. -/
theorem pass_of_room (notices : l.inbox.length < inboxCapacity)
    (orders : l.orders.length < orderCapacity)
    (hand : l.reader.notices ≠ [] ∨ l.reader.refusals ≠ []) :
    ∃ next, l.step .pass = some next ∧ next.reader = .reading := by
  cases reader : l.reader with
  | forwarding n =>
    simp only [Link.step, Link.pass, reader, notices, if_true]
    cases l.heeded <;> exact ⟨_, rfl, rfl⟩
  | refusing reply =>
    simp only [Link.step, Link.pass, reader, post?, orders, if_true]
    cases l.isMute <;> exact ⟨_, rfl, rfl⟩
  | reading | leaving | ended =>
    rw [reader] at hand
    rcases hand with notices | refusals
    · exact absurd rfl notices
    · exact absurd rfl refusals

/-- **Frames are divided among the notifications, the requests and the responses**, whatever they
are and whatever else happens, as long as nobody is gone for whom they are meant. -/
theorem partitioned_of_run (history : History past l) (run : l.run steps = some l')
    (alive : Alive l') : Partitioned l steps l' := by
  obtain ⟨-, each⟩ := sorts_of_run history run alive
  refine ⟨?_, ?_, ?_, ?_, ?_, ?_, ?_, pass_of_room, ?_⟩
  · exact conserved_of_run _ run fun m mem => (each m mem).1.forwards (each m mem).2
  · exact conserved_of_run _ run fun m mem => (each m mem).1.replies (each m mem).2
  · intro frame id method asks
    exact ⟨methodNotFound id method, congrArg _ asks, refuses_methodNotFound id method⟩
  · exact told_of_run fun m mem => (each m mem).1
  · exact fun m mem => (each m mem).1.left
  · exact fun m mem => (each m mem).1.noise
  · rintro before frame between rest k rfl alone reached
    rw [run_append, reached, Option.bind_some, run_append] at run
    obtain ⟨stop, span, rest⟩ := Option.bind_eq_some_iff.mp run
    have before := history_of_run history reached
    have after := history_of_run before span
    exact single_of_run before span (sorts_of_run after rest alive).1 alone
  · intro reading frame
    simp only [Link.step, reading, Option.isSome_some]

/-- A notification, a request with an id that is `null`, the answer to a call, one to nobody, and an
array. -/
theorem partitioned_of_mixed_frames :
    let notice : Json := .obj [("method", .str "n"), ("params", .int 3)]
    let request : Json := .obj [("id", .null), ("method", .str "q")]
    let steps := [.begin "m" none none, .number 0, .enter 0, .arrive notice, .pass, .arrive request,
      .pass, .arrive (answerTo 1 (.int 5)), .arrive (answerTo 9 .null), .arrive (.arr [])]
    ∃ l, Link.start.run steps = some l ∧ Alive l ∧ Partitioned .start steps l ∧
      (moves .start steps).flatMap Move.forwards = [⟨"n", some (.int 3)⟩] ∧
      (moves .start steps).flatMap Move.replies = [.send (methodNotFound .null "q")] ∧
      (moves .start steps).flatMap Move.tells = [((1, 0), some (.told (.ok (.int 5))))] := by
  intro notice request steps
  let l : Link := ⟨2, [⟨"m", none, none, .entered 1, .told (.ok (.int 5))⟩], [],
    [.send (methodNotFound .null "q")], .idle, .reading, [⟨"n", some (.int 3)⟩], true⟩
  have run : Link.start.run steps = some l := rfl
  have alive : Alive l := ⟨rfl, rfl⟩
  exact ⟨l, run, alive, partitioned_of_run .start run alive, rfl, rfl, rfl⟩

end Supervision.Link
