import Supervision.Proofs.Frame.RoundTrip
import Supervision.Proofs.Link.Answer
import Supervision.Session.Basic

/-!
# Whether a link can be opened

While a link is being opened nobody takes notifications, and the inbox has room for so many. A
worker that has written no more of them before its answer to the first call stops nobody: until the
answer is read somebody can go on (`Opening.goesOn`), and once the call is in the table it ends with
the answer (`Opening.concludes`). With one notification more the reader waits for room that nobody
makes, the answer behind it is never read, and nothing is left but the limit of the call
(`Opening.jams`). Requests of the worker never stand in the way, however many they are: the writer
makes room for their refusals.

The parties are those that run here, in any order and at any moments: whoever opens the link, the
writer and the reader. The worker is taken to have written all that it has to say, and to read what
it is sent. Of an answer that is read before the call is in the table only that it is ignored is
used.
-/

namespace Supervision.Link

open Message

variable {l l' : Link} {frame : Json}

/-! ## Channels -/

/-- A link whose parties are at work: notifications are wanted, the writer is there and is told
nothing but frames, and no queue holds more than it may. -/
structure Working (l : Link) : Prop where
  heeded : l.heeded = true
  heard : l.isMute = false
  frames : ∀ order ∈ l.orders, ∃ frame, order = .send frame
  orders : l.orders.length ≤ orderCapacity
  inbox : l.inbox.length ≤ inboxCapacity

/-- How many notifications a reader holds. -/
def Reader.held : Reader → Nat
  | .forwarding _ => 1
  | _ => 0

/-- Whether a reader has not come to its end. -/
def Reader.reads : Reader → Bool
  | .leaving | .ended => false
  | _ => true

/-- Whether a reader holds nothing. -/
def Reader.isFree : Reader → Bool
  | .forwarding _ | .refusing _ => false
  | _ => true

/-- How many steps a reader has ahead of it at most, those of the writer for it among them. -/
def Reader.ahead : Reader → Nat
  | .reading => 2
  | .forwarding _ | .refusing _ => 5
  | .leaving => 1
  | .ended => 0

/-- How many steps a writer has ahead of it with what it is writing. -/
def Writer.ahead : Writer → Nat
  | .writing _ => 1
  | _ => 0

/-- Whether a frame is a notification. -/
def isNotice (frame : Json) : Bool :=
  match Incoming.ofFrame? frame with
  | some (.notification _ _) => true
  | _ => false

/-- What the reader holds and what the calls do is no matter for a link at work. -/
theorem Working.of_same (working : Working l) (heeded : l'.heeded = l.heeded)
    (writer : l'.writer = l.writer) (orders : l'.orders = l.orders) (inbox : l'.inbox = l.inbox) :
    Working l' where
  heeded := heeded.trans working.heeded
  heard := by
    have heard := working.heard
    unfold isMute at heard ⊢
    rwa [writer]
  frames := orders ▸ working.frames
  orders := orders ▸ working.orders
  inbox := inbox ▸ working.inbox

/-- An order is given exactly if there is room for it. -/
theorem Working.post?_eq (working : Working l) (order : Order) :
    l.post? order =
      if l.orders.length < orderCapacity then some { l with orders := l.orders ++ [order] }
      else none := by
  simp only [post?, working.heard, Bool.false_eq_true, if_false]

theorem Working.post (working : Working l) (posted : l.post? (.send frame) = some l') :
    l' = { l with orders := l.orders ++ [.send frame] } ∧ Working l' := by
  rw [working.post?_eq] at posted
  split at posted <;> cases posted
  next room =>
    refine ⟨rfl, working.heeded, working.heard, fun order mem => ?_, ?_, working.inbox⟩
    · rcases List.mem_append.1 mem with mem | mem
      · exact working.frames order mem
      · exact ⟨frame, List.mem_singleton.1 mem⟩
    · simp only [List.length_append, List.length_singleton]
      omega

/-- What a reader at work gets rid of goes to the queue it belongs to. -/
theorem Working.pass (working : Working l) (passed : l.pass = some l') :
    Working l' ∧
      ((∃ n, l.reader = .forwarding n ∧
          l' = { l with reader := .reading, inbox := l.inbox ++ [n] }) ∨
        ∃ reply, l.reader = .refusing reply ∧
          l' = { l with reader := .reading, orders := l.orders ++ [.send reply] }) := by
  unfold Link.pass at passed
  split at passed
  next n forwarding =>
    have wanted : (!l.heeded) = false := by rw [working.heeded]; rfl
    simp only [wanted, Bool.false_eq_true, if_false] at passed
    split at passed <;> cases passed
    next room =>
      refine ⟨⟨working.heeded, working.heard, working.frames, working.orders, ?_⟩,
        .inl ⟨n, forwarding, rfl⟩⟩
      simp only [List.length_append, List.length_singleton]
      omega
  next reply refusing =>
    obtain ⟨posted, post, rfl⟩ := Option.map_eq_some_iff.1 passed
    obtain ⟨rfl, kept⟩ := working.post post
    exact ⟨kept.of_same rfl rfl rfl rfl, .inr ⟨reply, refusing, rfl⟩⟩
  next => cases passed

/-- A reader at work that cannot get rid of what it holds has found a queue full. -/
theorem Working.full (working : Working l) (stuck : l.pass = none) :
    (∀ n, l.reader = .forwarding n → l.inbox.length = inboxCapacity) ∧
      ∀ reply, l.reader = .refusing reply → l.orders.length = orderCapacity := by
  refine ⟨fun n forwarding => ?_, fun reply refusing => ?_⟩
  · simp only [Link.pass, forwarding, working.heeded, Bool.not_true, Bool.false_eq_true,
      if_false] at stuck
    split at stuck
    · cases stuck
    · have := working.inbox
      omega
  · simp only [Link.pass, refusing, Option.map_eq_none_iff, working.post?_eq] at stuck
    split at stuck
    · cases stuck
    · have := working.orders
      omega

/-! ## The first call -/

/-- The first call of a link. -/
abbrev firstCall (params : Json) (phase : Phase) (slot : Slot) : Call :=
  ⟨Errand.openingMethod, some params, some Errand.handshakeLimit, phase, slot⟩

/-- How far the first call has come while it is not told anything: the table, and the number of the
next call. -/
inductive Untold : Phase → List (Nat × CallId) → Nat → Prop
  | begun : Untold .begun [] 1
  | numbered : Untold (.numbered 1) [] 2
  | entered : Untold (.entered 1) [(1, 0)] 2
  | waiting : Untold (.waiting 1) [(1, 0)] 2

variable {params : Json} {phase : Phase} {pending : List (Nat × CallId)} {next : Nat}

/-- Only an answer to the first call finds a call in the table. -/
theorem Untold.lookup {id : Nat} (untold : Untold phase pending next) (other : id ≠ 1) :
    pending.lookup id = none := by
  have differs : (id == 1) = false := beq_eq_false_iff_ne.2 other
  cases untold <;> simp only [List.lookup_cons, List.lookup_nil, differs]

/-- What a frame that does not answer the first call makes of the reader. -/
theorem Untold.dispatch (untold : Untold phase l.pending next) (reading : l.reader = .reading)
    (other : ∀ o, Incoming.ofFrame? frame ≠ some (.response 1 o)) :
    ∃ r : Reader, l.dispatch frame = { l with reader := r } ∧ r.reads = true ∧
      r.held = if isNotice frame then 1 else 0 := by
  have same : l = { l with reader := .reading } := by rw [← reading]
  cases sorted : Incoming.ofFrame? frame with
  | none => exact ⟨.reading, by simpa only [Link.dispatch, sorted] using same, rfl,
      by simp only [isNotice, sorted]; rfl⟩
  | some incoming =>
    cases incoming with
    | response id outcome =>
      have differs : id ≠ 1 := by
        rintro rfl
        exact other outcome sorted
      refine ⟨.reading, ?_, rfl, by simp only [isNotice, sorted]; rfl⟩
      simpa only [Link.dispatch, sorted, route, untold.lookup differs] using same
    | serverRequest id method =>
      exact ⟨.refusing (methodNotFound id method), by simp only [Link.dispatch, sorted], rfl,
        by simp only [isNotice, sorted]; rfl⟩
    | notification method params =>
      exact ⟨.forwarding ⟨method, params⟩, by simp only [Link.dispatch, sorted], rfl,
        by simp only [isNotice, sorted]; rfl⟩

/-- Someone else than writer and reader takes a step, and the link stays at work. -/
structure Beside (l l' : Link) : Prop where
  working : Working l'
  reader : l'.reader = l.reader
  writer : l'.writer = l.writer
  inbox : l'.inbox = l.inbox

/-- The first call takes a step and is not told anything. -/
structure Moves (params : Json) (phase phase' : Phase) (l l' : Link) : Prop
    extends Beside l l' where
  calls : l'.calls = [firstCall params phase' .empty]
  untold : Untold phase' l'.pending l'.nextId
  ahead : 3 * phase'.ahead + 2 * l'.orders.length < 3 * phase.ahead + 2 * l.orders.length
  listed : l.pending ≠ [] → l'.pending ≠ []

/-- The first call takes its steps by itself, up to the one that needs an answer. -/
theorem Untold.goOn {e again : Errand} {after : Except TransportError Json → Errand}
    (untold : Untold phase l.pending l.nextId) (working : Working l)
    (calls : l.calls = [firstCall params phase .empty])
    (gone : Errand.goOn l 0 again after = some (l', e)) :
    e = again ∧ (∀ id, phase ≠ .waiting id) ∧ ∃ phase', Moves params phase phase' l l' := by
  generalize table : l.pending = pending at untold
  generalize number : l.nextId = next at untold
  cases untold with
  | begun =>
    simp only [Errand.goOn, result?, nextOf, step, Link.number, calls, number, setPhase,
      Link.modify, List.getElem?_cons_zero, Option.map_some, Option.bind_some,
      List.modify_zero_cons, Option.some.injEq, Prod.mk.injEq] at gone
    obtain ⟨rfl, rfl⟩ := gone
    exact ⟨rfl, by simp, .numbered 1,
      ⟨working.of_same rfl rfl rfl rfl, rfl, rfl, rfl⟩,
      rfl, by rw [table]; exact .numbered, by simp only [Phase.ahead]; omega, id⟩
  | numbered =>
    simp only [Errand.goOn, result?, nextOf, step, Link.enter, calls, table, setPhase, Link.modify,
      strike, List.getElem?_cons_zero, Option.map_some, Option.bind_some, List.modify_zero_cons,
      List.filter_nil, List.nil_append, Option.some.injEq, Prod.mk.injEq] at gone
    obtain ⟨rfl, rfl⟩ := gone
    exact ⟨rfl, by simp, .entered 1,
      ⟨working.of_same rfl rfl rfl rfl, rfl, rfl, rfl⟩,
      rfl, by rw [number]; exact .entered, by simp only [Phase.ahead]; omega,
      fun _ => List.cons_ne_nil _ _⟩
  | entered =>
    simp only [Errand.goOn, result?, nextOf, step, Link.hand, calls, working.heard,
      List.getElem?_cons_zero, Option.map_some, Option.bind_some, Bool.false_eq_true, if_false,
      Option.map_map, Option.map_eq_some_iff, Function.comp_apply, Prod.mk.injEq] at gone
    obtain ⟨posted, post, rfl, rfl⟩ := gone
    obtain ⟨rfl, kept⟩ := working.post post
    refine ⟨rfl, by simp, .waiting 1,
      ⟨kept.of_same rfl rfl rfl rfl, rfl, rfl, rfl⟩, ?_, ?_, ?_, id⟩
    · simp only [setPhase, Link.modify, calls, List.modify_zero_cons]
    · show Untold _ l.pending l.nextId
      rw [table, number]
      exact .waiting
    · simp only [setPhase, Link.modify, Phase.ahead, List.length_append, List.length_singleton]
      omega
  | waiting =>
    simp only [Errand.goOn, result?, nextOf, step, Link.collect, calls, List.getElem?_cons_zero,
      Option.map_some, Option.bind_some, Option.map_none] at gone
    cases gone

/-- The answer to the first call finds it in the table. -/
theorem route_firstCall {outcome : Outcome} (table : l.pending = [(1, 0)])
    (calls : l.calls = [firstCall params phase .empty]) :
    l.route 1 outcome =
      { l with calls := [firstCall params phase (.told outcome)], pending := [] } := by
  simp only [route, strike, Link.modify, table, calls]
  rfl

/-- A first call that takes no step waits for its answer. -/
theorem Untold.waits {child : Nat} {exited : Bool} (untold : Untold phase l.pending l.nextId)
    (working : Working l) (written : l.orders = [])
    (calls : l.calls = [firstCall params phase .empty])
    (stuck : (Errand.greet child 0).advance exited l = none) : ∃ id, phase = .waiting id := by
  have room : l.orders.length < orderCapacity := by rw [written]; decide
  generalize l.pending = pending at untold
  generalize l.nextId = next at untold
  cases untold with
  | waiting => exact ⟨1, rfl⟩
  | _ =>
    simp [Errand.advance, Errand.goOn, result?, nextOf, step, calls, Link.number, Link.enter,
      Link.hand, working.heard, working.post?_eq, room] at stuck

end Supervision.Link

namespace Supervision.Session

open Message Supervision.Frame Link

/-! ## The parties -/

/-- Who takes part in opening a link. -/
inductive Party
  | opener
  | writer
  | reader
  deriving DecidableEq, Repr

/-- One step of a party at a moment; `none` when it has to wait. -/
def turn (s : Session) (now : Nat) : Party → Option Session
  | .opener => s.advanceFrom now 0 s.errands
  | .writer => s.write
  | .reader => s.read

/-- Steps, one after the other, each at its moment. -/
def turns (s : Session) : List (Nat × Party) → Option Session
  | [] => some s
  | (now, party) :: more => (s.turn now party).bind (·.turns more)

/-- Nobody can go on, whatever the moment. -/
def Stuck (s : Session) : Prop :=
  ∀ now party, s.turn now party = none

/-- A link that is being opened to a process of which this has come. -/
def greeting (child : Nat) (peer : Peer) (wire : List UInt8) (processId : Json)
    (workspace : Path) : Session :=
  ({ Session.start child peer with wire := wire }.greet processId workspace).2

/-- What has come of the process is these frames, none of which answers the first call, and then the
answer. -/
structure Offer (wire : List UInt8) (early : List Json) (answer : Json)
    (outcome : Message.Outcome) : Prop where
  carries : Carries wire (early ++ [answer])
  precede : ∀ frame ∈ early, ∀ o, Incoming.ofFrame? frame ≠ some (.response 1 o)
  answers : Incoming.ofFrame? answer = some (.response 1 outcome)

/-- How the opening of a link ends once its call was told an outcome. -/
def opened (child : Nat) : Message.Outcome → Except (List String) Nat
  | .ok v => .ok (Group.pidAfter child v)
  | .error e => .error (Errand.openingFault (.response e))

/-- All that is left is the limit of the first call: the reader holds a notification for which there
is no room, the writer has nothing to write, and the call waits untold. -/
structure Jammed (s : Session) : Prop where
  holds : ∃ n, s.link.reader = .forwarding n
  full : s.link.inbox.length = inboxCapacity
  idle : s.link.writer = .idle
  written : s.link.orders = []
  waits : ∃ due, s.deadlines = [(0, due)]
  expires : (s.link.step (.expire 0)).isSome = true
  last : ∀ now, s.pulse now = (s.act now <|> s.expire now)

/-- What the opening of a link comes to when a process has written its answer behind so many frames,
of which so many are notifications. -/
structure Opening (start : Session) (child frames notices : Nat) (outcome : Message.Outcome) :
    Prop where
  /-- Somebody can go on until the answer is read. -/
  goesOn : notices ≤ inboxCapacity → ∀ moves s, start.turns moves = some s → s.wire ≠ [] →
    ∃ party, ∀ now, (s.turn now party).isSome = true
  /-- The answer is read after so many steps, if somebody can go on for as long. -/
  brief : ∀ moves s, start.turns moves = some s → s.wire ≠ [] → moves.length ≤ 4 * frames + 25
  /-- A call that is in the table by then ends with the answer, after so many steps. -/
  concludes : ∀ moves s more s', start.turns moves = some s → s.wire ≠ [] → s.link.pending ≠ [] →
    s.turns more = some s' → moves.length + more.length ≤ 4 * frames + 25 ∧
      (notices ≤ inboxCapacity → s'.Stuck → s'.errands = [.done (.opened (opened child outcome))])
  /-- Too many notifications keep the answer from being read, and everybody from going on. -/
  jams : inboxCapacity < notices → ∀ moves s, start.turns moves = some s →
    s.wire ≠ [] ∧ (s.Stuck → s.Jammed)

/-! ## Opener and writer -/

variable {s s' : Session} {now : Nat} {e : Errand}

theorem watch_eq (s : Session) (now : Nat) (e : Errand) :
    ∃ deadlines, s.watch now e = { s with deadlines := deadlines } := by
  unfold watch
  split
  · exact ⟨_, rfl⟩
  · split
    · split <;> exact ⟨_, rfl⟩
    · exact ⟨_, rfl⟩

/-- The only errand of a session goes on by what it does with the link. -/
theorem opener_turn (errands : s.errands = [e]) (taken : s.turn now .opener = some s') :
    ∃ l e' pid, e.advance (!s.peer.alive) s.link = some (l, e') ∧
      s' = ({ s with link := l, errands := [e'], pid := pid }).watch now e' := by
  simp only [turn, errands, advanceFrom] at taken
  split at taken
  next l e' advanced =>
    cases taken
    refine ⟨l, e', ?_⟩
    split
    · exact ⟨_, advanced, rfl⟩
    · exact ⟨_, advanced, rfl⟩
  next => cases taken

theorem opener_waits (errands : s.errands = [e]) (stuck : s.turn now .opener = none) :
    e.advance (!s.peer.alive) s.link = none := by
  simp only [turn, errands, advanceFrom] at stuck
  split at stuck
  next => cases stuck
  next waits => exact waits

/-- The writer takes a frame, or has written one. -/
theorem write_turn (working : s.link.Working) (lives : s.peer.alive = true)
    (taken : s.write = some s') :
    ∃ writer orders input, s' = { s with
        link := { s.link with writer := writer, orders := orders }
        peer := { s.peer with input := input } } ∧
      s'.link.Working ∧
        2 * orders.length + writer.ahead < 2 * s.link.orders.length + s.link.writer.ahead := by
  unfold write at taken
  split at taken
  next idle =>
    obtain ⟨l, step, rfl⟩ := Option.map_eq_some_iff.1 taken
    simp only [Link.step, Link.take, idle] at step
    split at step
    next frame rest _ orders =>
      cases step
      refine ⟨.writing frame, rest, s.peer.input, rfl, ⟨working.heeded, rfl, fun order mem => ?_,
        ?_, working.inbox⟩, ?_⟩
      · exact working.frames order (by rw [orders]; exact List.mem_cons_of_mem _ mem)
      · have := working.orders
        rw [orders, List.length_cons] at this
        exact Nat.le_of_succ_le this
      · simp only [Writer.ahead, idle, orders, List.length_cons]
        omega
    next rest _ orders =>
      obtain ⟨frame, same⟩ := working.frames .stop (by rw [orders]; exact List.mem_cons_self)
      cases same
    next => cases step
  next frame writing =>
    rw [if_pos lives] at taken
    simp only [Link.step, writing, Option.map_some] at taken
    cases taken
    refine ⟨.idle, s.link.orders, _, rfl, ⟨working.heeded, rfl, working.frames, working.orders,
      working.inbox⟩, ?_⟩
    simp only [Writer.ahead, writing]
    omega
  next ended =>
    have heard := working.heard
    simp only [isMute, ended] at heard
    cases heard

theorem write_waits (working : s.link.Working) (lives : s.peer.alive = true)
    (stuck : s.write = none) : s.link.writer = .idle ∧ s.link.orders = [] := by
  unfold write at stuck
  split at stuck
  next idle =>
    refine ⟨idle, ?_⟩
    rw [Option.map_eq_none_iff] at stuck
    cases orders : s.link.orders with
    | nil => rfl
    | cons order rest =>
      cases order with
      | send frame => simp only [Link.step, Link.take, idle, orders] at stuck; cases stuck
      | stop => simp only [Link.step, Link.take, idle, orders] at stuck; cases stuck
  next frame writing =>
    rw [if_pos lives] at stuck
    simp only [Link.step, writing, Option.map_some] at stuck
    cases stuck
  next ended =>
    have heard := working.heard
    simp only [isMute, ended] at heard
    cases heard

/-! ## While the answer is unread -/

/-- How many steps an errand has ahead of it with what its call comes to. -/
def errandAhead : Errand → Nat
  | .greet _ _ => 4
  | .welcome _ => 3
  | _ => 0

/-- How many steps the parties have ahead of them at most, with so many frames to read. -/
def ahead (s : Session) (frames : Nat) : Nat :=
  4 * frames + s.link.reader.ahead + (2 * s.link.orders.length + s.link.writer.ahead) +
    3 * (s.link.calls.map (·.phase.ahead)).sum + (s.errands.map errandAhead).sum

/-- Until when the first call waits is noted once it waits. -/
def Noted (phase : Phase) (deadlines : List (CallId × Nat)) : Prop :=
  match phase with
  | .waiting _ => ∃ due, deadlines = [(0, due)]
  | _ => deadlines = []

theorem Noted.of_going {phase : Phase} {deadlines : List (CallId × Nat)}
    (noted : Noted phase deadlines) (going : ∀ id, phase ≠ .waiting id) : deadlines = [] := by
  unfold Noted at noted
  split at noted
  next id => exact absurd rfl (going id)
  next => exact noted

theorem watch_firstCall {params : Json} {phase : Phase}
    (calls : s.link.calls = [firstCall params phase .empty]) (fresh : s.deadlines = [])
    (now child : Nat) :
    ∃ deadlines, s.watch now (.greet child 0) = { s with deadlines := deadlines } ∧
      Noted phase deadlines := by
  simp only [watch, Errand.call?, calls, List.getElem?_cons_zero, fresh]
  unfold Noted
  split
  next waits =>
    cases waits
    exact ⟨_, rfl, _, rfl⟩
  next going =>
    refine ⟨[], by rw [← fresh], ?_⟩
    split
    next => exact absurd rfl (going _ _ _ _ _)
    next => rfl

/-- The answer stands behind these frames, and so many notifications have come all in all. -/
structure Unread (child n : Nat) (answer : Json) (s : Session) (early : List Json) : Prop where
  carries : Carries s.wire (early ++ [answer])
  precede : ∀ frame ∈ early, ∀ o, Incoming.ofFrame? frame ≠ some (.response 1 o)
  lives : s.peer.alive = true
  working : s.link.Working
  reads : s.link.reader.reads = true
  count : s.link.inbox.length + s.link.reader.held + early.countP isNotice = n
  errand : s.errands = [.greet child 0]
  call : ∃ params phase, s.link.calls = [firstCall params phase .empty] ∧
    Untold phase s.link.pending s.link.nextId ∧ Noted phase s.deadlines

variable {child n frames : Nat} {answer : Json} {early : List Json} {outcome : Message.Outcome}

/-- The call takes its next step; one that waits has none. -/
theorem Unread.opener (unread : Unread child n answer s early)
    (taken : s.turn now .opener = some s') :
    Unread child n answer s' early ∧ s'.ahead frames < s.ahead frames ∧
      (s.link.pending ≠ [] → s'.link.pending ≠ []) := by
  obtain ⟨l, e, pid, advanced, rfl⟩ := opener_turn unread.errand taken
  obtain ⟨params, phase, calls, untold, noted⟩ := unread.call
  obtain ⟨rfl, going, phase', moves⟩ := untold.goOn unread.working calls advanced
  obtain ⟨deadlines, watched, noted⟩ :=
    watch_firstCall (s := { s with link := l, errands := [.greet child 0], pid := pid }) moves.calls
      (noted.of_going going) now child
  rw [watched]
  refine ⟨{ unread with
    working := moves.working
    reads := ?_
    count := ?_
    errand := rfl
    call := ⟨params, phase', moves.calls, moves.untold, noted⟩ }, ?_, moves.listed⟩
  · rw [moves.reader]
    exact unread.reads
  · rw [moves.reader, moves.inbox]
    exact unread.count
  · have := moves.ahead
    simp only [ahead, moves.calls, moves.reader, moves.writer, calls, unread.errand, List.map_cons,
      List.map_nil, List.sum_cons, List.sum_nil]
    omega

theorem Unread.writer (unread : Unread child n answer s early) (taken : s.write = some s') :
    Unread child n answer s' early ∧ s'.ahead frames < s.ahead frames ∧
      (s.link.pending ≠ [] → s'.link.pending ≠ []) := by
  obtain ⟨writer, orders, input, rfl, working, less⟩ :=
    write_turn unread.working unread.lives taken
  refine ⟨{ unread with working := working }, ?_, id⟩
  simp only [ahead]
  omega

/-- The reader gets rid of what it holds. -/
theorem Unread.pass (unread : Unread child n answer s early) {l : Link}
    (passed : s.link.pass = some l) :
    Unread child n answer { s with link := l } early ∧
      { s with link := l }.ahead frames < s.ahead frames ∧
      (s.link.pending ≠ [] → l.pending ≠ []) := by
  have count := unread.count
  obtain ⟨working, ⟨notice, holds, rfl⟩ | ⟨reply, holds, rfl⟩⟩ := unread.working.pass passed
  · refine ⟨{ unread with working := working, reads := rfl, count := ?_ }, ?_, id⟩
    · simp only [holds, Reader.held, List.length_append, List.length_singleton] at count ⊢
      omega
    · simp only [ahead, holds, Reader.ahead]
      omega
  · refine ⟨{ unread with working := working, reads := rfl, count := ?_ }, ?_, id⟩
    · simpa only [holds, Reader.held] using count
    · simp only [ahead, holds, Reader.ahead, List.length_append, List.length_singleton]
      omega

/-- The reader reads a frame before the answer. -/
theorem Unread.arrive {frame : Json} (unread : Unread child n answer s (frame :: early))
    (reading : s.link.reader = .reading) :
    ∃ s', s.read = some s' ∧ Unread child n answer s' early ∧
      s'.ahead (early.length + 1) < s.ahead (early.length + 2) ∧
      (s.link.pending ≠ [] → s'.link.pending ≠ []) := by
  obtain ⟨params, phase, calls, untold, noted⟩ := unread.call
  obtain ⟨r, dispatched, reads, held⟩ :=
    untold.dispatch reading (unread.precede frame List.mem_cons_self)
  obtain ⟨rest, arrives, more⟩ := carries_cons.1 unread.carries
  refine ⟨{ s with link := { s.link with reader := r }, wire := rest }, ?_, { unread with
    carries := more
    precede := fun f mem => unread.precede f (List.mem_cons_of_mem frame mem)
    working := unread.working.of_same rfl rfl rfl rfl
    reads := reads
    count := ?_
    call := ⟨params, phase, calls, untold, noted⟩ }, ?_, id⟩
  · simp only [read, reading, readStep?, arrives, Option.bind_some, step, dispatched,
      Option.map_some]
  · have count := unread.count
    simp only [reading, Reader.held, List.countP_cons] at count
    show s.link.inbox.length + r.held + early.countP isNotice = n
    omega
  · have most : r.ahead ≤ 5 := by cases r <;> simp [Reader.ahead]
    have now : s.link.reader.ahead = 2 := by rw [reading]; rfl
    simp only [ahead, now]
    omega

/-- The reader reads the answer and tells it to the first call, if that is in the table. By then no
notification was too many. -/
theorem Unread.answered (unread : Unread child n answer s [])
    (answers : Incoming.ofFrame? answer = some (.response 1 outcome))
    (reading : s.link.reader = .reading) :
    n ≤ inboxCapacity ∧ s.read = some { s with link := s.link.route 1 outcome, wire := [] } := by
  constructor
  · have count := unread.count
    have most := unread.working.inbox
    simp only [reading, Reader.held, List.countP_nil] at count
    omega
  · obtain ⟨rest, arrives, more⟩ := carries_cons.1 unread.carries
    obtain rfl := carries_nil.1 more
    simp only [read, reading, readStep?, arrives, Option.bind_some, step, Link.dispatch, answers,
      Option.map_some]

/-- A step while the answer is unread: it stays so, or the reader reads it. -/
theorem Unread.turn {party : Party} (unread : Unread child n answer s early)
    (answers : Incoming.ofFrame? answer = some (.response 1 outcome))
    (taken : s.turn now party = some s') :
    (∃ early', Unread child n answer s' early' ∧
        s'.ahead (early'.length + 1) < s.ahead (early.length + 1) ∧
        (s.link.pending ≠ [] → s'.link.pending ≠ [])) ∨
      early = [] ∧ n ≤ inboxCapacity ∧ s.link.reader = .reading ∧
        s' = { s with link := s.link.route 1 outcome, wire := [] } := by
  cases party with
  | opener => exact .inl ⟨early, unread.opener taken⟩
  | writer => exact .inl ⟨early, unread.writer taken⟩
  | reader =>
    have passes (again : s.read = (s.link.step .pass).map fun link => { s with link := link }) :
        ∃ early', Unread child n answer s' early' ∧
          s'.ahead (early'.length + 1) < s.ahead (early.length + 1) ∧
          (s.link.pending ≠ [] → s'.link.pending ≠ []) := by
      obtain ⟨l, passed, rfl⟩ := Option.map_eq_some_iff.1 (again.symm.trans taken)
      exact ⟨early, unread.pass passed⟩
    cases holds : s.link.reader with
    | reading =>
      cases early with
      | nil =>
        obtain ⟨room, read⟩ := unread.answered answers holds
        exact .inr ⟨rfl, room, rfl, Option.some.inj (taken.symm.trans read)⟩
      | cons frame early =>
        obtain ⟨next, read, unread, less, listed⟩ := unread.arrive holds
        obtain rfl := Option.some.inj (taken.symm.trans read)
        exact .inl ⟨early, unread, less, listed⟩
    | forwarding notice => exact .inl (passes (by simp only [read, holds]))
    | refusing reply => exact .inl (passes (by simp only [read, holds]))
    | leaving =>
      have reads := unread.reads
      rw [holds] at reads
      cases reads
    | ended =>
      have reads := unread.reads
      rw [holds] at reads
      cases reads

/-- **Only a notification for which there is no room** keeps reader and writer from going on while
the answer is unread. -/
theorem Unread.blocked (unread : Unread child n answer s early) (reads : s.read = none)
    (writes : s.write = none) :
    (∃ notice, s.link.reader = .forwarding notice) ∧ s.link.inbox.length = inboxCapacity := by
  cases holds : s.link.reader with
  | reading =>
    obtain ⟨frame, more, split⟩ := List.exists_cons_of_ne_nil
      (List.append_ne_nil_of_right_ne_nil early (List.cons_ne_nil answer []))
    have carries := unread.carries
    rw [split] at carries
    obtain ⟨rest, arrives, -⟩ := carries_cons.1 carries
    simp only [read, holds, readStep?, arrives, Option.bind_some, step, Option.map_some] at reads
    cases reads
  | forwarding notice =>
    simp only [read, holds, Option.map_eq_none_iff] at reads
    exact ⟨⟨notice, rfl⟩, (unread.working.full reads).1 notice holds⟩
  | refusing reply =>
    simp only [read, holds, Option.map_eq_none_iff] at reads
    have full := (unread.working.full reads).2 reply holds
    rw [(write_waits unread.working unread.lives writes).2] at full
    cases full
  | leaving | ended =>
    have reads := unread.reads
    rw [holds] at reads
    cases reads

/-- As long as no notification is too many, somebody can go on while the answer is unread. -/
theorem Unread.goesOn (unread : Unread child n answer s early) (room : n ≤ inboxCapacity) :
    ∃ party, ∀ now, (s.turn now party).isSome = true := by
  by_cases reads : s.read = none
  · refine ⟨.writer, fun now => Option.isSome_iff_ne_none.2 fun writes => ?_⟩
    obtain ⟨⟨notice, holds⟩, full⟩ := unread.blocked reads writes
    have count := unread.count
    simp only [holds, Reader.held] at count
    omega
  · exact ⟨.reader, fun now => Option.isSome_iff_ne_none.2 reads⟩

/-- If nobody can go on while the answer is unread, all that is left is the limit of the call. -/
theorem Unread.jammed (unread : Unread child n answer s early) (stuck : s.Stuck) : s.Jammed := by
  have writes := stuck 0 .writer
  have reads := stuck 0 .reader
  obtain ⟨holds, full⟩ := unread.blocked reads writes
  obtain ⟨idle, written⟩ := write_waits unread.working unread.lives writes
  obtain ⟨params, phase, calls, untold, noted⟩ := unread.call
  obtain ⟨id, rfl⟩ :=
    untold.waits unread.working written calls (opener_waits unread.errand (stuck 0 .opener))
  refine ⟨holds, full, idle, written, noted, ?_, fun now => ?_⟩
  · simp only [step, Link.expire, calls, List.getElem?_cons_zero, Option.bind_some,
      Option.isSome_some]
  · have opener := stuck now .opener
    simp only [Session.turn] at opener writes reads
    simp only [pulse, opener, writes, reads]
    cases s.act now <;> rfl

/-! ## Once the call was told the answer -/

/-- Where the opening of a link stands once its call was told an outcome. -/
inductive Heard (child : Nat) (outcome : Message.Outcome) : List Call → Errand → Prop
  | entered (params : Json) :
    Heard child outcome [firstCall params (.entered 1) (.told outcome)] (.greet child 0)
  | waiting (params : Json) :
    Heard child outcome [firstCall params (.waiting 1) (.told outcome)] (.greet child 0)
  | finished (params : Json) (slot : Slot) :
    Heard child outcome [firstCall params (.finished (resultOf outcome)) slot] (.greet child 0)
  | welcome (calls : List Call) (v : Json) (ok : outcome = .ok v) :
    Heard child outcome calls (.welcome (Group.pidAfter child v))
  | done (calls : List Call) : Heard child outcome calls (.done (.opened (opened child outcome)))

/-- The call was told an outcome, and nothing more has come. -/
structure Told (child : Nat) (outcome : Message.Outcome) (s : Session) : Prop where
  wire : s.wire = []
  lives : s.peer.alive = true
  working : s.link.Working
  table : s.link.pending = []
  free : s.link.reader.isFree = true
  errand : ∃ e, s.errands = [e] ∧ Heard child outcome s.link.calls e

/-- The opening goes on by itself with what its call was told. -/
theorem Heard.advance {exited : Bool} {l l' : Link} {e' : Errand}
    (heard : Heard child outcome l.calls e) (working : l.Working)
    (advanced : e.advance exited l = some (l', e')) :
    Heard child outcome l'.calls e' ∧ l.Beside l' ∧ l'.pending = l.pending ∧
      2 * l'.orders.length + 3 * (l'.calls.map (·.phase.ahead)).sum + errandAhead e' <
        2 * l.orders.length + 3 * (l.calls.map (·.phase.ahead)).sum + errandAhead e := by
  generalize known : l.calls = calls at heard
  cases heard with
  | entered params =>
    simp only [Errand.advance, Errand.goOn, result?, nextOf, step, known, Link.hand, working.heard,
      List.getElem?_cons_zero, Option.map_some, Option.bind_some, Bool.false_eq_true, if_false,
      Option.map_map, Option.map_eq_some_iff, Function.comp_apply, Prod.mk.injEq] at advanced
    obtain ⟨posted, post, rfl, rfl⟩ := advanced
    obtain ⟨rfl, kept⟩ := working.post post
    have calls (orders : List Order) : ({ l with orders := orders }.setPhase 0 (.waiting 1)).calls =
        [firstCall params (.waiting 1) (.told outcome)] := by
      simp only [setPhase, Link.modify, known, List.modify_zero_cons]
    refine ⟨by rw [calls]; exact .waiting params,
      ⟨kept.of_same rfl rfl rfl rfl, rfl, rfl, rfl⟩, rfl, ?_⟩
    rw [calls]
    simp only [setPhase, Link.modify, List.map_cons, List.map_nil, List.sum_cons, List.sum_nil,
      Phase.ahead, List.length_append, List.length_singleton]
    omega
  | waiting params =>
    simp only [Errand.advance, Errand.goOn, result?, nextOf, step, known, Link.collect, setPhase,
      Link.modify, List.getElem?_cons_zero, Option.map_some, Option.bind_some,
      List.modify_zero_cons, Option.some.injEq, Prod.mk.injEq] at advanced
    obtain ⟨rfl, rfl⟩ := advanced
    refine ⟨.finished params _,
      ⟨working.of_same rfl rfl rfl rfl, rfl, rfl, rfl⟩,
      rfl, ?_⟩
    simp only [List.map_cons, List.map_nil, List.sum_cons, List.sum_nil, Phase.ahead]
    omega
  | finished params slot =>
    simp only [Errand.advance, Errand.goOn, result?, known, List.getElem?_cons_zero,
      Option.map_some, Option.some.injEq, Prod.mk.injEq] at advanced
    obtain ⟨rfl, rfl⟩ := advanced
    refine ⟨?_, ⟨working, rfl, rfl, rfl⟩, rfl, ?_⟩
    · cases outcome with
      | ok v => exact .welcome _ v rfl
      | error why => exact .done _
    · rw [known]
      cases outcome <;> simp only [resultOf, errandAhead] <;> omega
  | welcome calls v ok =>
    simp only [Errand.advance, working.heard, Bool.false_eq_true, if_false,
      Option.map_eq_some_iff, Prod.mk.injEq] at advanced
    obtain ⟨posted, post, rfl, rfl⟩ := advanced
    obtain ⟨rfl, kept⟩ := working.post post
    refine ⟨?_, ⟨kept, rfl, rfl, rfl⟩, rfl, ?_⟩
    · subst ok
      exact .done _
    · simp only [known, errandAhead, List.length_append, List.length_singleton]
      omega
  | done calls => cases advanced

/-- An opening that has been told the outcome waits for nothing but room for a frame. -/
theorem Heard.waits {exited : Bool} {l : Link} (heard : Heard child outcome l.calls e)
    (working : l.Working) (written : l.orders = []) (stuck : e.advance exited l = none) :
    e = .done (.opened (opened child outcome)) := by
  have room : l.orders.length < orderCapacity := by rw [written]; decide
  generalize known : l.calls = calls at heard
  cases heard with
  | done => rfl
  | _ =>
    simp [Errand.advance, Errand.goOn, result?, nextOf, step, known, Link.hand, Link.collect,
      working.heard, working.post?_eq, room] at stuck

/-- The reader has come to the end of what was written, or lets go of what is left. -/
theorem Told.reader (told : Told child outcome s) (taken : s.turn now .reader = some s') :
    Told child outcome s' ∧ s'.ahead 0 < s.ahead 0 := by
  obtain ⟨e, errands, heard⟩ := told.errand
  have free := told.free
  have working := told.working
  simp only [Session.turn, read] at taken
  split at taken
  next reading =>
    simp only [readStep?, told.wire, arrival_nil] at taken
    split at taken
    next => cases taken
    next =>
      simp only [Option.bind_some, step, reading, Option.map_some] at taken
      cases taken
      refine ⟨⟨rfl, told.lives, working.of_same rfl rfl rfl rfl, told.table, rfl, e, errands,
        heard⟩, ?_⟩
      simp only [ahead, reading, Reader.ahead]
      omega
  next holds => rw [holds] at free; cases free
  next holds => rw [holds] at free; cases free
  next leaving =>
    simp only [step, leaving, Option.map_some, clearTable, told.table, List.foldl_nil] at taken
    cases taken
    refine ⟨⟨told.wire, told.lives, working.of_same rfl rfl rfl rfl, rfl, rfl, e, errands,
      heard⟩, ?_⟩
    simp only [ahead, leaving, Reader.ahead]
    omega
  next => cases taken

/-- A step once the call was told. -/
theorem Told.turn {party : Party} (told : Told child outcome s)
    (taken : s.turn now party = some s') : Told child outcome s' ∧ s'.ahead 0 < s.ahead 0 := by
  obtain ⟨e, errands, heard⟩ := told.errand
  cases party with
  | opener =>
    obtain ⟨l, e', pid, advanced, rfl⟩ := opener_turn errands taken
    obtain ⟨heard, beside, table, less⟩ := heard.advance told.working advanced
    obtain ⟨deadlines, watched⟩ :=
      watch_eq { s with link := l, errands := [e'], pid := pid } now e'
    rw [watched]
    refine ⟨⟨told.wire, told.lives, beside.working, table.trans told.table, ?_, e', rfl, heard⟩, ?_⟩
    · exact (congrArg Reader.isFree beside.reader).trans told.free
    · simp only [ahead, beside.reader, beside.writer, errands, List.map_cons, List.map_nil,
        List.sum_cons, List.sum_nil]
      omega
  | writer =>
    obtain ⟨writer, orders, input, rfl, working, less⟩ :=
      write_turn told.working told.lives taken
    refine ⟨⟨told.wire, told.lives, working, told.table, told.free, e, errands, heard⟩, ?_⟩
    simp only [ahead]
    omega
  | reader => exact told.reader taken

/-- If nobody can go on once the call was told, the link is open. -/
theorem Told.concluded (told : Told child outcome s) (stuck : s.Stuck) :
    s.errands = [.done (.opened (opened child outcome))] := by
  obtain ⟨e, errands, heard⟩ := told.errand
  obtain ⟨-, written⟩ := write_waits told.working told.lives (stuck 0 .writer)
  rw [errands, heard.waits told.working written (opener_waits errands (stuck 0 .opener))]

/-- A call that is in the table is told the answer when the reader reads it. -/
theorem Unread.told (unread : Unread child n answer s []) (reading : s.link.reader = .reading)
    (listed : s.link.pending ≠ []) :
    Told child outcome { s with link := s.link.route 1 outcome, wire := [] } ∧
      { s with link := s.link.route 1 outcome, wire := [] }.ahead 0 < s.ahead 1 := by
  obtain ⟨params, phase, calls, untold, -⟩ := unread.call
  have working := unread.working
  have free : s.link.reader.isFree = true := by rw [reading]; rfl
  have tells (table : s.link.pending = [(1, 0)])
      (heard : Heard child outcome [firstCall params phase (.told outcome)] (.greet child 0)) :
      Told child outcome { s with link := s.link.route 1 outcome, wire := [] } ∧
        { s with link := s.link.route 1 outcome, wire := [] }.ahead 0 < s.ahead 1 := by
    rw [route_firstCall table calls]
    refine ⟨⟨rfl, unread.lives, working.of_same rfl rfl rfl rfl, rfl, free, _, unread.errand,
      heard⟩, ?_⟩
    simp only [ahead, calls, List.map_cons, List.map_nil]
    omega
  generalize table : s.link.pending = pending at untold listed tells
  generalize s.link.nextId = next at untold
  cases untold with
  | begun | numbered => exact absurd rfl listed
  | entered => exact tells rfl (.entered params)
  | waiting => exact tells rfl (.waiting params)

/-! ## Runs -/

/-- What has come does not grow by itself. -/
theorem advanceFrom_wire {i : ErrandId} {errands : List Errand}
    (taken : s.advanceFrom now i errands = some s') : s'.wire = s.wire := by
  induction errands generalizing i with
  | nil => cases taken
  | cons e errands ih =>
    simp only [advanceFrom] at taken
    split at taken
    next l e' advanced =>
      cases taken
      obtain ⟨deadlines, watched⟩ := watch_eq _ now e'
      rw [watched]
      split <;> rfl
    next => exact ih taken

theorem turn_wire {party : Party} (nothing : s.wire = []) (taken : s.turn now party = some s') :
    s'.wire = [] := by
  cases party with
  | opener => exact (advanceFrom_wire taken).trans nothing
  | writer =>
    simp only [Session.turn, write] at taken
    split at taken
    · obtain ⟨l, -, rfl⟩ := Option.map_eq_some_iff.1 taken
      exact nothing
    · split at taken
      all_goals
        obtain ⟨l, -, rfl⟩ := Option.map_eq_some_iff.1 taken
        exact nothing
    · split at taken <;> cases taken
      exact nothing
  | reader =>
    simp only [Session.turn, read] at taken
    split at taken
    case h_1 =>
      simp only [readStep?, nothing, arrival_nil] at taken
      split at taken
      · cases taken
      · obtain ⟨l, -, rfl⟩ := Option.map_eq_some_iff.1 taken
        rfl
    case h_5 => cases taken
    all_goals
      obtain ⟨l, -, rfl⟩ := Option.map_eq_some_iff.1 taken
      exact nothing

theorem turns_wire {moves : List (Nat × Party)} (nothing : s.wire = [])
    (taken : s.turns moves = some s') : s'.wire = [] := by
  induction moves generalizing s with
  | nil =>
    cases taken
    exact nothing
  | cons move moves ih =>
    obtain ⟨next, first, taken⟩ := Option.bind_eq_some_iff.1 taken
    exact ih (turn_wire nothing first) taken

/-- Once the call was told, whatever follows leads to its end, in so many steps. -/
theorem Told.turns {moves : List (Nat × Party)} (told : Told child outcome s)
    (taken : s.turns moves = some s') :
    Told child outcome s' ∧ s'.ahead 0 + moves.length ≤ s.ahead 0 := by
  induction moves generalizing s with
  | nil =>
    cases taken
    exact ⟨told, Nat.le_refl _⟩
  | cons move moves ih =>
    obtain ⟨next, first, taken⟩ := Option.bind_eq_some_iff.1 taken
    obtain ⟨told, less⟩ := told.turn first
    obtain ⟨told, bound⟩ := ih told taken
    refine ⟨told, ?_⟩
    rw [List.length_cons]
    omega

/-- What comes of a run while the answer is unread: it stays so, or it is read. By then no
notification was too many, and a call that was in the table before was told. -/
theorem Unread.turns {moves : List (Nat × Party)} (unread : Unread child n answer s early)
    (answers : Incoming.ofFrame? answer = some (.response 1 outcome))
    (taken : s.turns moves = some s') :
    (∃ early', Unread child n answer s' early' ∧
        s'.ahead (early'.length + 1) + moves.length ≤ s.ahead (early.length + 1)) ∨
      s'.wire = [] ∧ n ≤ inboxCapacity ∧
        (s.link.pending ≠ [] → Told child outcome s' ∧
          s'.ahead 0 + moves.length ≤ s.ahead (early.length + 1)) := by
  induction moves generalizing s early with
  | nil =>
    cases taken
    exact .inl ⟨early, unread, Nat.le_refl _⟩
  | cons move moves ih =>
    obtain ⟨next, first, taken⟩ := Option.bind_eq_some_iff.1 taken
    rw [List.length_cons]
    rcases unread.turn answers first with
      ⟨early', unread', less, kept⟩ | ⟨rfl, room, reading, rfl⟩
    · rcases ih unread' taken with ⟨early'', unread'', bound⟩ | ⟨nothing, room, told⟩
      · exact .inl ⟨early'', unread'', by omega⟩
      · refine .inr ⟨nothing, room, fun listed => ?_⟩
        obtain ⟨told, bound⟩ := told (kept listed)
        exact ⟨told, by omega⟩
    · refine .inr ⟨turns_wire rfl taken, room, fun listed => ?_⟩
      obtain ⟨told, less⟩ := unread.told reading listed
      obtain ⟨told, bound⟩ := told.turns taken
      exact ⟨told, by simp only [List.length_nil, Nat.zero_add]; omega⟩

/-- A link that is being opened, before anybody has done anything. -/
theorem unread_greeting {peer : Peer} {wire : List UInt8} (offer : Offer wire early answer outcome)
    (lives : peer.alive = true) (child : Nat) (processId : Json) (workspace : Path) :
    Unread child (early.countP isNotice) answer (greeting child peer wire processId workspace)
      early where
  carries := offer.carries
  precede := offer.precede
  lives := lives
  working := ⟨rfl, rfl, fun _ mem => absurd mem List.not_mem_nil, Nat.zero_le _, Nat.zero_le _⟩
  reads := rfl
  count := by
    show 0 + 0 + _ = _
    omega
  errand := rfl
  call := ⟨initializeParams processId workspace, .begun, rfl, .begun, rfl⟩

/-- **A link is opened if the inbox has room for the early notifications**, and with one more it
never is. -/
theorem opening_of_offer {peer : Peer} {wire : List UInt8}
    (offer : Offer wire early answer outcome) (lives : peer.alive = true) (child : Nat)
    (processId : Json) (workspace : Path) :
    Opening (greeting child peer wire processId workspace) child early.length
      (early.countP isNotice) outcome := by
  have start := unread_greeting offer lives child processId workspace
  have ahead : (greeting child peer wire processId workspace).ahead (early.length + 1) =
      4 * early.length + 25 := by
    show 4 * (early.length + 1) + 2 + 0 + 3 * 5 + 4 = _
    omega
  generalize greeting child peer wire processId workspace = opening at start ahead
  have reached {moves : List (Nat × Party)} {s : Session} (taken : opening.turns moves = some s)
      (more : s.wire ≠ []) : ∃ early', Unread child (early.countP isNotice) answer s early' ∧
        s.ahead (early'.length + 1) + moves.length ≤ 4 * early.length + 25 := by
    rcases start.turns offer.answers taken with ⟨early', unread, bound⟩ | ⟨nothing, -⟩
    · exact ⟨early', unread, ahead ▸ bound⟩
    · exact absurd nothing more
  constructor
  case goesOn =>
    intro room moves s taken more
    obtain ⟨early', unread, -⟩ := reached taken more
    exact unread.goesOn room
  case brief =>
    intro moves s taken more
    obtain ⟨early', -, bound⟩ := reached taken more
    omega
  case concludes =>
    intro moves s more s' taken unread listed taken'
    obtain ⟨early', unread, bound⟩ := reached taken unread
    rcases unread.turns offer.answers taken' with ⟨early'', unread', bound'⟩ | ⟨-, -, told⟩
    · refine ⟨by omega, fun room stuck => ?_⟩
      obtain ⟨party, goes⟩ := unread'.goesOn room
      have waits := goes 0
      rw [stuck 0 party] at waits
      cases waits
    · obtain ⟨told, bound'⟩ := told listed
      exact ⟨by omega, fun _ stuck => told.concluded stuck⟩
  case jams =>
    intro many moves s taken
    rcases start.turns offer.answers taken with ⟨early', unread, -⟩ | ⟨-, room, -⟩
    · refine ⟨?_, unread.jammed⟩
      obtain ⟨frame, rest, split⟩ := List.exists_cons_of_ne_nil
        (List.append_ne_nil_of_right_ne_nil early' (List.cons_ne_nil answer []))
      have carries := unread.carries
      rw [split] at carries
      exact carries.ne_nil
    · exact absurd many (Nat.not_lt.2 room)

section Crowd

/-- A notification. -/
def notice : Json :=
  .obj [("jsonrpc", .str version), ("method", .str "n")]

/-- An answer to the first call. -/
def welcoming : Json :=
  .obj [("id", .int 1), ("jsonrpc", .str version), ("result", .obj [])]

/-- A link that is being opened to a process that has written so many notifications and then its
answer. -/
def crowded (notices : Nat) : Session :=
  greeting 7 .fresh ((List.replicate notices notice ++ [welcoming]).flatMap encode) .null
    (.ofString "/a")

theorem writable_notice : notice.Writable := by
  refine .obj (by decide) fun m mem => ?_
  rcases List.mem_pair.1 mem with rfl | rfl <;> exact .str _

theorem writable_welcoming : welcoming.Writable := by
  refine .obj (by decide) fun m mem => ?_
  simp only [List.mem_cons, List.not_mem_nil, or_false] at mem
  rcases mem with rfl | rfl | rfl
  · exact .int (by decide) (by decide)
  · exact .str _
  · exact .obj .nil nofun

theorem offer_of_crowd (notices : Nat) :
    Offer ((List.replicate notices notice ++ [welcoming]).flatMap encode)
      (List.replicate notices notice) welcoming (.ok (.obj [])) := by
  have either {v : Json} (mem : v ∈ List.replicate notices notice ++ [welcoming]) :
      v = notice ∨ v = welcoming := by
    rcases List.mem_append.1 mem with mem | mem
    · exact .inl (List.mem_replicate.1 mem).2
    · exact .inr (List.mem_singleton.1 mem)
  refine ⟨carries_encode (fun v mem => ?_) (fun v mem => ?_), fun frame mem o => ?_, rfl⟩
  · rcases either mem with rfl | rfl
    · exact Json.read_encode writable_notice (by decide)
    · exact Json.read_encode writable_welcoming (by decide)
  · rcases either mem with rfl | rfl <;> decide +kernel
  · rw [(List.mem_replicate.1 mem).2]
    exact nofun

/-- There is room for 256 notifications, and for no more. -/
theorem opening_of_crowd :
    (∀ moves s, (crowded 256).turns moves = some s → s.wire ≠ [] →
        ∃ party, ∀ now, (s.turn now party).isSome = true) ∧
      ∀ moves s, (crowded 257).turns moves = some s → s.wire ≠ [] ∧ (s.Stuck → s.Jammed) := by
  have count (notices : Nat) : (List.replicate notices notice).countP isNotice = notices := by
    have notices_only : isNotice notice = true := rfl
    rw [List.countP_replicate, if_pos notices_only]
  constructor
  · refine (opening_of_offer (offer_of_crowd 256) rfl 7 .null (.ofString "/a")).goesOn ?_
    rw [count]
    decide
  · refine (opening_of_offer (offer_of_crowd 257) rfl 7 .null (.ofString "/a")).jams ?_
    rw [count]
    decide

end Crowd

end Supervision.Session
