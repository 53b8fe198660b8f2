import Supervision.Proofs.Link.Routing
import Supervision.Proofs.Session.Handshake

/-!
# Which group a forced stop is aimed at

A forced stop is aimed at the group that goes by the number of the worker's process, or by the
number that the worker named in its answer to the first call. That number is followed here from the
answer to the stop, through any course of a session: whoever opens the link, asks, tells, closes and
gives up, the writer, the reader, the process and its limits, in any order and at any moments.

A number out of the range of group numbers is never aimed at. Within it whatever the worker names is
taken as it is (`aimed_of_course`): every worker that answers with 0 or 1 turns the stop on the
group of whoever asks for it, or on every process there is, and no worker does so otherwise, unless
its own process went by such a number. What such a stop does to those it was not meant for is not
modelled.
-/

namespace Supervision

open Message

/-! ## Links -/

namespace Link

/-- What an errand does to a link is steps of the link. -/
theorem run_of_step {l l' : Link} {s : Step} (taken : l.step s = some l') :
    l.run [s] = some l' := by
  rw [run, taken]
  rfl

theorem run_of_nextOf {l l' : Link} {c : CallId} (taken : l.nextOf c = some l') :
    ∃ steps, l.run steps = some l' := by
  unfold nextOf at taken
  split at taken
  case h_7 => cases taken
  all_goals exact ⟨_, run_of_step taken⟩

theorem run_of_post? {l l' : Link} {order : Order} (taken : l.post? order = some l') :
    ∃ steps, l.run steps = some l' :=
  ⟨[.post order], run_of_step taken⟩

/-- Taking all notifications is taking one after the other. -/
theorem run_fetches (l : Link) :
    l.run (List.replicate l.inbox.length .fetch) = some { l with inbox := [] } := by
  generalize inbox : l.inbox = ns
  induction ns generalizing l with
  | nil =>
    have same : l = { l with inbox := [] } := by rw [← inbox]
    rw [List.length_nil, List.replicate_zero, run, ← same]
  | cons n ns ih =>
    rw [List.length_cons, List.replicate_succ, run, step, inbox]
    exact ih { l with inbox := ns } rfl

end Link

/-! ## Errands -/

namespace Errand

variable {l l' : Link} {e e' : Errand} {exited : Bool}

theorem goOn_cases {c : CallId} {again : Errand} {after : Except TransportError Json → Errand}
    (gone : goOn l c again after = some (l', e')) :
    (∃ r, l.result? c = some r ∧ l' = l ∧ e' = after r) ∨ l.nextOf c = some l' ∧ e' = again := by
  unfold goOn at gone
  split at gone
  next r result =>
    cases gone
    exact .inl ⟨r, result, rfl, rfl⟩
  next =>
    obtain ⟨next, taken, same⟩ := Option.map_eq_some_iff.1 gone
    cases same
    exact .inr ⟨taken, rfl⟩

theorem run_of_goOn {c : CallId} {again : Errand} {after : Except TransportError Json → Errand}
    (gone : goOn l c again after = some (l', e')) : ∃ steps, l.run steps = some l' := by
  rcases goOn_cases gone with ⟨r, -, rfl, -⟩ | ⟨taken, -⟩
  · exact ⟨[], rfl⟩
  · exact Link.run_of_nextOf taken

/-- An errand goes on by steps of the link. -/
theorem run_of_advance (advanced : e.advance exited l = some (l', e')) :
    ∃ steps, l.run steps = some l' := by
  have posted {order : Link.Order} {e₀ : Errand}
      (taken : (l.post? order).map (·, e₀) = some (l', e')) : ∃ steps, l.run steps = some l' := by
    obtain ⟨next, post, same⟩ := Option.map_eq_some_iff.1 taken
    cases same
    exact Link.run_of_post? post
  cases e with
  | ask c | greet child c | retire c => exact run_of_goOn advanced
  | tell frame | welcome pid =>
    simp only [advance] at advanced
    split at advanced
    · cases advanced
      exact ⟨[], rfl⟩
    · exact posted advanced
  | farewell | hangUp => exact posted advanced
  | linger =>
    simp only [advance] at advanced
    split at advanced
    · cases advanced
      exact ⟨[], rfl⟩
    · cases advanced
  | done r | dropped => cases advanced

/-- The errand is not one that opens a link. -/
def isPlain : Errand → Bool
  | .greet _ _ | .welcome _ | .done (.opened _) => false
  | _ => true

theorem isPlain_advance (plain : e.isPlain = true) (advanced : e.advance exited l = some (l', e')) :
    e'.isPlain = true := by
  cases e with
  | ask c =>
    rcases goOn_cases advanced with ⟨r, -, -, rfl⟩ | ⟨-, rfl⟩ <;> rfl
  | retire c =>
    rcases goOn_cases advanced with ⟨r, -, -, rfl⟩ | ⟨-, rfl⟩
    · cases r <;> rfl
    · rfl
  | tell frame =>
    simp only [advance] at advanced
    split at advanced
    · cases advanced
      rfl
    · obtain ⟨_, _, same⟩ := Option.map_eq_some_iff.1 advanced
      cases same
      rfl
  | farewell | hangUp =>
    obtain ⟨_, _, same⟩ := Option.map_eq_some_iff.1 advanced
    cases same
    rfl
  | linger =>
    simp only [advance] at advanced
    split at advanced <;> cases advanced
    rfl
  | greet child c | welcome pid => cases plain
  | done r | dropped => cases advanced

end Errand

/-! ## Courses of a session -/

namespace Session

open Supervision.Frame (Carries carries_cons carries_encode encode)

/-- One thing that happens to a session: a party goes on, or a user does something. -/
inductive Goes (s : Session) : Session → Prop
  /-- An errand goes on, the first from a given one that can. -/
  | errand {now : Nat} {i : ErrandId} {s' : Session}
    (taken : s.advanceFrom now i (s.errands.drop i) = some s') : Goes s s'
  | write {s' : Session} (taken : s.write = some s') : Goes s s'
  | act {now : Nat} {s' : Session} (taken : s.act now = some s') : Goes s s'
  | read {s' : Session} (taken : s.read = some s') : Goes s s'
  | expire {now : Nat} {s' : Session} (taken : s.expire now = some s') : Goes s s'
  | ask (method : String) (params : Option Json) (limit : Option Nat) :
    Goes s (s.ask method params limit).2
  | tell (method : String) (params : Option Json) : Goes s (s.tell method params).2
  | close : Goes s s.close.2
  | giveUp (e : ErrandId) : Goes s (s.giveUp e)
  | takeAll : Goes s s.takeAll.2
  | takeOne {n : Notification} {s' : Session} (taken : s.takeOne = some (n, s')) : Goes s s'
  | deafen {link : Link} (taken : s.link.step .deafen = some link) : Goes s { s with link := link }
  | killGroup (pid : Nat) : Goes s (s.killGroup pid).2

/-- What happens to a session, one after the other. -/
inductive Course (first : Session) : Session → Prop
  | nothing : Course first first
  | next {s s' : Session} (course : Course first s) (goes : Goes s s') : Course first s'

/-- The group that a forced stop of a session is aimed at, if its number is one of a group. -/
def aim? (s : Session) : Option Nat :=
  Group.ofPid? s.pid

/-- What has become of opening a link to a process, and the number that the worker goes by. -/
inductive Opens (child : Nat) (l : Link) : Nat → Errand → Prop
  | greets : Opens child l child (.greet child 0)
  | answered {v : Json} (result : l.result? 0 = some (.ok v)) :
    Opens child l child (.welcome (Group.pidAfter child v))
  | opened {v : Json} (result : l.result? 0 = some (.ok v)) :
    Opens child l (Group.pidAfter child v) (.done (.opened (.ok (Group.pidAfter child v))))
  | failed (causes : List String) : Opens child l child (.done (.opened (.error causes)))
  | dropped : Opens child l child .dropped

/-- A session at any moment after its link began to be opened: nobody but the first errand opens
it. -/
structure Led (child : Nat) (s : Session) : Prop where
  history : ∃ past, Link.History past s.link
  errands : ∃ e others, s.errands = e :: others ∧ Opens child s.link s.pid e ∧
    ∀ other ∈ others, other.isPlain = true

variable {child pid : Nat} {s s' : Session} {e e' : Errand} {l l' : Link}

/-! ## One step -/

/-- What has become of the opening outlives all that the link does. -/
theorem Opens.run {steps : List Link.Step} (opens : Opens child l pid e)
    (run : l.run steps = some l') : Opens child l' pid e := by
  cases opens with
  | greets => exact .greets
  | answered result => exact .answered (Link.result?_run run result)
  | opened result => exact .opened (Link.result?_run run result)
  | failed causes => exact .failed causes
  | dropped => exact .dropped

/-- The number that an errand gives to the worker. -/
def named? : Errand → Option Nat
  | .done (.opened (.ok pid)) => some pid
  | _ => none

theorem named?_of_isPlain (plain : e.isPlain = true) : named? e = none := by
  unfold named?
  split
  · cases plain
  · rfl

/-- The opening goes on. -/
theorem Opens.advance {exited : Bool} (opens : Opens child l pid e)
    (advanced : e.advance exited l = some (l', e')) :
    Opens child l' ((named? e').getD pid) e' := by
  obtain ⟨steps, run⟩ := Errand.run_of_advance advanced
  cases opens with
  | greets =>
    rcases Errand.goOn_cases advanced with ⟨r, result, rfl, rfl⟩ | ⟨-, rfl⟩
    · cases r with
      | ok v => exact .answered result
      | error why => exact .failed _
    · exact .greets
  | answered result =>
    simp only [Errand.advance] at advanced
    split at advanced
    · cases advanced
      exact .failed _
    · obtain ⟨_, _, same⟩ := Option.map_eq_some_iff.1 advanced
      cases same
      exact .opened (Link.result?_run run result)
  | opened | failed | dropped => cases advanced

/-- Of the errands one goes on, and it may name the worker. -/
theorem advanceFrom_cases {now i : Nat} {errands : List Errand}
    (taken : s.advanceFrom now i errands = some s') :
    ∃ k e l e' deadlines, errands[k]? = some e ∧ e.advance (!s.peer.alive) s.link = some (l, e') ∧
      s' = { s with
        link := l, errands := s.errands.set (i + k) e', pid := (named? e').getD s.pid,
        deadlines := deadlines } := by
  induction errands generalizing i with
  | nil => cases taken
  | cons e errands ih =>
    simp only [advanceFrom] at taken
    split at taken
    next l e' advanced =>
      split at taken
      next pid =>
        obtain ⟨deadlines, watched⟩ := watch_eq
          { s with link := l, errands := s.errands.set i (.done (.opened (.ok pid))), pid := pid }
          now (.done (.opened (.ok pid)))
        rw [watched] at taken
        exact ⟨0, e, l, _, deadlines, rfl, advanced, (Option.some.inj taken).symm⟩
      next unnamed =>
        obtain ⟨deadlines, watched⟩ := watch_eq
          { s with link := l, errands := s.errands.set i e' } now e'
        rw [watched] at taken
        refine ⟨0, e, l, e', deadlines, rfl, advanced, (Option.some.inj taken).symm.trans ?_⟩
        have none : named? e' = none := by
          unfold named?
          split
          · exact absurd rfl (unnamed _)
          · rfl
        rw [none]
        rfl
    next =>
      obtain ⟨k, other, l, e', deadlines, found, advanced, same⟩ := ih taken
      refine ⟨k + 1, other, l, e', deadlines, found, advanced, ?_⟩
      rw [same, Nat.add_right_comm, Nat.add_assoc]

theorem Led.of_run (led : Led child s) (steps : List Link.Step)
    (run : s.link.run steps = some s'.link) (errands : s'.errands = s.errands)
    (pid : s'.pid = s.pid) : Led child s' := by
  obtain ⟨⟨past, history⟩, e, others, known, opens, plain⟩ := led
  refine ⟨⟨_, Link.history_of_run history run⟩, e, others, errands.trans known, ?_, plain⟩
  rw [pid]
  exact opens.run run

theorem Led.of_step {step : Link.Step} (led : Led child s)
    (taken : s.link.step step = some s'.link) (errands : s'.errands = s.errands)
    (pid : s'.pid = s.pid) : Led child s' :=
  led.of_run [step] (Link.run_of_step taken) errands pid

theorem Led.of_same (led : Led child s) (link : s'.link = s.link) (errands : s'.errands = s.errands)
    (pid : s'.pid = s.pid) : Led child s' :=
  led.of_run [] (by rw [link]; rfl) errands pid

/-- An errand is begun that opens nothing. -/
theorem Led.add (led : Led child s) (steps : List Link.Step) (run : s.link.run steps = some l')
    (plain : e.isPlain = true) : Led child (s.add l' e).2 := by
  obtain ⟨⟨past, history⟩, first, others, known, opens, plains⟩ := led
  refine ⟨⟨_, Link.history_of_run history run⟩, first, others ++ [e], ?_, opens.run run, ?_⟩
  · rw [Session.add, known]
    rfl
  · intro other mem
    rcases List.mem_append.1 mem with mem | mem
    · exact plains other mem
    · rw [List.mem_singleton.1 mem]
      exact plain

/-- An errand turns into another: the first goes on opening, or another stays what it is. -/
theorem Led.set {steps : List Link.Step} {k : Nat} (led : Led child s)
    (run : s.link.run steps = some s'.link) (found : s.errands[k]? = some e)
    (errands : s'.errands = s.errands.set k e')
    (opening : Opens child s.link s.pid e → Opens child s'.link s'.pid e')
    (other : e.isPlain = true → e'.isPlain = true ∧ s'.pid = s.pid) : Led child s' := by
  obtain ⟨⟨past, history⟩, first, others, known, opens, plains⟩ := led
  refine ⟨⟨_, Link.history_of_run history run⟩, ?_⟩
  rw [known] at found errands
  cases k with
  | zero =>
    cases found
    exact ⟨e', others, errands, opening opens, plains⟩
  | succ k =>
    rw [List.getElem?_cons_succ] at found
    obtain ⟨plain, same⟩ := other (plains e (List.mem_of_getElem? found))
    refine ⟨first, others.set k e', errands, by rw [same]; exact opens.run run, fun e₁ mem => ?_⟩
    rcases List.mem_or_eq_of_mem_set mem with mem | rfl
    · exact plains e₁ mem
    · exact plain

/-- An errand that is given up gives up its call. -/
theorem run_of_drop (l : Link) (e : Errand) : ∃ steps, l.run steps = some (e.drop l).1 := by
  unfold Errand.drop
  split
  · exact ⟨[], rfl⟩
  · split
    next taken =>
      obtain ⟨c, -, taken⟩ := Option.bind_eq_some_iff.1 taken
      exact ⟨_, Link.run_of_step taken⟩
    next => exact ⟨[], rfl⟩

/-- An errand that is not done has nothing more to tell once it is given up. -/
theorem drop_eq (l : Link) (e : Errand) :
    (e.drop l).2 = .dropped ∧ (∀ r, e ≠ .done r) ∨ ∃ r, e = .done r := by
  unfold Errand.drop
  split
  next r => exact .inr ⟨r, rfl⟩
  next going =>
    refine .inl ⟨?_, going⟩
    split <;> rfl

/-- **Whatever happens to a session, its number is the one that the first call brought.** -/
theorem Goes.led (goes : Goes s s') (led : Led child s) : Led child s' := by
  cases goes with
  | @errand now i _ taken =>
    obtain ⟨k, e, l, e', deadlines, found, advanced, rfl⟩ := advanceFrom_cases taken
    obtain ⟨steps, run⟩ := Errand.run_of_advance advanced
    rw [List.getElem?_drop] at found
    refine led.set run found rfl (fun opens => opens.advance advanced) fun plain => ?_
    have plain' := Errand.isPlain_advance plain advanced
    refine ⟨plain', ?_⟩
    show (named? e').getD s.pid = s.pid
    rw [named?_of_isPlain plain']
    rfl
  | write taken =>
    unfold Session.write at taken
    split at taken
    · obtain ⟨l, step, rfl⟩ := Option.map_eq_some_iff.1 taken
      exact led.of_step step rfl rfl
    · split at taken
      all_goals
        obtain ⟨l, step, rfl⟩ := Option.map_eq_some_iff.1 taken
        exact led.of_step step rfl rfl
    · split at taken <;> cases taken
      exact led.of_same rfl rfl rfl
  | act taken =>
    obtain ⟨-, -, rfl⟩ := Option.map_eq_some_iff.1 taken
    exact led.of_same rfl rfl rfl
  | read taken =>
    unfold Session.read at taken
    split at taken
    case h_1 =>
      obtain ⟨⟨step, rest⟩, -, taken⟩ := Option.bind_eq_some_iff.1 taken
      obtain ⟨l, step, rfl⟩ := Option.map_eq_some_iff.1 taken
      exact led.of_step step rfl rfl
    case h_5 => cases taken
    all_goals
      obtain ⟨l, step, rfl⟩ := Option.map_eq_some_iff.1 taken
      exact led.of_step step rfl rfl
  | expire taken =>
    unfold Session.expire at taken
    split at taken
    · dsimp only at taken
      split at taken <;> cases taken
      next l step => exact led.of_step step rfl rfl
      next => exact led.of_same rfl rfl rfl
    · cases taken
  | ask method params limit =>
    exact led.add [.begin method params limit] rfl rfl
  | tell method params => exact led.add [] rfl rfl
  | close =>
    exact led.add [.begin Errand.closingMethod none (some Errand.handshakeLimit)] rfl rfl
  | giveUp k =>
    unfold Session.giveUp
    split
    next e found =>
      obtain ⟨steps, run⟩ := run_of_drop s.link e
      rcases drop_eq s.link e with ⟨dropped, going⟩ | ⟨r, rfl⟩
      · refine led.set run found rfl (fun opens => ?_) fun _ => ⟨by rw [dropped]; rfl, rfl⟩
        rw [dropped]
        -- An opening that is not over has left the number as it was.
        show Opens child _ s.pid .dropped
        generalize s.pid = pid at opens
        cases opens with
        | greets | answered | dropped => exact .dropped
        | opened | failed => exact absurd rfl (going _)
      · exact led.set run found rfl (fun opens => opens.run run) fun plain => ⟨plain, rfl⟩
    next => exact led
  | takeAll => exact led.of_run _ (Link.run_fetches s.link) rfl rfl
  | takeOne taken =>
    unfold Session.takeOne at taken
    split at taken
    · obtain ⟨l, step, same⟩ := Option.map_eq_some_iff.1 taken
      cases same
      exact led.of_step step rfl rfl
    · cases taken
  | deafen taken => exact led.of_step taken rfl rfl
  | killGroup pid =>
    unfold Session.killGroup
    split <;> exact led.of_same rfl rfl rfl

/-! ## Any course -/

variable {peer : Peer} {wire : List UInt8} {processId : Json} {workspace : Path}

theorem led_greeting (child : Nat) (peer : Peer) (wire : List UInt8) (processId : Json)
    (workspace : Path) : Led child (greeting child peer wire processId workspace) :=
  ⟨⟨_, .next .start (s := .begin Errand.openingMethod
    (some (initializeParams processId workspace)) (some Errand.handshakeLimit)) rfl⟩,
    _, [], rfl, .greets, fun _ mem => absurd mem List.not_mem_nil⟩

theorem Course.led {first : Session} (course : Course first s) (led : Led child first) :
    Led child s := by
  induction course with
  | nothing => exact led
  | next _ goes ih => exact goes.led ih

theorem Course.trans {first : Session} (course : Course first s) (more : Course s s') :
    Course first s' := by
  induction more with
  | nothing => exact course
  | next _ goes ih => exact ih.next goes

/-- The parties of an opening are among those of a session. -/
theorem Course.of_turns {moves : List (Nat × Party)} (taken : s.turns moves = some s') :
    Course s s' := by
  induction moves generalizing s with
  | nil =>
    cases taken
    exact .nothing
  | cons move moves ih =>
    obtain ⟨now, party⟩ := move
    obtain ⟨next, first, taken⟩ := Option.bind_eq_some_iff.1 taken
    have goes : Goes s next := by
      cases party with
      | opener => exact .errand (i := 0) first
      | writer => exact .write first
      | reader => exact .read first
    exact (Course.nothing.next goes).trans (ih taken)

/-! ## The number that is named -/

/-- The link of a session was opened. -/
def IsOpen (s : Session) : Prop :=
  ∃ pid, s.errands[0]? = some (.done (.opened (.ok pid)))

/-- What a worker names: the natural number that is the member `pid` of its result. -/
def names? (result : Json) : Option Nat :=
  (result.get? "pid").bind Json.nat?

/-- At what group a result of the first call aims a forced stop. -/
structure Aims (child : Nat) (result : Json) (aim : Option Nat) : Prop where
  /-- A number that is named is aimed at as it is, -/
  taken : ∀ n, names? result = some n → n < Number.twoTo 31 → aim = some n
  /-- or nothing is, if it is a process number and no group can have it. -/
  beyond : ∀ n, names? result = some n → Number.twoTo 31 ≤ n → n < Number.twoTo 32 → aim = none
  /-- Without a process number it is the group of the process. -/
  silent : (∀ n, names? result = some n → Number.twoTo 32 ≤ n) → aim = Group.ofPid? child
  /-- The groups that are no worker's are aimed at exactly if they are named. -/
  foreign : 2 ≤ child → ((∃ g < 2, aim = some g) ↔ ∃ n < 2, names? result = some n)

/-- At what group a forced stop is aimed. -/
structure Aimed (child : Nat) (s : Session) : Prop where
  /-- The stop ends that group if it runs, and no other. -/
  hits : ∀ running, Group.kill running s.pid = .killed ↔ ∃ g, s.aim? = some g ∧ running g = true
  /-- It is in the range of group numbers. -/
  range : ∀ g, s.aim? = some g → g < Number.twoTo 31
  /-- Until the link is open it is the group of the process. -/
  own : ¬s.IsOpen → s.aim? = Group.ofPid? child
  /-- Then it is what the first answer to the first call says. -/
  named : s.IsOpen → ∃ past result, Link.History past s.link ∧ Link.CameFrom past 0 (.ok result) ∧
    Aims child result s.aim?

theorem ofPid?_eq_some {pid g : Nat} :
    Group.ofPid? pid = some g ↔ pid = g ∧ g < Number.twoTo 31 := by
  unfold Group.ofPid?
  by_cases small : pid < Number.twoTo 31
  · rw [if_pos small, Option.some.injEq]
    exact ⟨fun same => ⟨same, same ▸ small⟩, fun same => same.1⟩
  · rw [if_neg small]
    exact ⟨nofun, fun same => absurd (same.1 ▸ same.2) small⟩

theorem pidAfter_of_names {v : Json} {n : Nat} (named : names? v = some n) :
    Group.pidAfter child v = if n < Number.twoTo 32 then n else child := by
  unfold names? at named
  unfold Group.pidAfter reportedPid?
  rw [named]
  dsimp only
  split <;> rfl

theorem pidAfter_of_silent {v : Json} (silent : ∀ n, names? v = some n → Number.twoTo 32 ≤ n) :
    Group.pidAfter child v = child := by
  cases named : names? v with
  | none =>
    unfold names? at named
    unfold Group.pidAfter reportedPid?
    rw [named]
    rfl
  | some n => rw [pidAfter_of_names named, if_neg (Nat.not_lt.2 (silent n named))]

theorem aims_of_result (child : Nat) (v : Json) :
    Aims child v (Group.ofPid? (Group.pidAfter child v)) := by
  have bounds : Number.twoTo 31 < Number.twoTo 32 := by decide
  have few : 2 < Number.twoTo 31 := by decide
  have taken : ∀ n, names? v = some n → n < Number.twoTo 31 →
      Group.ofPid? (Group.pidAfter child v) = some n := by
    intro n named small
    rw [pidAfter_of_names named, if_pos (Nat.lt_trans small bounds)]
    exact ofPid?_eq_some.2 ⟨rfl, small⟩
  refine ⟨taken, fun n named large fits => ?_, fun silent => ?_, fun own => ⟨?_, ?_⟩⟩
  · rw [pidAfter_of_names named, if_pos fits, Group.ofPid?, if_neg (Nat.not_lt.2 large)]
  · rw [pidAfter_of_silent silent]
  · rintro ⟨g, low, aimed⟩
    obtain ⟨same, -⟩ := ofPid?_eq_some.1 aimed
    by_cases silent : ∀ n, names? v = some n → Number.twoTo 32 ≤ n
    · rw [pidAfter_of_silent silent] at same
      omega
    · push Not at silent
      obtain ⟨n, named, fits⟩ := silent
      rw [pidAfter_of_names named, if_pos fits] at same
      exact ⟨n, same ▸ low, named⟩
  · rintro ⟨n, low, named⟩
    exact ⟨n, low, taken n named (Nat.lt_trans low few)⟩

theorem Led.aimed (led : Led child s) : Aimed child s := by
  refine ⟨fun running => ?_, fun g aimed => (ofPid?_eq_some.1 aimed).2, fun closed => ?_,
    fun isOpen => ?_⟩
  · unfold Group.kill aim?
    cases Group.ofPid? s.pid with
    | none => simp
    | some g => by_cases runs : running g = true <;> simp [runs]
  · obtain ⟨-, e, others, known, opens, -⟩ := led
    unfold aim?
    generalize s.pid = pid at opens
    cases opens with
    | greets | answered | failed | dropped => rfl
    | @opened v _ =>
      refine absurd ⟨Group.pidAfter child v, ?_⟩ closed
      rw [known]
      rfl
  · obtain ⟨⟨past, history⟩, e, others, known, opens, -⟩ := led
    obtain ⟨pid, opened⟩ := isOpen
    rw [known] at opened
    cases opened
    unfold aim?
    generalize s.pid = number at opens
    cases opens with
    | @opened v result =>
      exact ⟨past, v, history, (Link.routed_of_history history).first 0 _ result rfl,
        aims_of_result child v⟩

/-- A worker that answers at once is taken by the number that it names. -/
theorem course_of_offer {v answer : Json} (offer : Offer wire [] answer (.ok v)) (child : Nat)
    (peer : Peer) (processId : Json) (workspace : Path) :
    ∃ s, Course (greeting child peer wire processId workspace) s ∧ s.IsOpen ∧
      Aims child v s.aim? := by
  obtain ⟨rest, arrives, -⟩ := carries_cons.1 offer.carries
  -- The call comes to wait, the answer is read, and the opening takes it from there.
  obtain ⟨s₁, asked, wires, reading, room⟩ : ∃ s,
      (greeting child peer wire processId workspace).turns
        [(0, .opener), (0, .opener), (0, .opener)] = some s ∧ s.wire = wire ∧
      s.link.reader = .reading ∧ ∃ s', { s with link := s.link.route 1 (.ok v), wire := rest }.turns
        [(0, .opener), (0, .opener), (0, .opener)] = some s' ∧
      s'.errands = [.done (.opened (.ok (Group.pidAfter child v)))] ∧
      s'.pid = Group.pidAfter child v :=
    ⟨_, rfl, rfl, rfl, _, rfl, rfl, rfl⟩
  obtain ⟨s₃, opened, errands, named⟩ := room
  have read : s₁.read = some { s₁ with link := s₁.link.route 1 (.ok v), wire := rest } := by
    simp only [Session.read, reading, readStep?, wires, arrives, Option.bind_some, Link.step,
      Link.dispatch, offer.answers, Option.map_some]
  refine ⟨s₃, ((Course.of_turns asked).next (.read read)).trans (.of_turns opened),
    ⟨Group.pidAfter child v, ?_⟩, ?_⟩
  · rw [errands]
    rfl
  · unfold aim?
    rw [named]
    exact aims_of_result child v

/-- **A forced stop is aimed where the worker says.** In every course of a session the group is the
one that the answer to the first call names, whatever process this was and whoever answered; and
every answer there is can be the one. -/
theorem aimed_of_course (child : Nat) (peer : Peer) (wire : List UInt8) (processId : Json)
    (workspace : Path) :
    (∀ s, Course (greeting child peer wire processId workspace) s → Aimed child s) ∧
      ∀ answer v, Offer wire [] answer (.ok v) →
        ∃ s, Course (greeting child peer wire processId workspace) s ∧ s.IsOpen ∧
          Aims child v s.aim? :=
  ⟨fun _ course => (course.led (led_greeting child peer wire processId workspace)).aimed,
    fun _ _ offer => course_of_offer offer child peer processId workspace⟩

section OwnGroup

/-- An answer that names the group of whoever reads it. -/
def misleading : Json :=
  .obj [("id", .int 1), ("jsonrpc", .str version), ("result", .obj [("pid", .int 0)])]

theorem writable_misleading : misleading.Writable := by
  refine .obj (by decide) fun m mem => ?_
  simp only [List.mem_cons, List.not_mem_nil, or_false] at mem
  rcases mem with rfl | rfl | rfl
  · exact .int (by decide) (by decide)
  · exact .str _
  · refine .obj (by decide) fun m mem => ?_
    rw [List.mem_singleton.1 mem]
    exact .int (by decide) (by decide)

theorem offer_misleading :
    Offer (encode misleading) [] misleading (.ok (.obj [("pid", .int 0)])) := by
  have read := Json.read_encode writable_misleading (by decide)
  have carries : Carries ([misleading].flatMap encode) [misleading] :=
    carries_encode (fun v mem => List.mem_singleton.1 mem ▸ read)
      fun v mem => List.mem_singleton.1 mem ▸ (by decide +kernel)
  rw [List.flatMap_singleton] at carries
  exact ⟨carries, nofun, rfl⟩

/-- A worker whose process is the group 7 turns the stop on the group 0. -/
theorem aimed_of_misleading :
    ∃ s, Course (greeting 7 .fresh (encode misleading) .null (.ofString "/a")) s ∧
      s.aim? = some 0 ∧ Aimed 7 s := by
  obtain ⟨aimed, reached⟩ :=
    aimed_of_course 7 .fresh (encode misleading) .null (.ofString "/a")
  obtain ⟨s, course, -, aims⟩ := reached misleading _ offer_misleading
  exact ⟨s, course, aims.taken 0 rfl (by decide), aimed s course⟩

end OwnGroup

end Session

end Supervision
