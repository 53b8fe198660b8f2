import Supervision.Proofs.Watcher.Course
import Mathlib.Data.List.Chain

/-!
# What is told of the daemon

Whether the daemon is listened to is decided under the lock and told after it: a watcher that comes
to listen shall tell so, one that no longer listens shall tell that, and so shall one whose
registration failed while it was waited for. `Event` names what is decided, what is told and what is
given up; the laws compare what was told with what was decided.

In every run each flag is told that was decided, once, and the one decided last is whether the
daemon is listened to (`reported_of_run`). Flags of two tasks may be told in another order than they
were decided in, and then the one told last is wrong for good (`wrong_of_silent_and_overtaken`). If
turns are taken to their ends this cannot be, and events follow each other as in a ledger
(`accounted_of_turns`).
-/

namespace Supervision.Watcher

/-! ## Events -/

/-- What concerns the subscription to the daemon. -/
inductive Event
  /-- The watcher came to listen; the right it keeps. -/
  | gained (right : Option HandleId)
  /-- The watcher no longer listens; the right it kept. -/
  | lost (right : Option HandleId)
  /-- The registration that was waited for failed. -/
  | failed
  | gaveUp (h : HandleId)
  | told (flag : Bool)
  deriving DecidableEq

/-- The flag that an event decides. -/
def Event.flag? : Event → Option Bool
  | .gained _ => some true
  | .lost _ | .failed => some false
  | _ => none

def Event.told? : Event → Option Bool
  | .told flag => some flag
  | _ => none

/-- What a task is about to make happen. -/
def Instr.due? : Instr → Option Event
  | .unregister h => some (.gaveUp h)
  | .tell flag => some (.told flag)
  | _ => none

/-- True of an instruction that takes note of the end of a registration. -/
def Instr.notes : Instr → Bool
  | .registered .. => true
  | _ => false

/-- What becomes of the subscription when a machine changes. `noted` says whether the end of a
registration was taken note of. -/
def Machine.event? (m r : Machine) (noted : Bool) : Option Event :=
  if m.state = .listening then
    if r.state = .listening then none else some (.lost m.unregister)
  else if r.state = .listening then some (.gained r.unregister)
  else if noted = true ∧ m.state = .starting ∧ r.state = .idle then some .failed
  else none

/-- The events of a move, the latest first. -/
def System.events (s : System) : Move → List Event
  | .did t i a =>
    i.due?.toList ++ (s.machine.event? (s.after (.did t i a)).machine i.notes).toList
  | _ => []

/-- The events of a history, the latest first. -/
def events (delays : List Nat) (past : List Move) : List Event :=
  chronicle System.events delays past

/-- The flags that were decided, the latest first. -/
def decided (delays : List Nat) (past : List Move) : List Bool :=
  (events delays past).filterMap Event.flag?

/-- The flags that were told, the latest first. -/
def told (delays : List Nat) (past : List Move) : List Bool :=
  (events delays past).filterMap Event.told?

/-- What tasks are about to make happen. -/
def System.due (s : System) : List Event :=
  s.pool.work Instr.due?

/-- The flags that tasks are about to tell. -/
def System.reports (s : System) : List Bool :=
  s.due.filterMap Event.told?

namespace Machine

variable {m r q : Machine} {noted : Bool}

theorem event?_of_state (same : r.state = m.state) : m.event? r noted = none := by
  unfold event?
  rw [same]
  split
  · rfl
  · rw [if_neg]
    rintro ⟨-, starting, idle⟩
    rw [starting] at idle
    cases idle

theorem event?_congr (state : q.state = r.state) (right : q.unregister = r.unregister) :
    m.event? q noted = m.event? r noted := by
  unfold event?
  rw [state, right]

/-- Without an event nobody begins or ceases to listen. -/
theorem listening_of_event?_eq_none (h : m.event? r noted = none) :
    r.state = .listening ↔ m.state = .listening := by
  unfold event? at h
  split at h
  next listening =>
    split at h
    next still => exact ⟨fun _ => listening, fun _ => still⟩
    next => cases h
  next other =>
    split at h
    next => cases h
    next none => exact ⟨fun now => absurd now none, fun was => absurd was other⟩

end Machine

theorem late_due : Late Instr.due? := by
  intro stack rests
  cases rests <;> rfl

theorem due_acts (as : List Action) : (as.map Instr.act).filterMap Instr.due? = [] :=
  List.filterMap_eq_nil_iff.mpr (List.forall_mem_map.mpr fun _ _ => rfl)

theorem due_revokes (parts : List (Subscription Unit)) :
    (parts.map Instr.revoke).filterMap Instr.due? = [] :=
  List.filterMap_eq_nil_iff.mpr (List.forall_mem_map.mpr fun _ _ => rfl)

variable {delays : List Nat} {past : List Move} {s s' r : System} {i : Instr} {a : Answer}
  {before : List Instr} {t : TaskId}

/-- The events of a step. -/
theorem events_did (run : Run delays past s) (step : Moves s (.did t i a) s') :
    events delays (.did t i a :: past) =
      i.due?.toList ++ (s.machine.event? s'.machine i.notes).toList ++ events delays past := by
  rw [events, chronicle_did run, System.events, step.after]
  rfl

/-! ## What a step decides -/

/-- What an instruction makes of the subscription: the machine afterwards, and what the task has to
do instead. -/
inductive Settles (m : Machine) (i : Instr) (r : Machine) (before : List Instr) : Prop
  | quiet (due : before.filterMap Instr.due? = []) (event : m.event? r i.notes = none)
      (right : r.unregister = m.unregister)
  | gained {h : HandleId} (rooted : i.roots = true) (was : m.unregister = none)
      (instrs : before = [.tell true]) (right : r.unregister = some h)
      (event : m.event? r i.notes = some (.gained (some h)))
  | lost {h : HandleId} (plain : i.due? = none) (listening : m.state = .listening)
      (was : m.unregister = some h) (instrs : before = [.unregister h, .tell false])
      (right : r.unregister = none) (event : m.event? r i.notes = some (.lost (some h)))
  | failed (rooted : i.roots = true) (was : m.unregister = none) (instrs : before = [.tell false])
      (right : r.unregister = none) (event : m.event? r i.notes = some .failed)
  /-- A registration that is no longer wanted is given up. -/
  | refused {h : HandleId} (rooted : i.roots = true) (instrs : before = [.unregister h])
      (event : m.event? r i.notes = none) (right : r.unregister = m.unregister)

/-- A machine that listens keeps a right, and what is made of its end is the same for all. -/
theorem Machine.Fair.leaving {m : Machine} (fair : m.Fair) (listening : m.state = .listening) :
    ∃ h, m.unregister = some h ∧
      (m.giveUp ++ m.lost).map System.instrFor = [.unregister h, .tell false] := by
  obtain ⟨h, held⟩ := Option.isSome_iff_exists.mp (fair.mpr listening)
  refine ⟨h, held, ?_⟩
  simp [giveUp, lost, held, listening, System.instrFor]

/-- Nothing is made of the end of a registration that nobody listened to. -/
theorem Machine.Fair.silent {m : Machine} (fair : m.Fair) (other : m.state ≠ .listening) :
    (m.giveUp ++ m.lost).map System.instrFor = [] := by
  simp [giveUp, lost, fair.unregister_eq_none other, other]

theorem Machine.starting_of_isCurrent {m : Machine} {generation : Nat}
    (current : m.isCurrent generation = true) : m.state = .starting := by
  simp only [isCurrent, decide_eq_true_eq] at current
  exact current.2.1

/-- **What a change makes of the subscription.** -/
theorem Makes.settles {c : Change} (h : Makes s i c) (fair : s.machine.Fair) :
    Settles s.machine i c.machine (c.effects.map System.instrFor) := by
  cases h with
  | @begin retried handle =>
    unfold Machine.begin
    split
    next => exact .quiet rfl (Machine.event?_of_state rfl) rfl
    next free =>
      have idle : s.machine.state = .idle := Decidable.not_not.mp (not_or.mp free).2
      exact .quiet rfl (by simp [Machine.event?, idle]) rfl
  | stop =>
    by_cases listening : s.machine.state = .listening
    · obtain ⟨h, held, leaving⟩ := fair.leaving listening
      refine .lost rfl listening held leaving rfl ?_
      simp [Machine.event?, Machine.stop, listening, held]
    · refine .quiet ?_ ?_ (fair.unregister_eq_none listening).symm
      · rw [Machine.stop, fair.silent listening]
        rfl
      · simp [Machine.event?, Machine.stop, listening, Instr.notes]
  | @registered generation result handle =>
    cases result with
    | ok h =>
      simp only [Machine.registered]
      split
      next current =>
        have starting := Machine.starting_of_isCurrent current
        have none := fair.unregister_eq_none (by simp [starting])
        exact .gained rfl none rfl rfl (by simp [Machine.event?, starting])
      next => exact .refused rfl rfl (Machine.event?_of_state rfl) rfl
    | error why =>
      simp only [Machine.registered]
      split
      next current =>
        have starting := Machine.starting_of_isCurrent current
        have none := fair.unregister_eq_none (by simp [starting])
        refine .failed rfl none rfl ?_ ?_
        · rw [Machine.scheduleRetry_machine]
          exact none
        · rw [Machine.scheduleRetry_machine]
          simp [Machine.event?, starting, Instr.notes]
      next => exact .quiet rfl (Machine.event?_of_state rfl) rfl
  | @lose generation why =>
    simp only [Machine.lose]
    split
    next =>
      by_cases listening : s.machine.state = .listening
      · obtain ⟨h, held, leaving⟩ := fair.leaving listening
        refine .lost rfl listening held leaving ?_ ?_
        · rw [Machine.scheduleRetry_machine]
        · rw [Machine.scheduleRetry_machine]
          simp [Machine.event?, listening, held]
      · refine .quiet ?_ ?_ ?_
        · rw [fair.silent listening]
          rfl
        · rw [Machine.scheduleRetry_machine]
          simp [Machine.event?, listening, Instr.notes]
        · rw [Machine.scheduleRetry_machine]
          exact (fair.unregister_eq_none listening).symm
    next => exact .quiet rfl (Machine.event?_of_state rfl) rfl

/-- Who tries again does not matter to the subscription. -/
theorem Settles.congr {m q r : Machine} (h : Settles m i q before) (state : r.state = q.state)
    (right : r.unregister = q.unregister) : Settles m i r before := by
  have same : m.event? r i.notes = m.event? q i.notes := Machine.event?_congr state right
  cases h with
  | quiet due event kept => exact .quiet due (same ▸ event) (right.trans kept)
  | gained rooted was instrs now event =>
    exact .gained rooted was instrs (right.trans now) (same ▸ event)
  | lost plain listening was instrs now event =>
    exact .lost plain listening was instrs (right.trans now) (same ▸ event)
  | failed rooted was instrs now event =>
    exact .failed rooted was instrs (right.trans now) (same ▸ event)
  | refused rooted instrs event kept =>
    exact .refused rooted instrs (same ▸ event) (right.trans kept)

/-- **What an instruction makes of the subscription**, as long as there is a handle. -/
theorem Does.settles (h : Does s i a r before) (fair : s.machine.Fair) (alive : r.handle = true) :
    s.handle = true ∧ Settles s.machine i r.machine before := by
  have quiet {q : Machine} (state : q.state = s.machine.state)
      (right : q.unregister = s.machine.unregister) (due : before.filterMap Instr.due? = []) :
      Settles s.machine i q before :=
    .quiet due (Machine.event?_of_state state) right
  cases h with
  | @made _ c makes =>
    have noticed := s.noticed_apply c
    exact ⟨noticed.handle ▸ alive, (makes.settles fair).congr noticed.state noticed.unregister⟩
  | dropped =>
    have noticed := System.noticed_apply { s with handle := false } s.machine.dropped
    have gone := noticed.handle.symm.trans alive
    cases gone
  | refused handle => rw [handle] at alive; cases alive
  | enrolled parts => exact ⟨alive, quiet rfl rfl (due_revokes parts)⟩
  | used | told | reached => exact ⟨alive, quiet rfl rfl (due_acts _)⟩
  | meanwhile =>
    refine ⟨alive, quiet rfl rfl ?_⟩
    rw [List.filterMap_append, due_acts]
    rfl
  | delivered =>
    refine ⟨alive, quiet rfl rfl ?_⟩
    rw [List.filterMap_append, List.filterMap_map]
    simp [Instr.due?]
  | _ => exact ⟨alive, quiet rfl rfl rfl⟩

/-! ## Every flag is told -/

theorem told_giveUp (m : Machine) :
    ((m.giveUp.map System.instrFor).filterMap Instr.due?).filterMap Event.told? = [] := by
  unfold Machine.giveUp
  split <;> rfl

/-- What is told of the end of a registration: that it was listened to, if it was. -/
theorem told_leaving (m : Machine) :
    (((m.giveUp ++ m.lost).map System.instrFor).filterMap Instr.due?).filterMap Event.told? =
      if m.state = .listening then [false] else [] := by
  rw [List.map_append, List.filterMap_append, List.filterMap_append, told_giveUp, List.nil_append]
  unfold Machine.lost
  split <;> rfl

/-- **A change has told what it decides**, whatever the machine keeps. -/
theorem Makes.reports {c : Change} (h : Makes s i c) :
    ((c.effects.map System.instrFor).filterMap Instr.due?).filterMap Event.told? =
      (s.machine.event? c.machine i.notes).toList.filterMap Event.flag? := by
  have quiet {r : Machine} (same : r.state = s.machine.state) :
      (s.machine.event? r i.notes).toList.filterMap Event.flag? = [] := by
    rw [Machine.event?_of_state same]
    rfl
  cases h with
  | @begin retried handle =>
    unfold Machine.begin
    split
    next => exact (quiet rfl).symm
    next free =>
      have idle : s.machine.state = .idle := Decidable.not_not.mp (not_or.mp free).2
      simp [Machine.event?, idle]
  | stop =>
    rw [Machine.stop, told_leaving]
    by_cases listening : s.machine.state = .listening
    · simp [Machine.event?, listening, Event.flag?]
    · simp [Machine.event?, listening, Instr.notes]
  | @registered generation result handle =>
    cases result with
    | ok h =>
      simp only [Machine.registered]
      split
      next current =>
        have starting := Machine.starting_of_isCurrent current
        simp [Machine.event?, starting, System.instrFor, Instr.due?, Event.told?, Event.flag?]
      next => exact (quiet rfl).symm
    | error why =>
      simp only [Machine.registered]
      split
      next current =>
        have starting := Machine.starting_of_isCurrent current
        rw [Machine.scheduleRetry_machine]
        simp [Machine.event?, starting, System.instrFor, Instr.due?, Event.told?, Event.flag?,
          Instr.notes]
      next => exact (quiet rfl).symm
  | @lose generation why =>
    simp only [Machine.lose]
    split
    next =>
      rw [told_leaving, Machine.scheduleRetry_machine]
      by_cases listening : s.machine.state = .listening
      · simp [Machine.event?, listening, Event.flag?]
      · simp [Machine.event?, listening, Instr.notes]
    next => exact (quiet rfl).symm

/-- **What an instruction decides is what the task has to tell.** -/
theorem Does.reports (h : Does s i a r before) :
    (before.filterMap Instr.due?).filterMap Event.told? =
      (s.machine.event? r.machine i.notes).toList.filterMap Event.flag? := by
  have quiet (state : r.machine.state = s.machine.state)
      (told : (before.filterMap Instr.due?).filterMap Event.told? = []) :
      (before.filterMap Instr.due?).filterMap Event.told? =
        (s.machine.event? r.machine i.notes).toList.filterMap Event.flag? := by
    rw [Machine.event?_of_state state, told]
    rfl
  cases h with
  | @made _ c makes =>
    have noticed := s.noticed_apply c
    rw [Machine.event?_congr noticed.state noticed.unregister]
    exact makes.reports
  | dropped =>
    have noticed := System.noticed_apply { s with handle := false } s.machine.dropped
    exact quiet noticed.state (told_giveUp s.machine)
  | enrolled parts => exact quiet rfl (by rw [due_revokes]; rfl)
  | used | told | reached => exact quiet rfl (by rw [due_acts]; rfl)
  | meanwhile => exact quiet rfl (by rw [List.filterMap_append, due_acts]; rfl)
  | delivered =>
    refine quiet rfl ?_
    rw [List.filterMap_append, List.filterMap_map]
    simp [Instr.due?]
  | _ => exact quiet rfl rfl

theorem flag?_due (i : Instr) : i.due?.toList.filterMap Event.flag? = [] := by
  cases i <;> rfl

theorem told?_event (m r : Machine) (noted : Bool) :
    (m.event? r noted).toList.filterMap Event.told? = [] := by
  unfold Machine.event?
  split
  · split <;> rfl
  · split
    · rfl
    · split <;> rfl

theorem decided_did (run : Run delays past s) (step : Moves s (.did t i a) s') :
    decided delays (.did t i a :: past) =
      (s.machine.event? s'.machine i.notes).toList.filterMap Event.flag? ++
        decided delays past := by
  rw [decided, events_did run step, List.filterMap_append, List.filterMap_append, flag?_due,
    List.nil_append]
  rfl

theorem told_did : told delays (.did t i a :: past) =
    i.due?.toList.filterMap Event.told? ++ told delays past := by
  show ((i.due?.toList ++ _) ++ events delays past).filterMap Event.told? = _
  rw [List.filterMap_append, List.filterMap_append, told?_event, List.append_nil]
  rfl

/-- **Every flag is told that was decided**, unless a task is about to tell it. -/
theorem Run.reports (run : Run delays past s) :
    (s.reports ++ told delays past).Perm (decided delays past) := by
  induction run with
  | start => exact .refl _
  | @next past s s' m run step _ ledger =>
    cases step with
    | ask a =>
      rw [System.reports, System.due, s.work_asked late_due a]
      exact ledger
    | park found next waits =>
      rw [System.reports, System.due, run.work_parked late_due found next waits]
      exact ledger
    | @act _ t task i rest a found next taken =>
      have step : Moves s (.did t i a) s' := .act found next taken
      obtain ⟨r, before, does, -, rfl⟩ := step_does found next taken
      have work := (run.work_did late_due found next does).filterMap Event.told?
      rw [List.filterMap_append, List.filterMap_append, does.reports] at work
      rw [decided_did run step, told_did]
      -- The balance of the step and that of the past, flag by flag.
      refine List.perm_iff_count.mpr fun b => ?_
      have ledger := List.perm_iff_count.mp ledger b
      have work := List.perm_iff_count.mp work b
      simp only [List.count_append, System.reports, System.due, System.proceed] at ledger work ⊢
      omega

/-- What an event decides is whether the daemon is listened to. -/
theorem Machine.latest_event {m r : Machine} {noted : Bool} {older : List Bool}
    (h : older.head?.getD false = decide (m.state = .listening)) :
    (((m.event? r noted).toList.filterMap Event.flag? ++ older).head?.getD false) =
      decide (r.state = .listening) := by
  unfold Machine.event?
  split
  next listening =>
    split
    next still => simpa [listening, still] using h
    next other => simp [Event.flag?, other]
  next other =>
    split
    next listening => simp [Event.flag?, listening]
    next silent =>
      split
      next failed => simp [Event.flag?, failed.2.2]
      next => simpa [other, silent] using h

/-- **The flag decided last is whether the daemon is listened to.** -/
theorem Run.latest (run : Run delays past s) :
    (decided delays past).head?.getD false = s.isOperational := by
  induction run with
  | start => rfl
  | @next past s s' m run step _ ih =>
    cases step with
    | ask => exact ih
    | park => exact ih
    | @act _ t task i rest a found next taken =>
      rw [decided_did run (.act found next taken)]
      exact Machine.latest_event ih

/-! ## Turns taken to their ends -/

/-- The order in which events follow each other, the latest first, and the right that is kept
afterwards. -/
inductive Ledger : Option HandleId → List Event → Prop
  | start : Ledger none []
  | gained {h : HandleId} {past : List Event} (before : Ledger none past) :
      Ledger (some h) (.told true :: .gained (some h) :: past)
  | lost {h : HandleId} {past : List Event} (before : Ledger (some h) past) :
      Ledger none (.told false :: .gaveUp h :: .lost (some h) :: past)
  | failed {past : List Event} (before : Ledger none past) :
      Ledger none (.told false :: .failed :: past)
  /-- What is registered for nobody is given up. -/
  | refused {kept : Option HandleId} {h : HandleId} {past : List Event}
      (before : Ledger kept past) : Ledger kept (.gaveUp h :: past)

/-- What was told is what was decided, in the same order. -/
theorem Ledger.told_eq {kept : Option HandleId} {l : List Event} (h : Ledger kept l) :
    l.filterMap Event.told? = l.filterMap Event.flag? := by
  induction h with
  | start => rfl
  | gained _ ih => exact congrArg (List.cons true) ih
  | lost _ ih => exact congrArg (List.cons false) ih
  | failed _ ih => exact congrArg (List.cons false) ih
  | refused _ ih => exact ih

/-- Two flags that follow each other are not both `true`. -/
def Alternate (later earlier : Bool) : Prop :=
  later = true → earlier = false

/-- `true` is never told twice without `false` between, and a watcher without a right told `false`
last, if anything. -/
theorem Ledger.alternates {kept : Option HandleId} {l : List Event} (h : Ledger kept l) :
    (l.filterMap Event.told?).IsChain Alternate ∧
      (kept = none → ∀ flag ∈ (l.filterMap Event.told?).head?, flag = false) := by
  induction h with
  | start => exact ⟨.nil, nofun⟩
  | gained _ ih => exact ⟨ih.1.cons fun flag told _ => ih.2 rfl flag told, nofun⟩
  | lost _ ih | failed _ ih =>
    exact ⟨ih.1.cons fun _ _ => nofun, fun _ _ h => (Option.some.inj h).symm⟩
  | refused _ ih => exact ih

/-- A task that is done with an instruction has the rest in hand. -/
theorem filterMap_due_cons (i : Instr) (rest : List Instr) :
    (i :: rest).filterMap Instr.due? = i.due?.toList ++ rest.filterMap Instr.due? := by
  cases i <;> rfl

/-- While the watcher listens, whatever is due is done next. -/
def System.Prompt (s : System) : Prop :=
  s.machine.state = .listening →
    s.pool.Every fun _ task => task.stack.tail.filterMap Instr.due? = []

/-- What was an event, and what a task makes happen next, follow each other as in a ledger. -/
theorem Settles.ledger {m q : Machine} {rest : List Instr} {l : List Event}
    (h : Settles m i q before) (rooted : i.roots = true → rest.filterMap Instr.due? = [])
    (prompt : m.state = .listening → rest.filterMap Instr.due? = [])
    (ledger : Ledger m.unregister (((i :: rest).filterMap Instr.due?).reverse ++ l)) :
    Ledger q.unregister (((before ++ rest).filterMap Instr.due?).reverse ++
      (i.due?.toList ++ (m.event? q i.notes).toList ++ l)) := by
  rw [filterMap_due_cons, List.reverse_append, List.append_assoc] at ledger
  rw [List.filterMap_append, List.reverse_append]
  have single : i.due?.toList.reverse = i.due?.toList := by cases i.due? <;> rfl
  rw [single] at ledger
  have plain (rooted : i.roots = true) : i.due? = none := by
    cases i <;> first | rfl | cases rooted
  cases h with
  | quiet due event right =>
    rw [due, event, right]
    simpa using ledger
  | gained isRoot was instrs right event =>
    rw [rooted isRoot, plain isRoot, was] at ledger
    rw [rooted isRoot, plain isRoot, instrs, event, right]
    exact .gained ledger
  | lost plain listening was instrs right event =>
    rw [prompt listening, plain, was] at ledger
    rw [prompt listening, plain, instrs, event, right]
    exact .lost ledger
  | failed isRoot was instrs right event =>
    rw [rooted isRoot, plain isRoot, was] at ledger
    rw [rooted isRoot, plain isRoot, instrs, event, right]
    exact .failed ledger
  | refused isRoot instrs event right =>
    rw [rooted isRoot, plain isRoot] at ledger
    rw [rooted isRoot, plain isRoot, instrs, event, right]
    exact .refused ledger

theorem Machine.not_listening_of_event? {m r : Machine} {noted : Bool} {e : Event}
    (h : m.event? r noted = some e) (down : e.flag? = some false) : r.state ≠ .listening := by
  intro listening
  unfold event? at h
  rw [listening] at h
  split at h
  · cases h
  · cases h
    cases down

/-- Whatever is due while the watcher listens stays at hand. -/
theorem Settles.prompt {m q : Machine} {rest : List Instr} (h : Settles m i q before)
    (rooted : i.roots = true → rest.filterMap Instr.due? = [])
    (prompt : m.state = .listening → rest.filterMap Instr.due? = [])
    (listening : q.state = .listening) : (before ++ rest).tail.filterMap Instr.due? = [] := by
  cases h with
  | quiet due event =>
    have none := prompt ((Machine.listening_of_event?_eq_none event).mp listening)
    refine List.filterMap_eq_nil_iff.mpr fun j hj => ?_
    rcases List.mem_append.mp (List.mem_of_mem_tail hj) with hj | hj
    · exact List.filterMap_eq_nil_iff.mp due j hj
    · exact List.filterMap_eq_nil_iff.mp none j hj
  | gained isRoot _ instrs => rw [instrs]; exact rooted isRoot
  | lost _ _ _ _ _ event =>
    exact absurd listening (Machine.not_listening_of_event? event rfl)
  | failed _ _ _ _ event =>
    exact absurd listening (Machine.not_listening_of_event? event rfl)
  | refused isRoot instrs => rw [instrs]; exact rooted isRoot

/-- **If turns are taken to their ends, events follow each other as in a ledger.** -/
theorem Run.ledger (run : Run delays past s) (turns : orderly delays past = true)
    (alive : s.handle = true) :
    s.Prompt ∧ Ledger s.machine.unregister (s.due.reverse ++ events delays past) := by
  induction run with
  | start => exact ⟨nofun, .start⟩
  | @next past s s' m run step _ ih =>
    obtain ⟨prompt, ledger⟩ := ih (orderly_tail turns) (step.handle alive)
    cases step with
    | ask a =>
      refine ⟨fun listening => (prompt listening).spawn rfl, ?_⟩
      rw [System.due, s.work_asked late_due a]
      exact ledger
    | park found next waits =>
      refine ⟨fun listening => (prompt listening).park fun _ _ here => here, ?_⟩
      rw [System.due, run.work_parked late_due found next waits]
      exact ledger
    | @act _ t task i rest a found next taken =>
      have step : Moves s (.did t i a) s' := .act found next taken
      have alone := run.alone turns
      obtain ⟨r, before, does, -, rfl⟩ := step_does found next taken
      have settles := (does.settles ((Sound.of_run run).fair (step.handle alive)) alive).2
      have here := run.seated _ (Pool.mem_of_get? found)
      simp only [next] at here
      have rooted (isRoot : i.roots = true) : rest.filterMap Instr.due? = [] := by
        cases here.1.rooted isRoot <;> rfl
      have prompt (listening : s.machine.state = .listening) : rest.filterMap Instr.due? = [] := by
        have own := prompt listening _ (Pool.mem_of_get? found)
        simpa only [next, List.tail_cons] using own
      refine ⟨fun listening => ?_, ?_⟩
      · intro e he
        rcases run.turn does alone he with ⟨-, rests⟩ | ⟨-, own⟩
        · -- Between two turns nothing is due.
          refine List.filterMap_eq_nil_iff.mpr fun j hj => ?_
          exact List.filterMap_eq_nil_iff.mp (late_due _ rests) j (List.mem_of_mem_tail hj)
        · rw [own]
          exact settles.prompt rooted prompt listening
      · rw [System.due, run.work_turn late_due found does (run.others late_due alone),
          events_did run step]
        rw [System.due, run.work_of_alone late_due found alone, next] at ledger
        exact settles.ledger rooted prompt ledger

/-! ## Whether the daemon is listened to -/

/-- The value passed last to the one who is told, if there is anyone; `false` before there is
one. -/
def lastPassed (audience : Bool) (delays : List Nat) (past : List Move) : Bool :=
  audience && (told delays past).head?.getD false

/-- What those know of the watcher who are told whether the daemon is listened to. -/
structure Reported (delays : List Nat) (past : List Move) (s : System) : Prop where
  /-- What was decided last is so. -/
  latest : (decided delays past).head?.getD false = s.isOperational
  /-- Each flag is told once, in some order. -/
  all : (s.reports ++ told delays past).Perm (decided delays past)
  /-- If flags were told in the order in which they were decided, what was told last is so. -/
  ordered : told delays past = decided delays past →
    lastPassed true delays past = s.isOperational
  /-- And so it is if only one was decided since none was about to be told. -/
  apart : s.reports = [] → ∀ later older, past = later ++ older →
    (replay delays older).reports = [] →
    (decided delays past).length = (decided delays older).length + 1 →
    lastPassed true delays past = s.isOperational
  /-- And if every turn is taken to its end. -/
  turns : s.reports = [] → orderly delays past = true →
    lastPassed true delays past = s.isOperational

/-- What is told and what is about to be, in turns that are taken to their ends. -/
theorem Run.exact (run : Run delays past s) (turns : orderly delays past = true)
    (alive : s.handle = true) : s.reports.reverse ++ told delays past = decided delays past := by
  have same := (run.ledger turns alive).2.told_eq
  have none : s.due.filterMap Event.flag? = [] := by
    refine List.filterMap_eq_nil_iff.mpr fun e he => ?_
    obtain ⟨_, -, i, -, due⟩ := Pool.mem_work.mp he
    cases i <;> cases due <;> rfl
  rwa [List.filterMap_append, List.filterMap_append, List.filterMap_reverse,
    List.filterMap_reverse, none, List.reverse_nil, List.nil_append] at same

/-- **Every flag is told that is decided, and the one decided last is so.** -/
theorem reported_of_run (run : Run delays past s) (alive : s.handle = true) :
    Reported delays past s := by
  have latest := run.latest
  have all := run.reports
  have ordered (inOrder : told delays past = decided delays past) :
      lastPassed true delays past = s.isOperational := by
    rw [lastPassed, Bool.true_and, inOrder, latest]
  refine ⟨latest, all, ordered, ?_, fun none turns => ordered ?_⟩
  · rintro none later older rfl noneThen one
    have then_ := run.older.reports
    rw [none, List.nil_append] at all
    rw [noneThen, List.nil_append] at then_
    obtain ⟨new, split⟩ := chronicle_append System.events delays later older
    have decidedNew : decided delays (later ++ older) =
        new.filterMap Event.flag? ++ decided delays older := by
      rw [decided, events, split, List.filterMap_append]
      rfl
    have toldNew : told delays (later ++ older) =
        new.filterMap Event.told? ++ told delays older := by
      rw [told, events, split, List.filterMap_append]
      rfl
    rw [decidedNew, List.length_append] at one
    obtain ⟨flag, only⟩ := List.length_eq_one_iff.mp
      (by omega : (new.filterMap Event.flag?).length = 1)
    rw [decidedNew, only] at latest all
    rw [toldNew] at all
    have last := (List.perm_append_right_iff _).mp (all.trans (then_.symm.append_left _))
    rw [lastPassed, toldNew, List.perm_singleton.mp last]
    exact latest
  · have exact := run.exact turns alive
    rwa [none, List.reverse_nil, List.nil_append] at exact

/-- A watcher that was started tells that it listens. -/
theorem reported_of_first_start : ∃ past s, Run [] past s ∧ s.handle = true ∧
    s.reports = [] ∧ lastPassed true [] past = true ∧ Reported [] past s := by
  have asked := (Run.start : Run [] [] (.initial [])).next (.ask _ .start) nofun
  have started := asked.next (.act (t := 0) (a := .nothing) rfl rfl rfl) nofun
  have begun := started.next (.act (t := 0) (a := .nothing) rfl rfl rfl) nofun
  have granted := begun.next (.act (t := 1) (a := .registered (.ok 0)) rfl rfl rfl) nofun
  have listening := granted.next (.act (t := 1) (a := .nothing) rfl rfl rfl) nofun
  have told := listening.next (.act (t := 1) (a := .actions []) rfl rfl rfl) nofun
  exact ⟨_, _, told, rfl, rfl, rfl, reported_of_run told rfl⟩

/-- What was passed last is wrong although nothing is going on: of a watcher that listens and has
nobody to tell it to, and of one that is stopped before it has told that it listens. -/
theorem wrong_of_silent_and_overtaken :
    (∃ past s, Run [] past s ∧ s.handle = true ∧ s.pool.tasks = [] ∧
      s.isOperational = true ∧ lastPassed false [] past = false) ∧
    ∃ past s, Run [] past s ∧ s.handle = true ∧ s.pool.tasks = [] ∧
      s.isOperational = false ∧ lastPassed true [] past = true := by
  have asked := (Run.start : Run [] [] (.initial [])).next (.ask _ .start) nofun
  have started := asked.next (.act (t := 0) (a := .nothing) rfl rfl rfl) nofun
  have begun := started.next (.act (t := 0) (a := .nothing) rfl rfl rfl) nofun
  have granted := begun.next (.act (t := 1) (a := .registered (.ok 0)) rfl rfl rfl) nofun
  have listening := granted.next (.act (t := 1) (a := .nothing) rfl rfl rfl) nofun
  constructor
  · have told := listening.next (.act (t := 1) (a := .actions []) rfl rfl rfl) nofun
    exact ⟨_, _, told, rfl, rfl, rfl, rfl⟩
  · have asked := listening.next (.ask _ .stop) nofun
    have acted := asked.next (.act (t := 2) (a := .nothing) rfl rfl rfl) nofun
    have stopped := acted.next (.act (t := 2) (a := .nothing) rfl rfl rfl) nofun
    have gaveUp := stopped.next (.act (t := 2) (a := .actions []) rfl rfl rfl) nofun
    have toldLost := gaveUp.next (.act (t := 2) (a := .actions []) rfl rfl rfl) nofun
    have toldGained := toldLost.next (.act (t := 1) (a := .actions []) rfl rfl rfl) nofun
    exact ⟨_, _, toldGained, rfl, rfl, rfl, rfl⟩

/-! ## A ledger of the subscription -/

/-- Moves of which nothing is told. -/
inductive Silent (s : System) : Move → Prop
  /-- A signal of a registration that is not granted ends it. -/
  | early {t : TaskId} {generation : Nat} {why : String} {a : Answer}
      (starting : s.machine.state = .starting) : Silent s (.did t (.lose generation why) a)
  /-- A registration comes to an end that is not waited for. -/
  | stale {t : TaskId} {generation : Nat} {result : Except DaemonError HandleId} {a : Answer}
      (stale : s.machine.isCurrent generation = false) :
      Silent s (.did t (.registered generation result) a)
  | stop {t : TaskId} {a : Answer} (starting : s.machine.state = .starting) :
      Silent s (.did t .stop a)
  | again {t : TaskId} {a : Answer} (disposed : s.machine.disposed = true) :
      Silent s (.did t (.act .dispose) a)

/-- What is told in turns that are taken to their ends. -/
structure Accounted (delays : List Nat) (past : List Move) (s : System) : Prop where
  /-- With what the task in its turn is about to do, events follow each other as in a ledger. -/
  ledger : Ledger s.machine.unregister (s.due.reverse ++ events delays past)
  /-- Each flag is told once, in the order in which they are decided. -/
  exact : s.reports.reverse ++ told delays past = decided delays past
  /-- Between two turns nothing is about to be done. -/
  rest : (∀ e ∈ s.pool.tasks, e.2.parked = true) → s.due = []
  /-- `true` is never told twice without `false` between. -/
  alternates : (told delays past).IsChain Alternate
  silent : ∀ later m older, past = later ++ m :: older → Silent (replay delays older) m →
    decided delays (m :: older) = decided delays older

/-- The end of a registration that is not waited for changes nothing. -/
theorem Machine.registered_of_stale {m : Machine} {generation : Nat}
    (stale : m.isCurrent generation = false) (delays : List Nat)
    (result : Except DaemonError HandleId) :
    (m.registered delays generation result).machine = m := by
  cases result <;> simp [registered, stale, unchanged]

theorem Silent.event? (h : Silent s (.did t i a)) (does : Does s i a r before)
    (fair : s.machine.Fair) (alive : r.handle = true) :
    s.machine.event? r.machine i.notes = none := by
  have settles := (does.settles fair alive).2
  -- A change that is an event is made by one who is waited for, or by one who was listened to.
  have started (starting : s.machine.state = .starting) (loose : i.roots = false) :
      s.machine.event? r.machine i.notes = none := by
    cases settles with
    | quiet _ event => exact event
    | lost _ listening => rw [starting] at listening; cases listening
    | gained rooted => rw [loose] at rooted; cases rooted
    | failed rooted => rw [loose] at rooted; cases rooted
    | refused _ _ event => exact event
  cases h with
  | early starting => exact started starting rfl
  | stop starting => exact started starting rfl
  | stale stale =>
    cases does with
    | lapsed => exact Machine.event?_of_state rfl
    | enrolled _ enrols => cases enrols
    | refused => exact Machine.event?_of_state rfl
    | made makes =>
      cases makes with
      | registered =>
        refine Machine.event?_of_state ?_
        rw [(s.noticed_apply _).state, Machine.registered_of_stale stale]
  | again disposed =>
    cases does with
    | lapsed => exact Machine.event?_of_state rfl
    | enrolled _ enrols => cases enrols
    | disposed _ first => rw [disposed] at first; cases first
    | made makes => cases makes

/-- **If turns are taken to their ends, what is told is an exact ledger of the subscription.** -/
theorem accounted_of_turns (run : Run delays past s) (turns : orderly delays past = true)
    (alive : s.handle = true) : Accounted delays past s := by
  have ledger := (run.ledger turns alive).2
  refine ⟨ledger, run.exact turns alive, run.work_of_rest late_due, ?_, ?_⟩
  · have alternates := ledger.alternates.1
    rw [List.filterMap_append] at alternates
    exact alternates.right_of_append
  · rintro later m older rfl silent
    have before := run.before
    have step := run.step
    have after : (replay delays (m :: older)).handle = true := run.handle alive
    have fair := (Sound.of_run before).fair (step.handle after)
    generalize replay delays (m :: older) = s' at step after
    cases step with
    | ask => rfl
    | park => rfl
    | @act _ t task i rest a found next taken =>
      rw [decided_did before (.act found next taken)]
      obtain ⟨r, _, does, -, rfl⟩ := step_does found next taken
      have none := silent.event? does fair after
      show (Machine.event? _ r.machine i.notes).toList.filterMap Event.flag? ++ _ = _
      rw [none]
      rfl

/-- A registration that is lost after it was listened to. -/
theorem accounted_of_closed_signal : ∃ past s, Run [5] past s ∧ orderly [5] past = true ∧
    s.handle = true ∧ told [5] past = [false, true] ∧
    events [5] past = [.told false, .gaveUp 0, .lost (some 0), .told true, .gained (some 0)] ∧
    Accounted [5] past s := by
  have asked := (Run.start : Run [5] [] (.initial [5])).next (.ask _ .start) nofun
  have started := asked.next (.act (t := 0) (a := .nothing) rfl rfl rfl) nofun
  have begun := started.next (.act (t := 0) (a := .nothing) rfl rfl rfl) nofun
  have granted := begun.next (.act (t := 1) (a := .registered (.ok 0)) rfl rfl rfl) nofun
  have listening := granted.next (.act (t := 1) (a := .nothing) rfl rfl rfl) nofun
  have told := listening.next (.act (t := 1) (a := .actions []) rfl rfl rfl) nofun
  have emitted := told.next (.ask _ (.signal 1 .closed none)) nofun
  have signalled := emitted.next (.act (t := 2) (a := .nothing) rfl rfl rfl) nofun
  have heard := signalled.next (.act (t := 2) (a := .nothing) rfl rfl rfl) nofun
  have delivered := heard.next (.act (t := 2) (a := .nothing) rfl rfl rfl) nofun
  have concluded := delivered.next (.act (t := 2) (a := .nothing) rfl rfl rfl) nofun
  have lost := concluded.next (.act (t := 2) (a := .nothing) rfl rfl rfl) nofun
  have gaveUp := lost.next (.act (t := 2) (a := .actions []) rfl rfl rfl) nofun
  have toldLost := gaveUp.next (.act (t := 2) (a := .actions []) rfl rfl rfl) nofun
  exact ⟨_, _, toldLost, rfl, rfl, rfl, rfl, accounted_of_turns toldLost rfl rfl⟩

end Supervision.Watcher
