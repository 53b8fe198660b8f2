import Supervision.Watcher.System
import Supervision.Proofs.Task.Pool

/-!
# Runs of a watcher

What can happen to a watcher, in any order and any number: a user asks for something, the daemon
sends a signal, a task executes its next instruction with an answer from outside, a task that waits
is parked. A user may ask from within, as the answer of an instruction. Every instruction is a move
of its own, so that other tasks may come between a change of the machine and what it has others do.

A `Run` is a history of such moves from the beginning. The moves are kept, the latest first, so that
a theorem can speak of the rights that were granted and of those that were used. The daemon grants
no right twice; what it grants, and when, is open.
-/

namespace Supervision.Watcher

/-! ## Moves -/

/-- Something that happens to a watcher. -/
inductive Move
  /-- A user wants something, or the daemon sends a signal. -/
  | asked (a : Action)
  /-- A task executed an instruction. -/
  | did (t : TaskId) (i : Instr) (a : Answer)
  | parked (t : TaskId)

/-- Whether a task may rest at an instruction. -/
def Instr.waits : Instr → Bool
  | .register _ | .sleep _ => true
  | _ => false

/-- One move. -/
inductive Moves : System → Move → System → Prop
  | ask (s : System) (a : Action) : Moves s (.asked a) (s.spawn [.act a])
  | act {s s' : System} {t : TaskId} {task : Task Instr} {i : Instr} {rest : List Instr}
      {a : Answer} (found : s.pool.get? t = some task) (next : task.stack = i :: rest)
      (taken : s.step t a = some s') : Moves s (.did t i a) s'
  | park {s : System} {t : TaskId} {task : Task Instr} {i : Instr} {rest : List Instr}
      (found : s.pool.get? t = some task) (next : task.stack = i :: rest)
      (waits : i.waits = true) : Moves s (.parked t) (s.park t)

/-- The right that an answer grants. -/
def Instr.grant? : Instr → Answer → Option HandleId
  | .register _, .registered (.ok h) => some h
  | _, _ => none

/-- The right that an instruction uses. -/
def Instr.use? : Instr → Option HandleId
  | .unregister h => some h
  | _ => none

/-- The right that a move grants. -/
def Move.grant? : Move → Option HandleId
  | .did _ i a => i.grant? a
  | _ => none

/-- The right that a move uses. -/
def Move.use? : Move → Option HandleId
  | .did _ i _ => i.use?
  | _ => none

/-- The rights the daemon granted, the latest first. -/
def granted (past : List Move) : List HandleId :=
  past.filterMap Move.grant?

/-- The rights that were used, the latest first. -/
def used (past : List Move) : List HandleId :=
  past.filterMap Move.use?

/-- A history from the beginning: the moves, the latest first, and the watcher afterwards. -/
inductive Run (delays : List Nat) : List Move → System → Prop
  | start : Run delays [] (.initial delays)
  | next {past : List Move} {s s' : System} {m : Move} (run : Run delays past s)
      (step : Moves s m s') (new : ∀ h, m.grant? = some h → h ∉ granted past) :
      Run delays (m :: past) s'

/-! ## What an instruction can do -/

/-- The right that an instruction has in hand. -/
def Instr.right? : Instr → Option HandleId
  | .registered _ (.ok h) => some h
  | .unregister h => some h
  | _ => none

/-- True of what the task that tries again has to do. -/
def Instr.retries : Instr → Bool
  | .sleep _ | .begin _ => true
  | _ => false

/-- Two systems whose tasks and publications are the same, and whose machines differ at most in
whether they are disposed of, and in the delays they have used. -/
structure System.Alike (s r : System) : Prop where
  machine : r.machine =
    { s.machine with attempts := r.machine.attempts, disposed := r.machine.disposed }
  pool : r.pool = s.pool
  handle : r.handle = s.handle
  published : r.published = s.published
  delays : r.delays = s.delays

/-- The change of the machine that an instruction makes. -/
inductive Makes (s : System) : Instr → Change → Prop
  | begin {retried : Bool} (handle : s.handle = true) :
      Makes s (.begin retried) (s.machine.begin retried)
  | stop : Makes s .stop s.machine.stop
  | registered {generation : Nat} {result : Except DaemonError HandleId}
      (handle : s.handle = true) :
      Makes s (.registered generation result) (s.machine.registered s.delays generation result)
  | lose {generation : Nat} {why : String} :
      Makes s (.lose generation why) (s.machine.lose s.delays generation why)

/-- Whether nothing may come of an instruction. -/
def System.lapses (s : System) : Instr → Bool
  | .act _ | .sleep _ | .conclude _ .reconnecting | .conclude _ .reconnected => true
  | .begin _ | .registered _ (.error _) => !s.handle
  | _ => false

/-- True of instructions that concern only who listens. -/
def Instr.enrols : Instr → Bool
  | .act (.listen _) | .act (.unlisten _) | .act (.combine ..) | .revoke _ | .clear => true
  | _ => false

/-- What an instruction does with an answer: the system afterwards, and what the task has to do
instead. -/
inductive Does (s : System) : Instr → Answer → System → List Instr → Prop
  | lapsed {i : Instr} (lapses : s.lapses i = true) : Does s i .nothing s []
  | started (handle : s.handle = true) : Does s (.act .start) .nothing s [.begin false]
  | halted (handle : s.handle = true) : Does s (.act .stop) .nothing s [.stop]
  | disposed (handle : s.handle = true) (first : s.machine.disposed = false) :
      Does s (.act .dispose) .nothing { s with machine := { s.machine with disposed := true } }
        [.stop, .clear]
  | dropped (handle : s.handle = true) : Does s (.act .drop) .nothing
      ({ s with handle := false }.apply s.machine.dropped).1
      ({ s with handle := false }.apply s.machine.dropped).2
  | emitted {generation : Nat} {x : Signal} {p : Option Json} :
      Does s (.act (.signal generation x p)) .nothing s [.signal generation x p]
  /-- What is left of a subscription is used up next. -/
  | enrolled {i : Instr} {listeners : Registry Unit Listener} {holdings : Holdings Unit}
      (parts : List (Subscription Unit)) (enrols : i.enrols = true) :
      Does s i .nothing { s with listeners := listeners, holdings := holdings } (parts.map .revoke)
  | made {i : Instr} {c : Change} (makes : Makes s i c) :
      Does s i .nothing (s.apply c).1 (s.apply c).2
  | meanwhile {generation : Nat} {as : List Action} : Does s (.register generation) (.actions as) s
      (as.map .act ++ [.register generation])
  | ended {generation : Nat} {result : Except DaemonError HandleId} :
      Does s (.register generation) (.registered result) s [.registered generation result]
  /-- There is nobody left for whom it was registered. -/
  | refused {generation : Nat} {h : HandleId} (handle : s.handle = false) :
      Does s (.registered generation (.ok h)) .nothing s [.unregister h]
  | used {h : HandleId} {as : List Action} :
      Does s (.unregister h) (.actions as) s (as.map .act)
  | told {flag : Bool} {as : List Action} :
      Does s (.tell flag) (.actions as) (s.record (.told flag)) (as.map .act)
  | heard {generation : Nat} {x : Signal} {p : Option Json} (handle : s.handle = true)
      (hears : s.machine.hears generation = true) :
      Does s (.signal generation x p) .nothing s [.deliver generation x p]
  | unheard {generation : Nat} {x : Signal} {p : Option Json}
      (deaf : ¬(s.handle = true ∧ s.machine.hears generation = true)) :
      Does s (.signal generation x p) .nothing s []
  | delivered {generation : Nat} {x : Signal} {p : Option Json} :
      Does s (.deliver generation x p) .nothing s
        ((s.listeners.snapshot ()).map (.listener · x p) ++ [.conclude generation x])
  | reached {l : Listener} {x : Signal} {p : Option Json} {as : List Action} :
      Does s (.listener l x p) (.actions as) (s.record (.delivered l.name x p)) (as.map .act)
  | renewed {generation : Nat} : Does s (.conclude generation .ok) .nothing
      { s with machine := { s.machine with attempts := 0 } } []
  | failed {generation : Nat} {x : Signal} {why : String}
      (bad : x = .error why ∨ x = .closed ∧ why = "connection closed") :
      Does s (.conclude generation x) .nothing s [.lose generation why]

theorem act_does (s : System) (a : Action) : Does s (.act a) .nothing (s.act a).1 (s.act a).2 := by
  cases a with
  | start =>
    simp only [System.act]
    split
    next handle => exact .started handle
    next => exact .lapsed rfl
  | stop =>
    simp only [System.act]
    split
    next handle => exact .halted handle
    next => exact .lapsed rfl
  | dispose =>
    simp only [System.act]
    split
    next both => exact .disposed both.1 (by simpa using both.2)
    next => exact .lapsed rfl
  | listen listener =>
    simp only [System.act]
    split
    · exact .enrolled [] rfl
    · exact .lapsed rfl
  | unlisten holder =>
    simp only [System.act]
    split
    next subscription _ => exact .enrolled [subscription] rfl
    next => exact .lapsed rfl
  | combine holder parts => exact .enrolled [] rfl
  | signal generation x p => exact .emitted
  | drop =>
    simp only [System.act]
    split
    next handle => exact .dropped handle
    next => exact .lapsed rfl

theorem revoke_does (s : System) (subscription : Subscription Unit) :
    Does s (.revoke subscription) .nothing (s.revoke subscription).1 (s.revoke subscription).2 := by
  cases subscription with
  | combined parts => exact .enrolled parts rfl
  | spent | single =>
    simp only [System.revoke, System.dispose]
    split <;> exact .enrolled [] rfl

/-- **What an instruction does**, branch by branch. -/
theorem does_of_exec {s r : System} {i : Instr} {a : Answer} {before : List Instr}
    (h : s.exec i a = some (r, before)) : Does s i a r before := by
  unfold System.exec at h
  split at h
  case h_1 a =>
    obtain ⟨rfl, rfl⟩ := Prod.mk.inj (Option.some.inj h)
    exact act_does s a
  case h_2 subscription =>
    obtain ⟨rfl, rfl⟩ := Prod.mk.inj (Option.some.inj h)
    exact revoke_does s subscription
  case h_3 =>
    split at h
    next handle =>
      cases h
      exact .made (.begin handle)
    next gone =>
      cases h
      exact .lapsed (by simpa [System.lapses] using gone)
  case h_4 =>
    cases h
    exact .made .stop
  case h_5 =>
    cases h
    exact .enrolled [] rfl
  case h_6 =>
    cases h
    exact .meanwhile
  case h_7 =>
    cases h
    exact .ended
  case h_8 generation result =>
    unfold System.registered at h
    split at h
    next handle =>
      cases h
      exact .made (.registered handle)
    next gone =>
      split at h <;> cases h
      · exact .refused (by simpa using gone)
      · exact .lapsed (by simpa [System.lapses] using gone)
  case h_9 =>
    cases h
    exact .used
  case h_10 =>
    cases h
    exact .told
  case h_11 =>
    split at h
    next both =>
      cases h
      exact .heard both.1 both.2
    next deaf =>
      cases h
      exact .unheard deaf
  case h_12 =>
    cases h
    exact .delivered
  case h_13 =>
    cases h
    exact .reached
  case h_14 generation x =>
    cases x <;> cases h
    · exact .renewed
    · exact .failed (.inl rfl)
    · exact .failed (.inr ⟨rfl, rfl⟩)
    · exact .lapsed rfl
    · exact .lapsed rfl
  case h_15 =>
    cases h
    exact .made .lose
  case h_16 =>
    cases h
    exact .lapsed rfl
  case h_17 => cases h

/-! ## What an instruction does with rights -/

/-- What an instruction does with the rights: the system afterwards, and what the task has to do
instead. -/
inductive Effected (s : System) : Instr → Answer → System → List Instr → Prop
  /-- It has to do with users, listeners or the one who is told. -/
  | aside {i : Instr} {a : Answer} {r : System} {before : List Instr} (alike : s.Alike r)
      (free : i.right? = none) (frees : ∀ j ∈ before, j.right? = none)
      (ungranted : i.grant? a = none) (retries : i.retries = true → before = []) :
      Effected s i a r before
  | made {i : Instr} {c : Change} (makes : Makes s i c) :
      Effected s i .nothing (s.apply c).1 (s.apply c).2
  | dropped (handle : s.handle = true) : Effected s (.act .drop) .nothing
      ({ s with handle := false }.apply s.machine.dropped).1
      ({ s with handle := false }.apply s.machine.dropped).2
  | ended {generation : Nat} {result : Except DaemonError HandleId} :
      Effected s (.register generation) (.registered result) s [.registered generation result]
  /-- There is nobody left for whom it was registered. -/
  | refused {generation : Nat} {h : HandleId} (handle : s.handle = false) :
      Effected s (.registered generation (.ok h)) .nothing s [.unregister h]
  | used {h : HandleId} {as : List Action} :
      Effected s (.unregister h) (.actions as) s (as.map .act)

theorem System.alike_refl (s : System) : s.Alike s :=
  ⟨rfl, rfl, rfl, rfl, rfl⟩

/-- What a user asks for has no right in hand, -/
theorem right?_acts (as : List Action) : ∀ j ∈ as.map Instr.act, j.right? = none :=
  List.forall_mem_map.mpr fun _ _ => rfl

/-- nor has what is left of a subscription. -/
theorem right?_revokes (parts : List (Subscription Unit)) :
    ∀ j ∈ parts.map Instr.revoke, j.right? = none :=
  List.forall_mem_map.mpr fun _ _ => rfl

/-- What an instruction does with the rights, as far as that can be said without the machine. -/
theorem Does.effected {s r : System} {i : Instr} {a : Answer} {before : List Instr}
    (h : Does s i a r before) : Effected s i a r before := by
  cases h with
  | lapsed lapses =>
    refine .aside s.alike_refl ?_ nofun ?_ fun _ => rfl
    · cases i with
      | registered g result => cases result <;> first | rfl | cases lapses
      | unregister => cases lapses
      | _ => rfl
    · cases i <;> rfl
  | started => exact .aside s.alike_refl rfl (by simp [Instr.right?]) rfl nofun
  | halted => exact .aside s.alike_refl rfl (by simp [Instr.right?]) rfl nofun
  | disposed => exact .aside ⟨rfl, rfl, rfl, rfl, rfl⟩ rfl (by simp [Instr.right?]) rfl nofun
  | dropped handle => exact .dropped handle
  | emitted => exact .aside s.alike_refl rfl (by simp [Instr.right?]) rfl nofun
  | enrolled parts enrols =>
    refine .aside ⟨rfl, rfl, rfl, rfl, rfl⟩ ?_ (right?_revokes parts) ?_ fun retries => ?_
    · cases i <;> first | rfl | cases enrols
    · cases i <;> rfl
    · cases i <;> first | (cases retries; done) | cases enrols
  | made makes => exact .made makes
  | meanwhile =>
    refine .aside s.alike_refl rfl (fun j hj => ?_) rfl nofun
    rcases List.mem_append.mp hj with hj | hj
    · exact right?_acts _ j hj
    · rw [List.mem_singleton.mp hj]
      rfl
  | ended => exact .ended
  | refused handle => exact .refused handle
  | used => exact .used
  | told => exact .aside ⟨rfl, rfl, rfl, rfl, rfl⟩ rfl (right?_acts _) rfl nofun
  | heard => exact .aside s.alike_refl rfl (by simp [Instr.right?]) rfl nofun
  | unheard => exact .aside s.alike_refl rfl nofun rfl nofun
  | delivered =>
    refine .aside s.alike_refl rfl (fun j hj => ?_) rfl nofun
    rcases List.mem_append.mp hj with hj | hj
    · obtain ⟨_, _, rfl⟩ := List.mem_map.mp hj
      rfl
    · rw [List.mem_singleton.mp hj]
      rfl
  | reached => exact .aside ⟨rfl, rfl, rfl, rfl, rfl⟩ rfl (right?_acts _) rfl nofun
  | renewed => exact .aside ⟨rfl, rfl, rfl, rfl, rfl⟩ rfl nofun rfl nofun
  | failed => exact .aside s.alike_refl rfl (by simp [Instr.right?]) rfl nofun

/-! ## Steps -/

/-- The system when a task has something else to do. -/
def System.proceed (s : System) (t : TaskId) (stack : List Instr) : System :=
  { s with pool := s.pool.proceed t stack }

/-- What a step of a task is: its first instruction is executed, and the task goes on. -/
theorem step_exec {s s' : System} {t : TaskId} {task : Task Instr} {i : Instr} {rest : List Instr}
    {a : Answer} (found : s.pool.get? t = some task) (next : task.stack = i :: rest)
    (taken : s.step t a = some s') :
    ∃ r before, s.exec i a = some (r, before) ∧ (task.parked && task.aborted) = false ∧
      s' = r.proceed t (before ++ rest) := by
  obtain ⟨caller, stack, parked, aborted⟩ := task
  simp only at next
  subst next
  simp only [System.step, found] at taken
  split at taken
  next => cases taken
  next free =>
    split at taken
    next r before hexec =>
      exact ⟨r, before, hexec, by simpa using free, (Option.some.inj taken).symm⟩
    next => cases taken

/-- What the first instruction of a task does in a step. -/
theorem step_does {s s' : System} {t : TaskId} {task : Task Instr} {i : Instr} {rest : List Instr}
    {a : Answer} (found : s.pool.get? t = some task) (next : task.stack = i :: rest)
    (taken : s.step t a = some s') :
    ∃ r before, Does s i a r before ∧ (task.parked && task.aborted) = false ∧
      s' = r.proceed t (before ++ rest) := by
  obtain ⟨r, before, exec, awake, result⟩ := step_exec found next taken
  exact ⟨r, before, does_of_exec exec, awake, result⟩

/-- What a step of a task does with the rights. -/
theorem step_cases {s s' : System} {t : TaskId} {task : Task Instr} {i : Instr} {rest : List Instr}
    {a : Answer} (found : s.pool.get? t = some task) (next : task.stack = i :: rest)
    (taken : s.step t a = some s') :
    ∃ r before, Effected s i a r before ∧ (task.parked && task.aborted) = false ∧
      s' = r.proceed t (before ++ rest) := by
  obtain ⟨r, before, does, awake, result⟩ := step_does found next taken
  exact ⟨r, before, does.effected, awake, result⟩

/-! ## What a change does with the right -/

/-- The right that an effect uses. -/
def Effect.right? : Effect → Option HandleId
  | .unregister h => some h
  | .tell _ => none

/-- A machine that keeps a right exactly while it is listening. -/
def Machine.Fair (m : Machine) : Prop :=
  m.unregister.isSome = true ↔ m.state = .listening

namespace Machine

variable {m : Machine} {t : TaskId}

theorem Fair.unregister_eq_none (h : m.Fair) (other : m.state ≠ .listening) :
    m.unregister = none := by
  cases held : m.unregister with
  | none => rfl
  | some r => exact absurd (h.mp (by rw [held]; rfl)) other

theorem mem_cancelled (h : .abort t ∈ m.cancelled) : m.reconnect = some t := by
  unfold cancelled at h
  split at h
  next held =>
    obtain rfl := Notice.abort.inj (List.mem_singleton.mp h)
    exact held
  next => cases h

theorem rights_giveUp (m : Machine) : m.giveUp.filterMap Effect.right? = m.unregister.toList := by
  unfold giveUp
  split
  next held => rw [held]; rfl
  next none => rw [none]; rfl

theorem rights_lost (m : Machine) : m.lost.filterMap Effect.right? = [] := by
  unfold lost
  split <;> rfl

theorem tail_giveUp (m : Machine) : m.giveUp.tail = [] := by
  unfold giveUp
  split <;> rfl

/-- If a right is used, that comes first. -/
theorem prompt_giveUp (m : Machine) : ∀ e ∈ (m.giveUp ++ m.lost).tail, e.right? = none := by
  intro e he
  have told : ∀ e ∈ m.lost, e.right? = none := List.filterMap_eq_nil_iff.mp m.rights_lost
  rw [List.tail_append, tail_giveUp, List.nil_append] at he
  split at he
  · exact told e (List.mem_of_mem_tail he)
  · exact told e he

/-- Trying again later is all that a retry is about. -/
theorem scheduleRetry_machine (m : Machine) (delays : List Nat) :
    (m.scheduleRetry delays).1 = { m with attempts := (m.scheduleRetry delays).1.attempts } := by
  unfold scheduleRetry
  split
  · rfl
  · split <;> rfl

theorem mem_scheduleRetry {delays : List Nat} (h : .abort t ∈ (m.scheduleRetry delays).2) :
    m.reconnect = some t := by
  unfold scheduleRetry at h
  split at h
  · refine mem_cancelled ((List.mem_append.mp h).resolve_right fun h => ?_)
    cases List.mem_singleton.mp h
  · split at h
    · cases h
    · cases List.mem_singleton.mp h

end Machine

/-- What every change does with rights and tasks. -/
structure Lawful (s : System) (i : Instr) (c : Change) : Prop where
  /-- A right is neither lost nor made up. -/
  rights : (c.effects.filterMap Effect.right? ++ c.machine.unregister.toList).Perm
    (s.machine.unregister.toList ++ i.right?.toList)
  /-- A right is used at once. -/
  prompt : ∀ e ∈ c.effects.tail, e.right? = none
  fair : s.handle = true → c.machine.Fair
  aborts : ∀ t, .abort t ∈ c.notices → s.machine.reconnect = some t
  reconnect : c.machine.reconnect = none ∨ c.machine.reconnect = s.machine.reconnect
  retries : i.retries = true → c.effects = []

theorem Machine.lawful_unchanged {s : System} {i : Instr} (free : i.right? = none)
    (fair : s.handle = true → s.machine.Fair) : Lawful s i s.machine.unchanged where
  rights := by rw [free]; exact .of_eq (List.append_nil _).symm
  prompt := nofun
  fair := fair
  aborts := nofun
  reconnect := .inr rfl
  retries _ := rfl

/-- **Every change keeps the right in sight.** -/
theorem Makes.lawful {s : System} {i : Instr} {c : Change} (h : Makes s i c)
    (fair : s.handle = true → s.machine.Fair) : Lawful s i c := by
  cases h with
  | @begin retried handle =>
    unfold Machine.begin
    split
    next => exact Machine.lawful_unchanged rfl fair
    next busy =>
      have idle : s.machine.state = .idle := Decidable.not_not.mp (not_or.mp busy).2
      have none := (fair handle).unregister_eq_none (by rw [idle]; nofun)
      refine ⟨?_, nofun, fun _ => ?_, fun t ht => ?_, .inl rfl, fun _ => rfl⟩
      · simp only [none]
        exact .refl _
      · simp [Machine.Fair, none]
      · dsimp only at ht
        rcases List.mem_append.mp ht with ht | ht
        · split at ht
          · cases ht
          · exact Machine.mem_cancelled ht
        · simp at ht
  | stop =>
    refine ⟨?_, s.machine.prompt_giveUp, fun _ => ?_, fun t ht => ?_, .inl rfl, nofun⟩
    · simp only [Machine.stop, List.filterMap_append, Machine.rights_giveUp, Machine.rights_lost,
        Option.toList_none, List.append_nil]
      exact .of_eq (List.append_nil _).symm
    · simp [Machine.Fair, Machine.stop]
    · refine Machine.mem_cancelled ((List.mem_append.mp ht).resolve_right fun ht => ?_)
      split at ht
      · cases ht
      · cases List.mem_singleton.mp ht
  | @registered generation result handle =>
    cases result with
    | ok h =>
      simp only [Machine.registered]
      split
      next current =>
        have starting : s.machine.state = .starting := by
          simp only [Machine.isCurrent, decide_eq_true_eq] at current
          exact current.2.1
        have none := (fair handle).unregister_eq_none (by rw [starting]; nofun)
        refine ⟨?_, nofun, fun _ => ?_, fun t ht => ?_, .inr rfl, nofun⟩
        · rw [none]
          exact .refl _
        · simp [Machine.Fair]
        · cases List.mem_singleton.mp ht
      next =>
        refine ⟨?_, nofun, fair, nofun, .inr rfl, nofun⟩
        exact (List.perm_append_comm : ([h] ++ s.machine.unregister.toList).Perm _)
    | error why =>
      simp only [Machine.registered]
      split
      next current =>
        have starting : s.machine.state = .starting := by
          simp only [Machine.isCurrent, decide_eq_true_eq] at current
          exact current.2.1
        have none := (fair handle).unregister_eq_none (by rw [starting]; nofun)
        refine ⟨?_, nofun, fun _ => ?_, fun t ht => ?_, .inr ?_, nofun⟩
        · rw [Machine.scheduleRetry_machine]
          exact .of_eq (List.append_nil _).symm
        · rw [Machine.scheduleRetry_machine]
          simp [Machine.Fair, none]
        · simp only [List.mem_cons, reduceCtorEq, false_or] at ht
          exact Machine.mem_scheduleRetry (m := { s.machine with state := .idle }) ht
        · rw [Machine.scheduleRetry_machine]
      next => exact Machine.lawful_unchanged rfl fair
  | @lose generation why =>
    simp only [Machine.lose]
    split
    next =>
      refine ⟨?_, s.machine.prompt_giveUp, fun _ => ?_, fun t ht => ?_, .inr ?_, nofun⟩
      · rw [Machine.scheduleRetry_machine]
        simp only [List.filterMap_append, Machine.rights_giveUp, Machine.rights_lost,
          Option.toList_none, List.append_nil]
        exact .of_eq (List.append_nil _).symm
      · rw [Machine.scheduleRetry_machine]
        simp [Machine.Fair]
      · simp only [List.mem_cons, reduceCtorEq, false_or] at ht
        exact Machine.mem_scheduleRetry
          (m := { s.machine with state := .idle, unregister := none }) ht
      · rw [Machine.scheduleRetry_machine]
    next => exact Machine.lawful_unchanged rfl fair

/-- A watcher that goes gives up what it keeps. -/
theorem System.lawful_dropped (s : System) :
    Lawful { s with handle := false } (.act .drop) s.machine.dropped where
  rights := by
    simp only [Machine.dropped, Machine.rights_giveUp]
    exact .refl _
  prompt e he := by
    rw [Machine.dropped, Machine.tail_giveUp] at he
    cases he
  fair alive := by cases alive
  aborts _ := Machine.mem_cancelled
  reconnect := .inl rfl
  retries h := by cases h

end Supervision.Watcher
