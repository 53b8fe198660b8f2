import Supervision.Broadcast
import Supervision.Proofs.Watcher.Report

/-!
# A watcher on the air

The one who is told whether the daemon is listened to may be a broadcast, which keeps the value that
was published last. If nobody else publishes there, that is the flag told last (`OnAir.last`).

In every run, whatever becomes of the watcher, each flag that is decided is told once, and a
subscription that was gained was lost, but for the one that the machine counts as the present one
(`Aired.balance`). Whoever stops the watcher, disposes of it, or finds its registration lost, has
`false` told. A watcher that is dropped gives up what it keeps and has nothing told: the broadcast
says for good what the watcher was when it was dropped (`Aired.dropped`).
-/

namespace Supervision.Broadcast

variable {b : Broadcast} {x : Action}

/-- True of what publishes a value, or keeps the callback from doing so. -/
def Action.airs : Action → Bool
  | .publish _ | .callback _ | .dropCallback => true
  | _ => false

/-- Whoever does not publish leaves what was published last, and a callback that is there. -/
theorem act_quiet (b : Broadcast) (quiet : x.airs = false) :
    (b.act x).1.last = b.last ∧ (b.callback = true → (b.act x).1.callback = true) := by
  cases x with
  | publish | callback | dropCallback => cases quiet
  | asCallback => simp only [act]; split <;> exact ⟨rfl, fun callback => by simp [callback]⟩
  | subscribe => simp only [act]; split <;> exact ⟨rfl, id⟩
  | unsubscribe | drop => exact ⟨rfl, id⟩
  | receive name =>
    simp only [act, receive]
    cases b.receivers.lookup name <;> exact ⟨rfl, id⟩

end Supervision.Broadcast

namespace Supervision.Watcher

variable {delays : List Nat} {past later older : List Move} {s s' r : System} {i : Instr}
  {a : Answer} {before : List Instr} {t : TaskId} {b : Broadcast} {m : Move}

/-! ## What is on the air -/

/-- The flag that a move tells. -/
def Move.flag? : Move → Option Bool
  | .did _ (.tell flag) _ => some flag
  | _ => none

/-- A broadcast whose callback is told what a watcher tells, and on which nobody else publishes. -/
inductive OnAir : List Move → Broadcast → Prop
  | start (capacity : Nat) : OnAir [] ((Broadcast.new capacity).act .asCallback).1
  | told {past : List Move} {b : Broadcast} {m : Move} {flag : Bool} (air : OnAir past b)
      (tells : m.flag? = some flag) : OnAir (m :: past) (b.act (.callback flag)).1
  | silent {past : List Move} {b : Broadcast} {m : Move} (air : OnAir past b)
      (tells : m.flag? = none) : OnAir (m :: past) b
  /-- Others may listen, and come and go. -/
  | aside {past : List Move} {b : Broadcast} {x : Broadcast.Action} (air : OnAir past b)
      (quiet : x.airs = false) : OnAir past (b.act x).1

theorem told_cons (delays : List Nat) (m : Move) (past : List Move) :
    told delays (m :: past) = m.flag?.toList ++ told delays past := by
  cases m with
  | asked | parked => rfl
  | did t i a =>
    rw [told_did]
    cases i <;> rfl

namespace OnAir

theorem callback (air : OnAir past b) : b.callback = true := by
  induction air with
  | start => rfl
  | told _ _ ih =>
    rw [Broadcast.act, if_pos ih]
    exact ih
  | silent _ _ ih => exact ih
  | aside _ quiet ih => exact (Broadcast.act_quiet _ quiet).2 ih

/-- **The broadcast says what was told last.** -/
theorem last (air : OnAir past b) (delays : List Nat) :
    b.last = (Watcher.told delays past).head?.getD false := by
  induction air with
  | start => rfl
  | told air tells =>
    rw [told_cons, tells, Broadcast.act, if_pos air.callback]
    rfl
  | silent _ tells ih =>
    rw [told_cons, tells]
    exact ih
  | aside _ quiet ih => rw [(Broadcast.act_quiet _ quiet).1, ih]

end OnAir

/-! ## What is gained and what is lost -/

def Event.gains : Event → Bool
  | .gained _ => true
  | _ => false

def Event.loses : Event → Bool
  | .lost _ => true
  | _ => false

theorem counts_due (i : Instr) : i.due?.toList.countP Event.gains = 0 ∧
    i.due?.toList.countP Event.loses = 0 := by
  cases i <;> exact ⟨rfl, rfl⟩

theorem counts_event (m r : Machine) (noted : Bool) :
    (m.event? r noted).toList.countP Event.gains + (decide (m.state = .listening)).toNat =
      (m.event? r noted).toList.countP Event.loses + (decide (r.state = .listening)).toNat := by
  unfold Machine.event?
  split
  next listening =>
    split
    next still => simp [listening, still]
    next other => simp [listening, other, Event.gains, Event.loses]
  next other =>
    split
    next listening => simp [listening, other, Event.gains, Event.loses]
    next silent => split <;> simp [other, silent, Event.gains, Event.loses]

/-- **What was gained was lost**, unless the machine listens. -/
theorem Run.balance (run : Run delays past s) : (events delays past).countP Event.gains =
    (events delays past).countP Event.loses + s.isOperational.toNat := by
  induction run with
  | start => rfl
  | @next past s s' m run step _ ih =>
    cases step with
    | ask | park => exact ih
    | @act _ t task i rest a found next taken =>
      have here := counts_event s.machine s'.machine i.notes
      obtain ⟨gains, loses⟩ := counts_due i
      rw [events_did run (.act found next taken)]
      simp only [List.countP_append, gains, loses, System.isOperational] at ih here ⊢
      omega

/-! ## When the watcher is gone -/

/-- True of instructions of which something may be told when the watcher is gone. -/
def Instr.stirs : Instr → Bool
  | .stop | .tell _ | .deliver .. | .conclude .. | .lose .. => true
  | _ => false

/-- A watcher that was dropped, of which nothing is told any more. -/
structure System.Gone (s : System) : Prop where
  handle : s.handle = false
  calm : s.pool.Every fun _ task => ∀ i ∈ task.stack, i.stirs = false

theorem stirs_acts (as : List Action) : ∀ j ∈ as.map Instr.act, j.stirs = false :=
  List.forall_mem_map.mpr fun _ _ => rfl

theorem stirs_revokes (parts : List (Subscription Unit)) :
    ∀ j ∈ parts.map Instr.revoke, j.stirs = false :=
  List.forall_mem_map.mpr fun _ _ => rfl

theorem Rests.calm {stack : List Instr} (h : Rests stack) : ∀ i ∈ stack, i.stirs = false := by
  cases h <;> simp [Instr.stirs]

/-- What an instruction does when the watcher is gone. -/
theorem Does.gone (h : Does s i a r before) (gone : s.handle = false) (calm : i.stirs = false) :
    r.handle = false ∧ r.pool = s.pool ∧ ∀ j ∈ before, j.stirs = false := by
  cases h with
  | started handle | halted handle | disposed handle | dropped handle | heard handle =>
    rw [gone] at handle
    cases handle
  | told | delivered | renewed | failed => cases calm
  | made makes =>
    cases makes with
    | begin handle | registered handle => rw [gone] at handle; cases handle
    | stop | lose => cases calm
  | lapsed | unheard => exact ⟨gone, rfl, nofun⟩
  | enrolled parts => exact ⟨gone, rfl, stirs_revokes parts⟩
  | emitted | ended | refused => exact ⟨gone, rfl, by simp [Instr.stirs]⟩
  | used | reached => exact ⟨gone, rfl, stirs_acts _⟩
  | meanwhile =>
    refine ⟨gone, rfl, fun j hj => ?_⟩
    rcases List.mem_append.mp hj with hj | hj
    · exact stirs_acts _ j hj
    · rw [List.mem_singleton.mp hj]
      rfl

/-- **Nothing is told when the watcher is gone.** -/
theorem Moves.gone (step : Moves s m s') (gone : s.Gone) : s'.Gone ∧ m.flag? = none := by
  obtain ⟨handle, calm⟩ := gone
  cases step with
  | ask a => exact ⟨⟨handle, calm.spawn (by simp [Instr.stirs])⟩, rfl⟩
  | park => exact ⟨⟨handle, calm.park fun _ _ here => here⟩, rfl⟩
  | @act _ t task i rest a found next taken =>
    obtain ⟨r, before, does, -, rfl⟩ := step_does found next taken
    have plain : ∀ j ∈ i :: rest, j.stirs = false := next ▸ calm _ (Pool.mem_of_get? found)
    have first := plain i List.mem_cons_self
    obtain ⟨handle, pool, plains⟩ := does.gone handle first
    refine ⟨⟨handle, Pool.Every.proceed (pool ▸ calm) fun _ _ _ j hj => ?_⟩, ?_⟩
    · rcases List.mem_append.mp hj with hj | hj
      · exact plains j hj
      · exact plain j (List.mem_cons_of_mem i hj)
    · cases i <;> first | rfl | cases first

/-- **A watcher that is dropped between two turns has nothing told.** -/
theorem Moves.drops (step : Moves s (.did t (.act .drop) a) s') (handle : s.handle = true)
    (rests : ∀ e ∈ s.pool.tasks, Rests e.2.stack) : s'.Gone := by
  cases step with
  | @act _ _ task _ rest _ found next taken =>
    obtain ⟨r, before, exec, -, rfl⟩ := step_exec found next taken
    have here := (rests _ (Pool.mem_of_get? found)).calm
    simp only [next] at here
    cases a with
    | registered | actions => cases exec
    | nothing =>
      have acts : s.act .drop = (r, before) := Option.some.inj exec
      simp only [System.act, handle, if_true] at acts
      obtain ⟨rfl, rfl⟩ := Prod.mk.inj acts
      have noticed := System.noticed_apply { s with handle := false } s.machine.dropped
      refine ⟨noticed.handle, Pool.Every.proceed ?_ fun _ _ _ j hj => ?_⟩
      · refine System.every_notices _ (fun e he => (rests e he).calm) (fun _ _ here => here) ?_
        exact fun _ _ rests => rests.calm
      · rcases List.mem_append.mp hj with hj | hj
        · obtain ⟨e, he, rfl⟩ := List.mem_map.mp hj
          change e ∈ s.machine.giveUp at he
          unfold Machine.giveUp at he
          split at he
          · rw [List.mem_singleton.mp he]
            rfl
          · cases he
        · exact here j (List.mem_cons_of_mem _ hj)

theorem told_of_silent (silent : ∀ m ∈ later, m.flag? = none) :
    told delays (later ++ older) = told delays older := by
  induction later with
  | nil => rfl
  | cons m later ih =>
    rw [List.cons_append, told_cons, silent m List.mem_cons_self]
    exact ih fun m hm => silent m (List.mem_cons_of_mem _ hm)

/-! ## The law -/

/-- What a broadcast says of a watcher. -/
structure Aired (delays : List Nat) (past : List Move) (s : System) (b : Broadcast) : Prop where
  last : b.last = (told delays past).head?.getD false
  /-- Each flag that was decided is told once, or a task is about to tell it, also if the watcher is
  gone. -/
  all : (s.reports ++ told delays past).Perm (decided delays past)
  /-- What was gained was lost, unless the machine counts it as the present subscription. -/
  balance : (events delays past).countP Event.gains =
    (events delays past).countP Event.loses + s.isOperational.toNat
  /-- If flags were told in the order in which they were decided, the broadcast says whether the
  machine listens. -/
  ordered : told delays past = decided delays past → b.last = s.isOperational
  /-- In turns that are taken to their ends, it says for good what the watcher was when it was
  dropped. -/
  dropped : ∀ later t a older, past = later ++ .did t (.act .drop) a :: older →
    (replay delays older).handle = true → orderly delays older = true →
    (∀ e ∈ (replay delays older).pool.tasks, e.2.parked = true) →
    b.last = (replay delays older).isOperational

/-- **A broadcast says what the watcher was when it was dropped.** -/
theorem aired_of_run (run : Run delays past s) (air : OnAir past b) : Aired delays past s b where
  last := air.last delays
  all := run.reports
  balance := run.balance
  ordered inOrder := by
    rw [air.last delays, inOrder]
    exact run.latest
  dropped := by
    rintro later t a older rfl handle turns parked
    have before := run.before
    have gone := run.step.drops handle fun e he => (before.seated e he).2 (parked e he)
    have silent : ∀ m ∈ later, m.flag? = none := fun m hm => by
      obtain ⟨_, _, _, -, step, gone⟩ :=
        (run.since (fun _ _ _ _ _ _ step gone => (step.gone gone).1) gone).2 m hm
      exact (step.gone gone).2
    have exact := before.exact turns handle
    rw [System.reports, System.due, before.work_of_rest late_due parked] at exact
    rw [air.last delays, told_of_silent silent, told_cons]
    show (told delays older).head?.getD false = _
    rw [show told delays older = decided delays older from exact]
    exact before.latest

/-- A watcher that is dropped while it listens, and gives up what it keeps. -/
theorem aired_of_drop_while_listening : ∃ past s b, Run [] past s ∧ OnAir past b ∧
    s.handle = false ∧ s.pool.tasks = [] ∧ unused past = [] ∧ told [] past = [true] ∧
    b.last = true ∧ Aired [] past s b := by
  have asked := (Run.start : Run [] [] (.initial [])).next (.ask _ .start) nofun
  have started := asked.next (.act (t := 0) (a := .nothing) rfl rfl rfl) nofun
  have begun := started.next (.act (t := 0) (a := .nothing) rfl rfl rfl) nofun
  have granted := begun.next (.act (t := 1) (a := .registered (.ok 0)) rfl rfl rfl) nofun
  have listening := granted.next (.act (t := 1) (a := .nothing) rfl rfl rfl) nofun
  have told := listening.next (.act (t := 1) (a := .actions []) rfl rfl rfl) nofun
  have asked := told.next (.ask _ .drop) nofun
  have dropped := asked.next (.act (t := 2) (a := .nothing) rfl rfl rfl) nofun
  have gaveUp := dropped.next (.act (t := 2) (a := .actions []) rfl rfl rfl) nofun
  have air : OnAir [.did 2 (.unregister 0) (.actions []), .did 2 (.act .drop) .nothing, .asked .drop,
      .did 1 (.tell true) (.actions []), .did 1 (.registered 1 (.ok 0)) .nothing,
      .did 1 (.register 1) (.registered (.ok 0)), .did 0 (.begin false) .nothing,
      .did 0 (.act .start) .nothing, .asked .start] _ :=
    .silent (.silent (.silent (.told (.silent (.silent (.silent (.silent (.silent (.start 16)
      rfl) rfl) rfl) rfl) rfl) rfl) rfl) rfl) rfl
  exact ⟨_, _, _, gaveUp, air, rfl, rfl, rfl, rfl, rfl, aired_of_run gaveUp air⟩

end Supervision.Watcher
