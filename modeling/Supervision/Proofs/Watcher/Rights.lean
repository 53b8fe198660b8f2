import Supervision.Proofs.Watcher.Run
import Mathlib.Data.List.Perm.Basic

/-!
# Every right is used once

What the daemon grants is the right to give up a registration. A watcher must use every right it was
granted, and use none twice: a right that is lost is a registration that the daemon keeps for
nobody. The law is a ledger. In every run, the rights that were granted are those that were used,
the one the machine keeps, and those that tasks have in hand.

The invariant (`Sound`) carries the ledger together with what keeps it: the machine keeps a right
exactly while it is listening, and a task that may be aborted has no right in hand. A task uses a
right before it does anything else (`System.Tidy.prompt`); no code of a user runs in between in that
task, though other tasks may come between.

The law does not say that a task gets its turn.
-/

namespace Supervision.Watcher

/-! ## What becomes of the tasks -/

/-- What is true of the tasks of a watcher. `tries` is the task that tried again before a change of
the machine, while the change is made. -/
structure System.Tidy (tries : Option TaskId) (s : System) : Prop where
  numbered : s.pool.Numbered
  known : ∀ t, tries = some t ∨ s.machine.reconnect = some t → t < s.pool.next
  /-- A task that is or may be aborted does nothing but try again. -/
  calm : s.pool.Every fun t task =>
    task.aborted = true ∨ tries = some t ∨ s.machine.reconnect = some t →
      ∀ i ∈ task.stack, i.retries = true
  /-- A right in hand is used before anything else is done. -/
  prompt : s.pool.Every fun _ task => ∀ i ∈ task.stack.tail, i.right? = none
  /-- A task between two turns has no right in hand. -/
  resting : s.pool.Every fun _ task => task.parked = true → ∀ i ∈ task.stack, i.right? = none

/-- What changes when others take note of a change of the machine: tasks come, or are aborted. -/
structure System.Noticed (s r : System) : Prop where
  machine : r.machine = { s.machine with reconnect := r.machine.reconnect }
  handle : r.handle = s.handle
  delays : r.delays = s.delays
  work : r.pool.work Instr.right? = s.pool.work Instr.right?
  mem : ∀ {t : TaskId} {task : Task Instr}, (t, task) ∈ s.pool.tasks →
    ∃ aborted, (t, { task with aborted := aborted }) ∈ r.pool.tasks

theorem Instr.right?_of_retries {i : Instr} (h : i.retries = true) : i.right? = none := by
  cases i <;> first | rfl | cases h

theorem Instr.right?_of_waits {i : Instr} (h : i.waits = true) : i.right? = none := by
  cases i <;> first | rfl | cases h

namespace System

variable {s r : System} {tries : Option TaskId} {n : Notice}

theorem Noticed.state (h : s.Noticed r) : r.machine.state = s.machine.state := by rw [h.machine]

theorem Noticed.unregister (h : s.Noticed r) : r.machine.unregister = s.machine.unregister := by
  rw [h.machine]

theorem noticed_refl (s : System) : s.Noticed s :=
  ⟨rfl, rfl, rfl, rfl, fun hmem => ⟨_, hmem⟩⟩

theorem Noticed.trans {q : System} (h : s.Noticed r) (k : r.Noticed q) : s.Noticed q where
  machine := k.machine.trans (by rw [h.machine])
  handle := k.handle.trans h.handle
  delays := k.delays.trans h.delays
  work := k.work.trans h.work
  mem hmem := by
    obtain ⟨first, hmem⟩ := h.mem hmem
    obtain ⟨second, hmem⟩ := k.mem hmem
    exact ⟨second, hmem⟩

theorem noticed_notice (s : System) (n : Notice) : s.Noticed (s.notice n) := by
  cases n with
  | entered before after => exact ⟨rfl, rfl, rfl, rfl, fun hmem => ⟨_, hmem⟩⟩
  | logged level text => exact ⟨rfl, rfl, rfl, rfl, fun hmem => ⟨_, hmem⟩⟩
  | register generation =>
    refine ⟨rfl, rfl, rfl, ?_, fun hmem => ⟨_, List.mem_append_left _ hmem⟩⟩
    exact (Pool.work_spawn s.pool none [.register generation]).trans (List.append_nil _)
  | retry delay =>
    refine ⟨rfl, rfl, rfl, ?_, fun hmem => ⟨_, List.mem_append_left _ hmem⟩⟩
    exact (Pool.work_spawn s.pool none [.sleep delay, .begin true]).trans (List.append_nil _)
  | abort k =>
    refine ⟨rfl, rfl, rfl, Pool.work_abort s.pool k, fun {t task} hmem => ?_⟩
    by_cases ht : t = k
    · exact ⟨true, Pool.mem_modify.mpr ⟨task, hmem, by simp [ht]⟩⟩
    · exact ⟨task.aborted, Pool.mem_modify.mpr ⟨task, hmem, by simp [ht]⟩⟩

theorem noticed_notices (s : System) (ns : List Notice) : s.Noticed (ns.foldl notice s) := by
  induction ns generalizing s with
  | nil => exact s.noticed_refl
  | cons n ns ih => exact (s.noticed_notice n).trans (ih (s.notice n))

/-- A new task without a right in hand does not disturb the order. -/
theorem Tidy.spawn (h : s.Tidy tries) {stack : List Instr} (free : ∀ i ∈ stack, i.right? = none) :
    (s.spawn stack).Tidy tries := by
  refine ⟨h.numbered.spawn _ _, fun t ht => Nat.lt_succ_of_lt (h.known t ht), ?_, ?_, ?_⟩
  · refine h.calm.spawn fun mine => ?_
    rcases mine with aborted | mine
    · cases aborted
    · exact absurd (h.known s.pool.next mine) (Nat.lt_irrefl _)
  · exact h.prompt.spawn fun i hi => free i (List.mem_of_mem_tail hi)
  · exact h.resting.spawn fun _ => free

/-- The tasks stay in order, if none is aborted but the one that tried again. -/
theorem Tidy.notice (h : s.Tidy tries) (aborts : ∀ t, n = .abort t → tries = some t) :
    (s.notice n).Tidy tries := by
  cases n with
  | entered before after => exact ⟨h.numbered, h.known, h.calm, h.prompt, h.resting⟩
  | logged level text => exact ⟨h.numbered, h.known, h.calm, h.prompt, h.resting⟩
  | register generation => exact h.spawn (by simp [Instr.right?])
  | retry delay =>
    have spawned : (s.spawn [.sleep delay, .begin true]).Tidy tries :=
      h.spawn (by simp [Instr.right?])
    refine ⟨h.numbered.spawn _ _, fun t ht => ?_, ?_, spawned.prompt, spawned.resting⟩
    · rcases ht with ht | ht
      · exact Nat.lt_succ_of_lt (h.known t (.inl ht))
      · obtain rfl := Option.some.inj ht
        exact Nat.lt_succ_self _
    · intro e he
      rcases List.mem_append.mp he with he | he
      · rintro (aborted | mine | mine)
        · exact h.calm e he (.inl aborted)
        · exact h.calm e he (.inr (.inl mine))
        · have below := h.numbered.below e he
          rw [← Option.some.inj mine] at below
          exact absurd below (Nat.lt_irrefl _)
      · rw [List.mem_singleton.mp he]
        simp [Instr.retries]
  | abort k =>
    refine ⟨h.numbered.abort k, h.known, ?_, ?_, ?_⟩
    · exact h.calm.abort fun task hmem _ _ => h.calm (k, task) hmem (.inr (.inl (aborts k rfl)))
    · exact h.prompt.abort fun _ _ prompt => prompt
    · exact h.resting.abort fun _ _ resting => resting

theorem Tidy.notices {ns : List Notice} (h : s.Tidy tries)
    (aborts : ∀ t, .abort t ∈ ns → tries = some t) : (ns.foldl System.notice s).Tidy tries := by
  induction ns generalizing s with
  | nil => exact h
  | cons n ns ih =>
    refine ih (h.notice fun t heq => ?_) fun t hmem => aborts t (List.mem_cons_of_mem n hmem)
    exact aborts t (heq ▸ List.mem_cons_self)

/-- The task that tried again may be forgotten. -/
theorem Tidy.forget (h : s.Tidy tries) : s.Tidy none :=
  ⟨h.numbered, fun t ht => h.known t (.inr (ht.resolve_left nofun)),
    fun e he mine => h.calm e he (mine.imp_right fun mine => .inr (mine.resolve_left nofun)),
    h.prompt, h.resting⟩

/-- The tasks stay in order when a change is applied. -/
theorem Tidy.apply {c : Change} (h : s.Tidy none)
    (aborts : ∀ t, .abort t ∈ c.notices → s.machine.reconnect = some t)
    (reconnect : c.machine.reconnect = none ∨ c.machine.reconnect = s.machine.reconnect) :
    (s.apply c).1.Tidy none := by
  have same (t : TaskId) (mine : s.machine.reconnect = some t ∨ c.machine.reconnect = some t) :
      s.machine.reconnect = some t := by
    rcases mine with mine | mine
    · exact mine
    · rcases reconnect with none | same
      · rw [none] at mine
        cases mine
      · rw [← same, mine]
  have changed : System.Tidy s.machine.reconnect { s with machine := c.machine } :=
    ⟨h.numbered, fun t ht => h.known t (.inr (same t ht)),
      fun e he mine => h.calm e he (mine.imp_right fun mine => .inr (same e.1 mine)),
      h.prompt, h.resting⟩
  exact (changed.notices aborts).forget

end System

/-! ## What an instruction does with the rights -/

variable {past : List Move} {s s' r : System} {i : Instr} {a : Answer} {before : List Instr}

/-- What an instruction does with the rights, and with what keeps them in sight. -/
structure Carries (s : System) (i : Instr) (a : Answer) (r : System) (before : List Instr) :
    Prop where
  tidy : r.Tidy none
  fair : r.handle = true → r.machine.Fair
  gone : r.handle = false → r.machine.unregister = none
  work : r.pool.work Instr.right? = s.pool.work Instr.right?
  mem : ∀ {t : TaskId} {task : Task Instr}, (t, task) ∈ s.pool.tasks →
    ∃ aborted, (t, { task with aborted := aborted }) ∈ r.pool.tasks
  prompt : ∀ j ∈ before.tail, j.right? = none
  retries : i.retries = true → before = []
  /-- What it leaves and uses is what was there, what it had in hand, and what is granted. -/
  rights : (before.filterMap Instr.right? ++ r.machine.unregister.toList ++ i.use?.toList).Perm
    (s.machine.unregister.toList ++ i.right?.toList ++ (i.grant? a).toList)

theorem Instr.use?_of_free (h : i.right? = none) : i.use? = none := by
  cases i <;> first | rfl | cases h

/-- The rights in the effects of a change are the rights in what is to be done. -/
theorem rights_instrFor (es : List Effect) :
    (es.map System.instrFor).filterMap Instr.right? = es.filterMap Effect.right? := by
  rw [List.filterMap_map]
  refine List.filterMap_congr fun e _ => ?_
  cases e <;> rfl

/-- What comes of a change, when the rights are in sight before and after. -/
theorem carries_apply {c : Change} (tidy : s.Tidy none) (lawful : Lawful s i c)
    (gone : s.handle = false → c.machine.unregister = none) (unused : i.use? = none)
    (ungranted : i.grant? .nothing = none) :
    Carries s i .nothing (s.apply c).1 (s.apply c).2 := by
  have noticed : System.Noticed { s with machine := c.machine } (s.apply c).1 :=
    System.noticed_notices _ _
  refine ⟨tidy.apply lawful.aborts lawful.reconnect, fun handle => ?_, fun handle => ?_,
    noticed.work, noticed.mem, fun j hj => ?_, fun h => ?_, ?_⟩
  · rw [Machine.Fair, noticed.unregister, noticed.state]
    exact lawful.fair (noticed.handle ▸ handle)
  · rw [noticed.unregister]
    exact gone (noticed.handle ▸ handle)
  · rw [System.apply, ← List.map_tail] at hj
    obtain ⟨e, he, rfl⟩ := List.mem_map.mp hj
    have free := lawful.prompt e he
    cases e with
    | unregister h => cases free
    | tell flag => rfl
  · rw [System.apply, lawful.retries h, List.map_nil]
  · rw [noticed.unregister, unused, ungranted, Option.toList_none, List.append_nil, List.append_nil]
    simp only [System.apply, rights_instrFor]
    exact lawful.rights

/-- **No instruction loses a right or makes one up.** -/
theorem Effected.carries (h : Effected s i a r before) (tidy : s.Tidy none)
    (fair : s.handle = true → s.machine.Fair)
    (gone : s.handle = false → s.machine.unregister = none) : Carries s i a r before := by
  cases h with
  | aside alike free frees ungranted retries =>
    have unregister : r.machine.unregister = s.machine.unregister := by rw [alike.machine]
    have state : r.machine.state = s.machine.state := by rw [alike.machine]
    have reconnect : r.machine.reconnect = s.machine.reconnect := by rw [alike.machine]
    refine ⟨?_, fun handle => ?_, fun handle => ?_, by rw [alike.pool], fun hmem => ?_,
      fun j hj => frees j (List.mem_of_mem_tail hj), retries, ?_⟩
    · obtain ⟨numbered, known, calm, prompt, resting⟩ := tidy
      exact ⟨alike.pool ▸ numbered, by rw [alike.pool, reconnect]; exact known,
        by rw [alike.pool, reconnect]; exact calm, alike.pool ▸ prompt, alike.pool ▸ resting⟩
    · rw [Machine.Fair, unregister, state]
      exact fair (alike.handle ▸ handle)
    · rw [unregister]
      exact gone (alike.handle ▸ handle)
    · exact ⟨_, alike.pool ▸ hmem⟩
    · rw [List.filterMap_eq_nil_iff.mpr frees, unregister, Instr.use?_of_free free, free, ungranted]
      simp
  | @made _ c makes =>
    have lawful := makes.lawful fair
    have unused : i.use? = none := by cases makes <;> rfl
    have ungranted : i.grant? .nothing = none := by cases makes <;> rfl
    refine carries_apply tidy lawful (fun handle => ?_) unused ungranted
    -- Without a handle nothing is registered any more, so no right comes from outside.
    have free : i.right? = none := by
      cases makes with
      | registered alive => rw [handle] at alive; cases alive
      | _ => rfl
    have rights := lawful.rights
    rw [gone handle, free] at rights
    have none := (List.append_eq_nil_iff.mp rights.eq_nil).2
    exact Option.toList_eq_nil_iff.mp none
  | dropped =>
    have cut : System.Tidy none { s with handle := false } :=
      ⟨tidy.numbered, tidy.known, tidy.calm, tidy.prompt, tidy.resting⟩
    have carries := carries_apply cut s.lawful_dropped (fun _ => rfl) rfl rfl
    exact ⟨carries.tidy, carries.fair, carries.gone, carries.work, carries.mem, carries.prompt,
      carries.retries, carries.rights⟩
  | @ended generation result =>
    refine ⟨tidy, fair, gone, rfl, fun hmem => ⟨_, hmem⟩, by simp, by simp [Instr.retries], ?_⟩
    cases result with
    | ok h =>
      have swap : ([h] ++ s.machine.unregister.toList).Perm (s.machine.unregister.toList ++ [h]) :=
        List.perm_append_comm
      simp only [Instr.use?, Instr.right?, Option.toList_none, List.append_nil]
      exact swap
    | error why => exact .of_eq (by simp [Instr.right?, Instr.use?, Instr.grant?])
  | @refused generation h handle =>
    refine ⟨tidy, fair, gone, rfl, fun hmem => ⟨_, hmem⟩, by simp, by simp [Instr.retries], ?_⟩
    simp only [Instr.use?, Instr.grant?, Option.toList_none, List.append_nil]
    exact (List.perm_append_comm : ([h] ++ s.machine.unregister.toList).Perm _)
  | @used h as =>
    refine ⟨tidy, fair, gone, rfl, fun hmem => ⟨_, hmem⟩,
      fun j hj => right?_acts as j (List.mem_of_mem_tail hj), by simp [Instr.retries], ?_⟩
    rw [List.filterMap_eq_nil_iff.mpr (right?_acts as)]
    exact .of_eq (by simp [Instr.right?, Instr.use?, Instr.grant?])

/-! ## The ledger -/

/-- The invariant: what was granted was used, or is in sight. -/
structure Sound (past : List Move) (s : System) : Prop where
  tidy : s.Tidy none
  fair : s.handle = true → s.machine.Fair
  gone : s.handle = false → s.machine.unregister = none
  distinct : (granted past).Nodup
  ledger : (granted past).Perm
    (used past ++ (s.machine.unregister.toList ++ s.pool.work Instr.right?))

theorem granted_cons (m : Move) (past : List Move) :
    granted (m :: past) = m.grant?.toList ++ granted past := by
  unfold granted
  cases h : m.grant? <;> simp [h]

theorem used_cons (m : Move) (past : List Move) :
    used (m :: past) = m.use?.toList ++ used past := by
  unfold used
  cases h : m.use? <;> simp [h]

namespace Sound

theorem initial (delays : List Nat) : Sound [] (.initial delays) where
  tidy := by
    refine ⟨Pool.numbered_empty, fun t ht => ?_, Pool.every_empty, Pool.every_empty,
      Pool.every_empty⟩
    rcases ht with ht | ht <;> cases ht
  fair _ := by simp [Machine.Fair, System.initial, Machine.initial]
  gone := nofun
  distinct := List.nodup_nil
  ledger := .refl _

theorem ask (h : Sound past s) (a : Action) : Sound (.asked a :: past) (s.spawn [.act a]) where
  tidy := h.tidy.spawn (by simp [Instr.right?])
  fair := h.fair
  gone := h.gone
  distinct := h.distinct
  ledger := by
    have work : (s.spawn [.act a]).pool.work Instr.right? = s.pool.work Instr.right? :=
      (Pool.work_spawn s.pool none [.act a]).trans (List.append_nil _)
    rw [work]
    exact h.ledger

theorem act (h : Sound past s) {t : TaskId} {task : Task Instr} {rest : List Instr}
    (found : s.pool.get? t = some task) (next : task.stack = i :: rest)
    (taken : s.step t a = some s') (new : ∀ h, i.grant? a = some h → h ∉ granted past) :
    Sound (.did t i a :: past) s' := by
  obtain ⟨r, before, effected, -, rfl⟩ := step_cases found next taken
  have carries := effected.carries h.tidy h.fair h.gone
  obtain ⟨aborted, hmem⟩ := carries.mem (Pool.mem_of_get? found)
  have there := Pool.get?_of_mem carries.tidy.numbered hmem
  refine ⟨⟨carries.tidy.numbered.proceed _ _, fun k hk => ?_, ?_, ?_, ?_⟩, carries.fair,
    carries.gone, ?_, ?_⟩
  · rw [System.proceed, Pool.next_proceed]
    exact carries.tidy.known k hk
  · refine carries.tidy.calm.proceed fun other hother _ mine => ?_
    obtain rfl := carries.tidy.numbered.unique hmem hother
    have calm := carries.tidy.calm _ hmem mine
    simp only [next] at calm
    rw [carries.retries (calm i List.mem_cons_self)]
    exact fun j hj => calm j (List.mem_cons_of_mem i hj)
  · refine carries.tidy.prompt.proceed fun _ _ _ j hj => ?_
    have rested : ∀ j ∈ rest, j.right? = none := by
      have prompt := h.tidy.prompt _ (Pool.mem_of_get? found)
      simpa only [next, List.tail_cons] using prompt
    cases before with
    | nil => exact rested j (List.mem_of_mem_tail hj)
    | cons first before =>
      rcases List.mem_append.mp hj with hj | hj
      · exact carries.prompt j hj
      · exact rested j hj
  · exact carries.tidy.resting.proceed nofun
  · rw [granted_cons]
    cases grant : (Move.did t i a).grant? with
    | none => exact h.distinct
    | some right => exact List.nodup_cons.mpr ⟨new right grant, h.distinct⟩
  · rw [granted_cons, used_cons]
    have step := Pool.work_proceed (f := Instr.right?) carries.tidy.numbered there next before
    rw [carries.work] at step
    -- Three balances, right by right: of the past, of the instruction, and of the task's stack.
    refine List.perm_iff_count.mpr fun b => ?_
    have ledger := List.perm_iff_count.mp h.ledger b
    have rights := List.perm_iff_count.mp carries.rights b
    have step := List.perm_iff_count.mp step b
    simp only [List.count_append, Move.grant?, Move.use?, System.proceed] at ledger rights step ⊢
    omega

theorem park (h : Sound past s) {t : TaskId} {task : Task Instr} {rest : List Instr}
    (found : s.pool.get? t = some task) (next : task.stack = i :: rest) (waits : i.waits = true) :
    Sound (.parked t :: past) (s.park t) where
  tidy := by
    -- A task rests only where it waits, and what comes after the first instruction has no right.
    obtain ⟨numbered, known, calm, prompt, resting⟩ := h.tidy
    refine ⟨numbered.park t, fun k hk => ?_, ?_, ?_, ?_⟩
    · rw [System.park, Pool.next_park]
      exact known k hk
    · exact calm.park fun _ _ calm mine => calm mine
    · exact prompt.park fun _ _ prompt => prompt
    · refine resting.park fun other hother _ _ j hj => ?_
      obtain rfl := numbered.unique (Pool.mem_of_get? found) hother
      have rested := prompt _ hother
      simp only [next, List.tail_cons] at rested hj
      rcases List.mem_cons.mp hj with rfl | hj
      · exact Instr.right?_of_waits waits
      · exact rested j hj
  fair := h.fair
  gone := h.gone
  distinct := h.distinct
  ledger := by
    have work : (s.park t).pool.work Instr.right? = s.pool.work Instr.right? := by
      refine Pool.work_park h.tidy.numbered fun task hmem aborted => ?_
      refine List.filterMap_eq_nil_iff.mpr fun i hi => Instr.right?_of_retries ?_
      exact h.tidy.calm _ hmem (.inl aborted) i hi
    rw [work]
    exact h.ledger

/-- **The invariant holds in every run.** -/
theorem of_run {delays : List Nat} (run : Run delays past s) : Sound past s := by
  induction run with
  | start => exact initial delays
  | next _ step new ih =>
    cases step with
    | ask _ => exact ih.ask _
    | act found next taken => exact ih.act found next taken new
    | park found next waits => exact ih.park found next waits

end Sound

/-! ## The law -/

/-- The rights that were granted and have not been used. -/
def unused (past : List Move) : List HandleId :=
  (granted past).filter (· ∉ used past)

/-- The registration that an instruction belongs to, before its end was taken note of. -/
def Instr.registration? : Instr → Option Nat
  | .register generation | .registered generation _ => some generation
  | _ => none

/-- The rights that were not used are those that are in sight. -/
theorem Sound.unused_perm (h : Sound past s) :
    (unused past).Perm (s.machine.unregister.toList ++ s.pool.work Instr.right?) := by
  have distinct := h.ledger.nodup_iff.mp h.distinct
  have apart := List.disjoint_of_nodup_append distinct
  have none : (used past).filter (· ∉ used past) = [] :=
    List.filter_eq_nil_iff.mpr fun b hb => by simpa using hb
  have all {l : List HandleId} (h : List.Disjoint (used past) l) :
      l.filter (· ∉ used past) = l :=
    List.filter_eq_self.mpr fun b hb => by simpa using fun hmem => h hmem hb
  have split := h.ledger.filter (· ∉ used past)
  rw [List.filter_append, none, List.nil_append, all apart] at split
  exact split

/-- What the machine keeps of rights: one while the watcher exists and is listening. -/
theorem Sound.kept (h : Sound past s) : s.machine.unregister.toList.length =
    if s.handle = true ∧ s.machine.state = .listening then 1 else 0 := by
  cases handle : s.handle with
  | false =>
    rw [h.gone handle]
    rfl
  | true =>
    by_cases listening : s.machine.state = .listening
    · obtain ⟨right, held⟩ := Option.isSome_iff_exists.mp ((h.fair handle).mpr listening)
      rw [held, if_pos ⟨rfl, listening⟩]
      rfl
    · rw [(h.fair handle).unregister_eq_none listening, if_neg fun both => listening both.2]
      rfl

/-- Without a registration under way, tasks have in hand what they are about to use. -/
theorem work_right? (p : Pool Instr) (none : p.work Instr.registration? = []) :
    p.work Instr.right? = p.work Instr.use? := by
  refine Pool.work_congr fun e he i hi => ?_
  cases i with
  | registered generation result =>
    have hmem : generation ∈ p.work Instr.registration? := Pool.mem_work.mpr ⟨e, he, _, hi, rfl⟩
    rw [none] at hmem
    cases hmem
  | _ => rfl

/-- What the law says of the rights. -/
structure Balanced (past : List Move) (s : System) : Prop where
  /-- As long as the watcher exists, the machine keeps a right exactly while it is listening. -/
  fair : s.handle = true → (s.machine.unregister.isSome = true ↔ s.machine.state = .listening)
  gone : s.handle = false → s.machine.unregister = none
  /-- No right is used twice. -/
  once : (used past).Nodup
  /-- None is used that was not granted. -/
  lawful : ∀ h ∈ used past, h ∈ granted past
  /-- The others are kept by the machine, or tasks have them in hand. -/
  sight : (unused past).Perm (s.machine.unregister.toList ++ s.pool.work Instr.right?)
  /-- While no registration is under way, one right is left if the watcher exists and is listening,
  and none otherwise, not counting those that are about to be used. -/
  count : s.pool.work Instr.registration? = [] → (unused past).length =
    (if s.handle = true ∧ s.machine.state = .listening then 1 else 0) +
      (s.pool.work Instr.use?).length
  /-- A right that is about to be used is used by the next step of a task, which is not aborted. -/
  prompt : ∀ e ∈ s.pool.tasks, ∀ h, .unregister h ∈ e.2.stack →
    e.2.aborted = false ∧ ∃ rest, e.2.stack = .unregister h :: rest
  /-- Between two turns nothing is about to be used, whatever is under way. -/
  rest : (∀ e ∈ s.pool.tasks, e.2.parked = true) → (unused past).length =
    if s.handle = true ∧ s.machine.state = .listening then 1 else 0

/-- **Every right is used once, and one is kept exactly while it is needed.** -/
theorem balanced_of_run {delays : List Nat} (run : Run delays past s) : Balanced past s := by
  have sound := Sound.of_run run
  have length := sound.unused_perm.length_eq
  rw [List.length_append, sound.kept] at length
  refine ⟨sound.fair, sound.gone, ?_, fun h hmem => ?_, sound.unused_perm, fun none => ?_,
    fun e he h hmem => ?_, fun parked => ?_⟩
  · exact (List.nodup_append.mp (sound.ledger.nodup_iff.mp sound.distinct)).1
  · exact sound.ledger.mem_iff.mpr (List.mem_append_left _ hmem)
  · rw [← work_right? s.pool none]
    exact length
  · constructor
    · refine Bool.eq_false_iff.mpr fun aborted => ?_
      have retries := sound.tidy.calm e he (.inl aborted) _ hmem
      cases retries
    · have prompt : ∀ i ∈ e.2.stack.tail, i.right? = none := sound.tidy.prompt e he
      cases stack : e.2.stack with
      | nil => rw [stack] at hmem; cases hmem
      | cons i rest =>
        rw [stack] at hmem prompt
        rcases List.mem_cons.mp hmem with rfl | hmem
        · exact ⟨rest, rfl⟩
        · cases prompt _ hmem
  · have none : s.pool.work Instr.right? = [] := List.eq_nil_iff_forall_not_mem.mpr fun b hb => by
      obtain ⟨e, he, i, hi, right⟩ := Pool.mem_work.mp hb
      rw [sound.tidy.resting e he (parked e he) i hi] at right
      cases right
    rw [none, List.length_nil, Nat.add_zero] at length
    exact length

/-- A watcher that came to listen and is stopped: the right it kept is about to be used. -/
theorem balanced_of_first_stop : ∃ past s, Run [] past s ∧ s.machine.state = .idle ∧
    unused past = [0] ∧ s.pool.work Instr.use? = [0] ∧ Balanced past s := by
  have asked := (Run.start : Run [] [] (.initial [])).next (.ask _ .start) nofun
  have started := asked.next (.act (t := 0) (a := .nothing) rfl rfl rfl) nofun
  have begun := started.next (.act (t := 0) (a := .nothing) rfl rfl rfl) nofun
  have granted := begun.next (.act (t := 1) (a := .registered (.ok 0)) rfl rfl rfl) nofun
  have listening := granted.next (.act (t := 1) (a := .nothing) rfl rfl rfl) nofun
  have told := listening.next (.act (t := 1) (a := .actions [.stop]) rfl rfl rfl) nofun
  have asked := told.next (.act (t := 1) (a := .nothing) rfl rfl rfl) nofun
  have stopped := asked.next (.act (t := 1) (a := .nothing) rfl rfl rfl) nofun
  exact ⟨_, _, stopped, rfl, rfl, rfl, balanced_of_run stopped⟩

end Supervision.Watcher
