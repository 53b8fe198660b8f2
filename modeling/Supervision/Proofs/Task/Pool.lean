import Supervision.Task.Pool
import Mathlib.Data.List.Nodup

/-!
# What tasks have in hand

A step of a task replaces its first instruction, while other tasks may be aborted and new ones may
come. The laws here say what such a step leaves of two views of a pool: of a property that every
task has (`Every`), and of the instructions that one is interested in, wherever they are (`work`).

`work_proceed` is the ledger of a step: what was there and what the step brings is what is left and
what the step has used up. It needs that the numbers of tasks are distinct (`Numbered`), which no
operation on a pool changes.
-/

namespace Supervision.Pool

variable {ι β : Type}

/-! ## Numbers -/

/-- Every task has a number of its own, and the next number is new. -/
structure Numbered (p : Pool ι) : Prop where
  distinct : (p.tasks.map (·.1)).Nodup
  below : ∀ e ∈ p.tasks, e.1 < p.next

theorem numbered_empty : (empty : Pool ι).Numbered :=
  ⟨List.nodup_nil, fun _ h => absurd h List.not_mem_nil⟩

/-- Changing one task leaves the numbers as they are. -/
theorem map_fst_modify (p : Pool ι) (t : TaskId) (f : Task ι → Task ι) :
    (p.modify t f).tasks.map (·.1) = p.tasks.map (·.1) := by
  simp only [modify, List.map_map]
  refine List.map_congr_left fun e _ => ?_
  simp only [Function.comp_apply]
  split <;> rfl

/-- A task of a changed pool is a task of the pool, changed if it is the one. -/
theorem mem_modify {p : Pool ι} {t : TaskId} {f : Task ι → Task ι} {e : TaskId × Task ι} :
    e ∈ (p.modify t f).tasks ↔
      ∃ task, (e.1, task) ∈ p.tasks ∧ e.2 = if e.1 = t then f task else task := by
  simp only [modify, List.mem_map]
  constructor
  · rintro ⟨⟨k, task⟩, hmem, rfl⟩
    by_cases hk : k = t
    · exact ⟨task, by simpa only [if_pos hk] using hmem, by simp only [if_pos hk]⟩
    · exact ⟨task, by simpa only [if_neg hk] using hmem, by simp only [if_neg hk]⟩
  · rintro ⟨task, hmem, heq⟩
    refine ⟨(e.1, task), hmem, ?_⟩
    by_cases hk : e.1 = t
    · rw [if_pos hk] at heq
      simp only [if_pos hk, ← heq]
    · rw [if_neg hk] at heq
      simp only [if_neg hk, ← heq]

theorem Numbered.modify {p : Pool ι} (h : p.Numbered) (t : TaskId) (f : Task ι → Task ι) :
    (p.modify t f).Numbered := by
  refine ⟨by rw [map_fst_modify]; exact h.distinct, fun e he => ?_⟩
  obtain ⟨task, hmem, -⟩ := mem_modify.mp he
  exact h.below (e.1, task) hmem

theorem Numbered.remove {p : Pool ι} (h : p.Numbered) (t : TaskId) : (p.remove t).Numbered :=
  ⟨h.distinct.sublist (List.filter_sublist.map _),
    fun e he => h.below e (List.mem_filter.mp he).1⟩

theorem Numbered.spawn {p : Pool ι} (h : p.Numbered) (caller : Option String) (stack : List ι) :
    (p.spawn caller stack).Numbered := by
  constructor
  · have fresh : p.next ∉ p.tasks.map (·.1) := fun hmem => by
      obtain ⟨e, he, heq⟩ := List.mem_map.mp hmem
      exact absurd (h.below e he) (by rw [heq]; exact Nat.lt_irrefl _)
    simp only [Pool.spawn, List.map_append, List.map_cons, List.map_nil]
    exact (List.nodup_append.mpr ⟨h.distinct, List.nodup_singleton _, fun a ha b hb =>
      by rw [List.mem_singleton.mp hb]; exact fun hab => fresh (hab ▸ ha)⟩)
  · intro e he
    rcases List.mem_append.mp he with he | he
    · exact Nat.lt_succ_of_lt (h.below e he)
    · rw [List.mem_singleton.mp he]
      exact Nat.lt_succ_self _

theorem Numbered.abort {p : Pool ι} (h : p.Numbered) (t : TaskId) : (p.abort t).Numbered :=
  h.modify t _

theorem Numbered.proceed {p : Pool ι} (h : p.Numbered) (t : TaskId) (stack : List ι) :
    (p.proceed t stack).Numbered := by
  unfold Pool.proceed
  split
  · exact h.remove t
  · exact h.modify t _

theorem Numbered.park {p : Pool ι} (h : p.Numbered) (t : TaskId) : (p.park t).Numbered := by
  unfold Pool.park
  split
  · split
    · exact h.remove t
    · exact h.modify t _
  · exact h

@[simp] theorem next_proceed (p : Pool ι) (t : TaskId) (stack : List ι) :
    (p.proceed t stack).next = p.next := by
  unfold Pool.proceed
  split <;> rfl

@[simp] theorem next_park (p : Pool ι) (t : TaskId) : (p.park t).next = p.next := by
  unfold Pool.park
  split
  · split <;> rfl
  · rfl

/-- A task that is found is in the pool. -/
theorem mem_of_get? {p : Pool ι} {t : TaskId} {task : Task ι} (h : p.get? t = some task) :
    (t, task) ∈ p.tasks := by
  obtain ⟨before, after, heq, -⟩ := List.lookup_eq_some_iff.mp h
  rw [heq]
  exact List.mem_append_right _ List.mem_cons_self

/-- Where a task stands in a pool: those before it and those after it have other numbers. -/
theorem split_of_get? {p : Pool ι} (h : p.Numbered) {t : TaskId} {task : Task ι}
    (hget : p.get? t = some task) :
    ∃ before after, p.tasks = before ++ (t, task) :: after ∧
      (∀ e ∈ before, e.1 ≠ t) ∧ (∀ e ∈ after, e.1 ≠ t) := by
  obtain ⟨before, after, heq⟩ := List.append_of_mem (mem_of_get? hget)
  have hd := h.distinct
  rw [heq, List.map_append, List.map_cons, List.nodup_append, List.nodup_cons] at hd
  refine ⟨before, after, heq, fun e he hk => ?_, fun e he hk => ?_⟩
  · exact hd.2.2 e.1 (List.mem_map_of_mem he) t List.mem_cons_self hk
  · exact hd.2.1.1 (hk ▸ List.mem_map_of_mem (f := (·.1)) he)

/-- A number belongs to one task only. -/
theorem Numbered.unique {p : Pool ι} (h : p.Numbered) {t : TaskId} {first second : Task ι}
    (h₁ : (t, first) ∈ p.tasks) (h₂ : (t, second) ∈ p.tasks) : first = second :=
  congrArg Prod.snd (List.inj_on_of_nodup_map h.distinct h₁ h₂ rfl)

/-- A task that is in the pool is found. -/
theorem get?_of_mem {p : Pool ι} (h : p.Numbered) {t : TaskId} {task : Task ι}
    (hmem : (t, task) ∈ p.tasks) : p.get? t = some task := by
  cases hget : p.get? t with
  | none =>
    exact absurd (List.lookup_eq_none_iff.mp hget (t, task) hmem) (by simp)
  | some other => rw [h.unique (mem_of_get? hget) hmem]

/-! ## What holds of every task -/

/-- Every task has a property, which may depend on its number. -/
def Every (P : TaskId → Task ι → Prop) (p : Pool ι) : Prop :=
  ∀ e ∈ p.tasks, P e.1 e.2

variable {P Q : TaskId → Task ι → Prop} {p : Pool ι}

theorem Every.mono (h : p.Every P) (hPQ : ∀ t task, P t task → Q t task) : p.Every Q :=
  fun e he => hPQ e.1 e.2 (h e he)

theorem every_empty : (empty : Pool ι).Every P :=
  fun _ h => absurd h List.not_mem_nil

theorem Every.spawn (h : p.Every P) {caller : Option String} {stack : List ι}
    (new : P p.next ⟨caller, stack, true, false⟩) : (p.spawn caller stack).Every P := by
  intro e he
  rcases List.mem_append.mp he with he | he
  · exact h e he
  · rw [List.mem_singleton.mp he]
    exact new

theorem Every.modify (h : p.Every P) {t : TaskId} {f : Task ι → Task ι}
    (change : ∀ task, (t, task) ∈ p.tasks → P t task → P t (f task)) : (p.modify t f).Every P := by
  intro e he
  obtain ⟨task, hmem, heq⟩ := mem_modify.mp he
  rw [heq]
  split
  next hk => exact hk ▸ change task (hk ▸ hmem) (h (t, task) (hk ▸ hmem))
  next => exact h _ hmem

theorem Every.remove (h : p.Every P) (t : TaskId) : (p.remove t).Every P :=
  fun e he => h e (List.mem_filter.mp he).1

theorem Every.abort (h : p.Every P) {t : TaskId}
    (change : ∀ task, (t, task) ∈ p.tasks → P t task → P t { task with aborted := true }) :
    (p.abort t).Every P :=
  h.modify change

theorem Every.proceed (h : p.Every P) {t : TaskId} {stack : List ι}
    (change : ∀ task, (t, task) ∈ p.tasks → stack ≠ [] →
      P t { task with stack := stack, parked := false }) : (p.proceed t stack).Every P := by
  unfold Pool.proceed
  split
  next => exact h.remove t
  next hne =>
    exact h.modify fun task hmem _ => change task hmem fun hnil => hne (by rw [hnil]; rfl)

/-- A task of a pool in which one goes on is another one, or that one with something else to do. -/
theorem mem_proceed {t : TaskId} {stack : List ι} {e : TaskId × Task ι}
    (he : e ∈ (p.proceed t stack).tasks) : (e.1 ≠ t ∧ e ∈ p.tasks) ∨ e.1 = t ∧
      ∃ task, (t, task) ∈ p.tasks ∧ e.2 = { task with stack := stack, parked := false } := by
  unfold Pool.proceed at he
  split at he
  · obtain ⟨hmem, hne⟩ := List.mem_filter.mp he
    exact .inl ⟨by simpa using hne, hmem⟩
  · obtain ⟨task, hmem, heq⟩ := mem_modify.mp he
    by_cases ht : e.1 = t
    · exact .inr ⟨ht, task, ht ▸ hmem, by rw [heq, if_pos ht]⟩
    · rw [if_neg ht] at heq
      rw [← heq] at hmem
      exact .inl ⟨ht, hmem⟩

/-- The others stay when a task goes on. -/
theorem mem_proceed_of_ne {t : TaskId} {stack : List ι} {e : TaskId × Task ι} (he : e ∈ p.tasks)
    (other : e.1 ≠ t) : e ∈ (p.proceed t stack).tasks := by
  unfold Pool.proceed
  split
  · exact List.mem_filter.mpr ⟨he, by simpa using other⟩
  · exact mem_modify.mpr ⟨e.2, he, by rw [if_neg other]⟩

/-- Whoever goes on and has something left to do stays as well. -/
theorem mem_proceed_self {t : TaskId} {task : Task ι} {stack : List ι} (h : (t, task) ∈ p.tasks)
    (more : stack ≠ []) :
    (t, { task with stack := stack, parked := false }) ∈ (p.proceed t stack).tasks := by
  unfold Pool.proceed
  rw [if_neg fun nothing => more (List.isEmpty_iff.mp nothing)]
  exact mem_modify.mpr ⟨task, h, by rw [if_pos rfl]⟩

/-- A task that was not given up stays when one comes to wait. -/
theorem Numbered.mem_park (h : p.Numbered) {t : TaskId} {task : Task ι} (there : (t, task) ∈ p.tasks)
    (kept : task.aborted = false) (u : TaskId) :
    ∃ parked, (t, { task with parked := parked }) ∈ (p.park u).tasks := by
  unfold Pool.park
  split
  next other found =>
    by_cases same : t = u
    · subst same
      obtain rfl := h.unique (mem_of_get? found) there
      rw [if_neg (by rw [kept]; exact Bool.false_ne_true)]
      exact ⟨true, mem_modify.mpr ⟨_, there, by rw [if_pos rfl]⟩⟩
    · refine ⟨task.parked, ?_⟩
      split
      · exact List.mem_filter.mpr ⟨there, by simpa using same⟩
      · exact mem_modify.mpr ⟨_, there, by rw [if_neg same]⟩
  next => exact ⟨task.parked, there⟩

/-- A task of a pool in which one rests differs at most in that. -/
theorem mem_park {t : TaskId} {e : TaskId × Task ι} (he : e ∈ (p.park t).tasks) :
    ∃ task parked, (e.1, task) ∈ p.tasks ∧ (task.parked = true → parked = true) ∧
      e.2 = { task with parked := parked } := by
  unfold Pool.park at he
  split at he
  · split at he
    · exact ⟨e.2, e.2.parked, (List.mem_filter.mp he).1, id, rfl⟩
    · obtain ⟨task, hmem, heq⟩ := mem_modify.mp he
      rw [heq]
      split
      · exact ⟨task, true, hmem, fun _ => rfl, rfl⟩
      · exact ⟨task, task.parked, hmem, id, rfl⟩
  · exact ⟨e.2, e.2.parked, he, id, rfl⟩

theorem Every.park (h : p.Every P) {t : TaskId}
    (change : ∀ task, (t, task) ∈ p.tasks → P t task → P t { task with parked := true }) :
    (p.park t).Every P := by
  unfold Pool.park
  split
  · split
    · exact h.remove t
    · exact h.modify change
  · exact h

/-! ## Aborting several tasks -/

/-- Aborting several tasks changes nothing but who is aborted. -/
theorem mem_foldl_abort {l : List TaskId} {p : Pool ι} {e : TaskId × Task ι} :
    e ∈ (l.foldl abort p).tasks ↔ ∃ task, (e.1, task) ∈ p.tasks ∧
      e.2 = if e.1 ∈ l then { task with aborted := true } else task := by
  induction l generalizing p with
  | nil =>
    simp only [List.foldl_nil, List.not_mem_nil, if_false]
    exact ⟨fun h => ⟨e.2, h, rfl⟩, fun ⟨_, h, heq⟩ => by rw [← heq] at h; exact h⟩
  | cons t l ih =>
    rw [List.foldl_cons, ih]
    constructor
    · rintro ⟨task, hmem, heq⟩
      obtain ⟨old, hold, hchange⟩ := mem_modify.mp hmem
      simp only at hold hchange
      refine ⟨old, hold, ?_⟩
      rw [heq, hchange]
      by_cases ht : e.1 = t <;> by_cases hl : e.1 ∈ l <;> simp [ht, hl]
    · rintro ⟨old, hold, heq⟩
      refine ⟨if e.1 = t then { old with aborted := true } else old,
        mem_modify.mpr ⟨old, hold, rfl⟩, ?_⟩
      rw [heq]
      by_cases ht : e.1 = t <;> by_cases hl : e.1 ∈ l <;> simp [ht, hl]

theorem Every.foldl_abort (h : p.Every P)
    (change : ∀ t task, P t task → P t { task with aborted := true }) (l : List TaskId) :
    (l.foldl Pool.abort p).Every P := by
  induction l generalizing p with
  | nil => exact h
  | cons t l ih => exact ih (h.abort fun task _ => change t task)

theorem Numbered.foldl_abort {p : Pool ι} (h : p.Numbered) (l : List TaskId) :
    (l.foldl Pool.abort p).Numbered := by
  induction l generalizing p with
  | nil => exact h
  | cons t l ih => exact ih (h.abort t)

@[simp] theorem next_foldl_abort (p : Pool ι) (l : List TaskId) :
    (l.foldl abort p).next = p.next := by
  induction l generalizing p with
  | nil => rfl
  | cons t l ih => exact ih (p.abort t)

/-! ## What one task has to do -/

/-- What a task has to do: nothing, if it is finished or not made yet. -/
def stack (p : Pool ι) (t : TaskId) : List ι :=
  ((p.get? t).map Task.stack).getD []

theorem stack_of_get? {t : TaskId} {task : Task ι} (h : p.get? t = some task) :
    p.stack t = task.stack := by
  rw [stack, h]
  rfl

theorem get?_modify (p : Pool ι) (t : TaskId) (change : Task ι → Task ι) (u : TaskId) :
    (p.modify t change).get? u =
      (p.get? u).map fun task => if u = t then change task else task := by
  simp only [get?, Pool.modify]
  induction p.tasks with
  | nil => rfl
  | cons e l ih =>
    obtain ⟨k, task⟩ := e
    rw [List.map_cons]
    by_cases same : u = k
    · subst same
      split <;> simp
    · have other : (u == k) = false := beq_eq_false_iff_ne.mpr same
      split <;> simp only [List.lookup_cons, other, ih]

theorem get?_remove (p : Pool ι) (t u : TaskId) :
    (p.remove t).get? u = if u = t then none else p.get? u := by
  simp only [get?, Pool.remove]
  induction p.tasks with
  | nil => simp
  | cons e l ih =>
    obtain ⟨k, task⟩ := e
    by_cases gone : k = t
    · rw [List.filter_cons_of_neg (by simpa using gone), ih]
      split
      next => rfl
      next ne =>
        rw [List.lookup_cons, beq_eq_false_iff_ne.mpr (gone ▸ ne)]
    · rw [List.filter_cons_of_pos (by simpa using gone), List.lookup_cons, List.lookup_cons, ih]
      by_cases same : u = k
      · subst same
        simp [gone]
      · rw [beq_eq_false_iff_ne.mpr same]

/-- Changing anything but what a task has to do leaves that as it is. -/
theorem stack_modify {t : TaskId} {change : Task ι → Task ι}
    (same : ∀ task, (change task).stack = task.stack) (u : TaskId) :
    (p.modify t change).stack u = p.stack u := by
  rw [stack, get?_modify, Option.map_map, stack]
  congr 2
  funext task
  simp only [Function.comp_apply]
  split
  · exact same task
  · rfl

theorem stack_foldl_abort (l : List TaskId) (p : Pool ι) (u : TaskId) :
    (l.foldl abort p).stack u = p.stack u := by
  induction l generalizing p with
  | nil => rfl
  | cons t l ih =>
    refine (ih (p.abort t)).trans (stack_modify ?_ u)
    intro task
    rfl

/-- A task that is not made yet has nothing to do. -/
theorem Numbered.stack_of_new (h : p.Numbered) {t : TaskId} (new : p.next ≤ t) :
    p.stack t = [] := by
  cases found : p.get? t with
  | none => rw [stack, found]; rfl
  | some task => exact absurd (h.below _ (mem_of_get? found)) (Nat.not_lt.mpr new)

theorem Numbered.stack_spawn (h : p.Numbered) (caller : Option String) (stack : List ι)
    (u : TaskId) : (p.spawn caller stack).stack u = if u = p.next then stack else p.stack u := by
  rw [Pool.stack, get?, Pool.spawn, List.lookup_append]
  split
  next same =>
    subst same
    have none : p.tasks.lookup p.next = none := by
      cases found : p.tasks.lookup p.next with
      | none => rfl
      | some task => exact absurd (h.below _ (mem_of_get? found)) (Nat.lt_irrefl _)
    rw [none, Option.none_or, List.lookup_cons_self]
    rfl
  next other =>
    rw [List.lookup_cons, beq_eq_false_iff_ne.mpr other, List.lookup_nil, Option.or_none]
    rfl

theorem stack_proceed {t : TaskId} {task : Task ι} (found : p.get? t = some task)
    (stack : List ι) (u : TaskId) :
    (p.proceed t stack).stack u = if u = t then stack else p.stack u := by
  unfold Pool.proceed
  split
  next nothing =>
    rw [List.isEmpty_iff.mp nothing, Pool.stack, get?_remove]
    split <;> rfl
  next =>
    rw [Pool.stack, get?_modify]
    by_cases same : u = t
    · subst same
      simp [found]
    · simp [same, Pool.stack]

/-- A task that rests has the same to do, unless it was given up. -/
theorem stack_park (p : Pool ι) (t u : TaskId) :
    (p.park t).stack u = p.stack u ∨ u = t ∧ (p.park t).stack u = [] := by
  unfold Pool.park
  split
  · split
    · rw [Pool.stack, get?_remove]
      split
      next same => exact .inr ⟨same, rfl⟩
      next => exact .inl rfl
    · refine .inl (stack_modify ?_ u)
      intro task
      rfl
  · exact .inl rfl

/-! ## What the tasks have to do -/

/-- The instructions of all tasks, as far as `f` sees them. -/
def work (p : Pool ι) (f : ι → Option β) : List β :=
  p.tasks.flatMap (fun e => e.2.stack.filterMap f)

variable {f : ι → Option β}

/-- What a task has to do is in the work of the pool. -/
theorem mem_work {b : β} : b ∈ p.work f ↔ ∃ e ∈ p.tasks, ∃ i ∈ e.2.stack, f i = some b := by
  simp only [work, List.mem_flatMap, List.mem_filterMap]

/-- Views that agree on what the tasks have to do see the same work. -/
theorem work_congr {g : ι → Option β} (h : ∀ e ∈ p.tasks, ∀ i ∈ e.2.stack, f i = g i) :
    p.work f = p.work g :=
  List.flatMap_congr fun e he => List.filterMap_congr (h e he)

theorem work_spawn (p : Pool ι) (caller : Option String) (stack : List ι) :
    (p.spawn caller stack).work f = p.work f ++ stack.filterMap f := by
  simp only [work, Pool.spawn, List.flatMap_append, List.flatMap_cons, List.flatMap_nil,
    List.append_nil]

/-- Changing anything but what a task has to do leaves the work as it is. -/
theorem work_modify {t : TaskId} {change : Task ι → Task ι}
    (same : ∀ task, (change task).stack = task.stack) : (p.modify t change).work f = p.work f := by
  simp only [work, Pool.modify, List.flatMap_map]
  refine List.flatMap_congr fun e _ => ?_
  split
  · rw [same]
  · rfl

theorem work_abort (p : Pool ι) (t : TaskId) : (p.abort t).work f = p.work f :=
  work_modify fun _ => rfl

theorem work_foldl_abort (p : Pool ι) (l : List TaskId) :
    (l.foldl abort p).work f = p.work f := by
  induction l generalizing p with
  | nil => rfl
  | cons t l ih => exact (ih (p.abort t)).trans (work_abort p t)

/-- A list of tasks with other numbers is not touched by a change. -/
private theorem map_modify_of_ne {l : List (TaskId × Task ι)} {t : TaskId} {g : Task ι → Task ι}
    (h : ∀ e ∈ l, e.1 ≠ t) : l.map (fun e => if e.1 = t then (e.1, g e.2) else e) = l := by
  rw [List.map_congr_left fun e he => if_neg (h e he), List.map_id']

private theorem filter_ne_of_ne {l : List (TaskId × Task ι)} {t : TaskId}
    (h : ∀ e ∈ l, e.1 ≠ t) : l.filter (fun e => e.1 ≠ t) = l :=
  List.filter_eq_self.mpr fun e he => by simpa only [ne_eq, decide_eq_true_eq] using h e he

/-- What is left to do when one task has something else to do: the work of the others, and that. -/
theorem work_replace (h : p.Numbered) {t : TaskId} {task : Task ι} (hget : p.get? t = some task) :
    ∃ before after, p.work f = before ++ task.stack.filterMap f ++ after ∧
      (p.remove t).work f = before ++ after ∧
      ∀ stack, (p.proceed t stack).work f = before ++ stack.filterMap f ++ after := by
  obtain ⟨before, after, htasks, hbefore, hafter⟩ := split_of_get? h hget
  have hremove : (p.remove t).tasks = before ++ after := by
    simp only [Pool.remove, htasks, List.filter_append, filter_ne_of_ne hbefore]
    rw [List.filter_cons_of_neg (by simp), filter_ne_of_ne hafter]
  have hmodify : ∀ g : Task ι → Task ι,
      (p.modify t g).tasks = before ++ (t, g task) :: after := by
    intro g
    simp only [Pool.modify, htasks, List.map_append, List.map_cons, if_true,
      map_modify_of_ne hbefore, map_modify_of_ne hafter]
  refine ⟨before.flatMap (fun e => e.2.stack.filterMap f),
    after.flatMap (fun e => e.2.stack.filterMap f), ?_, ?_, fun stack => ?_⟩
  · simp only [work, htasks, List.flatMap_append, List.flatMap_cons, List.append_assoc]
  · simp only [work, hremove, List.flatMap_append]
  · unfold Pool.proceed
    split
    next hnil =>
      simp only [List.isEmpty_iff.mp hnil, work, hremove, List.flatMap_append, List.filterMap_nil,
        List.append_nil]
    next =>
      simp only [work, hmodify, List.flatMap_append, List.flatMap_cons, List.append_assoc]

/-- Where a task is not found, nobody goes on. -/
theorem proceed_of_none {t : TaskId} (none : p.get? t = none) (stack : List ι) :
    p.proceed t stack = p := by
  have others : ∀ e ∈ p.tasks, e.1 ≠ t := fun e he same => by
    simpa [same] using List.lookup_eq_none_iff.mp none e he
  have modified (g : Task ι → Task ι) : p.modify t g = p :=
    congrArg (Pool.mk · p.next) (map_modify_of_ne others)
  unfold Pool.proceed
  split
  · exact congrArg (Pool.mk · p.next) (filter_ne_of_ne others)
  · exact modified _

/-- A task that goes on with something else changes the amount of work by what it has to do. -/
theorem length_work_proceed (h : p.Numbered) {t : TaskId} {task : Task ι}
    (hget : p.get? t = some task) (stack : List ι) :
    ((p.proceed t stack).work f).length + (task.stack.filterMap f).length =
      (p.work f).length + (stack.filterMap f).length := by
  obtain ⟨before, after, hwork, -, hproceed⟩ := work_replace (f := f) h hget
  rw [hwork, hproceed stack]
  simp only [List.length_append]
  omega

/-- If the others have nothing to do that is seen, the work is that of one task. -/
theorem work_sole (h : p.Numbered) {t : TaskId} {task : Task ι} (hget : p.get? t = some task)
    (others : p.Every fun k task => k ≠ t → task.stack.filterMap f = []) :
    p.work f = task.stack.filterMap f := by
  obtain ⟨before, after, htasks, hbefore, hafter⟩ := split_of_get? h hget
  have none {l : List (TaskId × Task ι)} (part : l ⊆ p.tasks) (ne : ∀ e ∈ l, e.1 ≠ t) :
      l.flatMap (fun e => e.2.stack.filterMap f) = [] :=
    List.flatMap_eq_nil_iff.mpr fun e he => others e (part he) (ne e he)
  have left : before ⊆ p.tasks := by
    rw [htasks]
    exact List.subset_append_left _ _
  have right : after ⊆ p.tasks := by
    rw [htasks]
    exact fun e he => List.mem_append_right _ (List.mem_cons_of_mem _ he)
  rw [work, htasks, List.flatMap_append, List.flatMap_cons, none left hbefore, none right hafter,
    List.nil_append, List.append_nil]

/-- The work of one task and the work of the others are the work of all. -/
theorem work_remove (h : p.Numbered) {t : TaskId} {task : Task ι} (hget : p.get? t = some task) :
    (p.work f).Perm (task.stack.filterMap f ++ (p.remove t).work f) := by
  obtain ⟨left, right, hwork, hremove, -⟩ := work_replace (f := f) h hget
  rw [hwork, hremove, List.append_assoc]
  exact List.perm_append_comm_assoc _ _ _

/-- **The ledger of a step.** What was there, and what comes in place of the first instruction of a
task, is what is left, and what that instruction stood for. -/
theorem work_proceed (h : p.Numbered) {t : TaskId} {task : Task ι} {i : ι} {rest : List ι}
    (hget : p.get? t = some task) (hstack : task.stack = i :: rest) (before : List ι) :
    ((p.proceed t (before ++ rest)).work f ++ (f i).toList).Perm
      (p.work f ++ before.filterMap f) := by
  obtain ⟨left, right, hwork, -, hproceed⟩ := work_replace (f := f) h hget
  rw [hproceed, hwork, hstack, List.filterMap_append]
  have hi : (i :: rest).filterMap f = (f i).toList ++ rest.filterMap f := by
    cases hf : f i with
    | none => simp only [List.filterMap_cons, hf, Option.toList_none, List.nil_append]
    | some b => simp only [List.filterMap_cons, hf, Option.toList_some, List.singleton_append]
  rw [hi]
  classical
  refine List.perm_iff_count.mpr fun b => ?_
  simp only [List.count_append]
  omega

/-- Parking leaves the work as it is, if an aborted task has nothing in hand. -/
theorem work_park (h : p.Numbered) {t : TaskId}
    (idle : ∀ task, (t, task) ∈ p.tasks → task.aborted = true → task.stack.filterMap f = []) :
    (p.park t).work f = p.work f := by
  unfold Pool.park
  split
  next task hget =>
    split
    next haborted =>
      obtain ⟨left, right, hwork, hremove, -⟩ := work_replace (f := f) h hget
      rw [hremove, hwork, idle task (mem_of_get? hget) haborted, List.append_nil]
    next => exact work_modify fun _ => rfl
  next => rfl

/-! ## Callers -/

theorem hasCaller_iff : p.hasCaller = true ↔ ∃ e ∈ p.tasks, e.2.caller.isSome = true := by
  simp only [hasCaller, List.any_eq_true]

@[simp] theorem hasCaller_spawn (p : Pool ι) (caller : Option String) (stack : List ι) :
    (p.spawn caller stack).hasCaller = (p.hasCaller || caller.isSome) := by
  simp only [hasCaller, Pool.spawn, List.any_append, List.any_cons, List.any_nil, Bool.or_false]

/-- Whoever waits for a task of a changed pool waited for it before. -/
theorem hasCaller_modify {t : TaskId} {change : Task ι → Task ι}
    (same : ∀ task, (change task).caller = task.caller) :
    (p.modify t change).hasCaller = p.hasCaller := by
  simp only [hasCaller, Pool.modify, List.any_map]
  congr 1
  funext e
  simp only [Function.comp_apply]
  split
  · rw [same]
  · rfl

@[simp] theorem hasCaller_abort (p : Pool ι) (t : TaskId) : (p.abort t).hasCaller = p.hasCaller :=
  hasCaller_modify fun _ => rfl

@[simp] theorem hasCaller_foldl_abort (p : Pool ι) (l : List TaskId) :
    (l.foldl abort p).hasCaller = p.hasCaller := by
  induction l generalizing p with
  | nil => rfl
  | cons t l ih => exact (ih (p.abort t)).trans (hasCaller_abort p t)

theorem hasCaller_remove {t : TaskId} (h : (p.remove t).hasCaller = true) :
    p.hasCaller = true := by
  obtain ⟨e, he, hcaller⟩ := hasCaller_iff.mp h
  exact hasCaller_iff.mpr ⟨e, (List.mem_filter.mp he).1, hcaller⟩

theorem hasCaller_proceed {t : TaskId} {stack : List ι} (h : (p.proceed t stack).hasCaller = true) :
    p.hasCaller = true := by
  unfold Pool.proceed at h
  split at h
  · exact hasCaller_remove h
  · rwa [hasCaller_modify (by intro; rfl)] at h

theorem hasCaller_park {t : TaskId} (h : (p.park t).hasCaller = true) : p.hasCaller = true := by
  unfold Pool.park at h
  split at h
  · split at h
    · exact hasCaller_remove h
    · rwa [hasCaller_modify (by intro; rfl)] at h
  · exact h

end Supervision.Pool
