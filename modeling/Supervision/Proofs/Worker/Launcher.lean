import Supervision.Proofs.Worker.Launching
import Supervision.Proofs.Worker.Tidings

/-!
# Launches that are issued

A launch is issued with an event, and the launcher is called for it by a task of its own. In between
it is carried from one instruction to the next: by whoever holds the machine, among the effects that
a task has to carry out, and in the task of the launch. The law (`launcher_of_since`) is the ledger
of that: at every moment the launches that were issued are those for which the launcher was called,
and those that are still to be made. So none is made twice, and none is lost, though calls are given
up and tasks that listen are stopped.

Two things carry the proof (`Careful`). Where effects are to be carried out nothing comes before
them, so a task that waits has none; and a task that launches is not given up.

That the tasks get their turns is not established here.
-/

namespace Supervision.Worker

/-! ## Launches in hand -/

/-- True of what happens when the launcher was called. -/
def Occurrence.launched : Occurrence → Bool
  | .moved (.did _ (.launch ..) _) _ => true
  | _ => false

/-- How often the launcher was called. -/
def launcherCalls (later : List Occurrence) : Nat :=
  later.countP Occurrence.launched

/-- The launch that an instruction stands for: one that is to be made, or is being made. -/
def Instr.launch? : Instr → Option Nat
  | .perform (.launch generation _) => some generation
  | .launch generation _ => some generation
  | _ => none

/-- How many launches some instructions stand for. -/
def toLaunch (stack : List Instr) : Nat :=
  (stack.filterMap Instr.launch?).length

/-- How many launches the tasks have in hand. -/
def System.unlaunched (s : System) : Nat :=
  (s.pool.work Instr.launch?).length

theorem toLaunch_append (l k : List Instr) : toLaunch (l ++ k) = toLaunch l + toLaunch k := by
  rw [toLaunch, List.filterMap_append, List.length_append]
  rfl

theorem toLaunch_cons (i : Instr) (l : List Instr) :
    toLaunch (i :: l) = toLaunch [i] + toLaunch l :=
  toLaunch_append [i] l

theorem toLaunch_of_none {l : List Instr} (h : ∀ j ∈ l, j.launch? = none) : toLaunch l = 0 := by
  rw [toLaunch, List.filterMap_eq_nil_iff.mpr h]
  rfl

/-- The task of an effect stands for the same launches. -/
theorem toLaunch_taskFor (e : Effect) : toLaunch (System.taskFor e) = toLaunch [.perform e] := by
  cases e with
  | teardown _ _ alive => cases alive <;> rfl
  | _ => rfl

/-- Effects that are to be carried out stand for the launches that were issued. -/
theorem toLaunch_perform (effects : List Effect) :
    toLaunch (effects.map .perform) = effects.countP Effect.launches := by
  induction effects with
  | nil => rfl
  | cons e effects ih =>
    rw [List.map_cons, toLaunch_cons, ih, List.countP_cons, Nat.add_comm]
    cases e <;> rfl

/-- Whoever applies an event has its launches to make. -/
theorem Enters.toLaunch {s : System} {i : Instr} {e : Event} {before : List Instr}
    (enters : Enters s i e before) :
    Worker.toLaunch before = (s.machine.transition e).effects.countP Effect.launches ∧
      i.launch? = none := by
  cases enters with
  | handle => exact ⟨toLaunch_perform _, rfl⟩
  | halt =>
    refine ⟨?_, rfl⟩
    rw [toLaunch_append]
    exact toLaunch_perform _

/-- An instruction that applies no event leaves no launch to be made. -/
theorem exec_launch?_none {s r : System} {t : TaskId} {caller : String} {i : Instr} {a : Answer}
    {before : List Instr} (h : s.exec t caller i a = some (r, before)) (free : ¬ i.Applies s) :
    ∀ j ∈ before, j.launch? = none := by
  intro j hj
  have leads := exec_leads h j hj
  cases j with
  | perform f =>
    cases i with
    | handle e =>
      cases exec_cases h with
      | aside _ _ _ _ other => cases other
      | handled alive => exact absurd ⟨_, _, .handle alive⟩ free
      | missed => cases hj
    | halt =>
      have idle : s.machine.state = .idle := by_contra fun busy => free ⟨_, _, .halt busy⟩
      cases a with
      | nothing =>
        simp only [System.exec, if_pos idle] at h
        cases h
        cases hj
      | _ => cases h
    | _ => cases leads
  | launch => cases i <;> cases leads
  | _ => rfl

/-- An instruction that carries out no effect gives other tasks nothing to launch. -/
theorem System.Regrouped.unlaunched {s r : System} {i : Instr} (h : Regrouped s r i)
    (other : i.performs = false) : r.unlaunched = s.unlaunched := by
  unfold System.unlaunched
  cases h with
  | same pool => rw [pool]
  | called pool =>
    rw [pool, Pool.work_spawn]
    exact congrArg List.length (List.append_nil _)
  | performed => cases other
  | attached _ pool =>
    rw [pool, Pool.work_spawn, Pool.work_spawn, List.append_assoc]
    exact congrArg List.length (List.append_nil _)
  | detached pool => rw [pool, Pool.work_foldl_abort]

theorem System.unlaunched_release (s : System) : s.release.unlaunched = s.unlaunched :=
  s.release_elim rfl (congrArg List.length (Pool.work_foldl_abort _ _))

/-- What a step does to the launches in hand: a task of its own is begun for each, and the launcher
is called for it. -/
theorem Moves.unlaunched_did {s s' : System} {t : TaskId} {i : Instr} {a : Answer}
    (step : Moves s (.did t i a) s') (numbered : s.pool.Numbered) (free : ¬ i.Applies s)
    (published : State) : s'.unlaunched +
      (if (Occurrence.moved (.did t i a) published).launched then 1 else 0) = s.unlaunched := by
  cases step with
  | @act _ _ task _ rest _ found next taken =>
    obtain ⟨r, before, exec, -, result⟩ := step_exec found next taken
    have regrouped := (exec_cases exec).regrouped
    obtain ⟨aborted, there⟩ := regrouped.found numbered found
    have ledger : (r.proceed t (before ++ rest)).unlaunched + toLaunch task.stack =
        r.unlaunched + toLaunch (before ++ rest) :=
      Pool.length_work_proceed (regrouped.numbered numbered) there (before ++ rest)
    have same : s'.unlaunched = (r.proceed t (before ++ rest)).unlaunched := by
      rcases result with rfl | rfl
      · rfl
      · exact System.unlaunched_release _
    have left : toLaunch before = 0 := toLaunch_of_none (exec_launch?_none exec free)
    rw [← same, next, toLaunch_cons, toLaunch_append, left] at ledger
    cases performs : i.performs with
    | true =>
      cases i with
      | perform f =>
        have begun : r.unlaunched = s.unlaunched + toLaunch [.perform f] := by
          cases a with
          | nothing =>
            cases exec
            rw [← toLaunch_taskFor]
            exact (congrArg List.length (Pool.work_spawn _ _ _)).trans (List.length_append)
          | _ => cases exec
        have uncalled : (Occurrence.moved (.did t (.perform f) a) published).launched = false := rfl
        rw [uncalled, if_neg Bool.false_ne_true]
        omega
      | _ => cases performs
    | false =>
      have kept := regrouped.unlaunched performs
      have called : (if (Occurrence.moved (.did t i a) published).launched then 1 else 0) =
          toLaunch [i] := by
        cases i with
        | perform => cases performs
        | _ => rfl
      omega

/-! ## Who launches -/

/-- What a task keeps of which some instructions are to be executed: its effects come first, and it
is not given up while it launches. -/
structure Minds (attached : List TaskId) (t : TaskId) (task : Task Instr) (todo : List Instr) :
    Prop where
  first : PerformsFirst todo
  own : ∀ generation path, Instr.launch generation path ∈ todo → ¬ Abortable attached t task

namespace Minds

variable {attached attached' : List TaskId} {t : TaskId} {task task' : Task Instr}
variable {todo : List Instr}

theorem mono (h : Minds attached t task todo)
    (abortable : Abortable attached' t task' → Abortable attached t task) :
    Minds attached' t task' todo :=
  ⟨h.first, fun generation path launches given => h.own generation path launches (abortable given)⟩

/-- A task with one thing to do that is no launch. -/
theorem single {i : Instr} (other : ∀ generation path, i ≠ .launch generation path) :
    Minds attached t task [i] :=
  ⟨List.pairwise_singleton _ _, fun generation path launches =>
    absurd (List.mem_singleton.mp launches).symm (other generation path)⟩

/-- A task goes on with what an instruction leaves, of which none is a launch. -/
theorem exec {s r : System} {i : Instr} {a : Answer} {caller : String} {rest before : List Instr}
    (h : Minds attached t task (i :: rest)) (hexec : s.exec t caller i a = some (r, before))
    (abortable : Abortable attached' t task' → Abortable attached t task) :
    Minds attached' t task' (before ++ rest) := by
  refine ⟨h.first.exec hexec, fun generation path launches given => ?_⟩
  rcases List.mem_append.mp launches with here | later
  · have leads := exec_leads hexec _ here
    cases i <;> cases leads
  · exact h.own generation path (List.mem_cons_of_mem _ later) (abortable given)

end Minds

/-- Launches are in good hands. -/
structure Careful (z : Moment) : Prop where
  attached : ∀ t ∈ z.system.attached, t < z.system.pool.next
  /-- Whoever holds the machine is there. -/
  held : ∀ hold, z.hold = some hold → z.system.pool.stack hold.task ≠ []
  tasks : ∀ e ∈ z.system.pool.tasks, Minds z.system.attached e.1 e.2 (z.todo e)

/-- Those that listen were there before. -/
theorem Moves.attached_lt {s s' : System} {m : Move} (step : Moves s m s')
    (attached : ∀ t ∈ s.attached, t < s.pool.next) : ∀ t ∈ s'.attached, t < s'.pool.next := by
  have release {r : System} (h : ∀ t ∈ r.attached, t < r.pool.next) :
      ∀ t ∈ r.release.attached, t < r.release.pool.next :=
    r.release_elim h nofun
  cases step with
  | ask => exact fun t ht => Nat.lt_succ_of_lt (attached t ht)
  | @act _ t _ _ rest _ found next taken =>
    obtain ⟨r, before, exec, -, result⟩ := step_exec found next taken
    have regrouped : ∀ t ∈ r.attached, t < r.pool.next := by
      cases (exec_cases exec).regrouped with
      | same pool listens => rwa [pool, listens]
      | called pool listens =>
        rw [pool, listens]
        exact fun t ht => Nat.lt_succ_of_lt (attached t ht)
      | performed pool listens =>
        rw [pool, listens]
        exact fun t ht => Nat.lt_succ_of_lt (attached t ht)
      | attached _ pool listens =>
        rw [pool, listens]
        intro t ht
        rcases List.mem_pair.mp ht with rfl | rfl
        · exact Nat.lt_succ_of_lt (Nat.lt_succ_self _)
        · exact Nat.lt_succ_self _
      | detached _ listens =>
        rw [listens]
        exact nofun
    have proceeded : ∀ u ∈ (r.proceed t (before ++ rest)).attached,
        u < (r.proceed t (before ++ rest)).pool.next := fun u hu =>
      (r.pool.next_proceed t (before ++ rest)).symm ▸ regrouped u hu
    rcases result with rfl | rfl
    · exact proceeded
    · exact release proceeded
  | @park t =>
    exact release (r := { s with pool := s.pool.park t }) fun u hu =>
      (s.pool.next_park t).symm ▸ attached u hu
  | cancel => exact attached
  | abort => exact attached
  | drop => exact release (r := { s with handle := false }) attached

/-- Others leave what the holder of the machine has to do. -/
theorem Moment.Permits.stack {z : Moment} {m : Move} {s : System} {hold : Hold}
    (permitted : z.Permits m) (step : Moves z.system m s) (numbered : z.system.pool.Numbered)
    (held : z.hold = some hold) (old : hold.task < z.system.pool.next) :
    s.pool.stack hold.task = z.system.pool.stack hold.task := by
  cases step.turns numbered hold.task with
  | same _ stack => exact stack
  | went move =>
    subst move
    exact absurd rfl (permitted.other hold held)
  | begun _ new => exact absurd old (Nat.not_lt.mpr new)
  | dropped move =>
    subst move
    exact absurd rfl (permitted hold held)

/-- Whoever does not hold the machine has its own stack to do. -/
theorem Moment.todo_of_other {z : Moment} {e : TaskId × Task Instr}
    (other : ∀ hold, z.hold = some hold → e.1 ≠ hold.task) : z.todo e = e.2.stack := by
  unfold Moment.todo
  split
  next hold held => exact if_neg (other hold held)
  next => rfl

/-- What is executed by whoever takes hold of the machine. -/
theorem Enters.exec {s : System} {i : Instr} {e : Event} {before : List Instr}
    (enters : Enters s i e before) (t : TaskId) (caller : String) :
    s.exec t caller i .nothing = some ((s.apply e).1, before) := by
  cases enters with
  | handle alive => simp only [System.exec, alive, if_true]
  | halt busy => simp only [System.exec, if_neg busy]

/-- Those that listened are given up, and nothing else becomes of the tasks. -/
theorem System.stays_detach (s : System) {e : TaskId × Task Instr}
    (he : e ∈ s.detach.pool.tasks) : ∃ task, (e.1, task) ∈ s.pool.tasks ∧
      e.2.stack = task.stack ∧ Stays s s.detach e.1 task e.2 := by
  obtain ⟨task, mem, same⟩ := Pool.mem_foldl_abort.mp he
  refine ⟨task, mem, ?_, same ▸ (Stays.refl s e.1 task).detach⟩
  rw [same]
  split <;> rfl

namespace Careful

variable {options : Options} {z : Moment}

theorem move (h : Careful z) (attentive : Attentive options z) {m : Move} {s : System}
    (step : Moves z.system m s) (permitted : z.Permits m) : Careful { z with system := s } := by
  refine ⟨step.attached_lt h.attached, fun hold held => ?_, fun e he => ?_⟩
  · have same := permitted.stack step attentive.numbered held (attentive.held hold held)
    exact same ▸ h.held hold held
  · cases step.arises attentive.numbered h.attached e he with
    | @kept task mem stack stays =>
      have same : Moment.todo { z with system := s } e = z.todo (e.1, task) := by
        simp only [Moment.todo, stack]
      exact same ▸ (h.tasks _ mem).mono stays.abortable
    | @went task i rest before a r move found next exec stack stays =>
      subst move
      -- The task that holds the machine makes no move, so this one has its own stack to do.
      have same : Moment.todo { z with system := s } e = before ++ rest :=
        (Moment.todo_of_other permitted.other).trans stack
      have minds := h.tasks _ (Pool.mem_of_get? found)
      rw [Moment.todo_of_other (e := (e.1, task)) permitted.other, next] at minds
      exact same ▸ minds.exec exec stays.abortable
    | @opened j new stack opens own =>
      have same : Moment.todo { z with system := s } e = [j] :=
        (attentive.todo_of_new new).trans stack
      refine same ▸ ⟨List.pairwise_singleton _ _, fun generation path launches => ?_⟩
      obtain rfl := List.mem_singleton.mp launches
      cases opens with
      | launch => exact own rfl

theorem enter {s : System} (h : Careful ⟨s, none⟩) (attentive : Attentive options ⟨s, none⟩)
    {t : TaskId} {task : Task Instr} {i : Instr} {rest before : List Instr} {e : Event}
    (found : s.pool.get? t = some task) (next : task.stack = i :: rest)
    (enters : Enters s i e before) :
    Careful ⟨s.seize e, some ⟨t, (s.machine.transition e).signals, before ++ rest⟩⟩ := by
  refine ⟨h.attached, fun hold held => ?_, fun f hf => ?_⟩
  · obtain rfl := Option.some.inj held
    have stack : (s.seize e).pool.stack t = i :: rest := (Pool.stack_of_get? found).trans next
    exact stack ▸ List.cons_ne_nil _ _
  · have minds := h.tasks f hf
    simp only [Moment.todo] at minds ⊢
    split
    next same =>
      obtain rfl : f.2 = task :=
        attentive.numbered.unique (t := t) (same ▸ hf) (Pool.mem_of_get? found)
      rw [next] at minds
      exact minds.exec (enters.exec f.1 "") id
    next => exact minds

theorem publish {s : System} {t : TaskId} {signal : Signal} {pending : List Signal}
    {tail : List Instr} (h : Careful ⟨s, some ⟨t, signal :: pending, tail⟩⟩)
    (attentive : Attentive options ⟨s, some ⟨t, signal :: pending, tail⟩⟩) :
    Careful ⟨s.signal signal, some ⟨t, pending, tail⟩⟩ := by
  have old : t < s.pool.next := attentive.held _ rfl
  have numbered : s.pool.Numbered := attentive.numbered
  have held : ∀ hold, some (Hold.mk t pending tail) = some hold →
      (s.signal signal).pool.stack hold.task ≠ [] := fun hold held => by
    obtain rfl := Option.some.inj held
    rw [System.stack_signal numbered old]
    exact h.held _ rfl
  have fresh {attached : List TaskId} {e : TaskId × Task Instr} {i : Instr}
      (new : s.pool.next ≤ e.1) (stack : e.2.stack = [i])
      (other : ∀ generation path, i ≠ .launch generation path) :
      Minds attached e.1 e.2 (Moment.todo ⟨s.signal signal, some ⟨t, pending, tail⟩⟩ e) := by
    have todo : Moment.todo ⟨s.signal signal, some ⟨t, pending, tail⟩⟩ e = [i] :=
      (attentive.todo_of_new new).trans stack
    exact todo ▸ .single other
  cases signal with
  | idle => exact ⟨h.attached, held, h.tasks⟩
  | notice n =>
    cases n with
    | entered => exact ⟨h.attached, held, h.tasks⟩
    | logged => exact ⟨h.attached, held, h.tasks⟩
    | attached generation c =>
      refine ⟨fun u hu => ?_, held, fun e he => ?_⟩
      · rcases List.mem_pair.mp hu with rfl | rfl
        · exact Nat.lt_succ_of_lt (Nat.lt_succ_self _)
        · exact Nat.lt_succ_self _
      · rcases List.mem_append.mp he with he | he
        · rcases List.mem_append.mp he with he | he
          · refine (h.tasks e he).mono ?_
            rintro (called | aborted | hears)
            · exact .inl called
            · exact .inr (.inl aborted)
            · have below := numbered.below e he
              rcases List.mem_pair.mp hears with same | same
              · exact absurd below (same ▸ Nat.lt_irrefl _)
              · exact absurd below (same ▸ Nat.not_succ_lt_self)
          · rw [List.mem_singleton.mp he]
            exact fresh (Nat.le_refl _) rfl nofun
        · rw [List.mem_singleton.mp he]
          exact fresh (Nat.le_succ _) rfl nofun
    | detached =>
      refine ⟨nofun, held, fun e he => ?_⟩
      obtain ⟨task, mem, stack, stays⟩ := s.stays_detach he
      have todo : Moment.todo ⟨s.signal (.notice .detached), some ⟨t, pending, tail⟩⟩ e =
          Moment.todo ⟨s, some ⟨t, pending, tail⟩⟩ (e.1, task) := by
        simp only [Moment.todo, stack]
      exact todo ▸ (h.tasks _ mem).mono stays.abortable

theorem leave {s : System} {t : TaskId} {tail : List Instr}
    (h : Careful ⟨s, some ⟨t, [], tail⟩⟩) : Careful ⟨s.letGo t tail, none⟩ := by
  have attached : ∀ u ∈ (s.proceed t tail).attached, u < (s.proceed t tail).pool.next :=
    fun u hu => (s.pool.next_proceed t tail).symm ▸ h.attached u hu
  have tasks : ∀ e ∈ (s.proceed t tail).pool.tasks, Minds s.attached e.1 e.2 e.2.stack := by
    intro e he
    rcases Pool.mem_proceed he with ⟨other, mem⟩ | ⟨same, task, mem, now⟩
    · have minds := h.tasks e mem
      simp only [Moment.todo, if_neg other] at minds
      exact minds
    · have minds := h.tasks _ mem
      simp only [Moment.todo, if_true] at minds
      rw [now, same]
      exact minds.mono id
  have kept : Careful ⟨s.proceed t tail, none⟩ := by
    refine ⟨attached, fun hold held => ?_, tasks⟩
    cases held
  have detached : Careful ⟨(s.proceed t tail).detach, none⟩ := by
    refine ⟨fun u hu => absurd hu List.not_mem_nil, fun hold held => ?_, fun e he => ?_⟩
    · cases held
    obtain ⟨task, mem, stack, stays⟩ := (s.proceed t tail).stays_detach he
    show Minds _ e.1 e.2 e.2.stack
    exact stack ▸ (tasks _ mem).mono stays.abortable
  exact s.letGo_elim t tail kept ((s.proceed t tail).release_elim kept detached)

/-- **Launches are in good hands at every moment.** -/
theorem of_reachable (reachable : Reachable options z) : Careful z := by
  induction reachable with
  | refl => exact ⟨nofun, nofun, nofun⟩
  | tail leads step ih =>
    have attentive := Attentive.of_reachable leads
    cases step with
    | move step permitted => exact ih.move attentive step permitted
    | enter found next _ enters => exact ih.enter attentive found next enters
    | publish => exact ih.publish attentive
    | leave => exact ih.leave
    | drop => exact ⟨ih.attached, ih.held, ih.tasks⟩

end Careful

/-! ## The ledger -/

/-- What is published leaves the launches in hand. -/
theorem System.unlaunched_signal (s : System) (signal : Signal) :
    (s.signal signal).unlaunched = s.unlaunched := by
  cases signal with
  | idle => rfl
  | notice n =>
    cases n with
    | attached =>
      refine congrArg List.length ((Pool.work_spawn _ _ _).trans ?_)
      exact (List.append_nil _).trans ((Pool.work_spawn _ _ _).trans (List.append_nil _))
    | detached => exact congrArg List.length (Pool.work_foldl_abort _ _)
    | _ => rfl

/-- What a task has to launch is in hand. -/
theorem System.toLaunch_stack_le {s : System} (numbered : s.pool.Numbered) (t : TaskId) :
    toLaunch (s.pool.stack t) ≤ s.unlaunched := by
  cases found : s.pool.get? t with
  | some task =>
    obtain ⟨before, after, work, -⟩ := Pool.work_replace (f := Instr.launch?) numbered found
    rw [Pool.stack_of_get? found, unlaunched, work, toLaunch, List.length_append,
      List.length_append]
    omega
  | none =>
    rw [Pool.stack, found]
    exact Nat.zero_le _

/-- Whoever lets go of the machine has its launches in hand. -/
theorem System.unlaunched_letGo {s : System} (numbered : s.pool.Numbered) {t : TaskId}
    (there : s.pool.stack t ≠ []) (tail : List Instr) :
    (s.letGo t tail).unlaunched + toLaunch (s.pool.stack t) = s.unlaunched + toLaunch tail := by
  have proceeded : (s.letGo t tail).unlaunched = (s.proceed t tail).unlaunched :=
    s.letGo_elim t tail rfl (unlaunched_release _)
  rw [proceeded]
  cases found : s.pool.get? t with
  | some task =>
    rw [Pool.stack_of_get? found]
    exact Pool.length_work_proceed numbered found tail
  | none =>
    rw [Pool.stack, found] at there
    exact absurd rfl there

/-- A move puts no launch in hand and loses none: the launcher is called for one that was. -/
theorem Careful.unlaunched {z : Moment} (h : Careful z) (numbered : z.system.pool.Numbered)
    {m : Move} {s : System} (step : Moves z.system m s) (permitted : z.Permits m) : s.unlaunched +
      (if (Occurrence.moved m z.system.published).launched then 1 else 0) =
        z.system.unlaunched := by
  cases step with
  | act found next taken =>
    exact (Moves.act found next taken).unlaunched_did numbered (permitted.free _ _ _ rfl) _
  | ask =>
    refine congrArg List.length ((Pool.work_spawn _ _ _).trans ?_)
    exact List.append_nil _
  | @park t task i rest found next waits =>
    rw [System.park, System.unlaunched_release]
    refine congrArg List.length (Pool.work_park numbered fun resting mem aborted => ?_)
    obtain rfl := numbered.unique mem (Pool.mem_of_get? found)
    have minds := h.tasks _ mem
    have others : ∀ hold, z.hold = some hold → t ≠ hold.task := permitted
    rw [Moment.todo_of_other others] at minds
    -- Where a task waits no effects are left, and one that launches is not given up.
    refine List.filterMap_eq_nil_iff.mpr fun j hj => ?_
    cases j with
    | perform f =>
      have first := minds.first
      rw [next] at first hj
      rcases List.mem_cons.mp hj with rfl | hj
      · cases waits
      · have performs := (List.pairwise_cons.mp first).1 _ hj rfl
        cases i with
        | perform => cases waits
        | _ => cases performs
    | launch generation path => exact absurd (.inr (.inl aborted)) (minds.own _ _ hj)
    | _ => rfl
  | cancel => rfl
  | abort => exact congrArg List.length (Pool.work_abort _ _)
  | drop => exact System.unlaunched_release { z.system with handle := false }

/-- How many launches are still to be made at a moment: whoever holds the machine will have those of
its event. -/
def Moment.unlaunched (z : Moment) : Nat :=
  match z.hold with
  | none => z.system.unlaunched
  | some hold =>
    z.system.unlaunched - toLaunch (z.system.pool.stack hold.task) + toLaunch hold.tail

/-- **What happens to the launches that are still to be made**: those that are issued are added, and
the launcher is called for one. -/
theorem Happens.unlaunched {options : Options} {z z' : Moment} {o : Occurrence}
    (step : Happens z o z') (attentive : Attentive options z) (careful : Careful z) :
    z'.unlaunched + (if o.launched then 1 else 0) = z.unlaunched + o.issues := by
  have numbered := attentive.numbered
  cases step with
  | @move _ m s step permitted =>
    have ledger := careful.unlaunched numbered step permitted
    have quiet : (Occurrence.moved m z.system.published).issues = 0 := rfl
    rw [quiet]
    cases held : z.hold with
    | none =>
      simp only [Moment.unlaunched, held]
      exact ledger
    | some hold =>
      have old := attentive.held hold held
      have same := permitted.stack step numbered held old
      have own := System.toLaunch_stack_le numbered hold.task
      have left := System.toLaunch_stack_le (step.numbered numbered).1 hold.task
      simp only [Moment.unlaunched, held]
      rw [same] at left ⊢
      omega
  | @enter s t task i rest before e found next ready enters =>
    obtain ⟨effects, none⟩ := enters.toLaunch
    have stack : s.pool.stack t = i :: rest := (Pool.stack_of_get? found).trans next
    have own := System.toLaunch_stack_le (s := s) numbered t
    have silent : toLaunch [i] = 0 := toLaunch_of_none (List.forall_mem_singleton.mpr none)
    show s.unlaunched - toLaunch (s.pool.stack t) + toLaunch (before ++ rest) + 0 =
      s.unlaunched + (s.machine.transition e).effects.countP Effect.launches
    rw [stack, toLaunch_cons] at own ⊢
    rw [toLaunch_append, effects]
    omega
  | @publish s t signal pending tail =>
    have old : t < s.pool.next := attentive.held _ rfl
    simp only [Moment.unlaunched, s.unlaunched_signal, System.stack_signal numbered old]
    rfl
  | @leave s t tail =>
    have there : s.pool.stack t ≠ [] := careful.held _ rfl
    have ledger := System.unlaunched_letGo (s := s) numbered there tail
    have own := System.toLaunch_stack_le (s := s) numbered t
    show (s.letGo t tail).unlaunched + 0 =
      s.unlaunched - toLaunch (s.pool.stack t) + toLaunch tail + 0
    omega
  | drop => rfl

/-- **Launches are made as they are issued**: at every moment those that were issued are those for
which the launcher was called, and those that are still to be made. -/
theorem launcher_of_since {options : Options} {past : List Occurrence} {z : Moment}
    (h : Since ⟨.initial options, none⟩ past z) :
    launcherCalls past + z.unlaunched = issuedLaunches past := by
  induction h with
  | here => rfl
  | @next z z' past o before step ih =>
    have reachable : Reachable options z := before.leads
    have ledger := step.unlaunched (Attentive.of_reachable reachable) (.of_reachable reachable)
    have issued : issuedLaunches (o :: past) = o.issues + issuedLaunches past := rfl
    have calls : launcherCalls (o :: past) = launcherCalls past + if o.launched then 1 else 0 :=
      List.countP_cons
    omega

end Supervision.Worker
