import Supervision.Proofs.Worker.Succession

/-!
# The flow of instructions

Where the tasks of a supervisor come from, and what they have to do. `Instr.leads` says which
instruction may leave which to the task that executes it, and `Moves.arises` where each task after a
move comes from: it was there before, it has gone on, or it was begun. So whoever wants to know how
an instruction came about follows it back, move by move, and opens no instruction on the way.

What may be given up is followed along with the tasks: one that nobody waits for and that listens to
nothing is never given up (`Stays.abortable`), and one that listens does so until it is given up
(`Stays.listens`).
-/

namespace Supervision.Worker

/-! ## What an instruction leaves -/

/-- Which instruction may leave which to the task that executes it. -/
def Instr.leads : Instr → Instr → Bool
  | .handle _, .perform _ => true
  | .act _, .handle (.start _) | .act _, .handle .stop | .act _, .handle (.setPath _) => true
  | .act (.track _), .trackRest .. | .act (.dispose _), .revoke _ | .revoke _, .revoke _ => true
  | .begin _, .look .. | .begin _, .halt | .begin _, .refreshBegin | .begin _, .finish _ => true
  | .look .., .take .. | .look .., .wait .. | .look .., .use .. | .look .., .handle (.start none) =>
    true
  | .take .., .use .. | .take .., .wait .. => true
  | .wait .., .look .. => true
  | .use .., .ask .. | .use .., .tell _ _ _ .caller | .use .., .tell _ _ _ (.refresh _)
  | .use .., .drop _ | .use .., .refreshEnd _ | .use .., .finish _ => true
  | .halt, .perform _ | .halt, .awaitIdle _ => true
  | .ask .., .look .. | .ask .., .finish _ => true
  | .tell .., .awaitCompletion _ | .tell .., .finish _ => true
  | .launch generation _, .handle (.launched generation' _) => generation = generation'
  | .shutDown _ c, .kill c' => c = c'
  | .shutDown generation _, .handle (.tornDown generation') => generation = generation'
  | .watchExit generation _, .handle (.exited generation') => generation = generation'
  | .receive _, .deliver .. => true
  | .receive c, .receive c' => c = c'
  | .deliver .., .listener .. => true
  | .listener .., .act _ => true
  | .refreshBegin, .report _ | .refreshBegin, .ask .. | .refreshBegin, .halt
  | .refreshBegin, .refreshListen => true
  | .refreshListen, .handle (.start none) | .refreshListen, .report _ | .refreshListen, .look .. =>
    true
  | .awaitCompletion _, .drop _ | .awaitCompletion _, .refreshEnd _ => true
  | .refreshEnd _, .finish _ => true
  | _, _ => false

/-- An instruction leads to each of some others. -/
def Instr.LeadsTo (i : Instr) (l : List Instr) : Prop :=
  ∀ j ∈ l, i.leads j = true

namespace Instr.LeadsTo

theorem of_all {i : Instr} {l : List Instr} (h : l.all i.leads = true) : i.LeadsTo l :=
  List.all_eq_true.mp h

theorem nil (i : Instr) : i.LeadsTo [] :=
  List.forall_mem_nil _

theorem cons {i j : Instr} {l : List Instr} (first : i.leads j = true) (rest : i.LeadsTo l) :
    i.LeadsTo (j :: l) :=
  List.forall_mem_cons.mpr ⟨first, rest⟩

theorem map {α : Type} {f : α → Instr} {i : Instr} (l : List α) (h : ∀ x, i.leads (f x) = true) :
    i.LeadsTo (l.map f) := by
  intro j hj
  obtain ⟨x, -, rfl⟩ := List.mem_map.mp hj
  exact h x

theorem append {i : Instr} {l k : List Instr} (h : i.LeadsTo l) (h' : i.LeadsTo k) :
    i.LeadsTo (l ++ k) := fun j hj =>
  (List.mem_append.mp hj).elim (h j) (h' j)

end Instr.LeadsTo

section Leads

variable (s : System)

theorem leads_act (a : Action) : (Instr.act a).LeadsTo (s.act a).2 := by
  cases a <;> simp only [System.act] <;> (try split) <;> exact .of_all rfl

theorem leads_begin (c : Call) : (Instr.begin c).LeadsTo (s.begin c).2 := by
  cases c with
  | request _ params => cases params <;> exact .of_all rfl
  | notify _ params => cases params <;> exact .of_all rfl
  | _ => exact .of_all rfl

theorem leads_look (need : Need) (awaited : Bool) :
    (Instr.look need awaited).LeadsTo (s.look need awaited) := by
  unfold System.look
  split <;> (try split) <;> exact .of_all rfl

theorem leads_take (need : Need) (awaited : Bool) (seen : Nat) :
    (Instr.take need awaited seen).LeadsTo (s.take need awaited seen) := by
  unfold System.take
  split <;> (try split) <;> exact .of_all rfl

theorem leads_use (need : Need) (c : Except SupervisorError ConnectionId) :
    (Instr.use need c).LeadsTo (s.use need c).2 := by
  cases need <;> cases c <;> exact .of_all rfl

theorem leads_answered (c : ConnectionId) (method : String) (params : Option Json)
    (shape : Option Json.Shape) (retries : Nat) (r : Except TransportError Json) :
    (Instr.ask c method params (.answer shape retries)).LeadsTo
      (s.answered method params shape retries r).2 := by
  unfold System.answered
  split <;> split <;> (try split) <;> exact .of_all rfl

theorem leads_receipted (c : ConnectionId) (method : String) (params : Option Json)
    (receipt : Receipt) (r : Except TransportError Unit) :
    (Instr.tell c method params receipt).LeadsTo (s.receipted method receipt r).2 := by
  unfold System.receipted
  split <;> exact .of_all rfl

theorem leads_deliver (callback : Callback) (params : Json) :
    (Instr.deliver callback params).LeadsTo (s.deliver params callback).2 := by
  cases callback <;> simp only [System.deliver] <;> (try split) <;> exact .of_all rfl

theorem leads_revoke (subscription : Subscription String) :
    (Instr.revoke subscription).LeadsTo (s.revoke subscription).2 := by
  cases subscription with
  | combined => exact .map _ fun _ => rfl
  | _ => exact .nil _

theorem leads_refreshBegin : Instr.refreshBegin.LeadsTo s.refreshBegin := by
  unfold System.refreshBegin
  split <;> exact .of_all rfl

end Leads

/-- **An instruction leaves only what it leads to.** -/
theorem exec_leads {s r : System} {t : TaskId} {caller : String} {i : Instr} {a : Answer}
    {before : List Instr} (h : s.exec t caller i a = some (r, before)) : i.LeadsTo before := by
  unfold System.exec at h
  split at h
  case h_1 =>
    split at h
    · exact of_result h (.map _ fun _ => rfl)
    · exact of_result h (.nil _)
  case h_3 => exact of_result h (leads_act s _)
  case h_4 => exact of_result h (leads_begin s _)
  case h_5 => exact of_result h (leads_look s _ _)
  case h_6 => exact of_result h (leads_take s _ _ _)
  case h_7 =>
    split at h
    · exact of_result h (.of_all rfl)
    · cases h
  case h_8 => exact of_result h (leads_use s _ _)
  case h_9 =>
    split at h
    · exact of_result h (.nil _)
    · exact of_result h (.append (.map _ fun _ => rfl) (.of_all rfl))
  case h_10 =>
    split at h
    · exact of_result h (.nil _)
    · cases h
  case h_11 => exact of_result h (leads_answered s _ _ _ _ _ _)
  case h_13 => exact of_result h (leads_receipted s _ _ _ _ _)
  case h_14 => exact of_result h (.cons (decide_eq_true rfl) (.nil _))
  case h_15 =>
    split at h
    · exact of_result h (.cons (decide_eq_true rfl) (.nil _))
    · exact of_result h (.cons (decide_eq_true rfl) (.cons (decide_eq_true rfl) (.nil _)))
    · exact of_result h (.cons (decide_eq_true rfl) (.cons (decide_eq_true rfl) (.nil _)))
  case h_17 => exact of_result h (.cons (decide_eq_true rfl) (.nil _))
  case h_19 =>
    exact of_result h (.append (.map _ fun _ => rfl) (.cons (decide_eq_true rfl) (.nil _)))
  case h_20 => exact of_result h (leads_deliver s _ _)
  case h_21 => exact of_result h (.map _ fun _ => rfl)
  case h_22 => exact of_result h (leads_refreshBegin s)
  case h_25 =>
    split at h
    · exact of_result h (.of_all rfl)
    · cases h
  case h_27 =>
    split at h <;> exact of_result h (.of_all rfl)
  case h_29 => exact of_result h (.nil _)
  case h_30 => exact of_result h (leads_revoke s _)
  case h_31 => cases h
  all_goals exact of_result h (.of_all rfl)

/-! ## What a move keeps of a task -/

/-- What becomes of a task that was there before a move. -/
structure Stays (s s' : System) (t : TaskId) (task task' : Task Instr) : Prop where
  caller : task'.caller = task.caller
  /-- Whoever is given up stays so. -/
  aborted : task.aborted = true → task'.aborted = true
  /-- Whoever may be given up might have been before. -/
  abortable : Abortable s'.attached t task' → Abortable s.attached t task
  /-- Whoever listens goes on to until it is given up, or another connection is listened to. -/
  listens : t ∈ s.attached → t ∈ s'.attached ∨ task'.aborted = true ∨ s.machine.state = .starting
  /-- Whoever was given up while it rested takes no further step. -/
  doomed : (task.parked && task.aborted) = true → (task'.parked && task'.aborted) = true

namespace Stays

variable {s r s' : System} {t : TaskId} {task task' : Task Instr}

theorem of_eq (attached : s'.attached = s.attached) (caller : task'.caller = task.caller)
    (aborted : task'.aborted = task.aborted)
    (parked : task.parked = true → task.aborted = true → task'.parked = true) :
    Stays s s' t task task' := by
  refine ⟨caller, fun was => aborted.trans was, fun now => ?_, fun hears => .inl ?_, fun was => ?_⟩
  · rwa [Abortable, caller, aborted, attached] at now
  · rwa [attached]
  · rw [Bool.and_eq_true] at was ⊢
    exact ⟨parked was.1 was.2, aborted.trans was.2⟩

theorem refl (s : System) (t : TaskId) (task : Task Instr) : Stays s s t task task :=
  of_eq rfl rfl rfl fun parked _ => parked

/-- It does not matter how far a task has come. -/
theorem congr (h : Stays s r t task task') {other : Task Instr} (attached : s'.attached = r.attached)
    (caller : other.caller = task'.caller) (aborted : other.aborted = task'.aborted)
    (parked : (task.parked && task.aborted) = true → task'.parked = true → other.parked = true) :
    Stays s s' t task other := by
  refine ⟨caller.trans h.caller, fun was => aborted.trans (h.aborted was), fun now => ?_, ?_,
    fun was => ?_⟩
  · rw [Abortable, caller, aborted, attached] at now
    exact h.abortable now
  · rw [aborted, attached]
    exact h.listens
  · have still := h.doomed was
    rw [Bool.and_eq_true] at still ⊢
    exact ⟨parked was still.1, aborted.trans still.2⟩

/-- Those that listened are given up. -/
theorem detach (h : Stays s r t task task') :
    Stays s r.detach t task
      (if t ∈ r.attached then { task' with aborted := true } else task') := by
  split
  next hears =>
    refine ⟨h.caller, fun _ => rfl, fun _ => h.abortable (.inr (.inr hears)),
      fun _ => .inr (.inl rfl), fun was => ?_⟩
    have still := h.doomed was
    rw [Bool.and_eq_true] at still ⊢
    exact ⟨still.1, rfl⟩
  next deaf =>
    refine ⟨h.caller, h.aborted, fun now => h.abortable ?_, fun was => ?_, h.doomed⟩
    · rcases now with called | aborted | hears
      · exact .inl called
      · exact .inr (.inl aborted)
      · cases hears
    · exact .inr ((h.listens was).resolve_left deaf)

end Stays

/-! ## Where tasks come from -/

/-- What a new task begins with. -/
inductive Opens (s : System) : Move → Instr → Prop
  | act {a : Action} : Opens s (.asked a) (.act a)
  | begin {u : TaskId} {name : String} {c : Call} {a : Answer} :
    Opens s (.did u (.act (.call name c)) a) (.begin c)
  | launch {u : TaskId} {generation : Nat} {p : Path} {a : Answer} :
    Opens s (.did u (.perform (.launch generation p)) a) (.launch generation p)
  | shutDown {u : TaskId} {generation : Nat} {c : ConnectionId} {a : Answer} :
    Opens s (.did u (.perform (.teardown generation c true)) a) (.shutDown generation c)
  | tornDown {u : TaskId} {generation : Nat} {c : ConnectionId} {a : Answer} :
    Opens s (.did u (.perform (.teardown generation c false)) a) (.handle (.tornDown generation))
  | tell {u : TaskId} {c : ConnectionId} {p : Path} {a : Answer} :
    Opens s (.did u (.perform (.changeWorkspace c p)) a)
      (.tell c Message.changeWorkspace (some (.str p.text)) .workspace)
  /-- The connection of a worker that comes up is listened to, for its end -/
  | watch {u : TaskId} {l : Launched} {a : Answer} (starting : s.machine.state = .starting) :
    Opens s (.did u (.handle (.launched s.machine.generation (.ok l))) a)
      (.watchExit s.machine.generation l.connection)
  /-- and for its notifications. -/
  | hear {u : TaskId} {l : Launched} {a : Answer} (starting : s.machine.state = .starting) :
    Opens s (.did u (.handle (.launched s.machine.generation (.ok l))) a) (.receive l.connection)

/-- True of moves that carry out an effect. -/
def Move.performs : Move → Bool
  | .did _ (.perform _) _ => true
  | _ => false

/-- Where a task after a move comes from. -/
inductive Arises (s s' : System) (m : Move) (e : TaskId × Task Instr) : Prop
  /-- It was there and has the same to do. -/
  | kept {task : Task Instr} (mem : (e.1, task) ∈ s.pool.tasks) (stack : e.2.stack = task.stack)
      (stays : Stays s s' e.1 task e.2)
  /-- It has taken the step. -/
  | went {task : Task Instr} {i : Instr} {rest before : List Instr} {a : Answer} {r : System}
      (move : m = .did e.1 i a) (found : s.pool.get? e.1 = some task) (next : task.stack = i :: rest)
      (exec : s.exec e.1 (task.caller.getD "") i a = some (r, before))
      (stack : e.2.stack = before ++ rest) (stays : Stays s s' e.1 task e.2)
  /-- It begins. Nobody gives up a task that carries out an effect, and who listens goes on to until
  it is given up. -/
  | opened {j : Instr} (new : s.pool.next ≤ e.1) (stack : e.2.stack = [j]) (opens : Opens s m j)
      (own : m.performs = true → ¬ Abortable s'.attached e.1 e.2)
      (listens : ∀ c, j = .receive c → e.1 ∈ s'.attached ∨ e.2.aborted = true)

namespace Arises

variable {s r s' : System} {m : Move} {e : TaskId × Task Instr}

/-- Where a task comes from does not depend on what else becomes of the system. -/
theorem congr (h : Arises s r m e) (attached : s'.attached = r.attached) : Arises s s' m e := by
  cases h with
  | kept mem k stays => exact .kept mem k (stays.congr attached rfl rfl fun _ => id)
  | went move found next exec k stays =>
    exact .went move found next exec k (stays.congr attached rfl rfl fun _ => id)
  | opened new k opens own listens =>
    refine .opened new k opens (fun performs => ?_) fun c hears => ?_
    · rw [Abortable, attached]
      exact own performs
    · rw [attached]
      exact listens c hears

/-- Those that listened are given up. -/
theorem detach (h : Arises s r m e) : Arises s r.detach m
    (e.1, if e.1 ∈ r.attached then { e.2 with aborted := true } else e.2) := by
  obtain ⟨t, task'⟩ := e
  have same : (if t ∈ r.attached then { task' with aborted := true } else task').stack =
      task'.stack := by
    split <;> rfl
  cases h with
  | kept mem k stays => exact .kept mem (same.trans k) stays.detach
  | went move found next exec k stays => exact .went move found next exec (same.trans k) stays.detach
  | opened new k opens own listens =>
    refine .opened new (same.trans k) opens (fun performs now => ?_) fun c hears => .inr ?_
    · have own := own performs
      have deaf : t ∉ r.attached := fun hears => own (.inr (.inr hears))
      simp only [if_neg deaf] at now
      rcases now with called | aborted | hears
      · exact own (.inl called)
      · exact own (.inr (.inl aborted))
      · cases hears
    · rcases listens c hears with hears | aborted
      · simp only at hears
        simp only [if_pos hears]
      · split
        · rfl
        · exact aborted

theorem release (h : ∀ e ∈ r.pool.tasks, Arises s r m e) :
    ∀ e ∈ r.release.pool.tasks, Arises s r.release m e := by
  intro e he
  rcases r.release_cases with same | ⟨-, detached⟩
  · rw [same] at he ⊢
    exact h e he
  · rw [detached] at he ⊢
    obtain ⟨task, hmem, heq⟩ := Pool.mem_foldl_abort.mp he
    have arises := (h _ hmem).detach
    rwa [← heq] at arises

end Arises

/-- An effect is carried out in a task of its own. -/
theorem opens_perform (s : System) (t : TaskId) (f : Effect) (a : Answer) :
    ∃ j, System.taskFor f = [j] ∧ Opens s (.did t (.perform f) a) j ∧ ∀ c, j ≠ .receive c := by
  cases f with
  | launch => exact ⟨_, rfl, .launch, fun _ => nofun⟩
  | teardown _ _ alive =>
    cases alive with
    | true => exact ⟨_, rfl, .shutDown, fun _ => nofun⟩
    | false => exact ⟨_, rfl, .tornDown, fun _ => nofun⟩
  | changeWorkspace => exact ⟨_, rfl, .tell, fun _ => nofun⟩

/-- What an instruction makes of the tasks, apart from going on with its own. -/
theorem System.Regrouped.arises {s r : System} {i : Instr} (h : Regrouped s r i)
    (numbered : s.pool.Numbered) (attached : ∀ t ∈ s.attached, t < s.pool.next) (t : TaskId)
    (a : Answer) : ∀ e ∈ r.pool.tasks, Arises s r (.did t i a) e := by
  intro e he
  have kept (listens : r.attached = s.attached) (he : e ∈ s.pool.tasks) :
      Arises s r (.did t i a) e :=
    .kept he rfl (.of_eq listens rfl rfl fun parked _ => parked)
  cases h with
  | same pool listens => exact kept listens (pool ▸ he)
  | called pool listens =>
    rw [pool] at he
    rcases List.mem_append.mp he with he | he
    · exact kept listens he
    · rw [List.mem_singleton.mp he]
      exact .opened (Nat.le_refl _) rfl .begin nofun nofun
  | @performed f pool listens =>
    rw [pool] at he
    rcases List.mem_append.mp he with he | he
    · exact kept listens he
    · rw [List.mem_singleton.mp he]
      obtain ⟨j, stack, opens, deaf⟩ := opens_perform s t f a
      refine .opened (Nat.le_refl _) stack opens (fun _ => ?_) fun c hears =>
        absurd hears (deaf c)
      rw [listens]
      rintro (called | aborted | hears)
      · cases called
      · cases aborted
      · exact absurd (attached _ hears) (Nat.lt_irrefl _)
  | @attached l starting pool listens =>
    rw [pool] at he
    rcases List.mem_append.mp he with he | he
    · rcases List.mem_append.mp he with he | he
      · have old := numbered.below e he
        refine .kept he rfl ⟨rfl, id, fun now => ?_, fun _ => .inr (.inr starting), id⟩
        rcases now with called | aborted | hears
        · exact .inl called
        · exact .inr (.inl aborted)
        · rw [listens] at hears
          rcases List.mem_pair.mp hears with hears | hears
          · exact absurd old (hears ▸ Nat.lt_irrefl _)
          · exact absurd old (hears ▸ Nat.not_succ_lt_self)
      · rw [List.mem_singleton.mp he]
        exact .opened (Nat.le_refl _) rfl (.watch starting) nofun nofun
    · rw [List.mem_singleton.mp he]
      refine .opened (Nat.le_succ _) rfl (.hear starting) nofun fun _ _ => .inl ?_
      rw [listens]
      exact List.mem_cons_of_mem _ List.mem_cons_self
  | detached pool listens =>
    rw [pool] at he
    obtain ⟨task, hmem, heq⟩ := Pool.mem_foldl_abort.mp he
    have stays := (Stays.refl s e.1 task).detach
    rw [← heq] at stays
    refine .kept hmem ?_ (stays.congr ?_ rfl rfl fun _ => id)
    · rw [heq]
      split <;> rfl
    · rw [listens]
      rfl

/-- **Where the tasks come from** that are there after a move. -/
theorem Moves.arises {s s' : System} {m : Move} (step : Moves s m s') (numbered : s.pool.Numbered)
    (attached : ∀ t ∈ s.attached, t < s.pool.next) : ∀ e ∈ s'.pool.tasks, Arises s s' m e := by
  cases step with
  | ask a =>
    intro e he
    rcases List.mem_append.mp he with he | he
    · exact .kept he rfl (.of_eq rfl rfl rfl fun parked _ => parked)
    · rw [List.mem_singleton.mp he]
      exact .opened (Nat.le_refl _) rfl .act nofun nofun
  | @act _ t task i rest a found next taken =>
    obtain ⟨r, before, exec, free, result⟩ := step_exec found next taken
    have regrouped := (exec_cases exec).regrouped
    have arises := regrouped.arises numbered attached t a
    have proceeded : ∀ e ∈ (r.proceed t (before ++ rest)).pool.tasks,
        Arises s (r.proceed t (before ++ rest)) (.did t i a) e := by
      rintro ⟨k, now⟩ he
      rcases Pool.mem_proceed he with ⟨-, hmem⟩ | ⟨same, other, hmem, heq⟩
      · exact (arises _ hmem).congr rfl
      · simp only at same heq
        subst same heq
        have awake : (task.parked && task.aborted) = true → other.parked = true → false = true := by
          rw [free]
          exact nofun
        -- The task itself was there before, with the instruction at its head.
        cases arises _ hmem with
        | kept hold stack stays =>
          obtain rfl := numbered.unique hold (Pool.mem_of_get? found)
          exact .went rfl found next exec rfl (stays.congr rfl rfl rfl awake)
        | went _ found' _ _ _ stays =>
          obtain rfl := Option.some.inj (found.symm.trans found')
          exact .went rfl found next exec rfl (stays.congr rfl rfl rfl awake)
        | opened new =>
          exact absurd (numbered.below _ (Pool.mem_of_get? found)) (Nat.not_lt.mpr new)
    rcases result with rfl | rfl
    · exact proceeded
    · exact Arises.release proceeded
  | park =>
    refine Arises.release fun e he => ?_
    obtain ⟨task, parked, hmem, still, heq⟩ := Pool.mem_park he
    refine .kept hmem (by rw [heq]) (.of_eq rfl (by rw [heq]) (by rw [heq]) fun was _ => ?_)
    rw [heq]
    exact still was
  | cancel => exact fun e he => .kept he rfl (.of_eq rfl rfl rfl fun parked _ => parked)
  | @abort t task found called =>
    intro e he
    obtain ⟨old, hmem, heq⟩ := Pool.mem_modify.mp he
    refine .kept hmem ?_ ?_
    · rw [heq]
      split <;> rfl
    · rw [heq]
      split
      next same =>
        obtain rfl := numbered.unique (same ▸ hmem) (Pool.mem_of_get? found)
        refine ⟨rfl, fun _ => rfl, fun _ => .inl called, .inl, fun was => ?_⟩
        rw [Bool.and_eq_true] at was ⊢
        exact ⟨was.1, rfl⟩
      next => exact .of_eq rfl rfl rfl fun parked _ => parked
  | drop =>
    exact Arises.release fun e he => .kept he rfl (.of_eq rfl rfl rfl fun parked _ => parked)

/-! ## What is known of every task -/

/-- **A property of tasks that every move keeps**: it may not depend on who was given up, new tasks
have it, and it is kept by whoever goes on or comes to wait. -/
theorem Moves.every {s s' : System} {m : Move} {P : TaskId → Task Instr → Prop}
    (step : Moves s m s') (numbered : s.pool.Numbered) (h : s.pool.Every P)
    (abort : ∀ t task, P t task → P t { task with aborted := true })
    (opens : ∀ t caller j, Opens s m j → P t ⟨caller, [j], true, false⟩)
    (park : ∀ t task i rest, task.stack = i :: rest → i.waits = true → P t task →
      P t { task with parked := true })
    (act : ∀ t task caller i rest a r before, task.stack = i :: rest →
      s.exec t caller i a = some (r, before) → P t task →
      P t { task with stack := before ++ rest, parked := false }) : s'.pool.Every P := by
  have release {r : System} (h : r.pool.Every P) : r.release.pool.Every P :=
    r.release_elim h (h.foldl_abort abort _)
  cases step with
  | ask a => exact h.spawn (opens _ _ _ .act)
  | @act _ t task i rest a found next taken =>
    obtain ⟨r, before, exec, -, result⟩ := step_exec found next taken
    have regrouped := (exec_cases exec).regrouped
    have others : r.pool.Every P := by
      cases regrouped with
      | same pool => rwa [pool]
      | called pool => rw [pool]; exact h.spawn (opens _ _ _ .begin)
      | @performed f pool =>
        obtain ⟨j, stack, begun, -⟩ := opens_perform s t f a
        rw [pool, stack]
        exact h.spawn (opens _ _ _ begun)
      | attached starting pool =>
        rw [pool]
        exact (h.spawn (opens _ _ _ (.watch starting))).spawn (opens _ _ _ (.hear starting))
      | detached pool => rw [pool]; exact h.foldl_abort abort _
    have proceeded : (r.proceed t (before ++ rest)).pool.Every P := by
      refine others.proceed fun other hother _ => ?_
      obtain ⟨aborted, there⟩ := regrouped.mem (Pool.mem_of_get? found)
      have same := (regrouped.numbered numbered).unique hother there
      exact act t other _ i rest a r before (by rw [same]; exact next) exec (others _ hother)
    rcases result with rfl | rfl
    · exact proceeded
    · exact release proceeded
  | @park t task i rest found next waits =>
    refine release (h.park fun other hother holds => ?_)
    obtain rfl := numbered.unique hother (Pool.mem_of_get? found)
    exact park t other i rest next waits holds
  | cancel => exact h
  | abort => exact h.abort fun task _ => abort _ task
  | drop => exact release h

/-! ## What one task has to do -/

/-- What becomes of what a task has to do. -/
inductive Turns (s s' : System) (m : Move) (t : TaskId) : Prop
  | same (other : ∀ i a, m ≠ .did t i a) (stack : s'.pool.stack t = s.pool.stack t)
  | went {i : Instr} {rest before : List Instr} {a : Answer} {caller : String} {r : System}
      (move : m = .did t i a) (next : s.pool.stack t = i :: rest)
      (exec : s.exec t caller i a = some (r, before)) (stack : s'.pool.stack t = before ++ rest)
  | begun {j : Instr} (other : ∀ i a, m ≠ .did t i a) (new : s.pool.next ≤ t) (opens : Opens s m j)
      (stack : s'.pool.stack t = [j]) (hears : ∀ c, j = .receive c → t = s.pool.next + 1)
  /-- It was given up and comes to wait. -/
  | dropped {i : Instr} {rest : List Instr} (move : m = .parked t)
      (next : s.pool.stack t = i :: rest) (waits : i.waits = true) (stack : s'.pool.stack t = [])

theorem System.stack_release (s : System) (t : TaskId) :
    s.release.pool.stack t = s.pool.stack t :=
  s.release_elim rfl (Pool.stack_foldl_abort _ _ _)

/-- What an instruction makes of what a task has to do, apart from going on with its own. -/
theorem System.Regrouped.stack {s r : System} {i : Instr} (h : Regrouped s r i)
    (numbered : s.pool.Numbered) (u : TaskId) (a : Answer) (t : TaskId) :
    r.pool.stack t = s.pool.stack t ∨ ∃ j, s.pool.next ≤ t ∧ Opens s (.did u i a) j ∧
      r.pool.stack t = [j] ∧ ∀ c, j = .receive c → t = s.pool.next + 1 := by
  cases h with
  | same pool => exact .inl (by rw [pool])
  | called pool =>
    rw [pool, numbered.stack_spawn]
    split
    next same => exact .inr ⟨_, Nat.le_of_eq same.symm, .begin, rfl, nofun⟩
    next => exact .inl rfl
  | @performed f pool =>
    obtain ⟨j, stack, opens, deaf⟩ := opens_perform s u f a
    rw [pool, numbered.stack_spawn]
    split
    next same =>
      exact .inr ⟨j, Nat.le_of_eq same.symm, opens, stack, fun c hears => absurd hears (deaf c)⟩
    next => exact .inl rfl
  | attached starting pool =>
    rw [pool, (numbered.spawn _ _).stack_spawn, numbered.stack_spawn]
    split
    next same =>
      exact .inr ⟨_, same ▸ Nat.le_succ _, .hear starting, rfl, fun _ _ => same⟩
    next =>
      split
      next same => exact .inr ⟨_, Nat.le_of_eq same.symm, .watch starting, rfl, nofun⟩
      next => exact .inl rfl
  | detached pool => exact .inl (by rw [pool, Pool.stack_foldl_abort])

/-- **What a task has to do after a move.** -/
theorem Moves.turns {s s' : System} {m : Move} (step : Moves s m s') (numbered : s.pool.Numbered)
    (t : TaskId) : Turns s s' m t := by
  cases step with
  | ask a =>
    have spawned := numbered.stack_spawn none [.act a] t
    split at spawned
    next same =>
      exact .begun (fun _ _ => nofun) (Nat.le_of_eq same.symm) .act spawned fun _ => nofun
    next => exact .same (fun _ _ => nofun) spawned
  | @act _ u task i rest a found next taken =>
    obtain ⟨r, before, exec, -, result⟩ := step_exec found next taken
    have regrouped := (exec_cases exec).regrouped
    obtain ⟨aborted, there⟩ := regrouped.found numbered found
    have now : s'.pool.stack t = if t = u then before ++ rest else r.pool.stack t := by
      have proceeded := Pool.stack_proceed there (before ++ rest) t
      rcases result with rfl | rfl
      · exact proceeded
      · exact (System.stack_release _ t).trans proceeded
    by_cases own : t = u
    · subst own
      rw [if_pos rfl] at now
      exact .went rfl ((Pool.stack_of_get? found).trans next) exec now
    · rw [if_neg own] at now
      have other : ∀ j b, Move.did u i a ≠ .did t j b := by
        intro j b same
        cases same
        exact own rfl
      rcases regrouped.stack numbered u a t with same | ⟨j, new, opens, stack, hears⟩
      · exact .same other (now.trans same)
      · exact .begun other new opens (now.trans stack) hears
  | @park u task i rest found next waits =>
    have released := System.stack_release { s with pool := s.pool.park u } t
    rcases s.pool.stack_park u t with same | ⟨rfl, nothing⟩
    · exact .same (fun _ _ => nofun) (released.trans same)
    · exact .dropped rfl ((Pool.stack_of_get? found).trans next) waits (released.trans nothing)
  | cancel => exact .same (fun _ _ => nofun) rfl
  | abort => exact .same (fun _ _ => nofun) (Pool.stack_foldl_abort [_] _ t)
  | drop => exact .same (fun _ _ => nofun) (System.stack_release { s with handle := false } t)

/-! ## Where instructions come from -/

/-- Where an instruction comes from that a task has to execute after a move. -/
inductive Springs (s s' : System) (m : Move) (e : TaskId × Task Instr) (j : Instr) : Prop
  | old {task : Task Instr} (mem : (e.1, task) ∈ s.pool.tasks) (here : j ∈ task.stack)
      (stays : Stays s s' e.1 task e.2)
  | left {task : Task Instr} {i : Instr} {before : List Instr} {a : Answer} {r : System}
      (move : m = .did e.1 i a) (exec : s.exec e.1 (task.caller.getD "") i a = some (r, before))
      (here : j ∈ before) (mem : (e.1, task) ∈ s.pool.tasks) (first : i ∈ task.stack)
      (stays : Stays s s' e.1 task e.2)
  | opened (new : s.pool.next ≤ e.1) (opens : Opens s m j)
      (own : m.performs = true → ¬ Abortable s'.attached e.1 e.2)
      (listens : ∀ c, j = .receive c → e.1 ∈ s'.attached ∨ e.2.aborted = true)

/-- An instruction was there, is left by another one, or is what a new task begins with. -/
theorem Arises.springs {s s' : System} {m : Move} {e : TaskId × Task Instr} (h : Arises s s' m e)
    {j : Instr} (hj : j ∈ e.2.stack) : Springs s s' m e j := by
  cases h with
  | kept mem stack stays => exact .old mem (stack ▸ hj) stays
  | @went task i rest before a r move found next exec stack stays =>
    have mem := Pool.mem_of_get? found
    rw [stack] at hj
    rcases List.mem_append.mp hj with hj | hj
    · exact .left move exec hj mem (next ▸ List.mem_cons_self) stays
    · exact .old mem (next ▸ List.mem_cons_of_mem _ hj) stays
  | opened new stack opens own listens =>
    rw [stack] at hj
    obtain rfl := List.mem_singleton.mp hj
    exact .opened new opens own listens

/-! ## Calls that have not begun -/

/-- No instruction leaves a call to be begun. -/
theorem exec_begins_none {s r : System} {t : TaskId} {caller : String} {i : Instr} {a : Answer}
    {before : List Instr} (h : s.exec t caller i a = some (r, before)) (c : Call) :
    Instr.begin c ∉ before := by
  intro begins
  have leads := exec_leads h _ begins
  cases i <;> cases leads

/-- A call that has not begun has nothing else to do. -/
theorem Run.lone {options : Options} {past : List Move} {s : System} (run : Run options past s) :
    ∀ e ∈ s.pool.tasks, ∀ c, Instr.begin c ∈ e.2.stack → e.2.stack = [.begin c] := by
  induction run with
  | start => exact nofun
  | @next past s s' m run step ih =>
    have sound := Sound.of_run run
    intro e he c begins
    cases step.arises sound.numbered sound.attached e he with
    | kept mem stack =>
      rw [stack] at begins ⊢
      exact ih _ mem c begins
    | @went task i rest before _ _ _ found next exec stack =>
      rw [stack] at begins
      rcases List.mem_append.mp begins with begins | begins
      · exact absurd begins (exec_begins_none exec c)
      · have inside : .begin c ∈ task.stack := next ▸ List.mem_cons_of_mem _ begins
        have alone : task.stack = [.begin c] := ih _ (Pool.mem_of_get? found) c inside
        rw [next] at alone
        rw [(List.cons.inj alone).2] at begins
        cases begins
    | opened _ stack =>
      rw [stack] at begins ⊢
      rw [List.mem_singleton.mp begins]

end Supervision.Worker
