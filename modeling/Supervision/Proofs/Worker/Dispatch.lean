import Supervision.Proofs.Worker.Completion
import Supervision.Proofs.Worker.Roster
import Supervision.Proofs.Worker.Tidings

/-!
# What listeners hear of a worker

The notifications of a connection are taken by a task of its own. Whenever it takes one it looks up
who is registered for the method, and then passes the params on, to one callback after the other;
a listener that is called may listen and dispose of subscriptions itself, but who hears of this
notification is settled. The law here compares three readings of one history: what a task took and
who was registered then (`takings`), what it passed on (`passes`), and whom it called (`calls`).

To every callback a task passes what it took while the callback was registered, in the order in
which it took it, and what is not passed on yet is still to be done by the task (`Dispatched`). It
comes to wait only when nothing is left, so that nothing is lost when it is given up. Which of the
callbacks for one notification is first is not looked at.
-/

namespace Supervision.Worker

/-! ## What a task took, passed on and called -/

/-- The callback that an instruction passes params to. -/
def Instr.pass? : Instr → Option (Callback × Json)
  | .deliver callback params => some (callback, params)
  | _ => none

/-- The listener that an instruction calls, and the payload. -/
def Instr.call? : Instr → Option (Listener × Json)
  | .listener l payload => some (l, payload)
  | _ => none

/-- The listener that a callback calls with params, and the payload. One that takes params of one
shape calls nobody with others. -/
def Callback.hears? : Callback × Json → Option (Listener × Json)
  | (.any l, params) => some (l, params)
  | (.shaped l _ shape, params) =>
    match shape.read params with
    | .ok payload => some (l, payload)
    | .error _ => none
  | (.refreshed l, _) => some (l, .str "refreshed")
  | _ => none

/-- The instruction that a task executed with a move, and the answer. -/
def Move.deed? (t : TaskId) : Move → Option (Instr × Answer)
  | .did u i a => if u = t then some (i, a) else none
  | _ => none

/-- What a task executed, the latest first. -/
def deeds (t : TaskId) (past : List Move) : List (Instr × Answer) :=
  past.filterMap (Move.deed? t)

/-- What a task passed on, and to whom, the latest first. -/
def passes (t : TaskId) (past : List Move) : List (Callback × Json) :=
  (deeds t past).filterMap fun deed => deed.1.pass?

/-- Whom a task called, and with what, the latest first. -/
def calls (t : TaskId) (past : List Move) : List (Listener × Json) :=
  (deeds t past).filterMap fun deed => deed.1.call?

/-- A notification that was taken from a connection. -/
structure Taking where
  connection : ConnectionId
  notification : Message.Notification
  /-- What was registered for its method. -/
  audience : List Registration

/-- What is passed on: no params are passed on as `null`. -/
def Taking.params (k : Taking) : Json :=
  k.notification.params.getD .null

/-- What a task takes with a move. -/
def Move.takes? (t : TaskId) : Move → Option (ConnectionId × Message.Notification)
  | .did u (.receive c) (.received (some n)) => if u = t then some (c, n) else none
  | _ => none

/-- What a task took, the latest first. -/
def takings (options : Options) (t : TaskId) : List Move → List Taking
  | [] => []
  | m :: past =>
    ((m.takes? t).map fun taken =>
      ⟨taken.1, taken.2, registered options past taken.2.method⟩).toList ++ takings options t past

/-- What comes of a notification that is taken, the last first. -/
def Taking.passed (k : Taking) : List (Callback × Json) :=
  (k.audience.map fun g => (g.callback, k.params)).reverse

/-- What is passed to some callbacks. -/
def payloads (mine : Callback → Bool) (passed : List (Callback × Json)) : List Json :=
  (passed.filter fun pass => mine pass.1).map Prod.snd

/-! ## How a task passes on what it took -/

/-- True of instructions that pass something on, or call a listener. -/
def Instr.hands (i : Instr) : Bool :=
  i.pass?.isSome || i.call?.isSome

/-- What may stand before what in the stack of a task. -/
structure Precedes (i j : Instr) : Prop where
  /-- Taking notifications is the last thing to do. -/
  last : ∀ c, i ≠ .receive c
  /-- Calling a listener is the first. -/
  first : j.call? = none
  /-- Nobody waits before everything is passed on. -/
  busy : j.pass?.isSome = true → i.yields = false

/-- How a task stands while it passes on what it took. -/
structure Handing (task : Task Instr) : Prop where
  order : task.stack.Pairwise Precedes
  /-- Whoever is between two turns has passed on everything. -/
  rest : task.parked = true → ∀ i ∈ task.stack, i.hands = false

theorem hands_eq_false {i : Instr} : i.hands = false ↔ i.pass? = none ∧ i.call? = none := by
  simp [Instr.hands]

theorem yields_of_waits {i : Instr} (waits : i.waits = true) : i.yields = true := by
  cases i <;> first | rfl | cases waits

theorem hands_of_yields {i : Instr} (yields : i.yields = true) : i.hands = false := by
  cases i <;> first | rfl | cases yields

/-- Whoever may come to wait has nothing left to pass on. -/
theorem hands_of_precedes {i : Instr} {rest : List Instr} (order : (i :: rest).Pairwise Precedes)
    (yields : i.yields = true) : ∀ j ∈ i :: rest, j.hands = false := by
  intro j hj
  rcases List.mem_cons.mp hj with rfl | hj
  · exact hands_of_yields yields
  · have precedes := (List.pairwise_cons.mp order).1 j hj
    refine hands_eq_false.mpr ⟨?_, precedes.first⟩
    cases passes : j.pass? with
    | none => rfl
    | some pass =>
      have busy := precedes.busy (by rw [passes]; rfl)
      rw [yields] at busy
      cases busy

/-- What is to be passed on after an answer. -/
def System.received (s : System) : Instr → Answer → List (Callback × Json)
  | .receive _, .received (some n) =>
    (s.listeners.snapshot n.method).map fun callback => (callback, n.params.getD .null)
  | _, _ => []

/-- An instruction leaves to be passed on what it took. -/
theorem exec_passes {s r : System} {t : TaskId} {caller : String} {i : Instr} {a : Answer}
    {before : List Instr} (h : s.exec t caller i a = some (r, before)) :
    before.filterMap Instr.pass? = s.received i a := by
  have leads := exec_leads h
  cases i with
  | receive c =>
    cases a with
    | received n =>
      cases n with
      | none =>
        cases h
        rfl
      | some n =>
        cases h
        rw [List.filterMap_append, List.filterMap_map]
        show List.filterMap (fun callback => some (callback, n.params.getD .null)) _ ++ [] = _
        rw [List.append_nil, List.filterMap_eq_map']
        rfl
    | _ => cases h
  | _ =>
    refine List.filterMap_eq_nil_iff.mpr fun j hj => ?_
    cases j with
    | deliver => cases leads _ hj
    | _ => rfl

/-- Passing params on leaves to call whoever hears them. -/
theorem System.deliver_eq (s : System) (params : Json) (callback : Callback) :
    (s.deliver params callback).2 =
      ((Callback.hears? (callback, params)).map fun call => .listener call.1 call.2).toList := by
  cases callback with
  | shaped l method shape =>
    cases read : shape.read params <;> simp only [deliver, Callback.hears?, read] <;> rfl
  | trackStart tracker =>
    simp only [deliver]
    split <;> rfl
  | trackEnd tracker =>
    simp only [deliver]
    split <;> rfl
  | _ => rfl

theorem exec_deliver_eq {s r : System} {t : TaskId} {caller : String} {callback : Callback}
    {params : Json} {a : Answer} {before : List Instr}
    (h : s.exec t caller (.deliver callback params) a = some (r, before)) :
    before =
      ((Callback.hears? (callback, params)).map fun call => .listener call.1 call.2).toList := by
  cases a with
  | nothing =>
    rw [← s.deliver_eq params callback]
    exact (congrArg Prod.snd (Option.some.inj h)).symm
  | _ => cases h

/-- An instruction leaves to be called whoever hears what it passes on. -/
theorem exec_calls {s r : System} {t : TaskId} {caller : String} {i : Instr} {a : Answer}
    {before : List Instr} (h : s.exec t caller i a = some (r, before)) :
    before.filterMap Instr.call? = (i.pass?.bind Callback.hears?).toList := by
  have leads := exec_leads h
  cases i with
  | deliver callback params =>
    rw [exec_deliver_eq h]
    show _ = (Callback.hears? (callback, params)).toList
    cases Callback.hears? (callback, params) <;> rfl
  | _ =>
    refine List.filterMap_eq_nil_iff.mpr fun j hj => ?_
    cases j with
    | listener => cases leads _ hj
    | _ => rfl

/-- What an instruction leaves stands in order. -/
theorem exec_precedes {s r : System} {t : TaskId} {caller : String} {i : Instr} {a : Answer}
    {before : List Instr} (h : s.exec t caller i a = some (r, before)) :
    before.Pairwise Precedes := by
  have leads := exec_leads h
  cases i with
  | receive c =>
    cases a with
    | received n =>
      cases n with
      | none =>
        cases h
        exact List.Pairwise.nil
      | some n =>
        cases h
        refine List.pairwise_append.mpr ⟨?_, List.pairwise_singleton _ _, ?_⟩
        · rw [List.pairwise_map]
          refine List.pairwise_of_forall_mem_list fun _ _ _ _ => ?_
          exact ⟨fun _ => nofun, rfl, fun _ => rfl⟩
        · intro i hi j hj
          obtain ⟨callback, -, rfl⟩ := List.mem_map.mp hi
          rw [List.mem_singleton.mp hj]
          exact ⟨fun _ => nofun, rfl, nofun⟩
    | _ => cases h
  | deliver callback params =>
    rw [exec_deliver_eq h]
    cases Callback.hears? (callback, params) with
    | none => exact List.Pairwise.nil
    | some call => exact List.pairwise_singleton _ _
  | _ =>
    refine List.pairwise_of_forall_mem_list fun j hj k hk => ⟨fun c same => ?_, ?_, fun passes => ?_⟩
    · rw [same] at hj
      cases leads _ hj
    · cases k with
      | listener => cases leads _ hk
      | _ => rfl
    · cases k with
      | deliver => cases leads _ hk
      | _ => cases passes

/-- What comes in place of an instruction stands in order with what comes after it. -/
theorem order_of_exec {s r : System} {t : TaskId} {caller : String} {i : Instr} {a : Answer}
    {rest before : List Instr} (order : (i :: rest).Pairwise Precedes)
    (h : s.exec t caller i a = some (r, before)) : (before ++ rest).Pairwise Precedes := by
  obtain ⟨first, after⟩ := List.pairwise_cons.mp order
  refine List.pairwise_append.mpr ⟨exec_precedes h, after, ?_⟩
  intro b hb j hj
  have precedes := first j hj
  refine ⟨?_, precedes.first, ?_⟩
  · intro c same
    rw [same] at hb
    exact precedes.last c (Instr.leads_receive (exec_leads h _ hb))
  · intro passes
    cases yields : b.yields with
    | false => rfl
    | true =>
      have busy := precedes.busy passes
      rw [(exec_cases h).replaces.yields b hb yields] at busy
      cases busy

/-- What a new task begins with passes nothing on. -/
theorem hands_of_opens {s : System} {m : Move} {j : Instr} (opens : Opens s m j) :
    j.hands = false := by
  cases opens <;> rfl

/-- **Every task of a run passes on what it took before it comes to wait.** -/
theorem Run.handing {options : Options} {past : List Move} {s : System}
    (run : Run options past s) : s.pool.Every fun _ task => Handing task := by
  induction run with
  | start => exact Pool.every_empty
  | @next past s s' m run step ih =>
    refine step.every (Sound.of_run run).numbered ih ?_ ?_ ?_ ?_
    · intro t task h
      exact ⟨h.order, h.rest⟩
    · intro t caller j opens
      refine ⟨List.pairwise_singleton _ _, fun _ i hi => ?_⟩
      rw [List.mem_singleton.mp hi]
      exact hands_of_opens opens
    · intro t task i rest next waits h
      refine ⟨h.order, fun _ => ?_⟩
      have order := h.order
      rw [next] at order
      show ∀ j ∈ task.stack, j.hands = false
      rw [next]
      exact hands_of_precedes order (yields_of_waits waits)
    · intro t task caller i rest a r before next exec h
      have order := h.order
      rw [next] at order
      exact ⟨order_of_exec order exec, nofun⟩

/-- What a task has to do stands in order. -/
theorem Run.order {options : Options} {past : List Move} {s : System} (run : Run options past s)
    (t : TaskId) : (s.pool.stack t).Pairwise Precedes := by
  cases found : s.pool.get? t with
  | none =>
    rw [Pool.stack, found]
    exact List.Pairwise.nil
  | some task =>
    rw [Pool.stack_of_get? found]
    exact (run.handing _ (Pool.mem_of_get? found)).order

/-! ## The ledger of a task -/

theorem deeds_cons (t : TaskId) (m : Move) (past : List Move) :
    deeds t (m :: past) = (m.deed? t).toList ++ deeds t past :=
  filterMap_cons_toList _ _ _

theorem deeds_did (t : TaskId) (i : Instr) (a : Answer) (past : List Move) :
    deeds t (.did t i a :: past) = (i, a) :: deeds t past := by
  rw [deeds_cons, Move.deed?, if_pos rfl]
  rfl

theorem deed?_of_other {t : TaskId} {m : Move} (other : ∀ i a, m ≠ .did t i a) :
    m.deed? t = none := by
  unfold Move.deed?
  split
  next u i a =>
    refine if_neg fun same => other i a ?_
    rw [same]
  next => rfl

theorem takes?_of_other {t : TaskId} {m : Move} (other : ∀ i a, m ≠ .did t i a) :
    m.takes? t = none := by
  unfold Move.takes?
  split
  next u c n =>
    refine if_neg fun same => other (.receive c) (.received (some n)) ?_
    rw [same]
  next => rfl

/-- What a task took, it passed on or has to pass on; and whom it passed it to, it called or has to
call. -/
structure Settles (options : Options) (past : List Move) (s : System) (t : TaskId) : Prop where
  passed : ((s.pool.stack t).filterMap Instr.pass?).reverse ++ passes t past =
    (takings options t past).flatMap Taking.passed
  called : ((s.pool.stack t).filterMap Instr.call?).reverse ++ calls t past =
    (passes t past).filterMap Callback.hears?

/-- What others do leaves the ledger of a task as it is. -/
theorem Settles.other {options : Options} {past : List Move} {s s' : System} {t : TaskId} {m : Move}
    (h : Settles options past s t) (other : ∀ i a, m ≠ .did t i a)
    (passes : (s'.pool.stack t).filterMap Instr.pass? = (s.pool.stack t).filterMap Instr.pass?)
    (calls : (s'.pool.stack t).filterMap Instr.call? = (s.pool.stack t).filterMap Instr.call?) :
    Settles options (m :: past) s' t := by
  have same : deeds t (m :: past) = deeds t past := by
    rw [deeds_cons, deed?_of_other other]
    rfl
  constructor
  · rw [passes, Worker.passes, same, takings, takes?_of_other other]
    exact h.passed
  · rw [calls, Worker.calls, Worker.passes, same]
    exact h.called

theorem filterMap_toList {α β : Type} (f : α → Option β) (o : Option α) :
    o.toList.filterMap f = (o.bind f).toList := by
  cases o with
  | none => rfl
  | some x => exact (filterMap_cons_toList f x []).trans (List.append_nil _)

/-- What comes of a taking is what is passed on after it. -/
theorem Enrolled.taken {options : Options} {past : List Move} {s : System}
    (h : Enrolled options past s) (t : TaskId) (i : Instr) (a : Answer) :
    (takings options t (.did t i a :: past)).flatMap Taking.passed =
      (s.received i a).reverse ++ (takings options t past).flatMap Taking.passed := by
  rw [takings, List.flatMap_append]
  congr 1
  cases i with
  | receive c =>
    cases a with
    | received n =>
      cases n with
      | none => rfl
      | some n =>
        simp only [Move.takes?, if_true, Option.map_some, Option.toList_some, List.flatMap_cons,
          List.flatMap_nil, List.append_nil, Taking.passed, Taking.params, System.received,
          h.snapshot, List.map_map]
        rfl
    | _ => rfl
  | _ => rfl

/-- **A step of a task leaves its ledger balanced.** -/
theorem Settles.went {options : Options} {past : List Move} {s s' r : System} {t : TaskId}
    {caller : String} {i : Instr} {a : Answer} {rest before : List Instr}
    (h : Settles options past s t) (enrolled : Enrolled options past s)
    (order : (i :: rest).Pairwise Precedes) (next : s.pool.stack t = i :: rest)
    (exec : s.exec t caller i a = some (r, before)) (stack : s'.pool.stack t = before ++ rest) :
    Settles options (.did t i a :: past) s' t := by
  have passed := h.passed
  have called := h.called
  have passes_eq : passes t (.did t i a :: past) = i.pass?.toList ++ passes t past := by
    rw [passes, deeds_did, filterMap_cons_toList]
    rfl
  have calls_eq : calls t (.did t i a :: past) = i.call?.toList ++ calls t past := by
    rw [calls, deeds_did, filterMap_cons_toList]
    rfl
  have reverse {α : Type} (o : Option α) : o.toList.reverse = o.toList := by
    cases o <;> rfl
  rw [next, filterMap_cons_toList, List.reverse_append, reverse, List.append_assoc] at passed called
  constructor
  · rw [stack, List.filterMap_append, exec_passes exec, passes_eq, enrolled.taken t i a, ← passed,
      List.reverse_append, List.append_assoc]
    -- Whoever takes something has nothing else to do.
    have alone : s.received i a = [] ∨ rest = [] := by
      cases i with
      | receive c =>
        cases rest with
        | nil => exact .inr rfl
        | cons j rest => exact absurd rfl (((List.pairwise_cons.mp order).1 j List.mem_cons_self).last c)
      | _ => exact .inl rfl
    rcases alone with none | none
    · rw [none]
      rfl
    · rw [none]
      rfl
  · rw [stack, List.filterMap_append, exec_calls exec, calls_eq, passes_eq, List.filterMap_append,
      ← called, filterMap_toList, List.reverse_append, List.append_assoc, reverse]
    have none : rest.filterMap Instr.call? = [] :=
      List.filterMap_eq_nil_iff.mpr fun j hj => ((List.pairwise_cons.mp order).1 j hj).first
    rw [none]
    rfl

/-- **The ledger of every task is balanced in every run.** -/
theorem Run.settles {options : Options} {past : List Move} {s : System} (run : Run options past s)
    (t : TaskId) : Settles options past s t := by
  induction run with
  | start => exact ⟨rfl, rfl⟩
  | @next past s s' m run step ih =>
    have numbered := (Sound.of_run run).numbered
    cases step.turns numbered t with
    | same other stack => exact ih.other other (by rw [stack]) (by rw [stack])
    | @begun j other new opens stack =>
      obtain ⟨pass, call⟩ := hands_eq_false.mp (hands_of_opens opens)
      refine ih.other other ?_ ?_
      · rw [stack, numbered.stack_of_new new, List.filterMap_cons_none pass]
      · rw [stack, numbered.stack_of_new new, List.filterMap_cons_none call]
    | dropped move next waits stack =>
      subst move
      have order := run.order t
      rw [next] at order
      have none := hands_of_precedes order (yields_of_waits waits)
      refine ih.other (fun _ _ => nofun) ?_ ?_
      · rw [stack, next]
        exact (List.filterMap_eq_nil_iff.mpr fun j hj => (hands_eq_false.mp (none j hj)).1).symm
      · rw [stack, next]
        exact (List.filterMap_eq_nil_iff.mpr fun j hj => (hands_eq_false.mp (none j hj)).2).symm
    | went move next exec stack =>
      subst move
      have order := run.order t
      rw [next] at order
      exact ih.went run.enrolled order next exec stack

/-! ## Who takes the notifications of a connection -/

/-- A task takes the notifications of a connection, or has taken one. -/
def TakenBy (past : List Move) (s : System) (t : TaskId) (c : ConnectionId) : Prop :=
  Instr.receive c ∈ s.pool.stack t ∨ ∃ a, Move.did t (.receive c) a ∈ past

theorem TakenBy.taken {past : List Move} {s : System} {t : TaskId} {c : ConnectionId}
    (h : TakenBy past s t c) : Taken past s c := by
  rcases h with hears | ⟨a, did⟩
  · cases found : s.pool.get? t with
    | none =>
      rw [Pool.stack, found] at hears
      cases hears
    | some task =>
      rw [Pool.stack_of_get? found] at hears
      exact .inl ⟨_, Pool.mem_of_get? found, hears⟩
  · exact .inr ⟨t, a, did⟩

/-- Whoever takes notifications was made before. -/
theorem Run.made_of_takenBy {options : Options} {past : List Move} {s : System}
    (run : Run options past s) {t : TaskId} {c : ConnectionId} (h : TakenBy past s t c) :
    t < s.pool.next := by
  rcases h with hears | ⟨a, did⟩
  · refine Nat.lt_of_not_le fun new => ?_
    rw [(Sound.of_run run).numbered.stack_of_new new] at hears
    cases hears
  · exact run.fresh.1 t _ a did

/-- The one task that begins with a move in which the machine takes a connection. -/
structure Begins (s s' : System) (m : Move) (t : TaskId) (c : ConnectionId) : Prop where
  number : t = s.pool.next + 1
  attaches : Attaches s m c
  stack : s'.pool.stack t = [.receive c]

/-- **Whoever takes the notifications of a connection after a move** did so before, or begins to. -/
theorem Run.takenBy_of_move {options : Options} {past : List Move} {s s' : System} {m : Move}
    (run : Run options past s) (step : Moves s m s') {t : TaskId} {c : ConnectionId}
    (h : TakenBy (m :: past) s' t c) : TakenBy past s t c ∨ Begins s s' m t c := by
  have earlier (other : ∀ i a, m ≠ .did t i a) (did : ∃ a, Move.did t (.receive c) a ∈ m :: past) :
      TakenBy past s t c := by
    obtain ⟨a, did⟩ := did
    rcases List.mem_cons.mp did with same | did
    · exact absurd same.symm (other _ _)
    · exact .inr ⟨a, did⟩
  cases step.turns (Sound.of_run run).numbered t with
  | same other stack =>
    rcases h with hears | did
    · exact .inl (.inl (stack ▸ hears))
    · exact .inl (earlier other did)
  | begun other new opens stack hears =>
    rcases h with here | did
    · rw [stack] at here
      obtain rfl := List.mem_singleton.mp here
      cases opens with
      | hear starting =>
        exact .inr ⟨hears _ rfl, ⟨starting, _, _, _, rfl, rfl⟩, stack⟩
    · exact .inl (earlier other did)
  | dropped move next waits stack =>
    subst move
    rcases h with hears | did
    · rw [stack] at hears
      cases hears
    · exact .inl (earlier (fun _ _ => nofun) did)
  | @went i rest before a caller r move next exec stack =>
    subst move
    rcases h with hears | ⟨b, did⟩
    · rw [stack] at hears
      refine .inl (.inl ?_)
      rw [next]
      rcases List.mem_append.mp hears with hears | hears
      · rw [Instr.leads_receive (exec_leads exec _ hears)]
        exact List.mem_cons_self
      · exact List.mem_cons_of_mem _ hears
    · rcases List.mem_cons.mp did with same | did
      · cases same
        refine .inl (.inl ?_)
        rw [next]
        exact List.mem_cons_self
      · exact .inl (.inr ⟨b, did⟩)

/-- **A task takes from one connection only.** -/
theorem Run.source {options : Options} {past : List Move} {s : System} (run : Run options past s)
    {t : TaskId} {c d : ConnectionId} (first : TakenBy past s t c) (second : TakenBy past s t d) :
    c = d := by
  induction run with
  | start =>
    rcases first with hears | ⟨a, did⟩
    · cases hears
    · cases did
  | @next past s s' m run step ih =>
    have absurd_new {c d : ConnectionId} (old : TakenBy past s t c) (new : Begins s s' m t d) :
        False := by
      have made := run.made_of_takenBy old
      rw [new.number] at made
      exact absurd made (Nat.not_lt.mpr (Nat.le_succ _))
    rcases run.takenBy_of_move step first with first | first
    · rcases run.takenBy_of_move step second with second | second
      · exact ih first second
      · exact (absurd_new first second).elim
    · rcases run.takenBy_of_move step second with second | second
      · exact (absurd_new second first).elim
      · have same := first.stack.symm.trans second.stack
        cases same
        rfl

/-- Whoever begins to take from a connection takes from one that had not come up, if every launch
brings another one. -/
theorem Run.new_of_begins {options : Options} {past : List Move} {s s' : System} {m : Move}
    (run : Run options past s) (alive : s.alive = true) (distinct : Distinct past)
    (step : Moves s m s') {t : TaskId} {c : ConnectionId} (begins : Begins s s' m t c) :
    ¬ CameUp past s c := by
  rintro ⟨generation, other, delivered, same, -, ended⟩
  obtain ⟨-, ⟨starting, v, a, l, rfl, rfl⟩, -⟩ := begins
  -- The connection that the machine takes was brought by a launch that is under way.
  have arrives := run.taken_up step rfl
  have brought := (run.brought_of_arrival alive arrives).1
  obtain rfl : generation = s.machine.generation := distinct.eq delivered brought same
  exact ended (List.mem_filterMap.mpr ⟨_, arrives, rfl⟩)

/-- **No two tasks take from one connection**, if every launch brings another one. -/
theorem Run.taker {options : Options} {past : List Move} {s : System} (run : Run options past s)
    (alive : s.alive = true) (distinct : Distinct past) {t u : TaskId} {c : ConnectionId}
    (first : TakenBy past s t c) (second : TakenBy past s u c) : t = u := by
  induction run with
  | start =>
    rcases first with hears | ⟨a, did⟩
    · cases hears
    · cases did
  | @next past s s' m run step ih =>
    have existed := step.alive alive
    have absurd_new {t u : TaskId} (old : TakenBy past s t c) (new : Begins s s' m u c) : False :=
      run.new_of_begins existed distinct.tail step new (run.heard existed old.taken)
    rcases run.takenBy_of_move step first with first | first
    · rcases run.takenBy_of_move step second with second | second
      · exact ih existed distinct.tail first second
      · exact (absurd_new first second).elim
    · rcases run.takenBy_of_move step second with second | second
      · exact (absurd_new second first).elim
      · exact first.number.trans second.number.symm

theorem takenBy_of_taking {options : Options} {past : List Move} {t : TaskId} {k : Taking}
    (h : k ∈ takings options t past) : ∃ a, Move.did t (.receive k.connection) a ∈ past := by
  induction past with
  | nil => cases h
  | cons m past ih =>
    rcases List.mem_append.mp h with now | before
    · obtain ⟨taken, takes, rfl⟩ := Option.map_eq_some_iff.mp (Option.mem_toList.mp now)
      unfold Move.takes? at takes
      split at takes
      next u c n =>
        split at takes
        next same =>
          cases takes
          subst same
          exact ⟨_, List.mem_cons_self⟩
        next => cases takes
      next => cases takes
    · obtain ⟨a, did⟩ := ih before
      exact ⟨a, List.mem_cons_of_mem _ did⟩

/-! ## What listeners hear -/

/-- What a task still has to pass on, and whom it still has to call. -/
def System.due (s : System) (t : TaskId) : List Instr :=
  (s.pool.stack t).filter Instr.hands

/-- What listeners hear of a worker. -/
structure Dispatched (options : Options) (past : List Move) (s : System) : Prop where
  /-- Whoever is looked up was registered, in that order, and is so still. -/
  enrolled : ∀ method,
    s.listeners.snapshot method = (registered options past method).map (·.callback)
  apart : (registrations options past).Pairwise fun g h => g.number < h.number
  /-- To any callbacks a task passes, or has to pass, what it took while they were registered for
  the method, once for each registration and in the order in which it was taken. -/
  passed : ∀ t mine,
    (payloads mine ((s.pool.stack t).filterMap Instr.pass?)).reverse ++
        payloads mine (passes t past) =
      (takings options t past).flatMap fun k =>
        List.replicate (k.audience.countP fun g => mine g.callback) k.params
  /-- It calls, or has to call, whoever hears what it passed on, and nobody else. -/
  called : ∀ t, ((s.pool.stack t).filterMap Instr.call?).reverse ++ calls t past =
    (passes t past).filterMap Callback.hears?
  /-- So once nothing is left a listener was called for one notification after the other, by each of
  its callbacks that was registered and could read the params, once. -/
  heard : ∀ t l, s.due t = [] → (calls t past).filter (fun call => call.1 = l) =
    (takings options t past).flatMap fun k => k.audience.reverse.filterMap fun g =>
      (Callback.hears? (g.callback, k.params)).filter fun call => call.1 = l
  /-- Nothing is left when it comes to wait, nor when it takes the next notification. -/
  settled : ∀ t task, s.pool.get? t = some task →
    (task.parked = true ∨ ∃ c rest, task.stack = .receive c :: rest) → s.due t = []
  /-- As long as something is left it can go on, whether it was given up or not. -/
  ready : ∀ t, s.due t ≠ [] → ∃ a s', s.step t a = some s'
  /-- What a task takes comes from one connection, -/
  source : ∀ t, ∀ k ∈ takings options t past, ∀ l ∈ takings options t past,
    k.connection = l.connection
  /-- and no other task takes from it. -/
  sole : s.alive = true → Distinct past → ∀ t u, ∀ k ∈ takings options t past,
    ∀ l ∈ takings options u past, k.connection = l.connection → t = u
  /-- While the machine runs nobody gives up the task that takes from its connection. -/
  attended : s.alive = true → ∀ c, s.machine.RunsWith c →
    s.Attends c ∨ ∃ t, Move.did t (.receive c) (.received none) ∈ past

/-- What comes of a notification to some callbacks: its params, once for each of them that is
registered. -/
theorem payloads_passed (mine : Callback → Bool) (k : Taking) : payloads mine k.passed =
    List.replicate (k.audience.countP fun g => mine g.callback) k.params := by
  rw [payloads, Taking.passed, List.filter_reverse, List.map_reverse, List.filter_map, List.map_map]
  show (List.map (fun _ => k.params) _).reverse = _
  rw [List.map_const', List.reverse_replicate, List.countP_eq_length_filter]
  rfl

theorem Settles.passed_to {options : Options} {past : List Move} {s : System} {t : TaskId}
    (h : Settles options past s t) (mine : Callback → Bool) :
    (payloads mine ((s.pool.stack t).filterMap Instr.pass?)).reverse ++
        payloads mine (passes t past) =
      (takings options t past).flatMap fun k =>
        List.replicate (k.audience.countP fun g => mine g.callback) k.params := by
  have whole : payloads mine _ = payloads mine _ := congrArg _ h.passed
  rw [payloads, List.filter_append, List.map_append, List.filter_reverse, List.map_reverse,
    payloads, List.filter_flatMap, List.map_flatMap] at whole
  refine whole.trans (List.flatMap_congr fun k _ => ?_)
  exact payloads_passed mine k

theorem nothing_of_due {s : System} {t : TaskId} (none : s.due t = []) :
    (s.pool.stack t).filterMap Instr.pass? = [] ∧ (s.pool.stack t).filterMap Instr.call? = [] := by
  have idle : ∀ i ∈ s.pool.stack t, i.pass? = .none ∧ i.call? = .none := by
    intro i hi
    refine hands_eq_false.mp (Bool.eq_false_iff.mpr fun hands => ?_)
    exact List.filter_eq_nil_iff.mp none i hi hands
  exact ⟨List.filterMap_eq_nil_iff.mpr fun i hi => (idle i hi).1,
    List.filterMap_eq_nil_iff.mpr fun i hi => (idle i hi).2⟩

/-- Whom a task called is whoever heard what it took. -/
theorem Settles.heard {options : Options} {past : List Move} {s : System} {t : TaskId}
    (h : Settles options past s t) (none : s.due t = []) (l : Listener) :
    (calls t past).filter (fun call => call.1 = l) =
      (takings options t past).flatMap fun k => k.audience.reverse.filterMap fun g =>
        (Callback.hears? (g.callback, k.params)).filter fun call => call.1 = l := by
  obtain ⟨passed, called⟩ := h
  obtain ⟨noPass, noCall⟩ := nothing_of_due none
  rw [noPass, List.reverse_nil, List.nil_append] at passed
  rw [noCall, List.reverse_nil, List.nil_append, passed] at called
  rw [called, List.filterMap_flatMap, List.filter_flatMap]
  refine List.flatMap_congr fun k _ => ?_
  rw [Taking.passed, ← List.map_reverse, List.filterMap_map, List.filter_filterMap]
  rfl

/-- An instruction at which no task waits can be executed. -/
theorem exec_of_busy {i : Instr} (busy : i.yields = false) (s : System) (t : TaskId)
    (caller : String) : ∃ a r before, s.exec t caller i a = some (r, before) := by
  cases i with
  | listener l payload => exact ⟨.actions [], _, _, rfl⟩
  | refreshEnd r => cases r <;> exact ⟨.nothing, _, _, rfl⟩
  | handle | perform | act | trackRest | revoke | kill | deliver | report | drop | finish =>
    exact ⟨.nothing, _, _, rfl⟩
  | _ => cases busy

/-- Whoever has something to pass on can go on. -/
theorem Run.ready {options : Options} {past : List Move} {s : System} (run : Run options past s)
    {t : TaskId} (due : s.due t ≠ []) : ∃ a s', s.step t a = some s' := by
  obtain ⟨i, hi⟩ := List.exists_mem_of_ne_nil _ due
  obtain ⟨hi, hands⟩ := List.mem_filter.mp hi
  cases found : s.pool.get? t with
  | none =>
    rw [Pool.stack, found] at hi
    cases hi
  | some task =>
    rw [Pool.stack_of_get? found] at hi
    have handing : Handing task := run.handing _ (Pool.mem_of_get? found)
    obtain ⟨owner, stack, parked, aborted⟩ := task
    cases stack with
    | nil => cases hi
    | cons j rest =>
      have busy : j.yields = false := by
        refine Bool.eq_false_iff.mpr fun yields => ?_
        rw [hands_of_precedes handing.order yields i hi] at hands
        cases hands
      have inTurn : parked = false := by
        refine Bool.eq_false_iff.mpr fun resting => ?_
        rw [handing.rest resting i hi] at hands
        cases hands
      subst inTurn
      obtain ⟨a, r, before, exec⟩ := exec_of_busy busy s t (owner.getD "")
      refine ⟨a, ?_⟩
      simp only [System.step, found, Bool.false_and, exec]
      exact ⟨_, rfl⟩

theorem Run.settled {options : Options} {past : List Move} {s : System} (run : Run options past s)
    {t : TaskId} {task : Task Instr} (found : s.pool.get? t = some task)
    (still : task.parked = true ∨ ∃ c rest, task.stack = .receive c :: rest) : s.due t = [] := by
  have handing : Handing task := run.handing _ (Pool.mem_of_get? found)
  have none : ∀ i ∈ task.stack, i.hands = false := by
    rcases still with parked | ⟨c, rest, next⟩
    · exact handing.rest parked
    · have order := handing.order
      rw [next] at order ⊢
      exact hands_of_precedes order rfl
  rw [System.due, Pool.stack_of_get? found]
  exact List.filter_eq_nil_iff.mpr fun i hi => by rw [none i hi]; exact Bool.false_ne_true

/-- **Listeners hear what a worker says**: everything that was taken while they were registered for
it, once and in order, and nothing else. -/
theorem dispatched_of_run {options : Options} {past : List Move} {s : System}
    (run : Run options past s) : Dispatched options past s where
  enrolled := run.enrolled.snapshot
  apart := registrations_sorted options past
  passed t := (run.settles t).passed_to
  called t := (run.settles t).called
  heard t l none := (run.settles t).heard none l
  settled _ _ := run.settled
  ready _ := run.ready
  source _ _ hk _ hl := run.source (.inr (takenBy_of_taking hk)) (.inr (takenBy_of_taking hl))
  sole alive distinct _ _ _ hk _ hl same :=
    run.taker alive distinct (.inr (takenBy_of_taking hk)) (.inr (same ▸ takenBy_of_taking hl))
  attended alive _ := run.attended alive

/-- A listener that is called registers another one, which takes texts only and is not passed the
notification at hand. At the next one, without params, it disposes of the other again, which is
passed it all the same, and skipped. -/
theorem dispatched_of_changing_listeners : ∃ past s, Run .standard past s ∧
    (takings .standard 4 past).map (fun k => k.audience.map (·.number)) = [[0, 1], [0]] ∧
    (passes 4 past).map (·.2) = [.null, .null, .int 1] ∧
    calls 4 past = [(⟨"a", 1⟩, .null), (⟨"a", 1⟩, .int 1)] ∧
    (registered .standard past "n").map (·.number) = [0] ∧ Dispatched .standard past s := by
  have any := Run.start.next (.ask (.initial .standard) (.listen ⟨"a", 1⟩ (.any "n")))
  have first := any.next (.act (t := 0) (a := .nothing) rfl rfl rfl)
  have asked := first.next (.ask _ (.start (some ⟨[47]⟩)))
  have acted := asked.next (.act (t := 1) (a := .nothing) rfl rfl rfl)
  have handled := acted.next (.act (t := 1) (a := .nothing) rfl rfl rfl)
  have performed := handled.next (.act (t := 1) (a := .nothing) rfl rfl rfl)
  have launched := performed.next (.act (t := 2) (a := .launched (.ok ⟨7, none⟩)) rfl rfl rfl)
  have running := launched.next (.act (t := 2) (a := .nothing) rfl rfl rfl)
  have taken := running.next
    (.act (t := 4) (a := .received (some ⟨"n", some (.int 1)⟩)) rfl rfl rfl)
  have passed := taken.next (.act (t := 4) (a := .nothing) rfl rfl rfl)
  have called := passed.next
    (.act (t := 4) (a := .actions [.listen ⟨"b", 2⟩ (.shaped "n" .text)]) rfl rfl rfl)
  have listened := called.next (.act (t := 4) (a := .nothing) rfl rfl rfl)
  have taken' := listened.next (.act (t := 4) (a := .received (some ⟨"n", none⟩)) rfl rfl rfl)
  have passed' := taken'.next (.act (t := 4) (a := .nothing) rfl rfl rfl)
  have called' := passed'.next (.act (t := 4) (a := .actions [.dispose "b"]) rfl rfl rfl)
  have disposed := called'.next (.act (t := 4) (a := .nothing) rfl rfl rfl)
  have revoked := disposed.next (.act (t := 4) (a := .nothing) rfl rfl rfl)
  have skipped := revoked.next (.act (t := 4) (a := .nothing) rfl rfl rfl)
  exact ⟨_, _, skipped, by decide +kernel, rfl, rfl, by decide +kernel, dispatched_of_run skipped⟩

end Supervision.Worker
