import Supervision.Proofs.Worker.Tidying

/-!
# Who may remove a callback

A callback is registered with a right to remove it. Users hold such rights, hand them on and make
several into one; a refresh holds the right to its own callback until it is through. When a user
gives a subscription up, the task that serves him removes what it stands for, one callback at a
time, and before it turns to anything else (`Ahead`).

The laws say where rights are after a move: with users (`Moves.held`), with a task that has yet to
remove what was given up (`Moves.leaving`), or with a task that refreshes (`Moves.carried`). Nothing
is removed but by a task that has a right to it (`Moves.disposed`), and whatever is held was
registered (`Run.issued`).
-/

namespace Supervision.Worker

open Message

/-! ## Trackers and holdings -/

/-- The trackers, and what users hold, after a move. -/
def System.noted (s : System) : Move → List Tracker × Holdings String
  | .did _ (.act a) _ => ((s.act a).1.trackers, (s.act a).1.holdings)
  | .did _ (.deliver callback params) _ => ((s.deliver params callback).1.trackers, s.holdings)
  | .did _ (.trackRest holder _ started) _ =>
    (s.trackers, s.holdings.set holder (.combined [started, .single refresh s.listeners.next]))
  | _ => (s.trackers, s.holdings)

theorem System.noted_apply (s : System) (e : Event) :
    ((s.apply e).1.trackers, (s.apply e).1.holdings) = (s.trackers, s.holdings) := by
  have folded (ns : List Notice) (s : System) :
      ((ns.foldl System.notice s).trackers, (ns.foldl System.notice s).holdings) =
        (s.trackers, s.holdings) := by
    induction ns generalizing s with
    | nil => rfl
    | cons n ns ih =>
      rw [List.foldl_cons, ih]
      cases n <;> rfl
  exact folded _ _

theorem System.holdings_deliver (s : System) (params : Json) (callback : Callback) :
    (s.deliver params callback).1.holdings = s.holdings := by
  cases callback with
  | shaped | trackStart | trackEnd =>
    simp only [deliver]
    split <;> rfl
  | _ => rfl

theorem System.noted_call (s : System) (name : String) (c : Call) :
    ((s.act (.call name c)).1.trackers, (s.act (.call name c)).1.holdings) =
      (s.trackers, s.holdings) := by
  simp only [act, call]
  split
  · cases c with
    | refresh cancelled => cases cancelled <;> rfl
    | _ => rfl
  · rfl

/-- **What an instruction does to trackers and holdings.** -/
theorem exec_noted {s r : System} {t : TaskId} {caller : String} {i : Instr} {a : Answer}
    {before : List Instr} (h : s.exec t caller i a = some (r, before)) :
    (r.trackers, r.holdings) = s.noted (.did t i a) := by
  unfold System.exec at h
  split at h
  case h_1 e =>
    split at h
    · exact of_result h (s.noted_apply e)
    · exact of_result h rfl
  case h_4 c =>
    refine of_result h ?_
    cases c with
    | request _ params => cases params <;> rfl
    | notify _ params => cases params <;> rfl
    | _ => rfl
  case h_7 =>
    split at h
    · exact of_result h rfl
    · cases h
  case h_8 need c =>
    refine of_result h ?_
    cases need <;> cases c <;> rfl
  case h_9 =>
    split at h
    · exact of_result h rfl
    · exact of_result h (s.noted_apply .stop)
  case h_10 =>
    split at h
    · exact of_result h rfl
    · cases h
  case h_11 =>
    refine of_result h ?_
    unfold System.answered
    split <;> split <;> (try split) <;> rfl
  case h_13 =>
    refine of_result h ?_
    unfold System.receipted
    split <;> rfl
  case h_15 => split at h <;> exact of_result h rfl
  case h_20 callback params =>
    refine of_result h ?_
    rw [System.noted, s.holdings_deliver]
  case h_23 =>
    refine of_result h ?_
    dsimp only
    split <;> rfl
  case h_25 =>
    split at h
    · exact of_result h rfl
    · cases h
  case h_27 => split at h <;> exact of_result h rfl
  case h_30 subscription =>
    refine of_result h ?_
    cases subscription <;> rfl
  case h_31 => cases h
  all_goals exact of_result h rfl

/-- **What a move does to trackers and holdings.** -/
theorem Moves.noted {s s' : System} {m : Move} (step : Moves s m s') :
    (s'.trackers, s'.holdings) = s.noted m := by
  have released (r : System) :
      (r.release.trackers, r.release.holdings) = (r.trackers, r.holdings) :=
    r.release_elim rfl rfl
  cases step with
  | act found next taken =>
    obtain ⟨r, before, exec, -, result⟩ := step_exec found next taken
    have noted := exec_noted exec
    rcases result with rfl | rfl
    · exact noted
    · exact (released _).trans noted
  | park => exact released _
  | drop => exact released _
  | _ => rfl

theorem Moves.trackers {s s' : System} {m : Move} (step : Moves s m s') :
    s'.trackers = (s.noted m).1 :=
  congrArg Prod.fst step.noted

theorem Moves.holdings {s s' : System} {m : Move} (step : Moves s m s') :
    s'.holdings = (s.noted m).2 :=
  congrArg Prod.snd step.noted

/-! ## Subscriptions that tasks hold -/

section Holds

variable {s r : System} {t : TaskId} {caller : String} {i j : Instr} {a : Answer}
  {before : List Instr} {c : Subscription String}

/-- What comes of wanting a worker holds what the one who wants it held. -/
theorem holds_of_look {need : Need} {awaited : Bool} (left : j ∈ s.look need awaited)
    (held : j.holds? = some c) : (Instr.look need awaited).holds? = some c := by
  unfold System.look at left
  split at left
  · rw [List.mem_singleton.mp left] at held
    cases need <;> exact held
  · split at left
    · rw [List.mem_singleton.mp left] at held
      cases need <;> exact held
    · rcases List.mem_pair.mp left with rfl | rfl
      · cases held
      · cases need <;> exact held
  · rw [List.mem_singleton.mp left] at held
    cases need <;> exact held
  · rw [List.mem_singleton.mp left] at held
    cases need <;> exact held

theorem holds_of_take {need : Need} {awaited : Bool} {seen : Nat}
    (left : j ∈ s.take need awaited seen) (held : j.holds? = some c) :
    (Instr.take need awaited seen).holds? = some c := by
  unfold System.take at left
  split at left
  · split at left <;>
    · rw [List.mem_singleton.mp left] at held
      cases need <;> exact held
  · rw [List.mem_singleton.mp left] at held
    cases need <;> exact held

theorem holds_of_use {need : Need} {connection : Except SupervisorError ConnectionId}
    (left : j ∈ (s.use need connection).2) (held : j.holds? = some c) :
    (Instr.use need connection).holds? = some c := by
  cases need with
  | refresh completion =>
    cases connection with
    | ok =>
      rw [List.mem_singleton.mp left] at held
      exact held
    | error =>
      rcases List.mem_pair.mp left with rfl | rfl
      · exact held
      · cases held
  | request | notify =>
    cases connection <;>
    · rw [List.mem_singleton.mp left] at held
      cases held

theorem holds_of_receipted {connection : ConnectionId} {method : String} {params : Option Json}
    {receipt : Receipt} {outcome : Except TransportError Unit}
    (left : j ∈ (s.receipted method receipt outcome).2) (held : j.holds? = some c) :
    (Instr.tell connection method params receipt).holds? = some c := by
  cases receipt with
  | refresh =>
    cases outcome <;>
    · rw [List.mem_singleton.mp left] at held
      exact held
  | caller =>
    cases outcome <;>
    · rw [List.mem_singleton.mp left] at held
      cases held
  | workspace => cases outcome <;> cases left

theorem holds_of_answered {method : String} {params : Option Json} {shape : Option Json.Shape}
    {retries : Nat} {reply : Except TransportError Json}
    (left : j ∈ (s.answered method params shape retries reply).2) : j.holds? = none := by
  unfold System.answered at left
  split at left <;> split at left <;> (try split at left) <;>
  · rw [List.mem_singleton.mp left]
    rfl

theorem holds_of_begin {call : Call} (left : j ∈ (s.begin call).2) : j.holds? = none := by
  cases call with
  | request _ params | notify _ params =>
    cases params <;>
    · rw [List.mem_singleton.mp left]
      rfl
  | shutdown => rcases List.mem_pair.mp left with rfl | rfl <;> rfl
  | refresh =>
    rw [List.mem_singleton.mp left]
    rfl

/-- **A subscription that a task holds was held before**, or the task begins to listen with it. -/
theorem exec_holds (h : s.exec t caller i a = some (r, before)) (left : j ∈ before)
    (held : j.holds? = some c) :
    i.holds? = some c ∨ i = .refreshListen ∧ c = .single refresh s.listeners.next := by
  have leads := exec_leads h j left
  cases i with
  | look =>
    cases a with
    | nothing =>
      cases h
      exact .inl (holds_of_look left held)
    | _ => cases h
  | take =>
    cases a with
    | nothing =>
      cases h
      exact .inl (holds_of_take left held)
    | _ => cases h
  | wait need =>
    cases a with
    | nothing =>
      simp only [System.exec] at h
      split at h <;> cases h
      rw [List.mem_singleton.mp left] at held
      cases need <;> exact .inl held
    | _ => cases h
  | use need connection =>
    cases a with
    | nothing =>
      obtain rfl : (s.use need connection).2 = before := congrArg Prod.snd (Option.some.inj h)
      exact .inl (holds_of_use left held)
    | _ => cases h
  | tell _ method _ receipt =>
    cases a with
    | sent outcome =>
      obtain rfl : (s.receipted method receipt outcome).2 = before :=
        congrArg Prod.snd (Option.some.inj h)
      exact .inl (holds_of_receipted left held)
    | _ => cases h
  | awaitCompletion =>
    rw [(exec_awaitCompletion h).2] at left
    rcases List.mem_pair.mp left with rfl | rfl
    · exact .inl held
    · cases held
  | refreshListen =>
    rw [exec_refreshListen_eq h] at left
    simp only [List.mem_cons, List.not_mem_nil, or_false] at left
    rcases left with rfl | rfl | rfl
    · cases held
    · cases held
    · exact .inr ⟨rfl, (Option.some.inj held).symm⟩
  | ask _ method params use =>
    cases use with
    | answer shape retries =>
      cases a with
      | replied reply =>
        obtain rfl : (s.answered method params shape retries reply).2 = before :=
          congrArg Prod.snd (Option.some.inj h)
        rw [holds_of_answered left] at held
        cases held
      | _ => cases h
    | ignore =>
      cases a with
      | replied => cases h; cases left
      | _ => cases h
  | begin call =>
    cases a with
    | nothing =>
      obtain rfl : (s.begin call).2 = before := congrArg Prod.snd (Option.some.inj h)
      rw [holds_of_begin left] at held
      cases held
    | _ => cases h
  | _ => cases j <;> first | (cases held; done) | cases leads

end Holds

/-! ## What a task does first -/

/-- True of what a task does before it turns to anything else. -/
def Instr.urgent : Instr → Bool
  | .trackRest .. | .revoke _ => true
  | _ => false

/-- What a task has to do first, if anything: to go on with the registration of a tracker, or to use
up what is left of a subscription. -/
inductive Ahead : List Instr → Prop
  | tracking {holder : String} {k : Nat} {started : Subscription String} {rest : List Instr}
      (calm : ∀ i ∈ rest, i.urgent = false) : Ahead (.trackRest holder k started :: rest)
  | revoking (parts : List (Subscription String)) {rest : List Instr}
      (calm : ∀ i ∈ rest, i.urgent = false) : Ahead (parts.map .revoke ++ rest)

section First

variable {s r : System} {t : TaskId} {caller : String} {i : Instr} {a : Answer}
  {before rest : List Instr}

theorem exec_trackRest {holder : String} {k : Nat} {started : Subscription String}
    (h : s.exec t caller (.trackRest holder k started) a = some (r, before)) : before = [] := by
  cases a with
  | nothing => cases h; rfl
  | _ => cases h

theorem exec_revoke {c : Subscription String}
    (h : s.exec t caller (.revoke c) a = some (r, before)) : before = (s.revoke c).2 := by
  cases a with
  | nothing => exact (congrArg Prod.snd (Option.some.inj h)).symm
  | _ => cases h

theorem exec_act {action : Action} (h : s.exec t caller (.act action) a = some (r, before)) :
    before = (s.act action).2 := by
  cases a with
  | nothing => exact (congrArg Prod.snd (Option.some.inj h)).symm
  | _ => cases h

/-- What comes first is left by a user who registers a tracker or gives up a subscription. -/
theorem exec_urgent (h : s.exec t caller i a = some (r, before)) (calm : i.urgent = false) :
    (∃ holder, i = .act (.track holder) ∧ s.handle = true ∧ before =
      [.trackRest holder s.trackers.length (.single refreshStarted s.listeners.next)]) ∨
    (∃ holder c, i = .act (.dispose holder) ∧ s.holdings.get? holder = some c ∧
      before = [.revoke c]) ∨
    ∀ j ∈ before, j.urgent = false := by
  have leads := exec_leads h
  cases i with
  | act action =>
    have left := exec_act h
    cases action with
    | track holder =>
      simp only [System.act] at left
      split at left
      next handle => exact .inl ⟨holder, rfl, handle, left⟩
      next =>
        subst left
        exact .inr (.inr (List.forall_mem_nil _))
    | dispose holder =>
      simp only [System.act] at left
      split at left
      next c held => exact .inr (.inl ⟨holder, c, rfl, held, left⟩)
      next =>
        subst left
        exact .inr (.inr (List.forall_mem_nil _))
    | _ =>
      refine .inr (.inr fun j hj => ?_)
      have leads := leads j hj
      cases j <;> first | rfl | cases leads
  | trackRest | revoke => cases calm
  | _ =>
    refine .inr (.inr fun j hj => ?_)
    have leads := leads j hj
    cases j <;> first | rfl | cases leads

/-- A task that has something to do first goes on with it. -/
theorem Ahead.exec (ahead : Ahead (i :: rest)) (h : s.exec t caller i a = some (r, before)) :
    Ahead (before ++ rest) := by
  generalize whole : i :: rest = l at ahead
  cases ahead with
  | tracking calm =>
    obtain ⟨rfl, rfl⟩ := List.cons.inj whole
    rw [exec_trackRest h]
    exact .revoking [] calm
  | revoking parts calm =>
    cases parts with
    | cons c parts =>
      obtain ⟨rfl, rfl⟩ := List.cons.inj whole
      rw [exec_revoke h]
      cases c with
      | combined inner =>
        have further := Ahead.revoking (inner ++ parts) calm
        rwa [List.map_append, List.append_assoc] at further
      | _ => exact .revoking parts calm
    | nil =>
      obtain rfl : i :: rest = _ := whole
      have later : ∀ j ∈ rest, j.urgent = false := fun j hj => calm j (List.mem_cons_of_mem _ hj)
      rcases exec_urgent h (calm i List.mem_cons_self) with
        ⟨_, -, -, rfl⟩ | ⟨_, c, -, -, rfl⟩ | none
      · exact .tracking later
      · exact .revoking [c] later
      · refine .revoking [] fun j hj => ?_
        exact (List.mem_append.mp hj).elim (none j) (later j)

/-- Nothing else is to be done first by a task that registers a tracker. -/
theorem Ahead.calm_of_trackRest {holder : String} {k : Nat} {started : Subscription String}
    (ahead : Ahead (.trackRest holder k started :: rest)) : ∀ j ∈ rest, j.urgent = false := by
  generalize whole : Instr.trackRest holder k started :: rest = l at ahead
  cases ahead with
  | tracking calm =>
    obtain ⟨-, rfl⟩ := List.cons.inj whole
    exact calm
  | revoking parts calm =>
    cases parts with
    | nil =>
      obtain rfl : _ :: rest = _ := whole
      exact fun j hj => calm j (List.mem_cons_of_mem _ hj)
    | cons => cases (List.cons.inj whole).1

/-- A task that may wait has nothing to do first. -/
theorem Ahead.calm_of_waits (ahead : Ahead (i :: rest)) (waits : i.waits = true) :
    ∀ j ∈ i :: rest, j.urgent = false := by
  generalize whole : i :: rest = l at ahead
  cases ahead with
  | tracking =>
    obtain ⟨rfl, -⟩ := List.cons.inj whole
    cases waits
  | revoking parts calm =>
    cases parts with
    | nil => exact calm
    | cons c parts =>
      obtain ⟨rfl, -⟩ := List.cons.inj whole
      cases waits

end First

/-- **What is to be done first is done first**, by every task of every run. -/
theorem Run.ahead {options : Options} {past : List Move} {s : System} (run : Run options past s)
    (t : TaskId) : Ahead (s.pool.stack t) := by
  have every : s.pool.Every fun _ task => Ahead task.stack := by
    induction run with
    | start => exact Pool.every_empty
    | next run step ih =>
      refine step.every (Sound.of_run run).numbered ih (fun _ _ => id) ?_ (fun _ _ _ _ _ _ => id) ?_
      · intro _ _ j opens
        refine .revoking [] fun i hi => ?_
        rw [List.mem_singleton.mp hi]
        cases opens <;> rfl
      · intro _ task _ i rest a r before next exec ahead
        rw [next] at ahead
        exact ahead.exec exec
  cases found : s.pool.get? t with
  | none =>
    rw [Pool.stack, found]
    exact .revoking [] (List.forall_mem_nil _)
  | some task =>
    rw [Pool.stack_of_get? found]
    exact every _ (Pool.mem_of_get? found)

/-! ## Where rights are -/

/-- The rights to remove what a move registers. -/
def System.grants (s : System) (m : Move) : List (String × Nat) :=
  ((s.registers m).zipIdx s.listeners.next).map fun entry => (entry.1.1, entry.2)

/-- Rights that a task hands to a user with a move. -/
def Move.hands : Move → List (String × Nat)
  | .did _ (.trackRest _ _ started) _ => started.rights
  | _ => []

/-- What is to be removed with an instruction. -/
def Instr.revokes : Instr → List (String × Nat)
  | .revoke c => c.rights
  | _ => []

/-- The rights that a task has because of an instruction. -/
def Instr.rights : Instr → List (String × Nat)
  | .trackRest _ _ c | .revoke c => c.rights
  | i => i.holds?.elim [] Subscription.rights

namespace System

/-- What a task has yet to remove of what a user gave up. -/
def leaving (s : System) (t : TaskId) : List (String × Nat) :=
  (s.pool.stack t).flatMap Instr.revokes

/-- What a task may remove when it is through with a refresh. -/
def carried (s : System) (t : TaskId) : List (String × Nat) :=
  ((s.pool.stack t).filterMap Instr.holds?).flatMap Subscription.rights

/-- What a user gives up to a task with a move. -/
def surrenders (s : System) (t : TaskId) : Move → List (String × Nat)
  | .did u (.act (.dispose holder)) _ => if u = t then s.holdings.rights holder else []
  | _ => []

end System

section Step

variable {options : Options} {past : List Move} {s s' r : System} {m : Move} {t : TaskId}
  {caller : String} {i j : Instr} {a : Answer} {before : List Instr} {right : String × Nat}

theorem surrenders_of_other (other : ∀ i a, m ≠ .did t i a) (s : System) :
    s.surrenders t m = [] := by
  cases m with
  | did u i a =>
    cases i with
    | act action =>
      cases action with
      | dispose holder =>
        refine if_neg fun own => ?_
        subst own
        exact other _ _ rfl
      | _ => rfl
    | _ => rfl
  | _ => rfl

theorem mem_rightsOf {parts : List (Subscription String)} :
    right ∈ Subscription.rightsOf parts ↔ ∃ c ∈ parts, right ∈ c.rights := by
  induction parts with
  | nil => simp [Subscription.rightsOf]
  | cons c parts ih => simp [Subscription.rightsOf, ih]

/-- Who has nothing to do first has nothing left to remove. -/
theorem not_mem_revokes {stack : List Instr} (calm : ∀ j ∈ stack, j.urgent = false) :
    right ∉ stack.flatMap Instr.revokes := by
  intro there
  obtain ⟨j, hj, revokes⟩ := List.mem_flatMap.mp there
  have calm := calm j hj
  cases j <;> first | cases revokes | cases calm

/-- **What an instruction leaves to be removed**: what there was, but for what is removed, and what
a user gives up. -/
theorem exec_leaving (h : s.exec t caller i a = some (r, before))
    (kept : right ∉ (Move.did t i a).disposes.rights) :
    right ∈ before.flatMap Instr.revokes ↔
      right ∈ i.revokes ∨ right ∈ s.surrenders t (.did t i a) := by
  cases urgent : i.urgent with
  | true =>
    cases i with
    | trackRest =>
      rw [exec_trackRest h]
      exact iff_of_false nofun (not_or.mpr ⟨nofun, nofun⟩)
    | revoke c =>
      rw [exec_revoke h]
      have none : right ∉ s.surrenders t (.did t (.revoke c) a) := nofun
      rw [or_iff_left none]
      cases c with
      | spent => exact Iff.rfl
      | single => exact iff_of_false nofun kept
      | combined parts =>
        rw [System.revoke, List.flatMap_map, List.mem_flatMap]
        exact mem_rightsOf.symm
    | _ => cases urgent
  | false =>
    have itself : right ∉ i.revokes := by
      cases i with
      | revoke => cases urgent
      | _ => exact nofun
    rw [or_iff_right itself]
    rcases exec_urgent h urgent with ⟨holder, rfl, -, rfl⟩ | ⟨holder, c, rfl, held, rfl⟩ | calm
    · exact iff_of_false nofun nofun
    · rw [System.surrenders, if_pos rfl, Holdings.rights_of_get? held]
      simp [Instr.revokes]
    · refine iff_of_false (not_mem_revokes calm) fun there => ?_
      -- Nobody disposes without something left to be removed, unless nothing was held.
      cases i with
      | act action =>
        cases action with
        | dispose holder =>
          rw [System.surrenders, if_pos rfl] at there
          rw [exec_act h, System.act] at calm
          cases held : s.holdings.get? holder with
          | none =>
            rw [Holdings.rights_of_get?_eq_none held] at there
            cases there
          | some c =>
            simp only [held] at calm
            cases calm _ List.mem_cons_self
        | _ => cases there
      | _ => cases there

/-- **What a task has yet to remove after a move.** -/
theorem Run.leaving_next (run : Run options past s) (step : Moves s m s')
    (kept : right ∉ m.disposes.rights) (t : TaskId) :
    right ∈ s'.leaving t ↔ right ∈ s.leaving t ∨ right ∈ s.surrenders t m := by
  have numbered := (Sound.of_run run).numbered
  have alone (other : ∀ i a, m ≠ .did t i a) :
      right ∈ s.leaving t ∨ right ∈ s.surrenders t m ↔ right ∈ s.leaving t := by
    rw [surrenders_of_other other]
    exact or_iff_left nofun
  cases step.turns numbered t with
  | same other stack =>
    rw [alone other, System.leaving, stack]
    rfl
  | @went i rest before a caller r move next exec stack =>
    subst move
    rw [System.leaving, stack, List.flatMap_append, List.mem_append, exec_leaving exec kept,
      System.leaving, next, List.flatMap_cons, List.mem_append]
    exact or_right_comm
  | begun other new opens stack =>
    rw [alone other, System.leaving, stack, System.leaving, numbered.stack_of_new new]
    cases opens <;> exact Iff.rfl
  | @dropped i rest move next waits stack =>
    have ahead := run.ahead t
    rw [next] at ahead
    rw [alone (by rw [move]; exact fun _ _ => nofun), System.leaving, stack, System.leaving, next]
    exact iff_of_false nofun (not_mem_revokes (ahead.calm_of_waits waits))

/-- **What a task may remove after a refresh** it could before, or it begins to listen. -/
theorem Run.carried_next (run : Run options past s) (step : Moves s m s')
    (there : right ∈ s'.carried t) : right ∈ s.carried t ∨
      (∃ a, m = .did t .refreshListen a) ∧ right = (refresh, s.listeners.next) := by
  have numbered := (Sound.of_run run).numbered
  obtain ⟨c, held, among⟩ := List.mem_flatMap.mp there
  obtain ⟨j, hj, holds⟩ := List.mem_filterMap.mp held
  have before {i : Instr} (hi : i ∈ s.pool.stack t) (holds : i.holds? = some c) :
      right ∈ s.carried t :=
    List.mem_flatMap.mpr ⟨c, List.mem_filterMap.mpr ⟨i, hi, holds⟩, among⟩
  cases step.turns numbered t with
  | same other stack => exact .inl (before (stack ▸ hj) holds)
  | @went i rest left a caller r move next exec stack =>
    rw [stack] at hj
    rcases List.mem_append.mp hj with hj | hj
    · rcases exec_holds exec hj holds with earlier | ⟨rfl, rfl⟩
      · exact .inl (before (next ▸ List.mem_cons_self) earlier)
      · exact .inr ⟨⟨a, move⟩, List.mem_singleton.mp among⟩
    · exact .inl (before (next ▸ List.mem_cons_of_mem _ hj) holds)
  | begun other new opens stack =>
    rw [stack] at hj
    rw [List.mem_singleton.mp hj] at holds
    cases opens <;> cases holds
  | dropped move next waits stack =>
    rw [stack] at hj
    cases hj

/-- **Nothing is removed but by a task that has a right to it**: one that removes what a user gave
up, one after the other, or one that is through with a refresh. -/
theorem Moves.disposed (step : Moves s m s') (disposed : right ∈ m.disposes.rights) :
    (∃ t, m.disposes.rights = [right] ∧ right ∈ s.leaving t) ∨ ∃ t, right ∈ s.carried t := by
  cases step with
  | @act _ t task i rest a found next taken =>
    have stack : s.pool.stack t = i :: rest := (Pool.stack_of_get? found).trans next
    cases i with
    | revoke c =>
      cases c with
      | single method number =>
        obtain rfl : right = (method, number) := List.mem_singleton.mp disposed
        refine .inl ⟨t, rfl, ?_⟩
        rw [System.leaving, stack]
        exact List.mem_cons_self
      | _ => cases disposed
    | drop c =>
      refine .inr ⟨t, ?_⟩
      rw [System.carried, stack]
      exact List.mem_append_left _ disposed
    | _ => cases disposed
  | _ => cases disposed

/-! ## What users hold -/

/-- **What is held after a move** is put together from what was held, or handed out. -/
theorem System.rights_noted (s : System) (m : Move) (who : String) :
    (∃ names : List String, ∀ right, right ∈ (s.noted m).2.rights who ↔
      ∃ name ∈ names, right ∈ s.holdings.rights name) ∨
    (s.noted m).2.rights who = m.hands ++ s.grants m := by
  have same {h : Holdings String} (unchanged : h = s.holdings) :
      (∃ names : List String, ∀ right, right ∈ h.rights who ↔
        ∃ name ∈ names, right ∈ s.holdings.rights name) ∨ h.rights who = m.hands ++ s.grants m := by
    subst unchanged
    exact .inl ⟨[who], fun right => by simp⟩
  have given {h : Holdings String} (holder : String) (c : Subscription String)
      (held : h = s.holdings.set holder c) (granted : c.rights = m.hands ++ s.grants m) :
      (∃ names : List String, ∀ right, right ∈ h.rights who ↔
        ∃ name ∈ names, right ∈ s.holdings.rights name) ∨ h.rights who = m.hands ++ s.grants m := by
    rw [held, Holdings.rights_set]
    split
    · exact .inr granted
    · exact .inl ⟨[who], fun right => by simp⟩
  cases m with
  | did t i a =>
    cases i with
    | act action =>
      cases action with
      | listen listener wish =>
        cases handle : s.handle with
        | true =>
          refine given listener.name (.single (callbackFor listener wish).1 s.listeners.next) ?_ ?_
          · simp only [noted, act, handle, if_true]
            rfl
          · simp only [grants, registers, handle, if_true]
            rfl
        | false => exact same (by simp [noted, act, handle])
      | track holder =>
        refine same ?_
        simp only [noted, act]
        split <;> rfl
      | combine holder parts =>
        by_cases own : who = holder
        · refine .inl ⟨parts, fun right => ?_⟩
          exact (s.holdings.mem_rights_combine holder parts who).trans (by rw [if_pos own])
        · have kept (right : String × Nat) :
              right ∈ (s.holdings.combine holder parts).rights who ↔
                who ∉ parts ∧ right ∈ s.holdings.rights who :=
            (s.holdings.mem_rights_combine holder parts who).trans (by rw [if_neg own])
          by_cases taken : who ∈ parts
          · refine .inl ⟨[], fun right => (kept right).trans ?_⟩
            simp [taken]
          · refine .inl ⟨[who], fun right => (kept right).trans ?_⟩
            simp [taken]
      | dispose holder =>
        cases held : s.holdings.get? holder with
        | none => exact same (by simp [noted, act, held])
        | some subscription =>
          refine given holder .spent ?_ rfl
          simp only [noted, act, held]
      | call name c => exact same (congrArg Prod.snd (s.noted_call name c))
      | _ => exact same rfl
    | trackRest holder k started =>
      refine given holder (.combined [started, .single refresh s.listeners.next]) rfl ?_
      simp [Subscription.rights, Subscription.rightsOf, Move.hands, grants, registers]
    | _ => exact same rfl
  | _ => exact same rfl

/-- What is granted is new. -/
theorem System.fresh_of_grants (granted : right ∈ s.grants m) :
    s.listeners.next ≤ right.2 ∧ right.2 < s.listeners.next + (s.registers m).length := by
  obtain ⟨entry, among, rfl⟩ := List.mem_map.mp granted
  have first : s.listeners.next ≤ entry.2 := List.le_snd_of_mem_zipIdx among
  exact ⟨first, List.snd_lt_add_of_mem_zipIdx among⟩

/-- **What users hold after a move** of what is not new and was not in the hands of a task: it is
put together from what they held. -/
theorem Moves.held (step : Moves s m s') (who : String) :
    ∃ names : List String, ∀ right : String × Nat, right.2 < s.listeners.next → right ∉ m.hands →
      (right ∈ s'.holdings.rights who ↔ ∃ name ∈ names, right ∈ s.holdings.rights name) := by
  rw [step.holdings]
  rcases s.rights_noted m who with ⟨names, parts⟩ | all
  · exact ⟨names, fun right _ _ => parts right⟩
  · refine ⟨[], fun right old apart => iff_of_false (fun now => ?_) (by simp)⟩
    rw [all] at now
    rcases List.mem_append.mp now with handed | granted
    · exact apart handed
    · exact absurd old (Nat.not_lt.mpr (System.fresh_of_grants granted).1)

end Step

/-! ## Rights and numbers -/

/-- Whatever is held was registered. -/
structure Issued (s : System) : Prop where
  held : ∀ who, ∀ right ∈ s.holdings.rights who, right.2 < s.listeners.next
  left : ∀ t, ∀ i ∈ s.pool.stack t, ∀ right ∈ i.rights, right.2 < s.listeners.next

section Dates

variable {options : Options} {past : List Move} {s s' r : System} {m : Move} {t : TaskId}
  {caller : String} {i j : Instr} {a : Answer} {before : List Instr} {right : String × Nat}

theorem Instr.rights_of_holds? {c : Subscription String} (held : i.holds? = some c) :
    i.rights = c.rights := by
  cases i with
  | trackRest | revoke => cases held
  | _ => exact congrArg (Option.elim · [] Subscription.rights) held

/-- **What a task has a right to with what an instruction leaves** it had with the instruction, or
it is granted, or was a user's. -/
theorem exec_rights (h : s.exec t caller i a = some (r, before)) (left : j ∈ before)
    (there : right ∈ j.rights) :
    right ∈ i.rights ∨ right ∈ s.grants (.did t i a) ∨
      ∃ holder, right ∈ s.holdings.rights holder := by
  cases calm : j.urgent with
  | false =>
    have held : ∃ c, j.holds? = some c ∧ right ∈ c.rights := by
      cases holds : j.holds? with
      | none =>
        have nothing : j.rights = [] := by
          cases j with
          | trackRest | revoke => cases calm
          | _ => exact congrArg (Option.elim · [] Subscription.rights) holds
        rw [nothing] at there
        cases there
      | some c => exact ⟨c, rfl, Instr.rights_of_holds? holds ▸ there⟩
    obtain ⟨c, held, among⟩ := held
    rcases exec_holds h left held with earlier | ⟨rfl, rfl⟩
    · exact .inl (Instr.rights_of_holds? earlier ▸ among)
    · exact .inr (.inl among)
  | true =>
    cases urgent : i.urgent with
    | false =>
      rcases exec_urgent h urgent with
        ⟨holder, rfl, handle, rfl⟩ | ⟨holder, c, rfl, held, rfl⟩ | none
      · rw [List.mem_singleton.mp left] at there
        refine .inr (.inl ?_)
        rw [System.grants, System.registers, if_pos handle]
        exact there
      · rw [List.mem_singleton.mp left] at there
        exact .inr (.inr ⟨holder, Holdings.rights_of_get? held ▸ there⟩)
      · rw [none j left] at calm
        cases calm
    | true =>
      cases i with
      | trackRest =>
        rw [exec_trackRest h] at left
        cases left
      | revoke c =>
        rw [exec_revoke h] at left
        cases c with
        | combined parts =>
          obtain ⟨part, among, rfl⟩ := List.mem_map.mp left
          exact .inl (mem_rightsOf.mpr ⟨part, among, there⟩)
        | _ => cases left
      | _ => cases urgent

theorem Issued.leaving (h : Issued s) (there : right ∈ s.leaving t) :
    right.2 < s.listeners.next := by
  obtain ⟨i, hi, revokes⟩ := List.mem_flatMap.mp there
  refine h.left t i hi right ?_
  cases i with
  | revoke => exact revokes
  | _ => cases revokes

theorem Issued.carried (h : Issued s) (there : right ∈ s.carried t) :
    right.2 < s.listeners.next := by
  obtain ⟨c, held, among⟩ := List.mem_flatMap.mp there
  obtain ⟨i, hi, holds⟩ := List.mem_filterMap.mp held
  exact h.left t i hi right (Instr.rights_of_holds? holds ▸ among)

/-- What a task hands over it had. -/
theorem Issued.hands (h : Issued s) (step : Moves s m s') (handed : right ∈ m.hands) :
    right.2 < s.listeners.next := by
  cases step with
  | @act _ t task i rest a found next taken =>
    have there : i ∈ s.pool.stack t := by
      rw [Pool.stack_of_get? found, next]
      exact List.mem_cons_self
    cases i with
    | trackRest => exact h.left t _ there right handed
    | _ => cases handed
  | _ => cases handed

/-- A move leaves everything that is held registered. -/
theorem Issued.next (h : Issued s) (numbered : s.pool.Numbered) (step : Moves s m s') :
    Issued s' := by
  have next : s'.listeners.next = s.listeners.next + (s.registers m).length := by
    rw [step.enlisted, System.enlisted, Registry.next_enroll, Registry.next_dispose]
  have later {right : String × Nat} (old : right.2 < s.listeners.next) :
      right.2 < s'.listeners.next := by
    rw [next]
    exact Nat.lt_add_right _ old
  have new {right : String × Nat} (granted : right ∈ s.grants m) :
      right.2 < s'.listeners.next := by
    rw [next]
    exact (System.fresh_of_grants granted).2
  constructor
  · intro who right there
    rw [step.holdings] at there
    rcases s.rights_noted m who with ⟨names, parts⟩ | all
    · obtain ⟨name, -, had⟩ := (parts right).mp there
      exact later (h.held name right had)
    · rw [all] at there
      rcases List.mem_append.mp there with handed | granted
      · exact later (h.hands step handed)
      · exact new granted
  · intro t i hi right there
    cases step.turns numbered t with
    | same _ stack => exact later (h.left t i (stack ▸ hi) right there)
    | went move first exec stack =>
      rw [stack] at hi
      rcases List.mem_append.mp hi with hi | hi
      · rcases exec_rights exec hi there with had | granted | ⟨holder, held⟩
        · exact later (h.left t _ (first ▸ List.mem_cons_self) right had)
        · exact new (move ▸ granted)
        · exact later (h.held holder right held)
      · exact later (h.left t i (first ▸ List.mem_cons_of_mem _ hi) right there)
    | begun _ _ opens stack =>
      rw [stack] at hi
      rw [List.mem_singleton.mp hi] at there
      cases opens <;> cases there
    | dropped _ _ _ stack =>
      rw [stack] at hi
      cases hi

/-- **Whatever is held was registered**, in every run. -/
theorem Run.issued (run : Run options past s) : Issued s := by
  induction run with
  | start => exact ⟨fun _ => nofun, fun _ => nofun⟩
  | next run step ih => exact ih.next (Sound.of_run run).numbered step

end Dates

end Supervision.Worker
