import Supervision.Proofs.Listener.Registry
import Supervision.Proofs.Worker.Barrier

/-!
# How a refresh goes on

A refresh stops the worker, listens for the end of a refresh, starts the worker again, asks it for a
refresh and waits. `Refreshing` says how far it has come by what it still has to do, and what has
happened by then; others may start and stop the worker meanwhile, and every state of the machine may
be found on the way.

The law here is about the last wait, and how the call ends. Whoever waits has handed its
notification to a connection and knows no more: the connection may have refused it, or be gone. The
wait ends with a completion that is delivered or when it is cancelled, and with nothing else
(`Patience`). It is not established that a completion comes.
-/

namespace Supervision.Worker

/-! ## Who is told of completions -/

/-- The task that a callback tells that its refresh is complete. -/
def Callback.completes? : Callback → Option TaskId
  | .completion t => some t
  | _ => none

/-- The task that is told that its refresh is complete. -/
def Instr.completes? : Instr → Option TaskId
  | .deliver callback _ => callback.completes?
  | _ => none

/-- The task that a move tells that its refresh is complete. -/
def Move.completes? : Move → Option TaskId
  | .did _ i _ => i.completes?
  | _ => none

/-- What a move does to those who wait for completions, and to those who are cancelled. -/
structure Marks (s r : System) (m : Move) : Prop where
  completed : r.completed = m.completes?.toList ++ s.completed
  cancelled : s.cancelled ⊆ r.cancelled
  /-- Whoever listens for a completion did so before, or begins to. -/
  listeners : ∀ method t, r.listeners.Holds method (.completion t) →
    s.listeners.Holds method (.completion t) ∨
      (∃ a, m = .did t .refreshListen a) ∧ method = Message.refresh

namespace Marks

variable {s r : System} {m : Move}

theorem same (other : m.completes? = none) (listeners : r.listeners = s.listeners)
    (completed : r.completed = s.completed) (cancelled : r.cancelled = s.cancelled) :
    Marks s r m := by
  refine ⟨?_, (List.Perm.of_eq cancelled.symm).subset, ?_⟩
  · rw [other, completed]
    rfl
  · intro method t holds
    rw [listeners] at holds
    exact .inl holds

/-- A listener of another kind begins to listen. -/
theorem insert (other : m.completes? = none) {key : String} {callback : Callback}
    (kind : callback.completes? = none)
    (listeners : r.listeners = (s.listeners.insert key callback).1)
    (completed : r.completed = s.completed) (cancelled : r.cancelled = s.cancelled) :
    Marks s r m := by
  refine ⟨?_, (List.Perm.of_eq cancelled.symm).subset, ?_⟩
  · rw [other, completed]
    rfl
  · intro method t holds
    rw [listeners] at holds
    rcases Registry.holds_insert holds with holds | ⟨-, heq⟩
    · exact .inl holds
    · rw [← heq] at kind
      cases kind

/-- Someone does not listen any longer. -/
theorem dispose (other : m.completes? = none) (subscription : Subscription String)
    (listeners : r.listeners = (s.dispose subscription).listeners)
    (completed : r.completed = (s.dispose subscription).completed)
    (cancelled : r.cancelled = (s.dispose subscription).cancelled) : Marks s r m := by
  refine ⟨?_, (List.Perm.of_eq cancelled.symm).subset, ?_⟩
  · rw [other, completed]
    rfl
  · intro method t holds
    rw [listeners] at holds
    exact .inl holds.of_dispose

theorem release (h : Marks s r m) : Marks s r.release m :=
  r.release_elim h ⟨h.completed, h.cancelled, h.listeners⟩

end Marks

theorem System.marks_notices (s : System) (ns : List Notice) :
    (ns.foldl notice s).listeners = s.listeners ∧ (ns.foldl notice s).completed = s.completed ∧
      (ns.foldl notice s).cancelled = s.cancelled := by
  induction ns generalizing s with
  | nil => exact ⟨rfl, rfl, rfl⟩
  | cons n ns ih =>
    have first : (s.notice n).listeners = s.listeners ∧ (s.notice n).completed = s.completed ∧
        (s.notice n).cancelled = s.cancelled := by
      cases n <;> exact ⟨rfl, rfl, rfl⟩
    obtain ⟨listeners, completed, cancelled⟩ := ih (s.notice n)
    rw [List.foldl_cons]
    exact ⟨listeners.trans first.1, completed.trans first.2.1, cancelled.trans first.2.2⟩

section Marks

variable (s : System) (t : TaskId) (b : Answer)

theorem marks_apply {m : Move} (e : Event) (other : m.completes? = none) :
    Marks s (s.apply e).1 m := by
  obtain ⟨listeners, completed, cancelled⟩ := System.marks_notices
    { s with machine := (s.machine.transition e).machine } (s.machine.transition e).notices
  exact .same other listeners completed cancelled

theorem marks_act (a : Action) : Marks s (s.act a).1 (.did t (.act a) b) := by
  cases a with
  | listen listener wish =>
    simp only [System.act]
    split
    · refine .insert rfl ?_ rfl rfl rfl
      cases wish <;> rfl
    · exact .same rfl rfl rfl rfl
  | track holder =>
    simp only [System.act]
    split
    · exact .insert rfl rfl rfl rfl rfl
    · exact .same rfl rfl rfl rfl
  | dispose holder =>
    simp only [System.act]
    split <;> exact .same rfl rfl rfl rfl
  | call name c =>
    simp only [System.act]
    split
    · refine ⟨?_, ?_, ?_⟩ <;> unfold System.call <;> split
      · rfl
      · rfl
      · exact List.subset_cons_self _ _
      · exact List.Subset.refl _
      · exact fun _ _ => .inl
      · exact fun _ _ => .inl
    · exact .same rfl rfl rfl rfl
  | _ => exact .same rfl rfl rfl rfl

theorem marks_deliver (params : Json) (callback : Callback) :
    Marks s (s.deliver params callback).1 (.did t (.deliver callback params) b) := by
  cases callback with
  | completion u => exact ⟨rfl, List.Subset.refl _, fun _ _ => .inl⟩
  | _ =>
    simp only [System.deliver]
    first
      | exact .same rfl rfl rfl rfl
      | (split <;> exact .same rfl rfl rfl rfl)

theorem marks_revoke (subscription : Subscription String) :
    Marks s (s.revoke subscription).1 (.did t (.revoke subscription) b) := by
  cases subscription with
  | combined => exact .same rfl rfl rfl rfl
  | _ => exact .dispose rfl _ rfl rfl rfl

end Marks

/-- **What an instruction does to those who wait for completions.** -/
theorem exec_marks {s r : System} {t : TaskId} {caller : String} {i : Instr} {a : Answer}
    {before : List Instr} (h : s.exec t caller i a = some (r, before)) :
    Marks s r (.did t i a) := by
  unfold System.exec at h
  split at h
  case h_1 =>
    split at h
    · exact of_result h (marks_apply s _ rfl)
    · exact of_result h (.same rfl rfl rfl rfl)
  case h_3 => exact of_result h (marks_act s t _ _)
  case h_4 c =>
    refine of_result h ?_
    cases c with
    | request _ params => cases params <;> exact .same rfl rfl rfl rfl
    | notify _ params => cases params <;> exact .same rfl rfl rfl rfl
    | _ => exact .same rfl rfl rfl rfl
  case h_7 =>
    split at h
    · exact of_result h (.same rfl rfl rfl rfl)
    · cases h
  case h_8 need c =>
    refine of_result h ?_
    cases need <;> cases c <;> exact .same rfl rfl rfl rfl
  case h_9 =>
    split at h
    · exact of_result h (.same rfl rfl rfl rfl)
    · exact of_result h (marks_apply s .stop rfl)
  case h_10 =>
    split at h
    · exact of_result h (.same rfl rfl rfl rfl)
    · cases h
  case h_11 =>
    refine of_result h ?_
    unfold System.answered
    split <;> split <;> (try split) <;> exact .same rfl rfl rfl rfl
  case h_13 =>
    refine of_result h ?_
    unfold System.receipted
    split <;> exact .same rfl rfl rfl rfl
  case h_15 =>
    split at h <;> exact of_result h (.same rfl rfl rfl rfl)
  case h_20 => exact of_result h (marks_deliver s t _ _ _)
  case h_23 =>
    refine of_result h ?_
    dsimp only
    split <;> exact .same rfl rfl rfl rfl
  case h_24 =>
    refine of_result h ⟨rfl, List.Subset.refl _, ?_⟩
    intro method u holds
    rcases Registry.holds_insert holds with holds | ⟨rfl, heq⟩
    · exact .inl holds
    · cases heq
      exact .inr ⟨⟨_, rfl⟩, rfl⟩
  case h_25 =>
    split at h
    · exact of_result h (.same rfl rfl rfl rfl)
    · cases h
  case h_26 subscription => exact of_result h (.dispose rfl subscription rfl rfl rfl)
  case h_27 =>
    split at h <;> exact of_result h (.same rfl rfl rfl rfl)
  case h_29 => exact of_result h (.insert rfl rfl rfl rfl rfl)
  case h_30 => exact of_result h (marks_revoke s t _ _)
  case h_31 => cases h
  all_goals exact of_result h (.same rfl rfl rfl rfl)

/-- **What a move does to those who wait for completions.** -/
theorem Moves.marks {s s' : System} {m : Move} (step : Moves s m s') : Marks s s' m := by
  cases step with
  | @act _ t task i rest a found next taken =>
    obtain ⟨r, before, exec, -, result⟩ := step_exec found next taken
    have marks := exec_marks exec
    have proceeded : Marks s (r.proceed t (before ++ rest)) (.did t i a) :=
      ⟨marks.completed, marks.cancelled, marks.listeners⟩
    rcases result with rfl | rfl
    · exact proceeded
    · exact proceeded.release
  | park => exact Marks.release (.same rfl rfl rfl rfl)
  | drop => exact Marks.release (.same rfl rfl rfl rfl)
  | cancel => exact ⟨rfl, List.subset_cons_self _ _, fun _ _ => .inl⟩
  | _ => exact .same rfl rfl rfl rfl

theorem Moves.completed {s s' : System} {m : Move} (step : Moves s m s') :
    s.completed ⊆ s'.completed := by
  rw [step.marks.completed]
  exact List.subset_append_right _ _

/-- A call is told that its refresh is complete. -/
def Completed (t : TaskId) (past : List Move) : Prop :=
  ∃ m ∈ past, m.completes? = some t

/-- The completions that are known are those that were delivered. -/
theorem Run.completed {options : Options} {past : List Move} {s : System} (run : Run options past s)
    (t : TaskId) : t ∈ s.completed ↔ Completed t past := by
  induction run with
  | start =>
    constructor
    · exact nofun
    · rintro ⟨m, hm, -⟩
      cases hm
  | @next past s s' m run step ih =>
    rw [step.marks.completed, List.mem_append, Option.mem_toList, ih]
    constructor
    · rintro (now | ⟨e, he, completes⟩)
      · exact ⟨m, List.mem_cons_self, now⟩
      · exact ⟨e, List.mem_cons_of_mem _ he, completes⟩
    · rintro ⟨e, he, completes⟩
      rcases List.mem_cons.mp he with rfl | he
      · exact .inl completes
      · exact .inr ⟨e, he, completes⟩

/-! ## How far a refresh has come -/

/-- True of moves with which a call sends a notification. -/
def Move.asks (t : TaskId) : Move → Bool
  | .did u (.tell ..) _ => u = t
  | _ => false

/-- Nobody was asked for the refresh of a call. -/
def Unasked (t : TaskId) (later : List Move) : Prop :=
  ∀ m ∈ later, m.asks t = false

/-- The notification of a refresh was handed to a connection, which took it or refused it. -/
def HandedOver (t : TaskId) (later : List Move) : Prop :=
  ∃ c completion r,
    Move.did t (.tell c Message.refresh none (.refresh completion)) (.sent r) ∈ later

/-- No worker came up, or there was no connection to it. -/
def Unavailable (why : SupervisorError) : Prop :=
  why = .workerUnavailable ∨ why = .notInitialized

/-- What is known of the way a refresh ends. -/
def Outcome (t : TaskId) (later : List Move) (s : System) : Except SupervisorError Unit → Prop
  | .ok () => HandedOver t later ∧ (t ∈ s.completed ∨ t ∈ s.cancelled)
  | .error why => Unasked t later ∧ Unavailable why

theorem Unasked.next {t : TaskId} {later : List Move} {m : Move} (h : Unasked t later)
    (mute : m.asks t = false) : Unasked t (m :: later) :=
  List.forall_mem_cons.mpr ⟨mute, h⟩

theorem Unasked.of_all {t : TaskId} {later : List Move}
    (h : later.all (fun m => !m.asks t) = true) : Unasked t later := by
  intro m hm
  simpa using List.all_eq_true.mp h m hm

/-- Others do not ask for a call. -/
theorem Move.asks_of_other {t : TaskId} {m : Move} (other : ∀ i a, m ≠ .did t i a) :
    m.asks t = false := by
  unfold Move.asks
  split
  next u _ _ _ _ a =>
    refine decide_eq_false ?_
    rintro rfl
    exact other _ a rfl
  next => rfl

theorem HandedOver.next {t : TaskId} {later : List Move} (h : HandedOver t later) (m : Move) :
    HandedOver t (m :: later) := by
  obtain ⟨c, completion, r, told⟩ := h
  exact ⟨c, completion, r, List.mem_cons_of_mem _ told⟩

theorem Outcome.next {t : TaskId} {later : List Move} {s s' : System} {m : Move}
    {r : Except SupervisorError Unit} (h : Outcome t later s r) (step : Moves s m s')
    (mute : m.asks t = false) : Outcome t (m :: later) s' r := by
  cases r with
  | ok =>
    have known := h.2.imp (fun told => step.completed told) fun off => step.marks.cancelled off
    exact ⟨h.1.next m, known⟩
  | error => exact ⟨h.1.next mute, h.2⟩

/-- True of instructions that a refresh carries out on its way. -/
def Instr.incidental : Instr → Bool
  | .handle (.start none) | .perform _ | .report _ | .ask _ _ _ .ignore | .drop _ => true
  | _ => false

/-- Instructions with which a refresh looks for a connection, and asks it. -/
def Instr.Seeks : Instr → Prop
  | .look (.refresh _) _ | .take (.refresh _) .. | .wait (.refresh _) ..
  | .use (.refresh _) (.ok _) => True
  | .use (.refresh _) (.error why) => Unavailable why
  | .tell _ method none (.refresh _) => method = Message.refresh
  | _ => False

/-- How far a refresh has come since `first`, by what it still has to do. -/
inductive RefreshStage (first : System) (t : TaskId) (later : List Move) (s : System) :
    List Instr → Prop
  | begun (unasked : Unasked t later) : RefreshStage first t later s [.refreshBegin]
  /-- It is about to stop the worker. -/
  | stopping (unasked : Unasked t later) : RefreshStage first t later s [.halt, .refreshListen]
  /-- It waits until the worker has stopped. -/
  | stopped {seen : Nat} (unasked : Unasked t later) (since : first.machine.idleEpoch ≤ seen) :
    RefreshStage first t later s [.awaitIdle seen, .refreshListen]
  /-- The worker has stopped since. -/
  | listening (unasked : Unasked t later) (idle : IdleSince first later s) :
    RefreshStage first t later s [.refreshListen]
  /-- It looks for a connection that it can ask. -/
  | seeking {i : Instr} (unasked : Unasked t later) (seeks : i.Seeks) :
    RefreshStage first t later s [i]
  /-- It has asked one, and waits. -/
  | waiting {completion : Subscription String} (handed : HandedOver t later) :
    RefreshStage first t later s [.awaitCompletion completion]
  /-- It is over. -/
  | ending {r : Except SupervisorError Unit} (outcome : Outcome t later s r) :
    RefreshStage first t later s [.refreshEnd r]
  | finishing {r : Except SupervisorError Unit} (outcome : Outcome t later s r) :
    RefreshStage first t later s [.finish (.sent (r.mapError .refreshFailed))]
  | finished : RefreshStage first t later s []

/-- A refresh is at a stage, or on its way to one. -/
inductive Refreshing (first : System) (t : TaskId) (later : List Move) (s : System) :
    List Instr → Prop
  | here {stack : List Instr} (stage : RefreshStage first t later s stack) :
    Refreshing first t later s stack
  | on {i : Instr} {rest : List Instr} (way : i.incidental = true)
      (onward : Refreshing first t later s rest) : Refreshing first t later s (i :: rest)

theorem Refreshing.append {first s : System} {t : TaskId} {later : List Move}
    {front stack : List Instr} (way : ∀ j ∈ front, j.incidental = true)
    (h : Refreshing first t later s stack) : Refreshing first t later s (front ++ stack) := by
  induction front with
  | nil => exact h
  | cons j front ih =>
    exact .on (way j List.mem_cons_self) (ih fun k hk => way k (List.mem_cons_of_mem _ hk))

/-- Moves with which a call asks nobody do not change its stage. -/
theorem RefreshStage.next {first s s' : System} {t : TaskId} {later : List Move} {m : Move}
    {stack : List Instr} (h : RefreshStage first t later s stack) (step : Moves s m s')
    (mute : m.asks t = false) : RefreshStage first t (m :: later) s' stack := by
  cases h with
  | begun unasked => exact .begun (unasked.next mute)
  | stopping unasked => exact .stopping (unasked.next mute)
  | stopped unasked since => exact .stopped (unasked.next mute) since
  | listening unasked idle => exact .listening (unasked.next mute) (idle.next step)
  | seeking unasked seeks => exact .seeking (unasked.next mute) seeks
  | waiting handed => exact .waiting (handed.next m)
  | ending outcome => exact .ending (outcome.next step mute)
  | finishing outcome => exact .finishing (outcome.next step mute)
  | finished => exact .finished

theorem Refreshing.next {first s s' : System} {t : TaskId} {later : List Move} {m : Move}
    {stack : List Instr} (h : Refreshing first t later s stack) (step : Moves s m s')
    (mute : m.asks t = false) : Refreshing first t (m :: later) s' stack := by
  induction h with
  | here stage => exact .here (stage.next step mute)
  | on way _ ih => exact .on way ih

/-! ## The steps of a refresh -/

section Steps

variable {s r : System} {t : TaskId} {caller : String} {a : Answer} {before : List Instr}

/-- What a refresh carries out on its way leaves nothing else. -/
theorem exec_incidental {i : Instr} (h : s.exec t caller i a = some (r, before))
    (way : i.incidental = true) : ∀ j ∈ before, j.incidental = true := by
  intro j hj
  have leads := exec_leads h j hj
  cases i with
  | handle => cases j <;> first | rfl | cases leads
  | ask _ _ _ use =>
    cases use with
    | ignore =>
      cases a with
      | replied =>
        cases h
        cases hj
      | _ => cases h
    | answer => cases way
  | perform => cases leads
  | report => cases leads
  | drop => cases leads
  | _ => cases way

/-- A refresh begins with what it does before it stops the worker. -/
theorem exec_refreshBegin (h : s.exec t caller .refreshBegin a = some (r, before)) :
    ∃ front, before = front ++ [.halt, .refreshListen] ∧ ∀ j ∈ front, j.incidental = true := by
  cases a with
  | nothing =>
    cases h
    unfold System.refreshBegin
    split
    · exact ⟨[_, _, _], rfl, List.all_eq_true.mp rfl⟩
    · exact ⟨[_, _], rfl, List.all_eq_true.mp rfl⟩
  | _ => cases h

/-- A refresh goes on to look for a connection, perhaps after something else. -/
def SeeksOn (before : List Instr) : Prop :=
  ∃ front i, before = front ++ [i] ∧ (∀ j ∈ front, j.incidental = true) ∧ i.Seeks

theorem SeeksOn.single {i : Instr} (seeks : i.Seeks) : SeeksOn [i] :=
  ⟨[], i, rfl, List.forall_mem_nil _, seeks⟩

theorem exec_refreshListen (h : s.exec t caller .refreshListen a = some (r, before)) :
    SeeksOn before := by
  cases a with
  | nothing =>
    cases h
    exact ⟨[_, _], _, rfl, List.all_eq_true.mp rfl, trivial⟩
  | _ => cases h

theorem seeksOn_look (s : System) (completion : Subscription String) (awaited : Bool) :
    SeeksOn (s.look (.refresh completion) awaited) := by
  unfold System.look
  split
  · exact .single trivial
  · split
    · exact .single (.inl rfl)
    · exact ⟨[_], _, rfl, List.all_eq_true.mp rfl, trivial⟩
  · exact .single trivial
  · exact .single trivial

theorem seeksOn_take (s : System) (completion : Subscription String) (awaited : Bool) (seen : Nat) :
    SeeksOn (s.take (.refresh completion) awaited seen) := by
  unfold System.take
  split
  · split
    · exact .single trivial
    · exact .single (.inr rfl)
  · exact .single trivial

/-- Whoever looks for a connection goes on to, gives up because there is none, or asks it and waits,
whatever comes of the notification. -/
theorem exec_seeks {i : Instr} (h : s.exec t caller i a = some (r, before)) (seeks : i.Seeks) :
    ((Move.did t i a).asks t = false ∧ (SeeksOn before ∨
      ∃ completion why, before = [.drop completion, .refreshEnd (.error why)] ∧ Unavailable why)) ∨
      ∃ c completion result, i = .tell c Message.refresh none (.refresh completion) ∧
        a = .sent result ∧ before = [.awaitCompletion completion] := by
  cases i with
  | look need awaited =>
    cases need with
    | refresh completion =>
      cases a with
      | nothing =>
        cases h
        exact .inl ⟨rfl, .inl (seeksOn_look s completion awaited)⟩
      | _ => cases h
    | _ => cases seeks
  | take need awaited seen =>
    cases need with
    | refresh completion =>
      cases a with
      | nothing =>
        cases h
        exact .inl ⟨rfl, .inl (seeksOn_take s completion awaited seen)⟩
      | _ => cases h
    | _ => cases seeks
  | wait need awaited seen =>
    cases need with
    | refresh completion =>
      refine .inl ⟨rfl, .inl ?_⟩
      cases a with
      | nothing =>
        simp only [System.exec] at h
        split at h
        · cases h
          exact .single trivial
        · cases h
      | _ => cases h
    | _ => cases seeks
  | use need connection =>
    cases need with
    | refresh completion =>
      refine .inl ⟨rfl, ?_⟩
      cases a with
      | nothing =>
        cases connection with
        | ok c =>
          cases h
          exact .inl (.single rfl)
        | error why =>
          cases h
          exact .inr ⟨completion, why, rfl, seeks⟩
      | _ => cases h
    | _ => cases seeks
  | tell c method params receipt =>
    cases params with
    | none =>
      cases receipt with
      | refresh completion =>
        obtain rfl := seeks
        refine .inr ?_
        cases a with
        | sent result =>
          cases result <;> cases h <;> exact ⟨c, completion, _, rfl, rfl, rfl⟩
        | _ => cases h
      | _ => cases seeks
    | some => cases seeks
  | _ => cases seeks

/-- Whoever waits for a completion goes on with one, or when it was cancelled. -/
theorem exec_awaitCompletion {completion : Subscription String}
    (h : s.exec t caller (.awaitCompletion completion) a = some (r, before)) :
    (t ∈ s.completed ∨ t ∈ s.cancelled) ∧ before = [.drop completion, .refreshEnd (.ok ())] := by
  cases a with
  | nothing =>
    simp only [System.exec] at h
    split at h
    next freed =>
      cases h
      rw [Bool.or_eq_true, List.contains_iff_mem, List.contains_iff_mem] at freed
      exact ⟨freed, rfl⟩
    next => cases h
  | _ => cases h

theorem exec_refreshEnd {result : Except SupervisorError Unit}
    (h : s.exec t caller (.refreshEnd result) a = some (r, before)) :
    before = [.finish (.sent (result.mapError .refreshFailed))] := by
  cases a with
  | nothing => cases result <;> cases h <;> rfl
  | _ => cases h

end Steps

/-- A refresh goes on from one stage to the next. -/
theorem RefreshStage.exec {first s s' r : System} {later : List Move} {t : TaskId} {i : Instr}
    {a : Answer} {caller : String} {rest before : List Instr}
    (h : RefreshStage first t later s (i :: rest)) (ensues : Ensues first later s)
    (step : Moves s (.did t i a) s') (hexec : s.exec t caller i a = some (r, before)) :
    Refreshing first t (.did t i a :: later) s' (before ++ rest) := by
  cases h with
  | begun unasked =>
    obtain ⟨front, rfl, way⟩ := exec_refreshBegin hexec
    rw [List.append_nil]
    exact .append way (.here (.stopping (unasked.next rfl)))
  | stopping unasked =>
    have unasked : Unasked t (.did t .halt a :: later) := unasked.next rfl
    rcases exec_halt hexec with ⟨idle, rfl⟩ | ⟨effects, rfl⟩
    · exact .here (.listening unasked ((ensues.idleSince idle).next step))
    · rw [List.append_assoc]
      refine .append ?_ (.here (.stopped unasked ensues.epoch))
      intro j hj
      obtain ⟨effect, -, rfl⟩ := List.mem_map.mp hj
      rfl
  | stopped unasked since =>
    obtain ⟨more, rfl⟩ := exec_awaitIdle hexec
    have idle := ensues.idleSince_of_epoch (Nat.lt_of_le_of_lt since more)
    exact .here (.listening (unasked.next rfl) (idle.next step))
  | listening unasked idle =>
    obtain ⟨front, j, rfl, way, seeks⟩ := exec_refreshListen hexec
    rw [List.append_nil]
    exact .append way (.here (.seeking (unasked.next rfl) seeks))
  | seeking unasked seeks =>
    rw [List.append_nil]
    rcases exec_seeks hexec seeks with ⟨mute, goes⟩ | ⟨c, completion, result, rfl, rfl, rfl⟩
    · have unasked := unasked.next mute
      rcases goes with ⟨front, k, rfl, way, seeks⟩ | ⟨completion, why, rfl, unavailable⟩
      · exact .append way (.here (.seeking unasked seeks))
      · exact .on rfl (.here (.ending (r := .error why) ⟨unasked, unavailable⟩))
    · exact .here (.waiting ⟨c, completion, result, List.mem_cons_self⟩)
  | waiting handed =>
    obtain ⟨freed, rfl⟩ := exec_awaitCompletion hexec
    have outcome : Outcome t later s (.ok ()) := ⟨handed, freed⟩
    exact .on rfl (.here (.ending (outcome.next step rfl)))
  | ending outcome =>
    rw [exec_refreshEnd hexec]
    exact .here (.finishing (outcome.next step rfl))
  | finishing =>
    cases a with
    | nothing =>
      cases hexec
      exact .here .finished
    | _ => cases hexec

/-- How a refresh goes on with an instruction. -/
theorem Refreshing.exec {first s s' r : System} {later : List Move} {t : TaskId} {i : Instr}
    {a : Answer} {caller : String} {rest before : List Instr}
    (h : Refreshing first t later s (i :: rest)) (ensues : Ensues first later s)
    (step : Moves s (.did t i a) s') (hexec : s.exec t caller i a = some (r, before)) :
    Refreshing first t (.did t i a :: later) s' (before ++ rest) := by
  cases h with
  | here stage => exact stage.exec ensues step hexec
  | on way onward =>
    refine .append (exec_incidental hexec way) (onward.next step ?_)
    -- What is done on the way asks nobody.
    cases i with
    | tell => cases way
    | _ => rfl

/-! ## The call -/

/-- The machine was idle between the call and the moment in which it begins to listen. -/
def ListensLate (first : System) (t : TaskId) (later : List Move) : Prop :=
  ∀ newer older a, later = newer ++ .did t .refreshListen a :: older →
    ∃ s, IdleSince first older s

theorem ListensLate.next {first : System} {t : TaskId} {later : List Move} {m : Move}
    (h : ListensLate first t later)
    (now : ∀ a, m = .did t .refreshListen a → ∃ s, IdleSince first later s) :
    ListensLate first t (m :: later) := by
  intro newer older a split
  cases newer with
  | nil =>
    obtain ⟨rfl, rfl⟩ := List.cons.inj split
    exact now a rfl
  | cons n newer => exact h newer older a (List.cons.inj split).2

/-- Whoever begins to listen has found the machine idle. -/
theorem Refreshing.listens {first s : System} {t : TaskId} {later : List Move} {rest : List Instr}
    (h : Refreshing first t later s (.refreshListen :: rest)) : IdleSince first later s := by
  cases h with
  | here stage =>
    cases stage with
    | listening _ idle => exact idle
    | seeking _ seeks => cases seeks
  | on way => cases way

/-- What is known of a refresh that has not returned. -/
structure Refresh (first : System) (t : TaskId) (later : List Move) (stack : List Instr)
    (s : System) : Prop where
  stage : Refreshing first t later s stack
  late : ListensLate first t later

/-- **What is known of a refresh holds until it returns**, and someone waits for it. The call began
in `s₀` with the system `first`, and `s` is a moment since then. -/
theorem refresh_of_begin {options : Options} {past later : List Move} {s₀ first s : System}
    {t : TaskId} {cancelled : Bool} (run : Run options past s₀)
    (called : Moves s₀ (.did t (.begin (.refresh cancelled)) .nothing) first)
    (onward : Ensues first later s) :
    ∀ task, (t, task) ∈ s.pool.tasks →
      task.caller.isSome = true ∧ Refresh first t later task.stack s := by
  have after := called.numbered (Sound.of_run run).numbered
  obtain ⟨old, begins⟩ := run.begins called
  have fresh : ∀ task, (t, task) ∈ first.pool.tasks → Refresh first t [] task.stack first := by
    intro task hmem
    rw [(begins task hmem).2]
    refine ⟨.here (.begun (List.forall_mem_nil _)), ?_⟩
    intro newer older a split
    cases newer <;> cases split
  have known := onward.follows (P := fun later s stack => Refresh first t later stack s) after.1
    old fresh
    (fun _ step other known => ⟨known.stage.next step (Move.asks_of_other other),
      known.late.next fun a same => absurd same (other _ a)⟩)
    fun reached step exec known => ⟨known.stage.exec reached step exec, known.late.next
      fun a same => by
        obtain ⟨-, rfl, -⟩ := Move.did.inj same
        exact ⟨_, known.stage.listens⟩⟩
  intro task hmem
  obtain ⟨refresh, task₀, there, same⟩ := known task hmem
  exact ⟨same ▸ (begins task₀ there).1, refresh⟩

/-! ## The wait -/

/-- A call that is not given up waits for the completion of its refresh. -/
def Waits (s : System) (t : TaskId) : Prop :=
  ∃ task completion, s.pool.get? t = some task ∧ task.stack = [.awaitCompletion completion] ∧
    (task.parked && task.aborted) = false

/-- Whoever waits goes on exactly when its refresh is complete, or it was cancelled. -/
theorem Waits.step_eq_none_iff {s : System} {t : TaskId} (h : Waits s t) :
    (∀ a, s.step t a = none) ↔ t ∉ s.completed ∧ t ∉ s.cancelled := by
  obtain ⟨task, completion, found, next, free⟩ := h
  constructor
  · intro stuck
    have now := stuck .nothing
    obtain ⟨caller, stack, parked, aborted⟩ := task
    simp only at next free
    subst next
    simp only [System.step, found, free, Bool.false_eq_true, if_false, System.exec] at now
    by_cases freed : s.completed.contains t || s.cancelled.contains t
    · rw [if_pos freed] at now
      cases now
    · rw [Bool.or_eq_true, List.contains_iff_mem, List.contains_iff_mem, not_or] at freed
      exact freed
  · rintro ⟨open_, on⟩ a
    cases taken : s.step t a with
    | none => rfl
    | some s' =>
      obtain ⟨r, before, exec, -⟩ := step_exec found next taken
      rcases (exec_awaitCompletion exec).1 with completed | cancelled
      · exact absurd completed open_
      · exact absurd cancelled on

/-- Whoever waits takes no step as long as its refresh is not complete and it is not cancelled. -/
theorem Waits.onward {options : Options} {whole after : List Move} {s s' : System} {t : TaskId}
    (h : Waits s t) (run : Run options whole s) (onward : Ensues s after s')
    (open_ : ¬ Completed t (after ++ whole)) (on : t ∉ s'.cancelled) :
    (∀ i a, Move.did t i a ∉ after) ∧ ∀ task, (t, task) ∈ s'.pool.tasks →
      ∃ completion, task.stack = [.awaitCompletion completion] := by
  obtain ⟨task, completion, found, next, -⟩ := h
  have numbered := (Sound.of_run run).numbered
  have there := Pool.mem_of_get? found
  induction onward with
  | here =>
    refine ⟨fun _ _ => List.not_mem_nil, fun other hmem => ⟨completion, ?_⟩⟩
    rw [numbered.unique hmem there, next]
  | @next mid s' after m before step ih =>
    have still : ¬ Completed t (after ++ whole) := fun ⟨e, he, completes⟩ =>
      open_ ⟨e, List.mem_cons_of_mem _ he, completes⟩
    have not_off : t ∉ mid.cancelled := fun off => on (step.marks.cancelled off)
    obtain ⟨rests, waits⟩ := ih still not_off
    obtain ⟨numbered, le⟩ := before.numbered numbered
    -- A step of its own would find the refresh complete, or the call cancelled.
    have other : ∀ i a, m ≠ .did t i a := by
      rintro i a rfl
      cases step with
      | @act _ _ was _ _ _ found next taken =>
        obtain ⟨completion, stack⟩ := waits was (Pool.mem_of_get? found)
        obtain ⟨rfl, -⟩ := List.cons.inj (next.symm.trans stack)
        obtain ⟨r, left, exec, -⟩ := step_exec found next taken
        rcases (exec_awaitCompletion exec).1 with completed | cancelled
        · exact still (((before.run run).completed t).mp completed)
        · exact not_off cancelled
    refine ⟨?_, ?_⟩
    · intro i a now
      rcases List.mem_cons.mp now with same | now
      · exact other i a same.symm
      · exact rests i a now
    · intro task' hmem
      cases step.comes numbered _ hmem with
      | kept hold _ stack =>
        obtain ⟨completion, same⟩ := waits _ hold
        exact ⟨completion, stack.trans same⟩
      | fresh new =>
        have old := Nat.lt_of_lt_of_le ((Sound.of_run run).numbered.below _ there) le
        exact absurd old (Nat.not_lt.mpr new)
      | went move => exact absurd move (other _ _)

/-- What is known of the wait of a refresh, and of its end. The moves since the call are `later`,
and those from the beginning `whole`. -/
structure Patience (t : TaskId) (whole later : List Move) (s : System) : Prop where
  /-- Whoever waits has handed the notification to a connection, which took it or refused it. -/
  handed : Waits s t → HandedOver t later
  /-- It finds nothing to go on with exactly as long as no completion was delivered and it was not
  cancelled, -/
  blocked : Waits s t → ((∀ a, s.step t a = none) ↔ ¬ Completed t whole ∧ t ∉ s.cancelled)
  /-- and so it stays, whatever becomes of the connection. -/
  stays : ∀ after s', Waits s t → Ensues s after s' → ¬ Completed t (after ++ whole) →
    t ∉ s'.cancelled → ∀ i a, Move.did t i a ∉ after
  /-- A call that returns without a failure has handed the notification over, and a completion was
  delivered or it was cancelled. -/
  succeeded : ∀ a s', Moves s (.did t (.finish (.sent (.ok ()))) a) s' →
    HandedOver t later ∧ (Completed t whole ∨ t ∈ s.cancelled)
  /-- One that fails has asked nobody, because no worker came up. -/
  failed : ∀ e a s', Moves s (.did t (.finish (.sent (.error e))) a) s' →
    Unasked t later ∧ ∃ why, e = .refreshFailed why ∧ Unavailable why

/-- What is known of a refresh when it returns. -/
theorem Refreshing.returns {first s s' : System} {t : TaskId} {later : List Move} {a : Answer}
    {result : Except SupervisorError Unit} (step : Moves s (.did t (.finish (.sent result)) a) s')
    (known : ∀ task, (t, task) ∈ s.pool.tasks → Refreshing first t later s task.stack) :
    ∃ r, Outcome t later s r ∧ result = r.mapError .refreshFailed := by
  cases step with
  | @act _ _ task _ rest _ found next taken =>
    have stage := known task (Pool.mem_of_get? found)
    rw [next] at stage
    generalize hstack : Instr.finish (.sent result) :: rest = stack at stage
    cases stage with
    | here stage =>
      cases stage with
      | seeking _ seeks =>
        obtain ⟨rfl, -⟩ := List.cons.inj hstack
        cases seeks
      | @finishing r outcome =>
        obtain ⟨same, -⟩ := List.cons.inj hstack
        exact ⟨r, outcome, Result.sent.inj (Instr.finish.inj same)⟩
      | _ => cases hstack
    | on way =>
      obtain ⟨rfl, -⟩ := List.cons.inj hstack
      cases way

/-- **A refresh waits for a completion and for nothing else.** Whatever others do meanwhile, and
whether or not the connection took the notification and still exists. -/
theorem patience_of_refresh {options : Options} {past later : List Move} {s₀ first s : System}
    {t : TaskId} {cancelled : Bool} (run : Run options past s₀)
    (called : Moves s₀ (.did t (.begin (.refresh cancelled)) .nothing) first)
    (onward : Ensues first later s) :
    Patience t (later ++ .did t (.begin (.refresh cancelled)) .nothing :: past) later s := by
  have upTo := onward.run (run.next called)
  have known := refresh_of_begin run called onward
  refine ⟨?_, ?_, ?_, ?_, ?_⟩
  · rintro ⟨task, completion, found, next, -⟩
    have stage := (known task (Pool.mem_of_get? found)).2.stage
    rw [next] at stage
    cases stage with
    | here stage =>
      cases stage with
      | seeking _ seeks => cases seeks
      | waiting handed => exact handed
    | on way => cases way
  · intro waits
    rw [waits.step_eq_none_iff, upTo.completed]
  · intro after s' waits reached open_ on
    exact (waits.onward upTo reached open_ on).1
  · intro a s' step
    obtain ⟨r, outcome, same⟩ := Refreshing.returns step fun task hmem => (known task hmem).2.stage
    cases r with
    | ok => exact ⟨outcome.1, outcome.2.imp_left (upTo.completed t).mp⟩
    | error => cases same
  · intro e a s' step
    obtain ⟨r, outcome, same⟩ := Refreshing.returns step fun task hmem => (known task hmem).2.stage
    cases r with
    | ok => cases same
    | error why => exact ⟨outcome.1, why, Except.error.inj same, outcome.2⟩

/-- A connection refuses the notification, and its worker ends. -/
theorem patience_of_refused_notification : ∃ s₀ past first later s completion,
    Run .standard past s₀ ∧ Moves s₀ (.did 2 (.begin (.refresh false)) .nothing) first ∧
    Ensues first later s ∧ Waits s 2 ∧ s.machine.state = .idle ∧
    .did 2 (.tell 7 Message.refresh none (.refresh completion)) (.sent (.error .closed)) ∈ later ∧
    Patience 2 (later ++ .did 2 (.begin (.refresh false)) .nothing :: past) later s := by
  have wanted := Run.start.next (.ask (.initial .standard) (.setPath ⟨[47]⟩))
  have acted := wanted.next (.act (t := 0) (a := .nothing) rfl rfl rfl)
  have set := acted.next (.act (t := 0) (a := .nothing) rfl rfl rfl)
  have asked := set.next (.ask _ (.call "f" (.refresh false)))
  have joined := asked.next (.act (t := 1) (a := .nothing) rfl rfl rfl)
  have called := joined.act (t := 2) (a := .nothing) rfl rfl rfl
  have begun := joined.next called
  have opened := begun.here.next (.act (t := 2) (a := .nothing) rfl rfl rfl)
  have first := opened.next (.act (t := 2) (a := .nothing) rfl rfl rfl)
  have second := first.next (.act (t := 2) (a := .nothing) rfl rfl rfl)
  have halted := second.next (.act (t := 2) (a := .nothing) rfl rfl rfl)
  have listening := halted.next (.act (t := 2) (a := .nothing) rfl rfl rfl)
  have started := listening.next (.act (t := 2) (a := .nothing) rfl rfl rfl)
  have performed := started.next (.act (t := 2) (a := .nothing) rfl rfl rfl)
  have launched := performed.next (.act (t := 3) (a := .launched (.ok ⟨7, some 9⟩)) rfl rfl rfl)
  have running := launched.next (.act (t := 3) (a := .nothing) rfl rfl rfl)
  have third := running.next (.act (t := 2) (a := .nothing) rfl rfl rfl)
  have looked := third.next (.act (t := 2) (a := .nothing) rfl rfl rfl)
  have taken := looked.next (.act (t := 2) (a := .nothing) rfl rfl rfl)
  have used := taken.next (.act (t := 2) (a := .nothing) rfl rfl rfl)
  have refused := used.next (.act (t := 2) (a := .sent (.error .closed)) rfl rfl rfl)
  have ended := refused.next (.act (t := 4) (a := .exited (.exited none)) rfl rfl rfl)
  have noticed := ended.next (.act (t := 4) (a := .nothing) rfl rfl rfl)
  have clearing := noticed.next (.act (t := 4) (a := .nothing) rfl rfl rfl)
  have idle := clearing.next (.act (t := 6) (a := .nothing) rfl rfl rfl)
  exact ⟨_, _, _, _, _, .single Message.refresh 0, joined, called, idle, ⟨_, _, rfl, rfl, rfl⟩, rfl,
    List.mem_of_getElem? (i := 4) rfl, patience_of_refresh joined called idle⟩

end Supervision.Worker
