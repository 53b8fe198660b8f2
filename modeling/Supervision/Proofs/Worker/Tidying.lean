import Supervision.Proofs.Worker.Share

/-!
# What a refresh leaves behind

A refresh reports how far it has come, listens for a completion while it waits, and restarts the
worker. It may be cancelled at any moment, others may start and stop the worker meanwhile, and it
may find nobody to ask. The law here says what is the same on every way it can go until it returns
(`Tidied`): its reports are those it made before it was cancelled, and then one end; nobody is
registered who would not be without it; the machine was idle since the call, and was told to start
after that; and it fails only because no worker came up.

What a refresh still has to report, and which subscription it still has to use up, is read off what
it has to do (`Instr.owes`, `Instr.holds?`). Each of its instructions hands on what it does not
settle itself (`exec_carries`), so that nothing is owed when it returns.

That it returns is not established here, and what it returns when it waited is the subject of
`Patience`.
-/

namespace Supervision.Worker

/-! ## What a refresh has to do -/

/-- True of what a refresh may have to do. It starts the worker where it is, reports no end before
its own, and fails only because no worker came up. -/
def Instr.OfRefresh : Instr → Prop
  | .refreshBegin | .ask _ _ _ .ignore | .halt | .perform _ | .awaitIdle _ | .refreshListen
  | .handle (.start none) | .look (.refresh _) _ | .take (.refresh _) .. | .wait (.refresh _) ..
  | .use (.refresh _) (.ok _) | .use (.refresh _) (.error .workerUnavailable)
  | .tell _ _ _ (.refresh _) | .awaitCompletion _ | .drop _ | .refreshEnd (.ok ())
  | .refreshEnd (.error .workerUnavailable) | .finish (.sent (.ok ()))
  | .finish (.sent (.error (.refreshFailed .workerUnavailable))) => True
  | .report p => p ≠ .finish
  | _ => False

/-- What is still to be told because of an instruction of a refresh that has begun. -/
def Instr.owes : Instr → List Progress
  | .report p => [p]
  | .refreshListen => [.report (some "Refreshing workspace") (some 30), .finish]
  | .look .. | .take .. | .wait .. | .use .. | .tell .. | .awaitCompletion _ | .refreshEnd _ =>
    [.finish]
  | _ => []

/-- The subscription that is still to be used up because of an instruction of a refresh. -/
def Instr.holds? : Instr → Option (Subscription String)
  | .look (.refresh c) _ | .take (.refresh c) .. | .wait (.refresh c) .. | .use (.refresh c) _
  | .tell _ _ _ (.refresh c) | .awaitCompletion c | .drop c => some c
  | _ => none

/-- True of instructions after which a refresh has yet to listen. -/
def Instr.early : Instr → Bool
  | .refreshBegin | .refreshListen => true
  | _ => false

/-- True of instructions with which a refresh begins or ceases to listen, or begins. -/
def Instr.turns : Instr → Bool
  | .refreshBegin | .refreshListen | .drop _ => true
  | _ => false

/-- What an instruction of a refresh hands on: what it does not tell is still to be told, and what
it does not use up is still held. -/
structure Carries (i : Instr) (before : List Instr) : Prop where
  own : ∀ j ∈ before, j.OfRefresh
  owed : i.tells?.toList ++ before.flatMap Instr.owes = i.owes
  held : before.filterMap Instr.holds? = i.holds?.toList
  early : before.filter Instr.early = []

section Steps

variable {s r : System} {t : TaskId} {caller : String} {a : Answer} {before : List Instr}

theorem Carries.map {i : Instr} (effects : List Effect) {after : List Instr}
    (h : Carries i after) : Carries i (effects.map .perform ++ after) := by
  induction effects with
  | nil => exact h
  | cons f effects ih =>
    exact ⟨List.forall_mem_cons.mpr ⟨trivial, ih.own⟩, ih.owed, ih.held, ih.early⟩

theorem carries_look (s : System) (c : Subscription String) (awaited : Bool) :
    Carries (.look (.refresh c) awaited) (s.look (.refresh c) awaited) := by
  unfold System.look
  split
  · exact ⟨by simp [Instr.OfRefresh], rfl, rfl, rfl⟩
  · split
    · exact ⟨by simp [Instr.OfRefresh], rfl, rfl, rfl⟩
    · exact ⟨by simp [Instr.OfRefresh], rfl, rfl, rfl⟩
  · exact ⟨by simp [Instr.OfRefresh], rfl, rfl, rfl⟩
  · exact ⟨by simp [Instr.OfRefresh], rfl, rfl, rfl⟩

/-- Whoever takes the connection of a machine that runs finds one. -/
theorem carries_take (s : System) (c : Subscription String) (awaited : Bool) (seen : Nat)
    (connected : s.machine.state = .running → s.machine.connection.isSome = true) :
    Carries (.take (.refresh c) awaited seen) (s.take (.refresh c) awaited seen) := by
  unfold System.take
  split
  next running =>
    split
    · exact ⟨by simp [Instr.OfRefresh], rfl, rfl, rfl⟩
    next none =>
      have some := connected running
      rw [none] at some
      cases some
  · exact ⟨by simp [Instr.OfRefresh], rfl, rfl, rfl⟩

/-- **An instruction of a refresh hands on what it does not settle.** -/
theorem exec_carries {i : Instr} (h : s.exec t caller i a = some (r, before)) (own : i.OfRefresh)
    (stays : i.turns = false)
    (connected : s.machine.state = .running → s.machine.connection.isSome = true) :
    Carries i before := by
  cases i with
  | handle e =>
    cases e with
    | start path =>
      cases path with
      | none =>
        cases a with
        | nothing =>
          have nothing : Carries (.handle (.start none)) [] :=
            ⟨List.forall_mem_nil _, rfl, rfl, rfl⟩
          have issued := nothing.map (s.machine.transition (.start none)).effects
          rw [List.append_nil] at issued
          simp only [System.exec] at h
          split at h
          · cases h
            exact issued
          · cases h
            exact nothing
        | _ => cases h
      | some => cases own
    | _ => cases own
  | perform =>
    rw [exec_perform h]
    exact ⟨List.forall_mem_nil _, rfl, rfl, rfl⟩
  | look need awaited =>
    cases need with
    | refresh c =>
      cases a with
      | nothing =>
        cases h
        exact carries_look s c awaited
      | _ => cases h
    | _ => cases own
  | take need awaited seen =>
    cases need with
    | refresh c =>
      cases a with
      | nothing =>
        cases h
        exact carries_take s c awaited seen connected
      | _ => cases h
    | _ => cases own
  | wait need awaited seen =>
    cases need with
    | refresh c =>
      cases a with
      | nothing =>
        simp only [System.exec] at h
        split at h
        · cases h
          exact ⟨by simp [Instr.OfRefresh], rfl, rfl, rfl⟩
        · cases h
      | _ => cases h
    | _ => cases own
  | use need connection =>
    cases need with
    | refresh c =>
      cases a with
      | nothing =>
        cases connection with
        | ok =>
          cases h
          exact ⟨by simp [Instr.OfRefresh], rfl, rfl, rfl⟩
        | error why =>
          cases why with
          | workerUnavailable =>
            cases h
            exact ⟨by simp [Instr.OfRefresh], rfl, rfl, rfl⟩
          | _ => cases own
      | _ => cases h
    | _ => cases own
  | halt =>
    rcases exec_halt h with ⟨-, rfl⟩ | ⟨effects, rfl⟩
    · exact ⟨List.forall_mem_nil _, rfl, rfl, rfl⟩
    · exact .map effects ⟨by simp [Instr.OfRefresh], rfl, rfl, rfl⟩
  | awaitIdle =>
    rw [(exec_awaitIdle h).2]
    exact ⟨List.forall_mem_nil _, rfl, rfl, rfl⟩
  | ask _ _ _ use =>
    cases use with
    | ignore =>
      cases a with
      | replied =>
        cases h
        exact ⟨List.forall_mem_nil _, rfl, rfl, rfl⟩
      | _ => cases h
    | answer => cases own
  | tell _ _ _ receipt =>
    cases receipt with
    | refresh =>
      cases a with
      | sent result => cases result <;> cases h <;> exact ⟨by simp [Instr.OfRefresh], rfl, rfl, rfl⟩
      | _ => cases h
    | _ => cases own
  | report =>
    cases a with
    | nothing =>
      cases h
      exact ⟨List.forall_mem_nil _, rfl, rfl, rfl⟩
    | _ => cases h
  | awaitCompletion =>
    rw [(exec_awaitCompletion h).2]
    exact ⟨by simp [Instr.OfRefresh], rfl, rfl, rfl⟩
  | refreshEnd result =>
    rw [exec_refreshEnd h]
    refine ⟨fun j hj => ?_, rfl, rfl, rfl⟩
    rw [List.mem_singleton.mp hj]
    cases result with
    | ok => trivial
    | error why =>
      cases why with
      | workerUnavailable => trivial
      | _ => cases own
  | finish =>
    cases a with
    | nothing =>
      cases h
      exact ⟨List.forall_mem_nil _, rfl, rfl, rfl⟩
    | _ => cases h
  | refreshBegin | refreshListen | drop => cases stays
  | _ => cases own

/-- The message with which a refresh begins: it says that a worker that runs is asked to stop. -/
def Opening (message : Option String) : Prop :=
  message = none ∨ message = some "Stopping daemon"

/-- What a refresh tells its caller from its beginning to its end. -/
def plan (message : Option String) : List Progress :=
  [.report message (some 10), .report (some "Restarting worker") (some 30),
    .report (some "Refreshing workspace") (some 30), .finish]

/-- A refresh that begins has all it tells before it. -/
theorem exec_refreshBegin_owes (h : s.exec t caller .refreshBegin a = some (r, before)) :
    (∀ j ∈ before, j.OfRefresh) ∧ (∃ message, Opening message ∧
      before.flatMap Instr.owes = plan message) ∧ before.filterMap Instr.holds? = [] ∧
      before.filter Instr.early = [.refreshListen] := by
  cases a with
  | nothing =>
    cases h
    unfold System.refreshBegin
    split
    · exact ⟨by simp [Instr.OfRefresh], ⟨_, .inr rfl, rfl⟩, rfl, rfl⟩
    · exact ⟨by simp [Instr.OfRefresh], ⟨_, .inl rfl, rfl⟩, rfl, rfl⟩
  | _ => cases h

/-- A refresh begins to listen, and starts the worker at once. -/
theorem exec_refreshListen_eq (h : s.exec t caller .refreshListen a = some (r, before)) :
    before = [.handle (.start none), .report (.report (some "Refreshing workspace") (some 30)),
      .look (.refresh (.single Message.refresh s.listeners.next)) false] := by
  cases a with
  | nothing =>
    cases h
    rfl
  | _ => cases h

theorem exec_drop {c : Subscription String}
    (h : s.exec t caller (.drop c) a = some (r, before)) : before = [] := by
  cases a with
  | nothing =>
    cases h
    rfl
  | _ => cases h

/-- **What an instruction of a refresh tells is reported to the caller**, unless the call was
cancelled and it is no end. -/
theorem exec_reports {i : Instr} (h : s.exec t caller i a = some (r, before))
    (own : i.OfRefresh) : r.reports =
      ((i.tells?.filter fun p => p.passes (s.cancelled.contains t)).toList.map fun p => (caller, p))
        ++ s.reports := by
  cases i with
  | handle =>
    cases a with
    | nothing =>
      simp only [System.exec] at h
      split at h
      · cases h
        exact s.reports_apply _
      · cases h
        rfl
    | _ => cases h
  | halt =>
    cases a with
    | nothing =>
      simp only [System.exec] at h
      split at h
      · cases h
        rfl
      · cases h
        exact s.reports_apply .stop
    | _ => cases h
  | wait =>
    cases a with
    | nothing =>
      simp only [System.exec] at h
      split at h <;> cases h
      rfl
    | _ => cases h
  | awaitIdle | awaitCompletion =>
    cases a with
    | nothing =>
      simp only [System.exec] at h
      split at h <;> cases h
      rfl
    | _ => cases h
  | use need connection =>
    cases need with
    | refresh =>
      cases a with
      | nothing => cases connection <;> cases h <;> rfl
      | _ => cases h
    | _ => cases own
  | ask _ _ _ use =>
    cases use with
    | ignore =>
      cases a with
      | replied =>
        cases h
        rfl
      | _ => cases h
    | answer => cases own
  | tell _ _ _ receipt =>
    cases receipt with
    | refresh =>
      cases a with
      | sent result => cases result <;> cases h <;> rfl
      | _ => cases h
    | _ => cases own
  | report p =>
    cases a with
    | nothing =>
      cases h
      cases passes : p.passes (s.cancelled.contains t) with
      | false =>
        simp only [Instr.tells?, Option.filter, passes, Bool.false_eq_true, if_false]
        rfl
      | true =>
        simp only [Instr.tells?, Option.filter, passes, if_true]
        rfl
    | _ => cases h
  | refreshEnd result =>
    cases a with
    | nothing => cases result <;> cases h <;> rfl
    | _ => cases h
  | refreshBegin | refreshListen | perform | look | take | drop | finish =>
    cases a with
    | nothing =>
      cases h
      rfl
    | _ => cases h
  | _ => cases own

end Steps

/-- What a refresh does without turning to listeners leaves those who are registered. -/
theorem Instr.OfRefresh.enlists {i : Instr} (own : i.OfRefresh) (stays : i.turns = false)
    (s : System) (t : TaskId) (a : Answer) :
    s.registers (.did t i a) = [] ∧ (Move.did t i a).disposes = .spent := by
  cases i with
  | act | trackRest | revoke => cases own
  | refreshListen | drop => cases stays
  | _ => exact ⟨rfl, rfl⟩

/-! ## How a refresh stands -/

/-- The worker was told to start where it was, and was idle between the call and that. -/
def Restarted (first : System) (t : TaskId) (later : List Move) : Prop :=
  ∃ newer older a mid, later = newer ++ .did t (.handle (.start none)) a :: older ∧
    IdleSince first older mid

theorem Restarted.next {first : System} {t : TaskId} {later : List Move}
    (h : Restarted first t later) (m : Move) : Restarted first t (m :: later) := by
  obtain ⟨newer, older, a, mid, rfl, idle⟩ := h
  exact ⟨m :: newer, older, a, mid, rfl, idle⟩

/-- A refresh is about to start the worker, or has. -/
def Restarting (first : System) (t : TaskId) (later : List Move) (s : System)
    (stack : List Instr) : Prop :=
  (∃ rest, stack = .handle (.start none) :: rest ∧ IdleSince first later s) ∨
    Restarted first t later

theorem Restarting.next {first s s' : System} {t : TaskId} {later : List Move} {m : Move}
    {stack : List Instr} (h : Restarting first t later s stack) (step : Moves s m s') :
    Restarting first t (m :: later) s' stack := by
  rcases h with ⟨rest, rfl, idle⟩ | restarted
  · exact .inl ⟨rest, rfl, idle.next step⟩
  · exact .inr (restarted.next m)

/-- Whoever is about to start the worker does, whatever comes next. -/
theorem Restarting.exec {first s : System} {t : TaskId} {later : List Move} {i : Instr}
    {rest : List Instr} (h : Restarting first t later s (i :: rest)) (a : Answer) :
    Restarted first t (.did t i a :: later) := by
  rcases h with ⟨rest, same, idle⟩ | restarted
  · obtain ⟨rfl, -⟩ := List.cons.inj same
    exact ⟨[], later, a, s, rfl, idle⟩
  · exact restarted.next _

/-- Whom a refresh has registered after a history, and what it still has to do about it. -/
inductive Listening (options : Options) (first : System) (t : TaskId) (base later : List Move)
    (s : System) (stack : List Instr) : Prop
  /-- It has not begun to listen. -/
  | before (early : (stack.filter Instr.early).length = 1)
      (held : stack.filterMap Instr.holds? = [])
      (same : registrations options (later ++ base) = bystanders options t (later ++ base))
  /-- It listens under a number, and still has to use up its subscription. -/
  | during {number : Nat} (early : stack.filter Instr.early = [])
      (held : stack.filterMap Instr.holds? = [.single Message.refresh number])
      (old : number < enrolments options (later ++ base))
      (under : ∀ g ∈ registrations options (later ++ base),
        g.number = number → g.method = Message.refresh)
      (others : bystanders options t (later ++ base) =
        (registrations options (later ++ base)).filter fun g => g.number ≠ number)
      (starts : Restarting first t later s stack)
  /-- It does not listen any longer. -/
  | after (early : stack.filter Instr.early = []) (held : stack.filterMap Instr.holds? = [])
      (same : registrations options (later ++ base) = bystanders options t (later ++ base))
      (started : Restarted first t later)

namespace Listening

variable {options : Options} {first s s' r : System} {t : TaskId} {base later : List Move}
variable {stack rest before : List Instr} {m : Move} {i : Instr} {a : Answer} {caller : String}

theorem other (h : Listening options first t base later s stack) (step : Moves s m s')
    (other : ∀ i a, m ≠ .did t i a) : Listening options first t base (m :: later) s' stack := by
  have alone : bystanders options t (m :: later ++ base) =
      enlist options m (later ++ base) (bystanders options t (later ++ base)) :=
    bystanders_other other options _
  cases h with
  | before early held same =>
    exact .before early held ((registrations_cons options m _).trans (same ▸ alone.symm))
  | @during number early held old under others starts =>
    refine .during early held (Nat.lt_add_right _ old) ?_ ?_ (starts.next step)
    · intro g hg same
      rcases List.mem_append.mp hg with hg | hg
      · exact under g (List.mem_filter.mp hg).1 same
      · obtain ⟨entry, hentry, rfl⟩ := List.mem_map.mp hg
        have le : enrolments options (later ++ base) ≤ entry.2 := List.le_snd_of_mem_zipIdx hentry
        exact absurd same (Nat.ne_of_gt (Nat.lt_of_lt_of_le old le))
    · rw [alone, others, enlist_filter old]
      rfl
  | after early held same started =>
    exact .after early held ((registrations_cons options m _).trans (same ▸ alone.symm))
      (started.next m)

/-- An instruction that does not turn to listeners leaves them as they are. -/
theorem carry (h : Listening options first t base later s (i :: rest)) (own : i.OfRefresh)
    (stays : i.turns = false) (carries : Carries i before) :
    Listening options first t base (.did t i a :: later) s' (before ++ rest) := by
  have late : i.early = false := by
    cases i with
    | refreshBegin | refreshListen => cases stays
    | _ => rfl
  have early : (before ++ rest).filter Instr.early = (i :: rest).filter Instr.early := by
    rw [List.filter_append, carries.early, List.filter_cons_of_neg (by simp [late])]
    rfl
  have held : (before ++ rest).filterMap Instr.holds? = (i :: rest).filterMap Instr.holds? := by
    rw [List.filterMap_append, carries.held, filterMap_cons_toList]
  obtain ⟨registers, disposes⟩ := own.enlists stays (replay options (later ++ base)) t a
  have same : registrations options (.did t i a :: later ++ base) =
      registrations options (later ++ base) := enlist_idle registers disposes _
  have alone : bystanders options t (.did t i a :: later ++ base) =
      bystanders options t (later ++ base) := bystanders_did options t i a _
  cases h with
  | before early' held' same' =>
    exact .before (early ▸ early') (held ▸ held') (by rw [same, alone, same'])
  | during early' held' old under others starts =>
    refine .during (early ▸ early') (held ▸ held') (Nat.lt_add_right _ old) ?_ ?_
      (.inr (starts.exec a))
    · rw [same]
      exact under
    · rw [same, alone, others]
  | after early' held' same' started =>
    exact .after (early ▸ early') (held ▸ held') (by rw [same, alone, same']) (started.next _)

theorem begins (h : Listening options first t base later s (.refreshBegin :: rest))
    (held : before.filterMap Instr.holds? = [])
    (early : before.filter Instr.early = [.refreshListen]) :
    Listening options first t base (.did t .refreshBegin a :: later) s' (before ++ rest) := by
  have same : registrations options (.did t .refreshBegin a :: later ++ base) =
      registrations options (later ++ base) := enlist_idle rfl rfl _
  have alone : bystanders options t (.did t .refreshBegin a :: later ++ base) =
      bystanders options t (later ++ base) := bystanders_did options t _ a _
  cases h with
  | before early' held' same' =>
    have nothing : rest.filter Instr.early = [] :=
      List.eq_nil_of_length_eq_zero (Nat.succ.inj early')
    refine .before ?_ ?_ (by rw [same, alone, same'])
    · rw [List.filter_append, early, nothing]
      rfl
    · rw [List.filterMap_append, held]
      exact held'
  | during early' => cases early'
  | after early' => cases early'

/-- A refresh listens under the number that is the next, and holds the subscription. -/
theorem listens (h : Listening options first t base later s (.refreshListen :: rest))
    (run : Run options (later ++ base) s) (step : Moves s (.did t .refreshListen a) s')
    (exec : s.exec t caller .refreshListen a = some (r, before)) (idle : IdleSince first later s) :
    Listening options first t base (.did t .refreshListen a :: later) s' (before ++ rest) := by
  have next : registrations options (.did t .refreshListen a :: later ++ base) =
      registrations options (later ++ base) ++
        [⟨enrolments options (later ++ base), Message.refresh, .completion t⟩] := by
    rw [List.cons_append, registrations_cons, enlist]
    simp [Move.disposes, System.registers, Subscription.rights]
  have alone : bystanders options t (.did t .refreshListen a :: later ++ base) =
      bystanders options t (later ++ base) := bystanders_did options t _ a _
  have older := number_lt options (later ++ base)
  cases h with
  | before early' held' same' =>
    have nothing : rest.filter Instr.early = [] :=
      List.eq_nil_of_length_eq_zero (Nat.succ.inj early')
    rw [exec_refreshListen_eq exec, run.enrolled.count]
    have held := congrArg (.single Message.refresh (enrolments options (later ++ base)) :: ·) held'
    refine .during nothing held (Nat.lt_succ_self _) ?_ ?_ (.inl ⟨_, rfl, idle.next step⟩)
    · intro g hg same
      rw [next] at hg
      rcases List.mem_append.mp hg with hg | hg
      · exact absurd same (Nat.ne_of_lt (older g hg))
      · rw [List.mem_singleton.mp hg]
    · rw [alone, next, List.filter_append, ← same', List.filter_eq_self.mpr fun g hg =>
        decide_eq_true (Nat.ne_of_lt (older g hg))]
      simp
  | during early' => cases early'
  | after early' => cases early'

/-- A refresh ceases to listen when it uses up its subscription. -/
theorem drops {c : Subscription String}
    (h : Listening options first t base later s (.drop c :: rest))
    (run : Run options (later ++ base) s) :
    Listening options first t base (.did t (.drop c) a :: later) s' rest := by
  have left : registrations options (.did t (.drop c) a :: later ++ base) =
      (registrations options (later ++ base)).filter fun g => (g.method, g.number) ∉ c.rights := by
    rw [List.cons_append, registrations_cons, enlist, run.replay]
    exact List.append_nil _
  have alone : bystanders options t (.did t (.drop c) a :: later ++ base) =
      bystanders options t (later ++ base) := bystanders_did options t _ a _
  cases h with
  | before _ held => cases held
  | @during number early held _ under others starts =>
    obtain ⟨rfl, nothing⟩ := List.cons.inj held
    refine .after early nothing ?_ (starts.exec a)
    rw [left, alone, others]
    refine List.filter_congr fun g hg => ?_
    by_cases same : g.number = number
    · simp [Subscription.rights, same, under g hg same]
    · simp [Subscription.rights, same]
  | after _ held => cases held

/-- How a refresh turns to listeners with an instruction. -/
theorem exec (h : Listening options first t base later s (i :: rest))
    (run : Run options (later ++ base) s) (alive : s.alive = true)
    (idle : i = .refreshListen → IdleSince first later s) (own : i.OfRefresh)
    (step : Moves s (.did t i a) s') (hexec : s.exec t caller i a = some (r, before)) :
    Listening options first t base (.did t i a :: later) s' (before ++ rest) := by
  cases stays : i.turns with
  | false => exact h.carry own stays (exec_carries hexec own stays (run.connected alive))
  | true =>
    cases i with
    | refreshBegin =>
      obtain ⟨-, -, held, early⟩ := exec_refreshBegin_owes hexec
      exact h.begins held early
    | refreshListen => exact h.listens run step hexec (idle rfl)
    | drop =>
      rw [exec_drop hexec]
      exact h.drops run
    | _ => cases stays

end Listening

/-! ## What a refresh told -/

/-- What a refresh told its caller since its call, and what it still owes. -/
structure Telling (options : Options) (name : String) (first : System) (t : TaskId)
    (base later : List Move) (stack : List Instr) : Prop where
  own : ∀ i ∈ stack, i.OfRefresh
  owed : stack = [.refreshBegin] ∧ uttered t later = [] ∨ .refreshBegin ∉ stack ∧
    ∃ message, Opening message ∧
      (uttered t later).reverse ++ stack.flatMap Instr.owes = plan message
  made : reportsBy options t (later ++ base) = (heeded first t later).map fun p => (name, p)

namespace Telling

variable {options : Options} {name : String} {first s s' r : System} {t : TaskId}
variable {base later : List Move} {stack rest before : List Instr} {m : Move} {i : Instr}
variable {a : Answer} {caller : String}

theorem other (h : Telling options name first t base later stack)
    (other : ∀ i a, m ≠ .did t i a) : Telling options name first t base (m :: later) stack := by
  refine ⟨h.own, ?_, ?_⟩
  · rw [uttered_other other]
    exact h.owed
  · rw [heeded_other other, List.cons_append, reportsBy, deed?_of_other other]
    exact h.made

/-- What a refresh tells with a move is reported to its caller. -/
theorem gained (own : i.OfRefresh) (called : ∀ task, s.pool.get? t = some task →
      task.caller = some name) (step : Moves s (.did t i a) s') :
    s.gained s' = (i.tells?.filter fun p => p.passes (s.cancelled.contains t)).toList.map
      fun p => (name, p) := by
  refine System.gained_of_append ?_
  cases step with
  | act found next taken =>
    obtain ⟨r, before, exec, -, result⟩ := step_exec found next taken
    have reports := exec_reports exec own
    rw [called _ found] at reports
    rcases result with rfl | rfl
    · exact reports
    · exact (System.reports_release _).trans reports

/-- A refresh tells what it told and what it owed. -/
theorem exec (h : Telling options name first t base later (i :: rest))
    (run : Run options (later ++ base) s) (off : s.cancelled.contains t = calledOff first t later)
    (called : ∀ task, s.pool.get? t = some task → task.caller = some name)
    (alive : s.alive = true) (step : Moves s (.did t i a) s')
    (hexec : s.exec t caller i a = some (r, before)) :
    Telling options name first t base (.did t i a :: later) (before ++ rest) := by
  have own := h.own i List.mem_cons_self
  have others : ∀ j ∈ rest, j.OfRefresh := fun j hj => h.own j (List.mem_cons_of_mem _ hj)
  have made : reportsBy options t (.did t i a :: later ++ base) =
      (heeded first t (.did t i a :: later)).map fun p => (name, p) := by
    have after : s.after (.did t i a) = s' := run.replay ▸ (run.next step).replay
    rw [heeded_did, List.map_append, ← h.made, ← off, ← gained own called step, List.cons_append,
      reportsBy, run.replay, after, Move.deed?, if_pos rfl]
    rfl
  have owned (left : ∀ j ∈ before, j.OfRefresh) : ∀ j ∈ before ++ rest, j.OfRefresh :=
    fun j hj => (List.mem_append.mp hj).elim (left j) (others j)
  -- What is owed after a step of a refresh that has begun.
  have onward (begun : i ≠ .refreshBegin) (late : ∀ j ∈ before, j ≠ .refreshBegin)
      (owes : i.tells?.toList ++ before.flatMap Instr.owes = i.owes) :
      .refreshBegin ∉ before ++ rest ∧ ∃ message, Opening message ∧
        (uttered t (.did t i a :: later)).reverse ++ (before ++ rest).flatMap Instr.owes =
          plan message := by
    rcases h.owed with ⟨same, -⟩ | ⟨late', message, opening, owed⟩
    · exact absurd (List.cons.inj same).1 begun
    · refine ⟨fun inside => ?_, message, opening, ?_⟩
      · rcases List.mem_append.mp inside with inside | inside
        · exact late _ inside rfl
        · exact late' (List.mem_cons_of_mem _ inside)
      · have turned : i.tells?.toList.reverse = i.tells?.toList := by cases i.tells? <;> rfl
        rw [← owed, uttered_did, List.reverse_append, turned, List.flatMap_append,
          List.flatMap_cons, ← owes]
        simp only [List.append_assoc]
  cases stays : i.turns with
  | false =>
    have carries := exec_carries hexec own stays (run.connected alive)
    have late : ∀ j ∈ before, j ≠ .refreshBegin := by
      rintro j hj rfl
      exact List.filter_eq_nil_iff.mp carries.early _ hj rfl
    refine ⟨owned carries.own, .inr (onward ?_ late carries.owed), made⟩
    rintro rfl
    cases stays
  | true =>
    cases i with
    | refreshBegin =>
      obtain ⟨left, ⟨message, opening, owes⟩, -, early⟩ := exec_refreshBegin_owes hexec
      refine ⟨owned left, .inr ?_, made⟩
      rcases h.owed with ⟨alone, nothing⟩ | ⟨late, -⟩
      · obtain ⟨-, rfl⟩ := List.cons.inj alone
        rw [List.append_nil]
        refine ⟨fun inside => ?_, message, opening, ?_⟩
        · have listens : .refreshBegin ∈ before.filter Instr.early :=
            List.mem_filter.mpr ⟨inside, rfl⟩
          rw [early] at listens
          cases List.mem_singleton.mp listens
        · rw [uttered_did, nothing]
          exact owes
      · exact absurd List.mem_cons_self late
    | refreshListen =>
      obtain rfl := exec_refreshListen_eq hexec
      refine ⟨owned (by simp [Instr.OfRefresh]), .inr (onward (by simp) (by simp) rfl), made⟩
    | drop =>
      obtain rfl := exec_drop hexec
      exact ⟨owned (by simp), .inr (onward (by simp) (by simp) rfl), made⟩
    | _ => cases stays

end Telling

/-! ## The call -/

/-- Whoever waits for a task has waited for it before. -/
theorem Ensues.caller {first s : System} {later : List Move} {t : TaskId}
    (h : Ensues first later s) (numbered : first.pool.Numbered) (old : t < first.pool.next) :
    ∀ task, (t, task) ∈ s.pool.tasks →
      ∃ task₀, (t, task₀) ∈ first.pool.tasks ∧ task.caller = task₀.caller :=
  fun task hmem => (h.follows (P := fun _ _ _ => True) numbered old (fun _ _ => trivial)
    (fun _ _ _ _ => trivial) (fun _ _ _ _ => trivial) task hmem).2

/-- A refresh that begins has told nothing, and registered nobody. -/
theorem tidy_of_call {options : Options} {past : List Move} {s₀ first : System} {t : TaskId}
    {cancelled : Bool} (name : String) (run : Run options past s₀)
    (called : Moves s₀ (.did t (.begin (.refresh cancelled)) .nothing) first) :
    Telling options name first t (.did t (.begin (.refresh cancelled)) .nothing :: past) []
        [.refreshBegin] ∧
      Listening options first t (.did t (.begin (.refresh cancelled)) .nothing :: past) [] first
        [.refreshBegin] := by
  have new : ∀ i a, Move.did t i a ∉ past := by
    cases called with
    | act found next =>
      exact run.fresh.2 _ (Pool.mem_of_get? found) _ (next ▸ List.mem_cons_self)
  have after : s₀.after (.did t (.begin (.refresh cancelled)) .nothing) = first :=
    run.replay ▸ (run.next called).replay
  have silent : s₀.gained first = [] := by
    refine System.gained_of_append ?_
    cases called with
    | act found next taken =>
      obtain ⟨r, before, exec, -, result⟩ := step_exec found next taken
      cases exec
      rcases result with rfl | rfl
      · rfl
      · exact System.reports_release _
  refine ⟨⟨?_, .inl ⟨rfl, rfl⟩, ?_⟩, .before rfl rfl ?_⟩
  · intro i hi
    rw [List.mem_singleton.mp hi]
    trivial
  · rw [List.nil_append, reportsBy, run.replay, after, silent, reportsBy_of_new new, ite_self]
    rfl
  · exact (enlist_idle rfl rfl _).trans
      ((bystanders_of_new new).symm.trans (bystanders_did options t _ _ past).symm)

/-- **What is known of a refresh that has not returned**: what it told, and whom it has
registered. -/
theorem tidy_of_begin {options : Options} {past later : List Move} {s₀ first s : System}
    {t : TaskId} {cancelled : Bool} (run : Run options past s₀)
    (called : Moves s₀ (.did t (.begin (.refresh cancelled)) .nothing) first)
    (onward : Ensues first later s) {task : Task Instr} (found : s.pool.get? t = some task) :
    ∃ name, task.caller = some name ∧
      Telling options name first t (.did t (.begin (.refresh cancelled)) .nothing :: past) later
        task.stack ∧
      Listening options first t (.did t (.begin (.refresh cancelled)) .nothing :: past) later s
        task.stack := by
  have begun := run.next called
  have numbered := (Sound.of_run begun).numbered
  obtain ⟨old, begins⟩ := run.begins called
  obtain ⟨task₀, there, same⟩ := onward.caller numbered old task (Pool.mem_of_get? found)
  obtain ⟨name, waits⟩ := Option.isSome_iff_exists.mp (begins task₀ there).1
  have names {later s} (reached : Ensues first later s) :
      ∀ task, s.pool.get? t = some task → task.caller = some name := by
    intro task found
    obtain ⟨task₁, there₁, same₁⟩ := reached.caller numbered old task (Pool.mem_of_get? found)
    rw [same₁, numbered.unique there₁ there, waits]
  refine ⟨name, same.trans waits, ?_⟩
  refine (onward.follows (P := fun later s stack =>
    Telling options name first t (.did t (.begin (.refresh cancelled)) .nothing :: past) later
        stack ∧
      Listening options first t (.did t (.begin (.refresh cancelled)) .nothing :: past) later s
        stack) numbered old ?_ ?_ ?_ task (Pool.mem_of_get? found)).1
  · intro task hmem
    rw [(begins task hmem).2]
    exact tidy_of_call name run called
  · intro later s m s' stack _ step other known
    exact ⟨known.1.other other, known.2.other step other⟩
  · intro later s i a s' caller r rest before reached step exec known
    have upTo := reached.run begun
    have off := reached.cancelled numbered old
    obtain ⟨alive, listens⟩ : s.alive = true ∧ (i = .refreshListen → IdleSince first later s) := by
      cases step with
      | @act _ _ task _ _ _ found next taken =>
        have there : s.pool.hasCaller = true :=
          Pool.hasCaller_iff.mpr ⟨_, Pool.mem_of_get? found, by rw [names reached task found]; rfl⟩
        refine ⟨by simp only [System.alive, there, Bool.or_true], ?_⟩
        rintro rfl
        have stage := (refresh_of_begin run called reached task (Pool.mem_of_get? found)).2.stage
        rw [next] at stage
        exact stage.listens
    exact ⟨known.1.exec upTo off (names reached) alive step exec,
      known.2.exec upTo alive listens (known.1.own i List.mem_cons_self) step exec⟩

/-- What a refresh leaves behind when it returns. The moves since the call are `later`, those from
the beginning to the return `whole`, and `name` waits for it. -/
structure Tidied (options : Options) (name : String) (first : System) (t : TaskId)
    (whole later : List Move) (s : System) (result : Except SupervisorError Unit) : Prop where
  /-- It issued three reports, -/
  issued : ∃ message, Opening message ∧ (announced t later).reverse =
    [.report message (some 10), .report (some "Restarting worker") (some 30),
      .report (some "Refreshing workspace") (some 30)]
  /-- and reported those it issued before it was cancelled, and then one end. -/
  reported : (reportsBy options t whole).reverse =
    (announced t (uncancelled first t later)).reverse.map (fun p => (name, p)) ++
      [(name, .finish)]
  /-- Those are registered whom others registered and did not dispose of, -/
  enrolled : registrations options whole = bystanders options t whole
  /-- none of them for its completion, -/
  disposed : ∀ g ∈ registrations options whole, g.callback.completes? ≠ some t
  /-- and the supervisor counts no others. -/
  counted : ∀ method, s.listeners.count method =
    ((bystanders options t whole).filter fun g => g.method = method).length
  /-- The worker was told to start, and was idle between the call and that. -/
  restarted : Restarted first t later
  /-- It fails only because no worker came up. -/
  failed : result = .ok () ∨ result = .error (.refreshFailed .workerUnavailable)
  /-- It succeeds when its wait came to an end, by a completion or because it was cancelled. -/
  freed : (∃ completion a, Move.did t (.awaitCompletion completion) a ∈ later) → result = .ok ()

/-- A refresh that returns has nothing left to do. -/
theorem Refreshing.last {first s : System} {t : TaskId} {later : List Move} {rest : List Instr}
    {result : Result} (h : Refreshing first t later s (.finish result :: rest)) : rest = [] := by
  generalize hstack : Instr.finish result :: rest = stack at h
  cases h with
  | here stage =>
    cases stage with
    | seeking _ seeks =>
      obtain ⟨rfl, -⟩ := List.cons.inj hstack
      cases seeks
    | finishing => exact (List.cons.inj hstack).2
    | _ => cases hstack
  | on way =>
    obtain ⟨rfl, -⟩ := List.cons.inj hstack
    cases way

/-- Whoever waits for a completion has handed its notification over. -/
theorem Refreshing.waits {first s : System} {t : TaskId} {later : List Move} {rest : List Instr}
    {completion : Subscription String}
    (h : Refreshing first t later s (.awaitCompletion completion :: rest)) :
    HandedOver t later := by
  cases h with
  | here stage =>
    cases stage with
    | seeking _ seeks => cases seeks
    | waiting handed => exact handed
  | on way => cases way

/-- A refresh whose wait came to an end has asked somebody. -/
theorem asked_of_wait {options : Options} {past later : List Move} {s₀ first s : System}
    {t : TaskId} {cancelled : Bool} (run : Run options past s₀)
    (called : Moves s₀ (.did t (.begin (.refresh cancelled)) .nothing) first)
    (onward : Ensues first later s) {completion : Subscription String} {a : Answer}
    (waited : Move.did t (.awaitCompletion completion) a ∈ later) : ¬ Unasked t later := by
  obtain ⟨newer, older, rfl⟩ := List.append_of_mem waited
  obtain ⟨mid, before, -⟩ := onward.split
  cases before with
  | next before step =>
    cases step with
    | @act _ _ task _ _ _ found next =>
      have stage := (refresh_of_begin run called before task (Pool.mem_of_get? found)).2.stage
      rw [next] at stage
      obtain ⟨c, _, r, told⟩ := stage.waits
      intro unasked
      have mute := unasked _ (List.mem_append_right _ (List.mem_cons_of_mem _ told))
      simp [Move.asks] at mute

/-- **A refresh leaves nothing behind**, on whatever way it comes to return: it may be cancelled
before, meanwhile or not at all, others may start and stop the worker, and it may find nobody to
ask. The call began in `s₀` with the system `first`, and it returns in `s`. -/
theorem tidied_of_refresh {options : Options} {past later : List Move} {s₀ first s s' : System}
    {t : TaskId} {cancelled : Bool} {result : Except SupervisorError Unit} {a : Answer}
    (run : Run options past s₀)
    (called : Moves s₀ (.did t (.begin (.refresh cancelled)) .nothing) first)
    (onward : Ensues first later s) (returned : Moves s (.did t (.finish (.sent result)) a) s') :
    ∃ name, (∃ task, s.pool.get? t = some task ∧ task.caller = some name) ∧
      Tidied options name first t (.did t (.finish (.sent result)) a ::
        (later ++ .did t (.begin (.refresh cancelled)) .nothing :: past)) later s' result := by
  have upTo := onward.run (run.next called)
  have whole := upTo.next returned
  have known := refresh_of_begin run called onward
  obtain ⟨outcome, ended, same⟩ := Refreshing.returns returned fun task hmem =>
    (known task hmem).2.stage
  obtain ⟨task, rest, found, next⟩ : ∃ task rest, s.pool.get? t = some task ∧
      task.stack = .finish (.sent result) :: rest := by
    cases returned with
    | act found next => exact ⟨_, _, found, next⟩
  have stage := (known task (Pool.mem_of_get? found)).2.stage
  obtain ⟨name, waits, telling, listening⟩ := tidy_of_begin run called onward found
  rw [next] at stage telling listening
  obtain rfl := stage.last
  refine ⟨name, ⟨task, found, waits⟩, ?_⟩
  obtain ⟨message, opening, told⟩ : ∃ message, Opening message ∧
      uttered t later = (plan message).reverse := by
    rcases telling.owed with ⟨begun, -⟩ | ⟨-, message, opening, owed⟩
    · cases begun
    · refine ⟨message, opening, ?_⟩
      rw [← owed]
      simp [Instr.owes]
  obtain ⟨alike, started⟩ :
      registrations options (later ++ .did t (.begin (.refresh cancelled)) .nothing :: past) =
        bystanders options t (later ++ .did t (.begin (.refresh cancelled)) .nothing :: past) ∧
      Restarted first t later := by
    cases listening with
    | before early => cases early
    | during _ held => cases held
    | after _ _ same started => exact ⟨same, started⟩
  have registered : registrations options (.did t (.finish (.sent result)) a ::
        (later ++ .did t (.begin (.refresh cancelled)) .nothing :: past)) =
      bystanders options t (.did t (.finish (.sent result)) a ::
        (later ++ .did t (.begin (.refresh cancelled)) .nothing :: past)) := by
    rw [registrations_cons, enlist_idle rfl rfl, bystanders_did, alike]
  refine ⟨⟨message, opening, ?_⟩, ?_, registered, ?_, ?_, started, ?_, ?_⟩
  · rw [announced, told]
    rfl
  · have own : (Instr.finish (.sent result)).OfRefresh := telling.own _ List.mem_cons_self
    have waiting : ∀ task, s.pool.get? t = some task → task.caller = some name := by
      intro task' found'
      rw [← Option.some.inj (found.symm.trans found'), waits]
    have silent : s.gained s' = [] := Telling.gained own waiting returned
    have after : s.after (.did t (.finish (.sent result)) a) = s' := upTo.replay ▸ whole.replay
    rw [reportsBy, upTo.replay, after, silent, ite_self, List.nil_append, telling.made,
      heeded_of_end told (by simp), List.map_cons, List.reverse_cons, List.map_reverse]
  · intro g hg
    exact uncompleted_of_bystanders options t _ g (registered ▸ hg)
  · intro method
    rw [Registry.count, whole.enrolled.under, List.length_map, Worker.registered, registered]
  · have own : (Instr.finish (.sent result)).OfRefresh := telling.own _ List.mem_cons_self
    cases result with
    | ok => exact .inl rfl
    | error why =>
      cases why with
      | refreshFailed why =>
        cases why with
        | workerUnavailable => exact .inr rfl
        | _ => cases own
      | _ => cases own
  · rintro ⟨completion, b, waited⟩
    cases outcome with
    | ok => exact same
    | error => exact absurd ended.1 (asked_of_wait run called onward waited)

/-- A refresh is cancelled before it has stopped the worker. It starts the worker all the same. -/
theorem tidied_of_cancelled_refresh : ∃ s₀ past first later s s',
    Run .standard past s₀ ∧ Moves s₀ (.did 2 (.begin (.refresh false)) .nothing) first ∧
    Ensues first later s ∧ Moves s (.did 2 (.finish (.sent (.ok ()))) .nothing) s' ∧
    .cancelled 2 ∈ later ∧ s'.machine.state = .running ∧
    ∃ name, (∃ task, s.pool.get? 2 = some task ∧ task.caller = some name) ∧
      Tidied .standard name first 2 (.did 2 (.finish (.sent (.ok ()))) .nothing ::
        (later ++ .did 2 (.begin (.refresh false)) .nothing :: past)) later s' (.ok ()) := by
  have wanted := Run.start.next (.ask (.initial .standard) (.setPath ⟨[47]⟩))
  have acted := wanted.next (.act (t := 0) (a := .nothing) rfl rfl rfl)
  have set := acted.next (.act (t := 0) (a := .nothing) rfl rfl rfl)
  have asked := set.next (.ask _ (.call "f" (.refresh false)))
  have joined := asked.next (.act (t := 1) (a := .nothing) rfl rfl rfl)
  have called := joined.act (t := 2) (a := .nothing) rfl rfl rfl
  have begun := joined.next called
  have opened := begun.here.next (.act (t := 2) (a := .nothing) rfl rfl rfl)
  have first := opened.next (.act (t := 2) (a := .nothing) rfl rfl rfl)
  have second := first.next (.act (t := 2) (a := .nothing) rfl rfl rfl)
  have off := second.next (.cancel _ 2)
  have halted := off.next (.act (t := 2) (a := .nothing) rfl rfl rfl)
  have listening := halted.next (.act (t := 2) (a := .nothing) rfl rfl rfl)
  have started := listening.next (.act (t := 2) (a := .nothing) rfl rfl rfl)
  have performed := started.next (.act (t := 2) (a := .nothing) rfl rfl rfl)
  have launched := performed.next (.act (t := 3) (a := .launched (.ok ⟨7, some 9⟩)) rfl rfl rfl)
  have running := launched.next (.act (t := 3) (a := .nothing) rfl rfl rfl)
  have third := running.next (.act (t := 2) (a := .nothing) rfl rfl rfl)
  have looked := third.next (.act (t := 2) (a := .nothing) rfl rfl rfl)
  have taken := looked.next (.act (t := 2) (a := .nothing) rfl rfl rfl)
  have used := taken.next (.act (t := 2) (a := .nothing) rfl rfl rfl)
  have told := used.next (.act (t := 2) (a := .sent (.ok ())) rfl rfl rfl)
  have freed := told.next (.act (t := 2) (a := .nothing) rfl rfl rfl)
  have dropped := freed.next (.act (t := 2) (a := .nothing) rfl rfl rfl)
  have ended := dropped.next (.act (t := 2) (a := .nothing) rfl rfl rfl)
  have returned := (ended.run begun).act (t := 2) (a := .nothing) rfl rfl rfl
  exact ⟨_, _, _, _, _, _, joined, called, ended, returned, List.mem_of_getElem? (i := 14) rfl, rfl,
    tidied_of_refresh joined called ended returned⟩

end Supervision.Worker
