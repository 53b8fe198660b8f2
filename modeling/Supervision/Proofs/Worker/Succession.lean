import Supervision.Proofs.Worker.Phase

/-!
# One worker after another

A supervisor never has two workers at once, and always has exactly one way forward. What is under
way is what the tasks have in hand, so this is a law about all tasks together: their charges are
those of a `Phase` of the machine.

Tasks are given up while others go on, and one that is given up while it rests takes no further
step. Nothing is lost that way, since a task that may be given up rests only with nothing in hand
(`Orderly`): a launch and the end of a worker are waited for by tasks of their own, which nobody
gives up.
-/

namespace Supervision.Worker

/-! ## Tasks in order -/

/-- True of instructions that take time and have something in hand meanwhile. -/
def Instr.lasts : Instr → Bool
  | .launch .. | .shutDown .. => true
  | _ => false

/-- Whether a task may be given up. -/
def Abortable (attached : List TaskId) (t : TaskId) (task : Task Instr) : Prop :=
  task.caller.isSome = true ∨ task.aborted = true ∨ t ∈ attached

/-- A kill comes first, and after it the task says that the worker was ended. -/
def KillsFirst (stack : List Instr) : Prop :=
  (∀ c, Instr.kill c ∉ stack.tail) ∧
    ∀ c rest, stack = .kill c :: rest →
      ∃ generation after, rest = .handle (.tornDown generation) :: after

/-- A task has nothing in hand when it may be given up. -/
structure Orderly (attached : List TaskId) (t : TaskId) (task : Task Instr) : Prop where
  /-- Where it may come to wait, nothing is in hand behind. -/
  still : task.stack.Pairwise fun i j => i.yields = true → j.isPlain = true
  brief : Abortable attached t task → ∀ i ∈ task.stack, i.lasts = false
  idle : Abortable attached t task → task.parked = true → ∀ i ∈ task.stack, i.charge? = none
  kills : KillsFirst task.stack

/-- What may come in place of an instruction. -/
structure Replaces (i : Instr) (before : List Instr) : Prop where
  still : before.Pairwise fun i j => i.yields = true → j.isPlain = true
  yields : ∀ b ∈ before, b.yields = true → i.yields = true
  brief : ∀ b ∈ before, b.lasts = false
  kills : KillsFirst before

theorem lasts_of_isPlain {i : Instr} (plain : i.isPlain = true) : i.lasts = false := by
  cases i <;> first | rfl | exact absurd plain Bool.false_ne_true

/-- Without a kill there is nothing to come first. -/
private theorem killsFirst_of_not_mem {stack : List Instr} (h : ∀ c, Instr.kill c ∉ stack) :
    KillsFirst stack :=
  ⟨fun c hc => h c (List.mem_of_mem_tail hc),
    fun c _ heq => absurd (heq ▸ List.mem_cons_self) (h c)⟩

/-- What comes in place of the first instruction does not change what comes after it. -/
theorem KillsFirst.replace {i : Instr} {rest before : List Instr} (h : KillsFirst (i :: rest))
    (k : KillsFirst before) : KillsFirst (before ++ rest) := by
  cases before with
  | nil => exact killsFirst_of_not_mem h.1
  | cons b bs =>
    refine ⟨fun c hc => ?_, fun c after heq => ?_⟩
    · exact (List.mem_append.mp hc).elim (k.1 c) (h.1 c)
    · obtain ⟨rfl, rfl⟩ := List.cons.inj heq
      obtain ⟨generation, after, rfl⟩ := k.2 c bs rfl
      exact ⟨generation, after ++ rest, rfl⟩

theorem waits_yields {i : Instr} (waits : i.waits = true) (brief : i.lasts = false) :
    i.yields = true ∧ i.charge? = none := by
  cases i <;> first | exact ⟨rfl, rfl⟩ | exact absurd waits Bool.false_ne_true |
    exact absurd brief Bool.true_eq_false.mp

/-- Instructions at which no task waits may stand in any order. -/
private theorem replaces_of_busy {i : Instr} {before : List Instr}
    (busy : ∀ b ∈ before, b.yields = false) (brief : ∀ b ∈ before, b.lasts = false)
    (kills : KillsFirst before) : Replaces i before where
  still := List.pairwise_of_forall_mem_list fun b hb _ _ yields =>
    absurd yields (by simp [busy b hb])
  yields := fun b hb yields => absurd yields (by simp [busy b hb])
  brief := brief
  kills := kills

private theorem replaces_singleton {i b : Instr} (busy : b.yields = false) (brief : b.lasts = false)
    (live : ∀ c, b ≠ .kill c) : Replaces i [b] :=
  replaces_of_busy (by simpa using busy) (by simpa using brief) <|
    killsFirst_of_not_mem fun c hc => absurd (List.mem_singleton.mp hc).symm (live c)

/-- Effects that are to be carried out, and perhaps something plain thereafter. -/
private theorem replaces_effects {i : Instr} (effects : List Effect) {after : List Instr}
    (plain : ∀ b ∈ after, b.isPlain = true) (yields : i.yields = true ∨ after = []) :
    Replaces i (effects.map .perform ++ after) := by
  have each : ∀ b ∈ effects.map Instr.perform ++ after,
      (b.yields = false ∨ b ∈ after) ∧ b.lasts = false ∧ ∀ c, b ≠ .kill c := by
    intro b hb
    rcases List.mem_append.mp hb with hb | hb
    · obtain ⟨e, -, rfl⟩ := List.mem_map.mp hb
      exact ⟨.inl rfl, rfl, fun _ => nofun⟩
    · refine ⟨.inr hb, lasts_of_isPlain (plain b hb), fun c hc => ?_⟩
      exact absurd (plain b hb) (by rw [hc]; simp [Instr.isPlain])
  constructor
  · refine List.pairwise_append.mpr ⟨?_, ?_, ?_⟩
    · refine List.pairwise_of_forall_mem_list fun b hb _ _ yields => ?_
      obtain ⟨e, -, rfl⟩ := List.mem_map.mp hb
      exact absurd yields Bool.false_ne_true
    · exact List.pairwise_of_forall_mem_list fun _ _ c hc _ => plain c hc
    · exact fun _ _ c hc _ => plain c hc
  · intro b hb waits
    rcases (each b hb).1 with busy | hb
    · exact absurd waits (by simp [busy])
    · exact yields.resolve_right (List.ne_nil_of_mem hb)
  · exact fun b hb => (each b hb).2.1
  · exact killsFirst_of_not_mem fun c hc => absurd rfl ((each _ hc).2.2 c)

/-- Whatever an instruction leaves to do may come in its place. -/
theorem Effected.replaces {s r : System} {i : Instr} {a : Answer} {before : List Instr}
    (h : Effected s i a r before) : Replaces i before := by
  cases h with
  | aside _ plains yields =>
    refine ⟨List.pairwise_of_forall_mem_list fun _ _ c hc _ => plains c hc, fun b hb waits => ?_,
      fun b hb => lasts_of_isPlain (plains b hb), killsFirst_of_not_mem fun c hc => ?_⟩
    · exact yields.resolve_right fun busy => absurd waits (by simp [busy b hb])
    · exact absurd (plains _ hc) Bool.false_ne_true
  | @handled e =>
    have h : Replaces (.handle e) ((s.machine.transition e).effects.map .perform ++ []) :=
      replaces_effects _ (by simp) (.inr rfl)
    rwa [List.append_nil] at h
  | halted =>
    exact replaces_effects (s.machine.transition .stop).effects (by simp [Instr.isPlain]) (.inl rfl)
  | launched => exact replaces_singleton rfl rfl (by simp)
  | ended => exact replaces_singleton rfl rfl (by simp)
  | gone => exact replaces_singleton rfl rfl (by simp)
  | outlived =>
    refine replaces_of_busy (by simp [Instr.yields]) (by simp [Instr.lasts]) ⟨by simp, ?_⟩
    exact fun c rest heq => ⟨_, [], (List.cons.inj heq).2.symm⟩
  | _ => exact replaces_of_busy (by simp) (by simp) (killsFirst_of_not_mem (by simp))

namespace Orderly

variable {attached : List TaskId} {t : TaskId} {task : Task Instr}

/-- A task goes on in order. -/
theorem proceed {i : Instr} {rest before : List Instr} (h : Orderly attached t task)
    (next : task.stack = i :: rest) (replaces : Replaces i before) :
    Orderly attached t { task with stack := before ++ rest, parked := false } := by
  have still := h.still
  rw [next, List.pairwise_cons] at still
  constructor
  · refine List.pairwise_append.mpr ⟨replaces.still, still.2, fun b hb j hj waits => ?_⟩
    exact still.1 j hj (replaces.yields b hb waits)
  · intro abortable j hj
    rcases List.mem_append.mp hj with hj | hj
    · exact replaces.brief j hj
    · exact h.brief abortable j (by rw [next]; exact List.mem_cons_of_mem _ hj)
  · exact fun _ parked => absurd parked Bool.false_ne_true
  · exact KillsFirst.replace (next ▸ h.kills) replaces.kills

/-- A task that rests has nothing in hand if it may be given up. -/
theorem park {i : Instr} {rest : List Instr} (h : Orderly attached t task)
    (next : task.stack = i :: rest) (waits : i.waits = true) :
    Orderly attached t { task with parked := true } := by
  refine ⟨h.still, h.brief, fun abortable _ j hj => ?_, h.kills⟩
  obtain ⟨yields, bare⟩ := waits_yields waits (h.brief abortable i (by rw [next]; exact .head _))
  have still := h.still
  simp only [next, List.pairwise_cons] at still
  rcases List.mem_cons.mp (next ▸ hj) with rfl | hj
  · exact bare
  · exact charge?_of_isPlain (still.1 j hj yields)

/-- A task that may be given up is given up in order. -/
theorem abort (h : Orderly attached t task) (abortable : Abortable attached t task) :
    Orderly attached t { task with aborted := true } :=
  ⟨h.still, fun _ => h.brief abortable, fun _ => h.idle abortable, h.kills⟩

/-- Listening to less gives fewer tasks up. -/
theorem mono (h : Orderly attached t task) {attached' : List TaskId}
    (fewer : t ∈ attached' → t ∈ attached) : Orderly attached' t task := by
  have weaker : Abortable attached' t task → Abortable attached t task :=
    Or.imp_right (Or.imp_right fewer)
  exact ⟨h.still, fun a => h.brief (weaker a), fun a => h.idle (weaker a), h.kills⟩

/-- A new task with one plain instruction. -/
theorem plain {caller : Option String} {parked aborted : Bool} {i : Instr}
    (brief : i.lasts = false) (bare : i.charge? = none) (live : ∀ c, i ≠ .kill c) :
    Orderly attached t ⟨caller, [i], parked, aborted⟩ where
  still := List.pairwise_singleton _ _
  brief _ j hj := by rw [List.mem_singleton.mp hj]; exact brief
  idle _ _ j hj := by rw [List.mem_singleton.mp hj]; exact bare
  kills := killsFirst_of_not_mem fun c hc => absurd (List.mem_singleton.mp hc).symm (live c)

/-- A new task that nobody gives up. -/
theorem own {i : Instr} {parked : Bool} (new : t ∉ attached) (live : ∀ c, i ≠ .kill c) :
    Orderly attached t ⟨none, [i], parked, false⟩ where
  still := List.pairwise_singleton _ _
  brief abortable := by simp [Abortable, new] at abortable
  idle abortable := by simp [Abortable, new] at abortable
  kills := killsFirst_of_not_mem fun c hc => absurd (List.mem_singleton.mp hc).symm (live c)

end Orderly

/-! ## The ledger of charges -/

/-- What an instruction begins in a task of its own. -/
def Instr.begun : Instr → List Charge
  | .perform e => (System.taskFor e).filterMap Instr.charge?
  | _ => []

theorem begun_of_isPlain {i : Instr} (plain : i.isPlain = true) : i.begun = [] := by
  cases i with
  | perform e => cases e <;> first | rfl | exact absurd plain Bool.false_ne_true
  | _ => rfl

theorem filterMap_charge?_of_isPlain {l : List Instr} (plains : ∀ j ∈ l, j.isPlain = true) :
    l.filterMap Instr.charge? = [] :=
  List.filterMap_eq_nil_iff.mpr fun j hj => charge?_of_isPlain (plains j hj)

/-- Effects are charges until they are carried out. -/
theorem filterMap_perform (effects : List Effect) :
    (effects.map Instr.perform).filterMap Instr.charge? = effects.filterMap Effect.charge? := by
  rw [List.filterMap_map]
  rfl

/-- The work of a supervisor: everything that is under way. -/
abbrev System.charges (s : System) : List Charge :=
  s.pool.work Instr.charge?

/-- Applying an event begins nothing but its effects. -/
theorem System.charges_apply (s : System) (e : Event) : (s.apply e).1.charges = s.charges := by
  cases s.apply_regrouped e with
  | same pool => simp only [charges, pool]
  | attached _ pool => simp only [charges, pool, Pool.work_spawn]; simp [Instr.charge?]
  | detached pool => simp only [charges, pool, Pool.work_foldl_abort]

/-- What an instruction adds to the work of other tasks. -/
theorem Effected.charges {s r : System} {i : Instr} {a : Answer} {before : List Instr}
    (h : Effected s i a r before) : r.charges = s.charges ++ i.begun := by
  cases h with
  | aside plain _ _ alike => simp [System.charges, alike.pool, begun_of_isPlain plain]
  | called _ pool => simp only [System.charges, pool, Pool.work_spawn]; rfl
  | handled => simp [System.charges_apply, Instr.begun]
  | performed => exact Pool.work_spawn _ _ _
  | halted => simp [System.charges_apply, Instr.begun]
  | _ => exact (List.append_nil _).symm

/-- The ledger of a step. -/
theorem Effected.ledger {s r : System} {t : TaskId} {task : Task Instr} {i : Instr}
    {rest before : List Instr} {a : Answer} (h : Effected s i a r before)
    (numbered : s.pool.Numbered) (found : s.pool.get? t = some task)
    (next : task.stack = i :: rest) :
    ((r.proceed t (before ++ rest)).charges ++ i.charge?.toList).Perm
      (s.charges ++ (i.begun ++ before.filterMap Instr.charge?)) := by
  obtain ⟨aborted, found'⟩ := h.regrouped.found numbered found
  have ledger := Pool.work_proceed (f := Instr.charge?) (h.regrouped.numbered numbered) found'
    next before
  rw [← List.append_assoc, ← h.charges]
  exact ledger

/-! ## A step leads from phase to phase -/

/-- What is known with an instruction that waits for the end of a worker, or tells it. -/
def Instr.Fits (past : List Move) (m : Machine) : Instr → Prop
  | .watchExit generation c => m.Recalls generation (m.connection = some c)
  | .handle (.exited generation) => m.Recalls generation (living past = [])
  | _ => True

theorem delivers_of_isPlain {t : TaskId} {i : Instr} {a : Answer} (plain : i.isPlain = true) :
    (Move.did t i a).delivers = none := by
  cases i <;> first | rfl | exact absurd plain Bool.false_ne_true

/-- A charge is handed over: what was under way is over, and the new charges are all. -/
private theorem perm_of_handed {w new : List Charge} {x : Charge}
    (h : (w ++ [x]).Perm ([x] ++ new)) : w.Perm new :=
  (List.perm_append_left_iff [x]).mp ((List.perm_append_comm).trans h)

/-- Nothing is handed over. -/
private theorem perm_of_idle {w cs : List Charge} (h : (w ++ []).Perm (cs ++ [])) : w.Perm cs := by
  simpa only [List.append_nil] using h

/-- An event leads from phase to phase if its charge is all that is under way. -/
theorem Phase.handle {past : List Move} {m : Machine} {cs : List Charge} (h : Phase past m cs)
    {e : Event} {w : List Charge}
    (ledger : (w ++ e.charge?.toList).Perm (cs ++ (m.transition e).effects.filterMap Effect.charge?))
    (charged : ∀ x, e.charge? = some x → cs = [x])
    (fits : (Instr.handle e).Fits past m) :
    ∃ cs', w.Perm cs' ∧ Phase past (m.transition e).machine cs' := by
  cases e with
  | start path => exact ⟨_, by simpa [Event.charge?] using ledger, h.start path⟩
  | stop => exact ⟨_, by simpa [Event.charge?] using ledger, h.stop⟩
  | setPath path => exact ⟨_, by simpa [Event.charge?] using ledger, h.setPath path⟩
  | exited generation =>
    refine ⟨_, by simpa [Event.charge?] using ledger, h.exited fun running current => ?_⟩
    exact (fits.2 current).2 running
  | launched generation result =>
    obtain rfl := charged _ rfl
    exact ⟨_, perm_of_handed ledger, h.launched⟩
  | tornDown generation =>
    obtain rfl := charged _ rfl
    exact ⟨_, perm_of_handed ledger, h.tornDown⟩

namespace Phase

variable {past : List Move} {m : Machine} {cs : List Charge}

/-- What is not part of killing a worker is under way alone. -/
theorem eq_singleton (h : Phase past m cs) {x : Charge} (hx : x ∈ cs)
    (peaceful : x.isPeaceful = true) : cs = [x] := by
  rcases h.eq_of_mem hx with heq | ⟨c, rfl⟩
  · exact heq
  · rcases List.mem_pair.mp hx with rfl | rfl
    · cases peaceful
    · cases peaceful

/-- A worker that is being killed is then ended. -/
theorem eq_pair (h : Phase past m cs) {c : ConnectionId} (hc : Charge.kill c ∈ cs) :
    cs = [.kill c, .ended m.generation] := by
  cases h with
  | killing =>
    rcases List.mem_pair.mp hc with heq | heq
    · rw [heq]
    · cases heq
  | _ => simp at hc

/-- When nobody kills, the end of a worker is under way alone. -/
theorem eq_ended (h : Phase past m cs) {generation : Nat} (hx : Charge.ended generation ∈ cs)
    (calm : ∀ c, Charge.kill c ∉ cs) : cs = [.ended generation] := by
  rcases h.eq_of_mem hx with heq | ⟨c, rfl⟩
  · exact heq
  · exact absurd (List.mem_cons_self) (calm c)

end Phase

/-- **One step leads from phase to phase.** Whatever a task has in hand with an instruction is
handed over to what comes in its place. -/
theorem Effected.phase {past : List Move} {s r : System} {t : TaskId} {i : Instr} {a : Answer}
    {before : List Instr} {cs w : List Charge} (h : Effected s i a r before)
    (phase : Phase past s.machine cs) (alive : s.alive = true)
    (ledger : (w ++ i.charge?.toList).Perm (cs ++ (i.begun ++ before.filterMap Instr.charge?)))
    (charged : ∀ x, i.charge? = some x → x ∈ cs)
    (calm : ∀ generation, i = .handle (.tornDown generation) → ∀ c, Charge.kill c ∉ cs)
    (fits : i.Fits past s.machine) :
    ∃ cs', w.Perm cs' ∧ Phase (.did t i a :: past) r.machine cs' := by
  cases h with
  | aside plain plains _ alike =>
    rw [charge?_of_isPlain plain, begun_of_isPlain plain, filterMap_charge?_of_isPlain plains]
      at ledger
    rw [alike.machine]
    exact ⟨cs, perm_of_idle ledger, phase.quiet (delivers_of_isPlain plain)⟩
  | called _ _ machine =>
    rw [machine]
    exact ⟨cs, perm_of_idle ledger, phase.quiet rfl⟩
  | @handled e =>
    rw [System.machine_apply]
    simp only [Instr.charge?, Instr.begun, List.nil_append, System.apply, filterMap_perform]
      at ledger
    obtain ⟨cs', hperm, phase'⟩ := phase.handle ledger (fun x hx => by
      have mem := charged x hx
      cases e with
      | launched => cases hx; exact phase.eq_singleton mem rfl
      | tornDown => cases hx; exact phase.eq_ended mem (calm _ rfl)
      | _ => cases hx) fits
    exact ⟨cs', hperm, phase'.quiet rfl⟩
  | missed gone => exact absurd alive (by simp [gone])
  | @performed e =>
    have begun := charged
    cases e with
    | launch generation path =>
      obtain rfl := phase.eq_singleton (begun _ rfl) rfl
      exact ⟨_, perm_of_handed ledger, phase.quiet rfl⟩
    | teardown generation c there =>
      obtain rfl := phase.eq_singleton (begun _ rfl) rfl
      cases there with
      | true => exact ⟨_, perm_of_handed ledger, phase.quiet rfl⟩
      | false => exact ⟨_, perm_of_handed ledger, phase.gone.quiet rfl⟩
    | changeWorkspace c path => exact ⟨cs, perm_of_idle ledger, phase.quiet rfl⟩
  | halted busy =>
    rw [System.machine_apply]
    rw [List.filterMap_append, System.apply, filterMap_perform] at ledger
    have stopped : (w ++ Event.stop.charge?.toList).Perm
        (cs ++ (s.machine.transition .stop).effects.filterMap Effect.charge?) := by
      simpa only [Instr.charge?, Instr.begun, Event.charge?, List.filterMap_cons, List.filterMap_nil,
        List.append_nil, List.nil_append, Option.toList_none] using ledger
    obtain ⟨cs', hperm, phase'⟩ := phase.handle stopped (by simp [Event.charge?]) trivial
    exact ⟨cs', hperm, phase'.quiet rfl⟩
  | launched =>
    obtain rfl := phase.eq_singleton (charged _ rfl) rfl
    exact ⟨_, perm_of_handed ledger, phase.answered t _ _⟩
  | ended =>
    obtain rfl := phase.eq_singleton (charged _ rfl) rfl
    exact ⟨_, perm_of_handed ledger, phase.shutDown t⟩
  | outlived =>
    obtain rfl := phase.eq_singleton (charged _ rfl) rfl
    exact ⟨_, perm_of_handed ledger, phase.outlived.quiet rfl⟩
  | killed =>
    obtain rfl := phase.eq_pair (charged _ rfl)
    exact ⟨[.ended s.machine.generation], perm_of_handed ledger, phase.killed t _⟩
  | gone => exact ⟨cs, perm_of_idle ledger, phase.quiet rfl⟩

/-! ## What watchers know -/

theorem fits_of_isPlain {past : List Move} {m : Machine} {i : Instr} (plain : i.isPlain = true) :
    i.Fits past m := by
  unfold Instr.Fits
  split
  · exact absurd plain Bool.false_ne_true
  · exact absurd plain Bool.false_ne_true
  · trivial

/-- What is known stays true while the machine moves on. -/
theorem Instr.Fits.transition {past : List Move} {m : Machine} {i : Instr} (h : i.Fits past m)
    (e : Event) {mv : Move} (quiet : mv.delivers = none) :
    i.Fits (mv :: past) (m.transition e).machine := by
  unfold Instr.Fits at h ⊢
  split
  · exact Machine.Recalls.transition h e fun same => same.trans
  · exact Machine.Recalls.transition h e fun _ => Phase.living_cons_nil quiet
  · trivial

theorem Instr.Fits.quiet {past : List Move} {m : Machine} {i : Instr} (h : i.Fits past m)
    {mv : Move} (quiet : mv.delivers = none) : i.Fits (mv :: past) m := by
  unfold Instr.Fits at h ⊢
  split
  · exact h
  · exact Machine.Recalls.imp h fun _ => Phase.living_cons_nil quiet
  · trivial

/-- A machine that does not run has nothing to keep true. -/
theorem Instr.Fits.still {past : List Move} {m : Machine} {i : Instr} (h : i.Fits past m)
    (still : m.state ≠ .running) (mv : Move) : i.Fits (mv :: past) m := by
  unfold Instr.Fits at h ⊢
  split
  · exact h
  · exact Machine.Recalls.imp h fun running => absurd running still
  · trivial

/-- While a launch is under way the machine does not run. -/
theorem Phase.ne_running {past : List Move} {m : Machine} {cs : List Charge} (h : Phase past m cs)
    {x : Charge} (hx : x ∈ cs) : m.state ≠ .running := fun running => by
  rw [(h.of_running running).1] at hx
  exact absurd hx List.not_mem_nil

/-- What others know stays true in a step. -/
theorem Effected.keeps {past : List Move} {s r : System} {t : TaskId} {i j : Instr} {a : Answer}
    {before : List Instr} {cs : List Charge} (h : Effected s i a r before)
    (phase : Phase past s.machine cs) (charged : ∀ x, i.charge? = some x → x ∈ cs)
    (fits : j.Fits past s.machine) : j.Fits (.did t i a :: past) r.machine := by
  cases h with
  | aside plain _ _ alike => rw [alike.machine]; exact fits.quiet (delivers_of_isPlain plain)
  | called _ _ machine => rw [machine]; exact fits.quiet rfl
  | handled => rw [System.machine_apply]; exact fits.transition _ rfl
  | halted => rw [System.machine_apply]; exact fits.transition _ rfl
  | launched => exact fits.still (phase.ne_running (charged _ rfl)) _
  | _ => exact fits.quiet rfl

/-- What comes in place of an instruction is true. -/
theorem Effected.fits {past : List Move} {s r : System} {t : TaskId} {i : Instr} {a : Answer}
    {before : List Instr} {cs : List Charge} (h : Effected s i a r before)
    (phase : Phase past s.machine cs) (fits : i.Fits past s.machine) :
    ∀ j ∈ before, j.Fits (.did t i a :: past) r.machine := by
  have performs (effects : List Effect) : ∀ j ∈ effects.map Instr.perform,
      j.Fits (.did t i a :: past) r.machine := fun j hj => by
    obtain ⟨e, -, rfl⟩ := List.mem_map.mp hj
    trivial
  cases h with
  | aside _ plains => exact fun j hj => fits_of_isPlain (plains j hj)
  | handled => exact performs _
  | halted =>
    intro j hj
    rcases List.mem_append.mp hj with hj | hj
    · exact performs _ j hj
    · rw [List.mem_singleton.mp hj]
      trivial
  | @gone generation c reason text =>
    intro j hj
    rw [List.mem_singleton.mp hj]
    refine Machine.Recalls.imp (m := s.machine) fits fun running connection => ?_
    obtain ⟨-, l, -, connection', -, current⟩ := phase.of_running running
    obtain rfl := Option.some.inj (connection'.symm.trans connection)
    exact Phase.living_cons_ends rfl rfl current
  | launched => intro j hj; rw [List.mem_singleton.mp hj]; trivial
  | ended => intro j hj; rw [List.mem_singleton.mp hj]; trivial
  | outlived => intro j hj; rcases List.mem_pair.mp hj with rfl | rfl <;> trivial
  | _ => exact nofun

/-! ## The invariant of a supervisor -/

/-- What the tasks have in hand is what the phase of the machine says. -/
structure Sound (past : List Move) (s : System) : Prop where
  numbered : s.pool.Numbered
  attached : ∀ t ∈ s.attached, t < s.pool.next
  orderly : s.pool.Every (Orderly s.attached)
  phase : s.alive = true → ∃ cs, s.charges.Perm cs ∧ Phase past s.machine cs
  fits : s.alive = true → s.pool.Every fun _ task => ∀ i ∈ task.stack, i.Fits past s.machine

namespace Sound

variable {past : List Move} {s : System}

theorem initial (options : Options) : Sound [] (.initial options) where
  numbered := Pool.numbered_empty
  attached := nofun
  orderly := Pool.every_empty
  phase _ := ⟨[], .refl _, .idle rfl rfl rfl rfl⟩
  fits _ := Pool.every_empty

/-- Whatever happens but a delivery leaves the invariant as it is. -/
theorem quiet (h : Sound past s) {mv : Move} (quiet : mv.delivers = none) :
    Sound (mv :: past) s where
  numbered := h.numbered
  attached := h.attached
  orderly := h.orderly
  phase alive := by
    obtain ⟨cs, charges, phase⟩ := h.phase alive
    exact ⟨cs, charges, phase.quiet quiet⟩
  fits alive := (h.fits alive).mono fun _ _ each i hi => (each i hi).quiet quiet

/-- A new task that has nothing in hand changes nothing. -/
theorem spawn (h : Sound past s) {i : Instr} (plain : i.isPlain = true) :
    Sound past (s.spawn [i]) where
  numbered := h.numbered.spawn _ _
  attached t ht := Nat.lt_succ_of_lt (h.attached t ht)
  orderly := h.orderly.spawn <| .plain (lasts_of_isPlain plain) (charge?_of_isPlain plain)
    fun c hc => absurd plain (by rw [hc]; exact Bool.false_ne_true)
  phase alive := by
    obtain ⟨cs, charges, phase⟩ := h.phase (by simpa [System.alive, System.spawn] using alive)
    refine ⟨cs, ?_, phase⟩
    simp only [System.charges, System.spawn, Pool.work_spawn]
    simpa [charge?_of_isPlain plain] using charges
  fits alive := (h.fits (by simpa [System.alive, System.spawn] using alive)).spawn fun j hj => by
    rw [List.mem_singleton.mp hj]
    exact fits_of_isPlain plain

/-- When nothing is listened to any more, the tasks that did have nothing in hand. -/
theorem detach (h : Sound past s) : Sound past s.detach where
  numbered := h.numbered.foldl_abort _
  attached := nofun
  orderly := by
    intro e he
    obtain ⟨task, hmem, heq⟩ := Pool.mem_foldl_abort.mp he
    have orderly : Orderly s.attached e.1 task := h.orderly _ hmem
    rw [heq]
    split
    next listens => exact (orderly.abort (.inr (.inr listens))).mono nofun
    next => exact orderly.mono nofun
  phase alive := by
    obtain ⟨cs, charges, phase⟩ := h.phase (s.alive_detach ▸ alive)
    refine ⟨cs, ?_, phase⟩
    simpa only [System.charges, System.detach, Pool.work_foldl_abort] using charges
  fits alive := by
    intro e he
    obtain ⟨task, hmem, heq⟩ := Pool.mem_foldl_abort.mp he
    have fits := h.fits (s.alive_detach ▸ alive) _ hmem
    rw [heq]
    split <;> exact fits

theorem release (h : Sound past s) : Sound past s.release :=
  s.release_elim h h.detach

/-- A task that rests keeps what it has in hand, and one that is given up has nothing. -/
theorem park (h : Sound past s) {t : TaskId} {task : Task Instr} {i : Instr} {rest : List Instr}
    (found : s.pool.get? t = some task) (next : task.stack = i :: rest) (waits : i.waits = true) :
    Sound past (s.park t) := by
  have orderly (other : Task Instr) (hmem : (t, other) ∈ s.pool.tasks) :
      Orderly s.attached t { other with parked := true } := by
    obtain rfl := h.numbered.unique hmem (Pool.mem_of_get? found)
    exact (h.orderly _ hmem).park next waits
  refine release ⟨h.numbered.park t, ?_, h.orderly.park fun other hmem _ => orderly other hmem,
    ?_, ?_⟩
  · exact fun k hk => (s.pool.next_park t).symm ▸ h.attached k hk
  · intro alive
    simp only [System.alive, Bool.or_eq_true] at alive
    obtain ⟨cs, charges, phase⟩ := h.phase (by
      simpa only [System.alive, Bool.or_eq_true] using alive.imp_right Pool.hasCaller_park)
    refine ⟨cs, ?_, phase⟩
    simp only [System.charges]
    rw [Pool.work_park h.numbered fun other hmem aborted => ?_]
    · exact charges
    · refine List.filterMap_eq_nil_iff.mpr ?_
      exact (orderly other hmem).idle (.inr (.inl aborted)) rfl
  · intro alive
    simp only [System.alive, Bool.or_eq_true] at alive
    refine (h.fits ?_).park fun _ _ each => each
    simpa only [System.alive, Bool.or_eq_true] using alive.imp_right Pool.hasCaller_park

/-- A call that is given up has nothing in hand. -/
theorem abort (h : Sound past s) {t : TaskId} {task : Task Instr}
    (found : s.pool.get? t = some task) (called : task.caller.isSome = true) :
    Sound past { s with pool := s.pool.abort t } where
  numbered := h.numbered.abort t
  attached := h.attached
  orderly := h.orderly.abort fun other hmem orderly => by
    obtain rfl := h.numbered.unique hmem (Pool.mem_of_get? found)
    exact orderly.abort (.inl called)
  phase alive := by
    obtain ⟨cs, charges, phase⟩ := h.phase (by
      simpa only [System.alive, Pool.hasCaller_abort] using alive)
    refine ⟨cs, ?_, phase⟩
    simpa only [System.charges, Pool.work_abort] using charges
  fits alive := by
    refine (h.fits ?_).abort fun _ _ each => each
    simpa only [System.alive, Pool.hasCaller_abort] using alive

/-- The tasks stay in order, whatever an instruction does to them. -/
theorem regrouped (h : Sound past s) {r : System} {i : Instr} (k : System.Regrouped s r i) :
    (∀ t ∈ r.attached, t < r.pool.next) ∧ r.pool.Every (Orderly r.attached) := by
  have fresh {caller : Option String} {i : Instr} (brief : i.lasts = false)
      (bare : i.charge? = none) (live : ∀ c, i ≠ .kill c) (attached : List TaskId) (t : TaskId) :
      Orderly attached t ⟨caller, [i], true, false⟩ := .plain brief bare live
  cases k with
  | same pool attached => rw [pool, attached]; exact ⟨h.attached, h.orderly⟩
  | called pool attached =>
    rw [pool, attached]
    exact ⟨fun t ht => Nat.lt_succ_of_lt (h.attached t ht),
      h.orderly.spawn (fresh rfl rfl (by nofun) _ _)⟩
  | @performed e pool attached =>
    rw [pool, attached]
    refine ⟨fun t ht => Nat.lt_succ_of_lt (h.attached t ht), h.orderly.spawn ?_⟩
    have new : s.pool.next ∉ s.attached := fun hmem => Nat.lt_irrefl _ (h.attached _ hmem)
    cases e with
    | teardown generation c there => cases there <;> exact .own new fun _ => nofun
    | _ => exact .own new fun _ => nofun
  | attached _ pool attached =>
    rw [pool, attached]
    have old (t : TaskId) (ht : t < s.pool.next) : t ∉ [s.pool.next, s.pool.next + 1] := by
      intro hmem
      rcases List.mem_pair.mp hmem with rfl | rfl
      · exact Nat.lt_irrefl _ ht
      · exact Nat.not_succ_lt_self ht
    refine ⟨fun t ht => ?_, Pool.Every.spawn (Pool.Every.spawn ?_
      (fresh rfl rfl (by nofun) _ _)) (fresh rfl rfl (by nofun) _ _)⟩
    · rcases List.mem_pair.mp ht with rfl | rfl
      · exact Nat.lt_succ_of_lt (Nat.lt_succ_self _)
      · exact Nat.lt_succ_self _
    · intro e he
      exact (h.orderly e he).mono fun hmem => absurd hmem (old _ (h.numbered.below e he))
  | detached pool attached =>
    have detached := h.detach
    rw [pool, attached]
    exact ⟨nofun, detached.orderly⟩

/-- What the tasks know stays true in a step. -/
theorem known (h : Sound past s) (alive : s.alive = true) {r : System} {t : TaskId} {i : Instr}
    {a : Answer} {before : List Instr} {cs : List Charge} (k : Effected s i a r before)
    (phase : Phase past s.machine cs) (charged : ∀ x, i.charge? = some x → x ∈ cs) :
    r.pool.Every fun _ task => ∀ j ∈ task.stack, j.Fits (.did t i a :: past) r.machine := by
  have kept : s.pool.Every fun _ task => ∀ j ∈ task.stack, j.Fits (.did t i a :: past) r.machine :=
    (h.fits alive).mono fun _ _ each j hj => k.keeps phase charged (each j hj)
  have singleton {i j : Instr} {m : Machine} {past : List Move} (fits : i.Fits past m)
      (hj : j ∈ [i]) : j.Fits past m := List.mem_singleton.mp hj ▸ fits
  cases k.regrouped with
  | same pool => rw [pool]; exact kept
  | called pool => rw [pool]; exact kept.spawn fun j => singleton trivial
  | @performed e pool =>
    rw [pool]
    refine kept.spawn ?_
    cases e with
    | teardown generation c there => cases there <;> exact fun j => singleton trivial
    | _ => exact fun j => singleton trivial
  | @attached l starting pool =>
    rw [pool]
    refine Pool.Every.spawn (kept.spawn fun j => singleton ?_) fun j => singleton trivial
    cases k with
    | aside plain => exact absurd plain Bool.false_ne_true
    | missed gone => exact absurd alive (by simp [gone])
    | handled =>
      rw [System.machine_apply]
      simp only [Machine.transition, if_true, starting]
      exact ⟨Nat.le_refl _, fun _ => ⟨(fun h => by cases h), fun _ => rfl⟩⟩
  | detached pool =>
    rw [pool]
    intro e he
    obtain ⟨task, hmem, heq⟩ := Pool.mem_foldl_abort.mp he
    have fits := kept _ hmem
    rw [heq]
    split <;> exact fits

/-- Nobody kills while a task says that a worker was ended: the task that kills would be another
one, and would say the same. -/
theorem calm (h : Sound past s) {t : TaskId} {task : Task Instr} {generation : Nat}
    {rest : List Instr} (found : s.pool.get? t = some task)
    (next : task.stack = .handle (.tornDown generation) :: rest) {cs : List Charge}
    (charges : s.charges.Perm cs) (phase : Phase past s.machine cs) (c : ConnectionId) :
    Charge.kill c ∉ cs := by
  intro hc
  obtain ⟨⟨k, killer⟩, hmem, j, hj, hcharge⟩ := Pool.mem_work.mp (charges.mem_iff.mpr hc)
  obtain rfl : j = .kill c := by
    cases j with
    | handle e => cases e <;> cases hcharge
    | perform e => cases e <;> cases hcharge
    | kill => cases hcharge; rfl
    | _ => cases hcharge
  have kills : KillsFirst killer.stack := (h.orderly _ hmem).kills
  have hj : Instr.kill c ∈ killer.stack := hj
  obtain ⟨first, after, heq⟩ := List.exists_cons_of_ne_nil (List.ne_nil_of_mem hj)
  rw [heq] at kills hj
  obtain rfl | hafter := List.mem_cons.mp hj
  · -- The killer ends the worker next. Both are in hand of a task that is not this one, but beside
    -- what this task has in hand only one of them is left.
    obtain ⟨generation', after', rfl⟩ := kills.2 c after rfl
    have other : k ≠ t := fun heq' => by
      subst heq'
      obtain rfl := h.numbered.unique hmem (Pool.mem_of_get? found)
      rw [next] at heq
      cases heq
    have left : ∀ i ∈ killer.stack, ∀ x, i.charge? = some x →
        x ∈ (s.pool.remove t).work Instr.charge? := fun i hi x hx =>
      Pool.mem_work.mpr ⟨(k, killer), List.mem_filter.mpr ⟨hmem, by simpa using other⟩, i, hi, hx⟩
    have hkill := left (.kill c) (by rw [heq]; simp) _ rfl
    have hended := left (.handle (.tornDown generation')) (by rw [heq]; simp) _ rfl
    have both := charges.symm.trans (Pool.work_remove h.numbered found)
    rw [phase.eq_pair hc, next] at both
    have only : ((s.pool.remove t).work Instr.charge?).length ≤ 1 := by
      have := both.length_eq
      simp only [List.filterMap_cons, Instr.charge?, Event.charge?, List.length_append,
        List.length_cons, List.length_nil] at this
      omega
    match hwork : (s.pool.remove t).work Instr.charge?, only with
    | [], _ => rw [hwork] at hkill; cases hkill
    | [x], _ =>
      rw [hwork, List.mem_singleton] at hkill hended
      rw [← hkill] at hended
      cases hended
  · exact kills.1 c hafter

/-- **A step keeps the invariant.** -/
theorem act (h : Sound past s) {s' : System} {t : TaskId} {task : Task Instr} {i : Instr}
    {rest : List Instr} {a : Answer} (found : s.pool.get? t = some task)
    (next : task.stack = i :: rest) (taken : s.step t a = some s') :
    Sound (.did t i a :: past) s' := by
  obtain ⟨r, before, effected, -, result⟩ := step_cases found next taken
  have hmem := Pool.mem_of_get? found
  have hi : i ∈ task.stack := by rw [next]; exact List.mem_cons_self
  have numbered := effected.regrouped.numbered h.numbered
  obtain ⟨below, orderly⟩ := h.regrouped effected.regrouped
  obtain ⟨aborted, found'⟩ := effected.regrouped.found h.numbered found
  have same (other : Task Instr) (hother : (t, other) ∈ r.pool.tasks) :
      other.stack = i :: rest := by
    rw [numbered.unique hother (Pool.mem_of_get? found'), ← next]
  -- Phase and fitness are only known of a supervisor that exists, and it existed before the step.
  have existed (alive : (r.proceed t (before ++ rest)).alive = true) : s.alive = true := by
    refine effected.alive ?_
    simp only [System.alive, System.proceed, Bool.or_eq_true] at alive ⊢
    exact alive.imp_right Pool.hasCaller_proceed
  have charged {cs : List Charge} (charges : s.charges.Perm cs) (x : Charge)
      (hx : i.charge? = some x) : x ∈ cs :=
    charges.mem_iff.mp (Pool.mem_work.mpr ⟨_, hmem, i, hi, hx⟩)
  have proceeded : Sound (.did t i a :: past) (r.proceed t (before ++ rest)) := by
    refine ⟨numbered.proceed t _, ?_, orderly.proceed fun other hother _ => ?_, fun alive => ?_,
      fun alive => ?_⟩
    · simpa only [System.proceed, Pool.next_proceed] using below
    · exact (orderly _ hother).proceed (same other hother) effected.replaces
    · obtain ⟨cs, charges, phase⟩ := h.phase (existed alive)
      refine effected.phase phase (existed alive)
        ((effected.ledger h.numbered found next).trans (charges.append_right _))
        (charged charges) (fun generation heq => ?_) (h.fits (existed alive) _ hmem i hi)
      exact h.calm found (heq ▸ next) charges phase
    · obtain ⟨cs, charges, phase⟩ := h.phase (existed alive)
      have known := h.known (t := t) (existed alive) effected phase (charged charges)
      refine known.proceed fun other hother _ j hj => ?_
      rcases List.mem_append.mp hj with hj | hj
      · exact effected.fits phase (h.fits (existed alive) _ hmem i hi) j hj
      · refine known _ hother j ?_
        rw [same other hother]
        exact List.mem_cons_of_mem _ hj
  rcases result with rfl | rfl
  · exact proceeded
  · exact proceeded.release

/-- Every move keeps the invariant. -/
theorem move (h : Sound past s) {s' : System} {m : Move} (step : Moves s m s') :
    Sound (m :: past) s' := by
  cases step with
  | ask => exact (h.spawn rfl).quiet rfl
  | act found next taken => exact h.act found next taken
  | park found next waits => exact (h.park found next waits).quiet rfl
  | cancel t =>
    have same : Sound past (s.cancel t) := ⟨h.numbered, h.attached, h.orderly, h.phase, h.fits⟩
    exact same.quiet rfl
  | abort found called => exact (h.abort found called).quiet rfl
  | drop =>
    have dropped : Sound past { s with handle := false } := by
      have existed : ({ s with handle := false } : System).alive = true → s.alive = true := by
        simp only [System.alive, Bool.false_or]
        exact fun called => by simp only [called, Bool.or_true]
      exact ⟨h.numbered, h.attached, h.orderly, fun alive => h.phase (existed alive),
        fun alive => h.fits (existed alive)⟩
    exact dropped.release.quiet rfl

/-- **The invariant holds in every run.** -/
theorem of_run {options : Options} (run : Run options past s) : Sound past s := by
  induction run with
  | start => exact initial options
  | next _ step ih => exact ih.move step

end Sound

/-! ## One worker after another -/

/-- The start of a launch that is under way: to be made, being made, or made and not yet heard
of. -/
def Charge.launch? : Charge → Option Nat
  | .launch generation => some generation
  | .arrival generation _ => some generation
  | _ => none

/-- The start of a worker whose end is under way. -/
def Charge.teardown? : Charge → Option Nat
  | .teardown generation .. => some generation
  | .ended generation => some generation
  | _ => none

/-- The launches under way, by their starts. -/
def System.launches (s : System) : List Nat :=
  s.charges.filterMap Charge.launch?

/-- The ends of workers under way, by their starts. -/
def System.teardowns (s : System) : List Nat :=
  s.charges.filterMap Charge.teardown?

/-- Exactly one thing leads on, and it belongs to this start. -/
structure Exclusive (past : List Move) (s : System) : Prop where
  /-- Beside a machine that is idle nothing is under way, and otherwise one thing. -/
  count : s.launches.length + s.teardowns.length +
    (if s.machine.connection.isSome then 1 else 0) = if s.machine.state = .idle then 0 else 1
  starting : s.machine.state = .starting → s.launches = [s.machine.generation]
  stopping : s.machine.state = .stopping →
    s.launches = [s.machine.generation] ∨ s.teardowns = [s.machine.generation]
  stored : s.machine.connection.isSome = true ↔ s.machine.state = .running
  /-- The connection of a running machine is the one that was delivered last, for this start. -/
  running : s.machine.state = .running → ∃ l : Launched,
    (delivered past).head? = some (s.machine.generation, l) ∧
      s.machine.connection = some l.connection ∧ s.machine.pid = l.pid
  pid : s.machine.state = .idle ∨ s.machine.state = .starting → s.machine.pid = none
  /-- At most one of the connections that were delivered is alive. -/
  one : (living past).length ≤ 1
  /-- None is when a worker is launched. -/
  clear : ∀ generation, Charge.launch generation ∈ s.charges → living past = []
  /-- The result of a launch finds a machine that waits for it. -/
  arrival : ∀ generation result, Charge.arrival generation result ∈ s.charges →
    generation = s.machine.generation ∧
      (s.machine.state = .starting ∨ s.machine.state = .stopping)
  /-- The end of a worker finds a machine that waits for it. -/
  ended : ∀ generation, Charge.ended generation ∈ s.charges →
    generation = s.machine.generation ∧ s.machine.state = .stopping
  /-- An event of another start changes nothing. -/
  stale : ∀ generation, generation ≠ s.machine.generation →
    (∀ result, s.machine.transition (.launched generation result) = s.machine.unchanged) ∧
      s.machine.transition (.tornDown generation) = s.machine.unchanged

theorem stale_unchanged (m : Machine) {generation : Nat} (other : generation ≠ m.generation) :
    (∀ result, m.transition (.launched generation result) = m.unchanged) ∧
      m.transition (.tornDown generation) = m.unchanged :=
  ⟨fun _ => by simp only [Machine.transition, if_neg other],
    by simp only [Machine.transition, other, and_false, if_false]⟩

/-- The one thing under way, or the connection, in each state. -/
theorem Phase.tally {past : List Move} {m : Machine} {cs : List Charge} (h : Phase past m cs) :
    (m.state = .idle ∧ cs.filterMap Charge.launch? = [] ∧ cs.filterMap Charge.teardown? = [] ∧
        m.connection = none) ∨
      ((m.state = .starting ∨ m.state = .stopping) ∧ cs.filterMap Charge.launch? = [m.generation] ∧
        cs.filterMap Charge.teardown? = [] ∧ m.connection = none) ∨
      (m.state = .running ∧ cs.filterMap Charge.launch? = [] ∧
        cs.filterMap Charge.teardown? = [] ∧ m.connection.isSome = true) ∨
      (m.state = .stopping ∧ cs.filterMap Charge.launch? = [] ∧
        cs.filterMap Charge.teardown? = [m.generation] ∧ m.connection = none) := by
  cases h with
  | idle state _ connection => exact .inl ⟨state, rfl, rfl, connection⟩
  | launching state _ connection => exact .inr (.inl ⟨state, rfl, rfl, connection⟩)
  | arrived state _ connection => exact .inr (.inl ⟨state, rfl, rfl, connection⟩)
  | failed state _ connection => exact .inr (.inl ⟨state, rfl, rfl, connection⟩)
  | running state _ connection =>
    exact .inr (.inr (.inl ⟨state, rfl, rfl, by rw [connection]; rfl⟩))
  | ending state connection => exact .inr (.inr (.inr ⟨state, rfl, rfl, connection⟩))
  | killing state connection => exact .inr (.inr (.inr ⟨state, rfl, rfl, connection⟩))
  | ended state connection => exact .inr (.inr (.inr ⟨state, rfl, rfl, connection⟩))

/-- At most one connection is alive. -/
theorem Phase.living_length {past : List Move} {m : Machine} {cs : List Charge}
    (h : Phase past m cs) : (living past).length ≤ 1 := by
  cases h with
  | arrived _ _ _ _ current => exact current.length_le
  | running _ _ _ _ current => exact current.length_le
  | ending _ _ current => exact current.length_le
  | killing _ _ current => exact current.length_le
  | idle _ _ _ dead => simp [dead]
  | launching _ _ _ dead => simp [dead]
  | failed _ _ _ dead => simp [dead]
  | ended _ _ dead => simp [dead]

/-- A phase says that exactly one thing leads on. -/
theorem Phase.exclusive {past : List Move} {s : System} {cs : List Charge}
    (phase : Phase past s.machine cs) (charges : s.charges.Perm cs) : Exclusive past s := by
  have launches : s.launches.Perm (cs.filterMap Charge.launch?) := charges.filterMap _
  have teardowns : s.teardowns.Perm (cs.filterMap Charge.teardown?) := charges.filterMap _
  refine ⟨?_, ?_, ?_, phase.connection_isSome, ?_, ?_, phase.living_length, ?_, ?_, ?_,
    fun _ => stale_unchanged s.machine⟩
  · rw [launches.length_eq, teardowns.length_eq]
    rcases phase.tally with ⟨state, hl, ht, hc⟩ | ⟨state | state, hl, ht, hc⟩ | ⟨state, hl, ht, hc⟩ |
      ⟨state, hl, ht, hc⟩ <;> simp [state, hl, ht, hc]
  · intro starting
    rcases phase.tally with ⟨state, -⟩ | ⟨-, hl, -⟩ | ⟨state, -⟩ | ⟨state, -⟩
    · simp [starting] at state
    · exact List.perm_singleton.mp (hl ▸ launches)
    · simp [starting] at state
    · simp [starting] at state
  · intro stopping
    rcases phase.tally with ⟨state, -⟩ | ⟨-, hl, -⟩ | ⟨state, -⟩ | ⟨-, -, ht, -⟩
    · simp [stopping] at state
    · exact .inl (List.perm_singleton.mp (hl ▸ launches))
    · simp [stopping] at state
    · exact .inr (List.perm_singleton.mp (ht ▸ teardowns))
  · intro running
    obtain ⟨-, l, pid, connection, last, -⟩ := phase.of_running running
    exact ⟨l, last, connection, pid⟩
  · rintro (state | state)
    · exact (phase.of_idle state).2.1
    · cases phase with
      | launching _ pid => exact pid
      | arrived _ pid => exact pid
      | failed _ pid => exact pid
      | _ => simp_all
  · intro generation hmem
    obtain rfl := phase.eq_singleton (charges.mem_iff.mp hmem) rfl
    cases phase with
    | launching _ _ _ dead => exact dead
  · intro generation result hmem
    obtain rfl := phase.eq_singleton (charges.mem_iff.mp hmem) rfl
    cases phase with
    | arrived state => exact ⟨rfl, state⟩
    | failed state => exact ⟨rfl, state⟩
  · intro generation hmem
    have hmem := charges.mem_iff.mp hmem
    cases phase with
    | killing state =>
      rcases List.mem_pair.mp hmem with heq | heq
      · cases heq
      · cases heq
        exact ⟨rfl, state⟩
    | ended state =>
      cases List.mem_singleton.mp hmem
      exact ⟨rfl, state⟩
    | _ => simp at hmem

/-- **One worker after another.** While a supervisor has a handle, and after any moves in any
order, exactly one thing leads on from a machine that is not idle: one launch, one connection or
the end of one worker, of this start. So no worker is launched while another may be alive. -/
theorem exclusive_of_run {options : Options} {past : List Move} {s : System}
    (run : Run options past s) (alive : s.alive = true) : Exclusive past s := by
  obtain ⟨cs, charges, phase⟩ := (Sound.of_run run).phase alive
  exact phase.exclusive charges

/-- A start with a workspace, whose worker comes up. -/
theorem exclusive_of_first_start : ∃ past s, Run .standard past s ∧ s.alive = true ∧
    s.machine.state = .running ∧ living past = [7] ∧ Exclusive past s := by
  have asked := Run.start.next (.ask (.initial .standard) (.start (some ⟨[47]⟩)))
  have acted := asked.next (.act (t := 0) (a := .nothing) rfl rfl rfl)
  have handled := acted.next (.act (t := 0) (a := .nothing) rfl rfl rfl)
  have performed := handled.next (.act (t := 0) (a := .nothing) rfl rfl rfl)
  have launched := performed.next (.act (t := 1) (a := .launched (.ok ⟨7, some 9⟩)) rfl rfl rfl)
  have running := launched.next (.act (t := 1) (a := .nothing) rfl rfl rfl)
  exact ⟨_, _, running, rfl, rfl, rfl, exclusive_of_run running rfl⟩

end Supervision.Worker
