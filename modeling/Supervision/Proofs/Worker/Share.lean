import Supervision.Proofs.Worker.Dispatch

/-!
# The share of a task

What one task has to do with a history in which many have a part. A call tells its caller how far it
has come: what was reported with its moves is read off what was recorded (`reportsBy`), what it went
to tell off its own instructions (`uttered`). A call that is cancelled goes on telling, and all but
the end is dropped; so what is reported is what it issued before it was cancelled
(`heeded_of_end`), and that is known from the moves alone (`Ensues.cancelled`).

What is registered without the task is what the others registered and did not dispose of
(`bystanders`). The numbers of registrations are those of the whole history: only the task's own
part is left out.
-/

namespace Supervision.Worker

/-! ## Reports of a history -/

/-- What was reported to someone, the latest first. -/
def System.reports (s : System) : List (String × Progress) :=
  s.history.filterMap fun h => match h with
    | .reported name p => some (name, p)
    | _ => none

/-- What was reported between two moments. -/
def System.gained (s s' : System) : List (String × Progress) :=
  s'.reports.take (s'.reports.length - s.reports.length)

/-- What a task reported with its moves, the latest first. -/
def reportsBy (options : Options) (t : TaskId) : List Move → List (String × Progress)
  | [] => []
  | m :: past =>
    let s := replay options past
    (if (m.deed? t).isSome then s.gained (s.after m) else []) ++ reportsBy options t past

/-- What a task tells its caller with an instruction, unless it was cancelled. -/
def Instr.tells? : Instr → Option Progress
  | .report p => some p
  | .refreshEnd _ => some .finish
  | _ => none

/-- What a task went to tell its caller, the latest first, whether or not it was cancelled. -/
def uttered (t : TaskId) (later : List Move) : List Progress :=
  (deeds t later).filterMap fun deed => deed.1.tells?

/-- The reports that a task issued, the latest first. -/
def announced (t : TaskId) (later : List Move) : List Progress :=
  (uttered t later).filter fun p => p ≠ .finish

def Move.cancels (t : TaskId) : Move → Bool
  | .cancelled u => u = t
  | _ => false

/-- Whether a call is cancelled that may have been so at its first moment. -/
def calledOff (first : System) (t : TaskId) (later : List Move) : Bool :=
  first.cancelled.contains t || later.any (Move.cancels t)

/-- The moves that were made before a call was cancelled. -/
def uncancelled (first : System) (t : TaskId) : List Move → List Move
  | [] => []
  | m :: later =>
    if calledOff first t (m :: later) then uncancelled first t later else m :: later

/-- What is reported of what a task went to tell. -/
def heeded (first : System) (t : TaskId) : List Move → List Progress
  | [] => []
  | m :: later =>
    (((m.deed? t).bind fun deed => deed.1.tells?).filter
      fun p => p.passes (calledOff first t later)).toList ++ heeded first t later

theorem reports_notices (s : System) (ns : List Notice) :
    (ns.foldl System.notice s).reports = s.reports := by
  induction ns generalizing s with
  | nil => rfl
  | cons n ns ih =>
    rw [List.foldl_cons, ih]
    cases n <;> rfl

theorem System.reports_apply (s : System) (e : Event) : (s.apply e).1.reports = s.reports :=
  reports_notices _ _

theorem System.reports_release (s : System) : s.release.reports = s.reports :=
  s.release_elim rfl rfl

theorem System.gained_of_append {s s' : System} {new : List (String × Progress)}
    (reports : s'.reports = new ++ s.reports) : s.gained s' = new := by
  rw [gained, reports, List.length_append, Nat.add_sub_cancel]
  exact List.take_left

/-- A task that has done nothing has reported nothing. -/
theorem reportsBy_of_new {options : Options} {t : TaskId} {past : List Move}
    (new : ∀ i a, Move.did t i a ∉ past) : reportsBy options t past = [] := by
  induction past with
  | nil => rfl
  | cons m past ih =>
    have other : ∀ i a, m ≠ .did t i a := by
      rintro i a rfl
      exact new i a List.mem_cons_self
    rw [reportsBy, deed?_of_other other, ih fun i a did => new i a (List.mem_cons_of_mem _ did)]
    rfl

/-! ### Before and after a cancellation -/

theorem uttered_did (t : TaskId) (i : Instr) (a : Answer) (later : List Move) :
    uttered t (.did t i a :: later) = i.tells?.toList ++ uttered t later := by
  rw [uttered, deeds_did]
  exact filterMap_cons_toList _ _ _

theorem uttered_other {t : TaskId} {m : Move} (other : ∀ i a, m ≠ .did t i a) (later : List Move) :
    uttered t (m :: later) = uttered t later := by
  rw [uttered, deeds_cons, deed?_of_other other]
  rfl

theorem heeded_did (first : System) (t : TaskId) (i : Instr) (a : Answer) (later : List Move) :
    heeded first t (.did t i a :: later) =
      (i.tells?.filter fun p => p.passes (calledOff first t later)).toList ++
        heeded first t later := by
  rw [heeded, Move.deed?, if_pos rfl]
  rfl

theorem heeded_other {t : TaskId} {m : Move} (other : ∀ i a, m ≠ .did t i a) (first : System)
    (later : List Move) : heeded first t (m :: later) = heeded first t later := by
  rw [heeded, deed?_of_other other]
  rfl

theorem calledOff_of_cons {first : System} {t : TaskId} {m : Move} {later : List Move}
    (off : calledOff first t later = true) : calledOff first t (m :: later) = true := by
  rw [calledOff, Bool.or_eq_true] at off ⊢
  exact off.imp_right fun off => by rw [List.any_cons, off, Bool.or_true]

theorem calledOff_cons {first : System} {t : TaskId} {m : Move} {later : List Move}
    (goes : m.cancels t = false) : calledOff first t (m :: later) = calledOff first t later := by
  rw [calledOff, List.any_cons, goes]
  rfl

/-- As long as a call is not cancelled, all that was done was done before. -/
theorem uncancelled_of_on {first : System} {t : TaskId} {later : List Move}
    (on : calledOff first t later = false) : uncancelled first t later = later := by
  cases later with
  | nil => rfl
  | cons m later => rw [uncancelled, on, if_neg Bool.false_ne_true]

/-- What others do, or who is cancelled, has no part in what a task issues. -/
theorem announced_other {t : TaskId} {m : Move} (other : ∀ i a, m ≠ .did t i a)
    (first : System) (later : List Move) :
    announced t (uncancelled first t (m :: later)) = announced t (uncancelled first t later) := by
  rw [uncancelled]
  split
  next => rfl
  next on =>
    have before : calledOff first t later = false := by
      cases off : calledOff first t later with
      | false => rfl
      | true => exact absurd (calledOff_of_cons off) on
    rw [uncancelled_of_on before, announced, uttered_other other]
    rfl

theorem announced_did (first : System) (t : TaskId) (i : Instr) (a : Answer)
    (later : List Move) : announced t (uncancelled first t (.did t i a :: later)) =
      (if calledOff first t later then [] else i.tells?.toList.filter fun p => p ≠ .finish) ++
        announced t (uncancelled first t later) := by
  have goes : (Move.did t i a).cancels t = false := rfl
  rw [uncancelled, calledOff_cons goes]
  split
  next => rfl
  next on =>
    rw [uncancelled_of_on (Bool.eq_false_iff.mpr on), announced, uttered_did, List.filter_append]
    rfl

/-- As long as a task has told no end, what is reported is what it issued before it was
cancelled. -/
theorem heeded_of_open {first : System} {t : TaskId} {later : List Move}
    (open_ : Progress.finish ∉ uttered t later) :
    heeded first t later = announced t (uncancelled first t later) := by
  induction later with
  | nil => rfl
  | cons m later ih =>
    by_cases own : ∃ i a, m = .did t i a
    · obtain ⟨i, a, rfl⟩ := own
      rw [uttered_did, List.mem_append, not_or] at open_
      rw [heeded_did, announced_did, ih open_.2]
      congr 1
      cases tells : i.tells? with
      | none => simp
      | some p =>
        cases p with
        | finish =>
          rw [tells] at open_
          exact absurd List.mem_cons_self open_.1
        | report message increment =>
          cases off : calledOff first t later <;> simp [Option.filter, Progress.passes]
    · have other : ∀ i a, m ≠ .did t i a := fun i a same => own ⟨i, a, same⟩
      rw [uttered_other other] at open_
      rw [heeded_other other, announced_other other, ih open_]

/-- **A task that tells one end, and tells it last, reports what it issued before it was cancelled,
and the end.** -/
theorem heeded_of_end {first : System} {t : TaskId} {later : List Move} {ps : List Progress}
    (ends : uttered t later = .finish :: ps) (open_ : Progress.finish ∉ ps) :
    heeded first t later = .finish :: announced t (uncancelled first t later) := by
  induction later with
  | nil => cases ends
  | cons m later ih =>
    by_cases own : ∃ i a, m = .did t i a
    · obtain ⟨i, a, rfl⟩ := own
      rw [uttered_did] at ends
      rw [heeded_did, announced_did]
      cases tells : i.tells? with
      | none =>
        rw [tells] at ends
        rw [ih ends]
        simp
      | some p =>
        rw [tells] at ends
        obtain ⟨rfl, rfl⟩ := List.cons.inj ends
        rw [heeded_of_open open_]
        cases off : calledOff first t later <;> simp [Option.filter, Progress.passes]
    · have other : ∀ i a, m ≠ .did t i a := fun i a same => own ⟨i, a, same⟩
      rw [uttered_other other] at ends
      rw [heeded_other other, announced_other other, ih ends]

/-! ### Who is cancelled -/

theorem System.cancelled_act (s : System) (a : Action) :
    (s.act a).1.cancelled = s.cancelled ∨ (s.act a).1.cancelled = s.pool.next :: s.cancelled := by
  cases a with
  | call name c =>
    simp only [act, call]
    split
    · split
      · exact .inr rfl
      · exact .inl rfl
    · exact .inl rfl
  | listen | track | dispose =>
    simp only [act]
    split <;> exact .inl rfl
  | _ => exact .inl rfl

theorem System.cancelled_deliver (s : System) (params : Json) (callback : Callback) :
    (s.deliver params callback).1.cancelled = s.cancelled := by
  cases callback with
  | shaped | trackStart | trackEnd =>
    simp only [deliver]
    split <;> rfl
  | _ => rfl

/-- An instruction cancels nobody but a call that is new. -/
theorem exec_cancelled {s r : System} {t : TaskId} {caller : String} {i : Instr} {a : Answer}
    {before : List Instr} (h : s.exec t caller i a = some (r, before)) :
    r.cancelled = s.cancelled ∨ r.cancelled = s.pool.next :: s.cancelled := by
  have applied (e : Event) : (s.apply e).1.cancelled = s.cancelled :=
    (System.marks_notices { s with machine := (s.machine.transition e).machine } _).2.2
  have kept {p : System × List Instr} (h : some p = some (r, before))
      (same : p.1.cancelled = s.cancelled) :
      r.cancelled = s.cancelled ∨ r.cancelled = s.pool.next :: s.cancelled :=
    .inl (of_result h same)
  unfold System.exec at h
  split at h
  case h_1 =>
    split at h
    · exact kept h (applied _)
    · exact kept h rfl
  case h_3 a =>
    exact of_result h (s.cancelled_act a)
  case h_4 c =>
    refine kept h ?_
    cases c with
    | request _ params => cases params <;> rfl
    | notify _ params => cases params <;> rfl
    | _ => rfl
  case h_8 need c =>
    refine kept h ?_
    cases need <;> cases c <;> rfl
  case h_9 =>
    split at h
    · exact kept h rfl
    · exact kept h (applied .stop)
  case h_11 =>
    refine kept h ?_
    unfold System.answered
    split <;> split <;> (try split) <;> rfl
  case h_13 =>
    refine kept h ?_
    unfold System.receipted
    split <;> rfl
  case h_20 => exact kept h (s.cancelled_deliver _ _)
  case h_23 =>
    refine kept h ?_
    dsimp only
    split <;> rfl
  case h_26 =>
    exact kept h rfl
  case h_30 subscription =>
    refine kept h ?_
    cases subscription <;> rfl
  case h_31 => cases h
  all_goals
    first
      | exact kept h rfl
      | (split at h <;> first | exact kept h rfl | cases h)

theorem System.cancelled_release (s : System) : s.release.cancelled = s.cancelled :=
  s.release_elim rfl rfl

/-- Whoever is there is cancelled with a move that cancels it, and with no other. -/
theorem Moves.cancelled {s s' : System} {m : Move} {t : TaskId} (step : Moves s m s')
    (old : t < s.pool.next) :
    s'.cancelled.contains t = (s.cancelled.contains t || m.cancels t) := by
  have kept {r : System} (same : r.cancelled = s.cancelled) (goes : m.cancels t = false) :
      r.cancelled.contains t = (s.cancelled.contains t || m.cancels t) := by
    rw [same, goes, Bool.or_false]
  cases step with
  | @act _ u task i rest a found next taken =>
    obtain ⟨r, before, exec, -, result⟩ := step_exec found next taken
    have proceeded : (r.proceed u (before ++ rest)).cancelled.contains t =
        (s.cancelled.contains t || (Move.did u i a).cancels t) := by
      rcases exec_cancelled exec with same | new
      · exact kept same rfl
      · have other : (t == s.pool.next) = false := beq_eq_false_iff_ne.mpr (Nat.ne_of_lt old)
        show r.cancelled.contains t = _
        rw [new, List.contains_cons, other, Bool.false_or]
        exact (Bool.or_false _).symm
    rcases result with rfl | rfl
    · exact proceeded
    · rwa [System.cancelled_release]
  | cancel u =>
    show (u :: s.cancelled).contains t = _
    rw [List.contains_cons, Bool.or_comm]
    congr 1
    rw [Move.cancels, beq_eq_decide]
    exact decide_eq_decide.mpr eq_comm
  | park => exact kept (System.cancelled_release _) rfl
  | drop => exact kept (System.cancelled_release _) rfl
  | _ => exact kept rfl rfl

/-- **A call is cancelled when it was at its first moment, or since.** -/
theorem Ensues.cancelled {first s : System} {later : List Move} {t : TaskId}
    (h : Ensues first later s) (numbered : first.pool.Numbered) (old : t < first.pool.next) :
    s.cancelled.contains t = calledOff first t later := by
  induction h with
  | here => exact (Bool.or_false _).symm
  | @next s s' later m before step ih =>
    have there := Nat.lt_of_lt_of_le old (before.numbered numbered).2
    rw [step.cancelled there, ih, calledOff, calledOff, List.any_cons, Bool.or_assoc,
      Bool.or_comm (m.cancels t)]

/-! ## Who is registered without a task -/

/-- What others registered and disposed of: what is registered if a task has no part in it. -/
def bystanders (options : Options) (t : TaskId) : List Move → List Registration
  | [] => []
  | m :: past =>
    if (m.deed? t).isSome then bystanders options t past
    else enlist options m past (bystanders options t past)

theorem bystanders_did (options : Options) (t : TaskId) (i : Instr) (a : Answer)
    (past : List Move) : bystanders options t (.did t i a :: past) = bystanders options t past := by
  rw [bystanders, Move.deed?, if_pos rfl]
  rfl

theorem bystanders_other {t : TaskId} {m : Move} (other : ∀ i a, m ≠ .did t i a)
    (options : Options) (past : List Move) : bystanders options t (m :: past) =
      enlist options m past (bystanders options t past) := by
  rw [bystanders, deed?_of_other other]
  rfl

/-- A task that has done nothing has no part in what is registered. -/
theorem bystanders_of_new {options : Options} {t : TaskId} {past : List Move}
    (new : ∀ i a, Move.did t i a ∉ past) :
    bystanders options t past = registrations options past := by
  induction past with
  | nil => rfl
  | cons m past ih =>
    have other : ∀ i a, m ≠ .did t i a := by
      rintro i a rfl
      exact new i a List.mem_cons_self
    rw [bystanders_other other, registrations_cons,
      ih fun i a did => new i a (List.mem_cons_of_mem _ did)]

/-- Whoever begins to listen for a completion is the one that waits for it. -/
theorem refreshListen_of_registers {s : System} {m : Move} {entry : String × Callback} {t : TaskId}
    (registers : entry ∈ s.registers m) (completes : entry.2.completes? = some t) :
    ∃ a, m = .did t .refreshListen a := by
  unfold System.registers at registers
  split at registers
  next listener wish _ =>
    split at registers
    · rw [List.mem_singleton.mp registers] at completes
      cases wish <;> cases completes
    · cases registers
  next =>
    split at registers
    · rw [List.mem_singleton.mp registers] at completes
      cases completes
    · cases registers
  next =>
    rw [List.mem_singleton.mp registers] at completes
    cases completes
  next u a =>
    rw [List.mem_singleton.mp registers] at completes
    cases completes
    exact ⟨a, rfl⟩
  next => cases registers

/-- **Nobody but a task listens for its own completion.** -/
theorem uncompleted_of_bystanders (options : Options) (t : TaskId) (past : List Move) :
    ∀ g ∈ bystanders options t past, g.callback.completes? ≠ some t := by
  induction past with
  | nil => exact nofun
  | cons m past ih =>
    by_cases own : ∃ i a, m = .did t i a
    · obtain ⟨i, a, rfl⟩ := own
      rw [bystanders_did]
      exact ih
    · rw [bystanders_other fun i a same => own ⟨i, a, same⟩]
      intro g hg
      rcases List.mem_append.mp hg with old | new
      · exact ih g (List.mem_filter.mp old).1
      · obtain ⟨entry, hentry, rfl⟩ := List.mem_map.mp new
        have registers : entry.1 ∈ (replay options past).registers m :=
          List.fst_mem_of_mem_zipIdx hentry
        intro completes
        obtain ⟨a, rfl⟩ := refreshListen_of_registers registers completes
        exact own ⟨_, _, rfl⟩

/-- What has no registrations and no use of a subscription leaves those who are registered. -/
theorem enlist_idle {options : Options} {m : Move} {past : List Move}
    (registers : (replay options past).registers m = [])
    (disposes : m.disposes = .spent) (here : List Registration) :
    enlist options m past here = here := by
  simp [enlist, registers, disposes, Subscription.rights]

/-- What is registered but for those with one number is what others registered, as long as the
number is not new. -/
theorem enlist_filter {options : Options} {m : Move} {past : List Move} {number : Nat}
    (old : number < enrolments options past) (here : List Registration) :
    enlist options m past (here.filter fun g => g.number ≠ number) =
      (enlist options m past here).filter fun g => g.number ≠ number := by
  have later : ∀ g ∈ (((replay options past).registers m).zipIdx (enrolments options past)).map
      (fun entry => (⟨entry.2, entry.1.1, entry.1.2⟩ : Registration)),
      decide (g.number ≠ number) = true := by
    intro g hg
    obtain ⟨entry, hentry, rfl⟩ := List.mem_map.mp hg
    have le : enrolments options past ≤ entry.2 := List.le_snd_of_mem_zipIdx hentry
    exact decide_eq_true (Nat.ne_of_gt (Nat.lt_of_lt_of_le old le))
  rw [enlist, enlist, List.filter_append, List.filter_eq_self.mpr later, List.filter_filter,
    List.filter_filter]
  congr 1
  exact List.filter_congr fun g _ => Bool.and_comm _ _

end Supervision.Worker
