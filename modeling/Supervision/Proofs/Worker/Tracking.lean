import Supervision.Proofs.Worker.Silence
import Supervision.Proofs.Worker.Trackers

/-!
# What trackers tell of refreshes

A worker says when it begins to refresh the workspace and when it is through, and a tracker passes
this on to a reporter. Workers say such things more than once, or say that they are through without
having begun, and they crash in between and are started anew; a tracker outlives them, and what it
tells is an alternation all the same: a report, an end, a report, and so on (`Tracked.alternates`).

When the notifications reach a tracker one at a time it is known which of them are told: those that
change whether a refresh is under way (`changes`). What counts is what was taken while the tracker
was registered for its method (`heard`), from whichever connection. A tracker is registered for its
two methods one after the other, and removed in the same way, so it may hear of a beginning and miss
the end that comes in between; it tells of the end with the next one it hears. Whoever takes a
notification after the subscription was used up does not pass it to the tracker any more
(`Withdrawn`); one that was in hand then may still be told.

A tracker changes its flag and tells its reporter in one step here. Where these are two steps the
alternation is that of notifications which reach the tracker one at a time.
-/

namespace Supervision.Worker

open Message

/-! ## Readings of a history -/

/-- The notification that is taken with a move. -/
def Move.taking? : Move → Option Notification
  | .did _ (.receive _) (.received (some n)) => some n
  | _ => none

/-- True of a move that passes a notification to a tracker. -/
def Move.tracks (k : Nat) : Move → Bool
  | .did _ (.deliver callback _) _ => callback.tracks k
  | _ => false

/-- What was taken while a tracker was registered for it, the latest first: of each notification the
method. -/
def heard (options : Options) (k : Nat) : List Move → List String
  | [] => []
  | m :: past =>
    ((m.taking?.map (·.method)).filter (subscribed options past k)).toList ++ heard options k past

/-- What a tracker told, and to whom, the latest first. -/
def tracked (options : Options) (k : Nat) : List Move → List (String × Progress)
  | [] => []
  | m :: past =>
    let s := replay options past
    (if m.tracks k then s.gained (s.after m) else []) ++ tracked options k past

/-- What a tracker tells when a refresh begins. -/
def beginning : Progress := .report (some "Refreshing workspace") none

/-- What a tracker tells at its turns. -/
def turnOf (i : Nat) : Progress :=
  if i % 2 = 0 then beginning else .finish

/-- Whether the last of some notifications says that a refresh begins. -/
def underway (heard : List String) : Bool :=
  heard.head? = some refreshStarted

/-- What is told when a refresh was under way or not, and is so now or not. -/
def tells (was now : Bool) : List Progress :=
  if now = was then [] else [if now then beginning else .finish]

/-- What is told of some notifications, the latest first: each that changes whether a refresh is
under way. -/
def changes : List String → List Progress
  | [] => []
  | method :: before => tells (underway before) (underway (method :: before)) ++ changes before

/-- What of some deliveries is for a tracker. -/
def forTracker (k : Nat) (passed : List (Callback × Json)) : List Callback :=
  (passed.map Prod.fst).filter (Callback.tracks k)

namespace System

/-- Nobody has a notification in hand for a tracker. -/
def caughtUp (s : System) (k : Nat) : Bool :=
  s.pool.tasks.all fun e => (forTracker k (e.2.stack.filterMap Instr.pass?)).isEmpty

/-- What a task has in hand for a tracker, the last first. -/
def handFor (s : System) (k : Nat) (t : TaskId) : List Callback :=
  forTracker k (s.inHand t)

/-- Whether a tracker takes a refresh to be under way. -/
def tracking (s : System) (k : Nat) : Bool :=
  (s.trackers[k]?).any (·.active)

/-- Whom a tracker tells. -/
def reporter (s : System) (k : Nat) : String :=
  ((s.trackers[k]?).map (·.name)).getD ""

end System

/-- Notifications reach a tracker one at a time: none is taken while someone has another one in
hand for it. -/
def oneByOne (options : Options) (k : Nat) : List Move → Bool
  | [] => true
  | m :: past =>
    (m.taking?.isNone || (replay options past).caughtUp k) && oneByOne options k past

/-! ## What is in hand for a tracker -/

section Hand

variable {options : Options} {past : List Move} {s s' : System} {m : Move} {k : Nat}

theorem forTracker_append (k : Nat) (first second : List (Callback × Json)) :
    forTracker k (first ++ second) = forTracker k first ++ forTracker k second := by
  rw [forTracker, List.map_append, List.filter_append]
  rfl

theorem forTracker_reverse (k : Nat) (passed : List (Callback × Json)) :
    forTracker k passed.reverse = (forTracker k passed).reverse := by
  rw [forTracker, List.map_reverse, List.filter_reverse]
  rfl

theorem System.handFor_of_caughtUp (caughtUp : s.caughtUp k = true) (t : TaskId) :
    s.handFor k t = [] := by
  rw [handFor, inHand, forTracker_reverse]
  cases found : s.pool.get? t with
  | none =>
    rw [Pool.stack, found]
    rfl
  | some task =>
    have nothing := List.all_eq_true.mp caughtUp _ (Pool.mem_of_get? found)
    rw [Pool.stack_of_get? found, List.isEmpty_iff.mp nothing]
    rfl

/-- What comes to a tracker of a notification that is taken. -/
theorem Run.forTracker_passed (run : Run options past s) (k : Nat) (c : ConnectionId)
    (n : Notification) : forTracker k (Taking.passed ⟨c, n, registered options past n.method⟩) =
      if subscribed options past k n.method then (callbackOf k n.method).toList else [] := by
  have audience := run.audience k n.method
  rw [Taking.passed, forTracker_reverse, forTracker, List.map_map]
  show (List.filter (Callback.tracks k) (List.map Registration.callback _)).reverse = _
  rw [List.filter_map]
  show (List.map Registration.callback (List.filter (fun g => g.callback.tracks k) _)).reverse = _
  rw [audience]
  split
  · cases callbackOf k n.method <;> rfl
  · rfl

/-- **What is in hand for a tracker after a move**, and what was passed to it with the move: what
was in hand, and what the move takes for it. -/
theorem Run.handFor_next (run : Run options past s) (step : Moves s m s') (k : Nat) (t : TaskId) :
    s'.handFor k t ++ forTracker k (passes t [m]) =
      ((m.takes? t).elim [] fun taken =>
        if subscribed options past k taken.2.method then (callbackOf k taken.2.method).toList
        else []) ++
      s.handFor k t := by
  obtain ⟨fresh, taken, -, passed⟩ := (run.account (run.here.next step) t).passed
  have fresh_eq : fresh = ((m.takes? t).map fun taken =>
      (⟨taken.1, taken.2, registered options past taken.2.method⟩ : Taking)).toList :=
    (List.append_cancel_right taken).symm
  have mine := congrArg (forTracker k) passed
  rw [forTracker_append, forTracker_append, fresh_eq] at mine
  refine mine.trans (congrArg (· ++ s.handFor k t) ?_)
  cases m.takes? t with
  | none => rfl
  | some n =>
    show forTracker k (Taking.passed _ ++ []) = _
    rw [List.append_nil]
    exact run.forTracker_passed k n.1 n.2

/-- What a move has to do with a tracker. -/
inductive Concerns (k : Nat) (m : Move) : Prop
  | takes {t : TaskId} {c : ConnectionId} {n : Notification}
      (move : m = .did t (.receive c) (.received (some n)))
  | passes {t : TaskId} {callback : Callback} {params : Json} {a : Answer}
      (move : m = .did t (.deliver callback params) a) (tracks : callback.tracks k = true)
  | neither (taking : m.taking? = none) (tracks : m.tracks k = false)

theorem concerns (k : Nat) (m : Move) : Concerns k m := by
  cases m with
  | did t i a =>
    cases i with
    | receive c =>
      cases a with
      | received n =>
        cases n with
        | none => exact .neither rfl rfl
        | some n => exact .takes rfl
      | _ => exact .neither rfl rfl
    | deliver callback params =>
      cases tracks : callback.tracks k with
      | true => exact .passes rfl tracks
      | false => exact .neither rfl tracks
    | _ => exact .neither rfl rfl
  | _ => exact .neither rfl rfl

theorem takes?_of_taking? (taking : m.taking? = none) (t : TaskId) : m.takes? t = none := by
  unfold Move.takes?
  split
  · cases taking
  · rfl

theorem passes_of_tracks (tracks : m.tracks k = false) (t : TaskId) :
    forTracker k (passes t [m]) = [] := by
  cases m with
  | did u i a =>
    by_cases own : u = t
    · subst own
      rw [passes, deeds_did]
      cases i with
      | deliver callback params =>
        show List.filter (Callback.tracks k) [callback] = []
        rw [List.filter_cons_of_neg (by simpa [Move.tracks] using tracks)]
        rfl
      | _ => rfl
    · have other : (Move.did u i a).deed? t = none := if_neg own
      rw [passes, deeds_cons, other]
      rfl
  | _ => rfl

/-- Nothing changes in hand with a move that has nothing to do with the tracker. -/
theorem Run.handFor_same (run : Run options past s) (step : Moves s m s')
    (taking : m.taking? = none) (tracks : m.tracks k = false) (t : TaskId) :
    s'.handFor k t = s.handFor k t := by
  have next := run.handFor_next step k t
  rw [passes_of_tracks tracks, takes?_of_taking? taking, List.append_nil] at next
  exact next

/-- What a task passes to a tracker it had in hand. -/
theorem Run.handFor_passes (run : Run options past s) {t : TaskId} {callback : Callback}
    {params : Json} {a : Answer} (step : Moves s (.did t (.deliver callback params) a) s')
    (tracks : callback.tracks k = true) (u : TaskId) :
    s.handFor k u = s'.handFor k u ++ if u = t then [callback] else [] := by
  have next := run.handFor_next step k u
  by_cases own : u = t
  · subst own
    have passed : forTracker k (passes u [.did u (.deliver callback params) a]) = [callback] := by
      rw [passes, deeds_did]
      exact List.filter_cons_of_pos tracks
    rw [passed] at next
    rw [if_pos rfl]
    exact next.symm
  · have other : (Move.did t (.deliver callback params) a).deed? u = none := if_neg (Ne.symm own)
    rw [passes, deeds_cons, other] at next
    rw [if_neg own]
    exact next.symm

/-- What a task takes for a tracker it has in hand. -/
theorem Run.handFor_takes (run : Run options past s) {t : TaskId} {c : ConnectionId}
    {n : Notification} (step : Moves s (.did t (.receive c) (.received (some n))) s')
    (k : Nat) (u : TaskId) : s'.handFor k u =
      (if u = t ∧ subscribed options past k n.method then (callbackOf k n.method).toList else []) ++
        s.handFor k u := by
  have next := run.handFor_next step k u
  rw [passes_of_tracks (m := .did t (.receive c) (.received (some n))) rfl, List.append_nil] at next
  rw [next]
  congr 1
  by_cases own : u = t
  · subst own
    simp [Move.takes?]
  · have other : Move.takes? u (.did t (.receive c) (.received (some n))) = none :=
      if_neg (Ne.symm own)
    rw [other, if_neg fun h => own h.1]
    rfl

end Hand

/-! ## What a tracker tells -/

/-- Whether a refresh is under way for a tracker that was called. -/
def Callback.opens : Callback → Bool
  | .trackStart _ => true
  | _ => false

theorem opens_of_callbackOf {k : Nat} {method : String} {callback : Callback}
    (called : callbackOf k method = some callback) (before : List String) :
    callback.opens = underway (method :: before) := by
  unfold callbackOf at called
  split at called
  next first =>
    obtain rfl := Option.some.inj called
    exact (decide_eq_true (congrArg some first)).symm
  next other =>
    split at called
    · obtain rfl := Option.some.inj called
      exact (decide_eq_false fun same => other (Option.some.inj same)).symm
    · cases called

section Tells

variable {options : Options} {past : List Move} {s s' : System} {m : Move} {k : Nat}

/-- **What a tracker does when it is called.** -/
theorem System.deliver_tracks (s : System) (params : Json) {callback : Callback}
    (tracks : callback.tracks k = true) (known : k < s.trackers.length) :
    (s.deliver params callback).1.tracking k = callback.opens ∧
      (s.deliver params callback).1.reporter k = s.reporter k ∧
      (s.deliver params callback).1.reports =
        (tells (s.tracking k) callback.opens).map (s.reporter k, ·) ++ s.reports := by
  have there : s.trackers[k]? = some s.trackers[k] := List.getElem?_eq_getElem known
  generalize s.trackers[k] = tracker at there
  obtain ⟨name, active⟩ := tracker
  have was : s.tracking k = active := by rw [tracking, there]; rfl
  have named : s.reporter k = name := by rw [reporter, there]; rfl
  have now (flag : Bool) : (s.trackers.set k ⟨name, flag⟩)[k]? = some ⟨name, flag⟩ :=
    List.getElem?_set_self known
  have changed {r : System} {flag : Bool} {p : Progress}
      (same : r = { s with trackers := s.trackers.set k ⟨name, flag⟩ }.record (.reported name p)) :
      r.tracking k = flag ∧ r.reporter k = name ∧ r.reports = (name, p) :: s.reports := by
    subst same
    exact ⟨congrArg (Option.any Tracker.active) (now flag),
      congrArg (fun tracker => (tracker.map Tracker.name).getD "") (now flag), rfl⟩
  rw [was, named]
  cases callback with
  | trackStart n =>
    obtain rfl : n = k := of_decide_eq_true tracks
    cases active with
    | false =>
      refine changed ?_
      simp only [deliver, there]
      rfl
    | true =>
      simp only [deliver, there]
      exact ⟨was, named, rfl⟩
  | trackEnd n =>
    obtain rfl : n = k := of_decide_eq_true tracks
    cases active with
    | false =>
      simp only [deliver, there]
      exact ⟨was, named, rfl⟩
    | true =>
      refine changed ?_
      simp only [deliver, there]
      rfl
  | _ => cases tracks

/-- A tracker that there is not does nothing. -/
theorem System.deliver_unknown (s : System) (params : Json) {callback : Callback}
    (tracks : callback.tracks k = true) (unknown : s.trackers.length ≤ k) :
    (s.deliver params callback).1 = s := by
  have none : s.trackers[k]? = none := List.getElem?_eq_none unknown
  cases callback with
  | trackStart n | trackEnd n =>
    obtain rfl : n = k := of_decide_eq_true tracks
    simp only [deliver, none]
  | _ => cases tracks

theorem Moves.reports_deliver {t : TaskId} {callback : Callback} {params : Json} {a : Answer}
    (step : Moves s (.did t (.deliver callback params) a) s') :
    s'.reports = (s.deliver params callback).1.reports := by
  cases step with
  | act found next taken =>
    obtain ⟨r, before, exec, -, result⟩ := step_exec found next taken
    have reports : r.reports = (s.deliver params callback).1.reports := by
      cases a with
      | nothing => exact congrArg (System.reports ∘ Prod.fst) (Option.some.inj exec).symm
      | _ => cases exec
    rcases result with rfl | rfl
    · exact reports
    · exact (System.reports_release _).trans reports

/-- What a move leaves of a tracker that it does not call. A new one has no refresh under way. -/
theorem System.noted_tracker (s : System) (tracks : m.tracks k = false) :
    (s.noted m).1[k]? = s.trackers[k]? ∨
      s.trackers[k]? = none ∧ ∃ name, (s.noted m).1[k]? = some ⟨name, false⟩ := by
  cases m with
  | did t i a =>
    cases i with
    | act action =>
      cases action with
      | listen listener wish =>
        simp only [noted, act]
        split <;> exact .inl rfl
      | track holder =>
        simp only [noted, act]
        split
        · show (s.trackers ++ [⟨holder, false⟩])[k]? = _ ∨ _ ∧ ∃ name,
            (s.trackers ++ [⟨holder, false⟩])[k]? = _
          rcases Nat.lt_trichotomy k s.trackers.length with less | rfl | greater
          · exact .inl (List.getElem?_append_left less)
          · exact .inr ⟨List.getElem?_eq_none (Nat.le_refl _), holder, List.getElem?_concat_length⟩
          · left
            rw [List.getElem?_eq_none (by simp; omega), List.getElem?_eq_none (by omega)]
        · exact .inl rfl
      | dispose holder =>
        simp only [noted, act]
        split <;> exact .inl rfl
      | call name c =>
        exact .inl (congrArg (fun noted => (Prod.fst noted)[k]?) (s.noted_call name c))
      | _ => exact .inl rfl
    | deliver callback params =>
      left
      cases callback with
      | shaped =>
        simp only [noted, deliver]
        split <;> rfl
      | trackStart n | trackEnd n =>
        have other : n ≠ k := of_decide_eq_false tracks
        simp only [noted, deliver]
        split
        · exact List.getElem?_set_ne other
        · rfl
      | _ => rfl
    | _ => exact .inl rfl
  | _ => exact .inl rfl

/-- A move leaves a tracker alone that it does not call. -/
theorem Moves.tracker_same (step : Moves s m s') (tracks : m.tracks k = false) :
    s'.tracking k = s.tracking k ∧ (k < s.trackers.length → s'.reporter k = s.reporter k) := by
  unfold System.tracking System.reporter
  rw [step.trackers]
  rcases s.noted_tracker tracks with same | ⟨unknown, name, new⟩
  · rw [same]
    exact ⟨rfl, fun _ => rfl⟩
  · rw [new, unknown]
    refine ⟨rfl, fun known => ?_⟩
    rw [List.getElem?_eq_getElem known] at unknown
    cases unknown

/-- Nothing is told with a move that does not call the tracker. -/
theorem tracked_same (options : Options) (past : List Move) (tracks : m.tracks k = false) :
    tracked options k (m :: past) = tracked options k past := by
  rw [tracked, tracks]
  rfl

/-- **What a tracker tells with a move that calls it.** -/
theorem Run.tracked_passes (run : Run options past s) {t : TaskId} {callback : Callback}
    {params : Json} {a : Answer} (step : Moves s (.did t (.deliver callback params) a) s')
    (tracks : callback.tracks k = true) (known : k < s.trackers.length) :
    s'.tracking k = callback.opens ∧ s'.reporter k = s.reporter k ∧
      tracked options k (.did t (.deliver callback params) a :: past) =
        (tells (s.tracking k) callback.opens).map (s.reporter k, ·) ++ tracked options k past := by
  obtain ⟨tracking, reporter, reports⟩ := s.deliver_tracks params tracks known
  have trackers : s'.trackers = (s.deliver params callback).1.trackers := step.trackers
  refine ⟨?_, ?_, ?_⟩
  · rw [← tracking]
    unfold System.tracking
    rw [trackers]
  · rw [← reporter]
    unfold System.reporter
    rw [trackers]
  · have after : (Worker.replay options past).after (.did t (.deliver callback params) a) = s' :=
      (run.next step).replay
    rw [tracked, after, run.replay]
    refine congrArg (· ++ tracked options k past) ?_
    rw [← step.reports_deliver] at reports
    exact (if_pos tracks).trans (System.gained_of_append reports)

/-- **What a tracker tells with a move**: nothing, or what its call changes. -/
theorem Run.tracked_next (run : Run options past s) (step : Moves s m s') (k : Nat) :
    (tracked options k (m :: past) = tracked options k past ∧ s'.tracking k = s.tracking k ∧
      (k < s.trackers.length → s'.reporter k = s.reporter k)) ∨
    k < s.trackers.length ∧ s'.reporter k = s.reporter k ∧
      tracked options k (m :: past) =
        (tells (s.tracking k) (s'.tracking k)).map (s.reporter k, ·) ++ tracked options k past := by
  have apart (tracks : m.tracks k = false) :
      tracked options k (m :: past) = tracked options k past ∧ s'.tracking k = s.tracking k ∧
        (k < s.trackers.length → s'.reporter k = s.reporter k) :=
    ⟨tracked_same options past tracks, step.tracker_same tracks⟩
  cases concerns k m with
  | takes move => exact .inl (apart (by rw [move]; rfl))
  | neither _ tracks => exact .inl (apart tracks)
  | @passes t callback params a move tracks =>
    subst move
    rcases Nat.lt_or_ge k s.trackers.length with known | unknown
    · obtain ⟨tracking, reporter, told⟩ := run.tracked_passes step tracks known
      rw [tracking]
      exact .inr ⟨known, reporter, told⟩
    · have nothing := s.deliver_unknown params tracks unknown
      have trackers : s'.trackers = s.trackers :=
        step.trackers.trans (congrArg System.trackers nothing)
      have reports : s'.reports = [] ++ s.reports :=
        step.reports_deliver.trans (congrArg System.reports nothing)
      have after : (Worker.replay options past).after (.did t (.deliver callback params) a) = s' :=
        (run.next step).replay
      refine .inl ⟨?_, ?_, fun known => absurd known (Nat.not_lt.mpr unknown)⟩
      · rw [tracked, after, run.replay, System.gained_of_append reports, ite_self]
        rfl
      · unfold System.tracking
        rw [trackers]

end Tells

/-! ## The alternation -/

section Alternation

variable {options : Options} {past : List Move} {s s' : System} {m : Move} {k : Nat}

/-- How what a tracker told goes with what it takes to be under way. -/
structure Alternates (options : Options) (past : List Move) (s : System) (k : Nat) : Prop where
  told : (tracked options k past).reverse =
    (List.range (tracked options k past).length).map fun i => (s.reporter k, turnOf i)
  flag : s.tracking k = decide ((tracked options k past).length % 2 = 1)
  known : tracked options k past ≠ [] → k < s.trackers.length

/-- One more turn. -/
theorem Alternates.turn {calls : List (String × Progress)} {name : String} {was : Bool} (now : Bool)
    (told : calls.reverse = (List.range calls.length).map fun i => (name, turnOf i))
    (flag : was = decide (calls.length % 2 = 1)) :
    let calls' := (tells was now).map (name, ·) ++ calls
    calls'.reverse = ((List.range calls'.length).map fun i => (name, turnOf i)) ∧
      now = decide (calls'.length % 2 = 1) := by
  unfold tells
  by_cases same : now = was
  · rw [if_pos same, same]
    exact ⟨told, flag⟩
  · rw [if_neg same]
    have flipped : now = !was := by
      cases now <;> cases was <;> first | rfl | exact absurd rfl same
    have turned : (if now then beginning else Progress.finish) = turnOf calls.length := by
      unfold turnOf
      rcases Nat.mod_two_eq_zero_or_one calls.length with even | odd
      · simp [flipped, flag, even]
      · simp [flipped, flag, odd]
    refine ⟨?_, ?_⟩
    · show (_ :: calls).reverse = (List.range (calls.length + 1)).map _
      rw [List.reverse_cons, told, List.range_succ, List.map_append, turned]
      rfl
    · show now = decide ((calls.length + 1) % 2 = 1)
      rcases Nat.mod_two_eq_zero_or_one calls.length with even | odd
      · simp [flipped, flag, even, Nat.add_mod]
      · simp [flipped, flag, odd, Nat.add_mod]

/-- **A tracker reports and ends in turn in every run.** -/
theorem Run.alternates (run : Run options past s) (k : Nat) : Alternates options past s k := by
  induction run with
  | start => exact ⟨rfl, rfl, fun spoke => absurd rfl spoke⟩
  | @next past s s' m run step ih =>
    rcases run.tracked_next step k with ⟨same, tracking, reporter⟩ | ⟨known, reporter, told⟩
    · refine ⟨?_, ?_, ?_⟩
      · rw [same, ih.told]
        refine List.map_congr_left fun i among => ?_
        have spoke : tracked options k past ≠ [] := by
          intro none
          rw [none] at among
          cases among
        rw [reporter (ih.known spoke)]
      · rw [same, tracking]
        exact ih.flag
      · rw [same]
        exact fun spoke => Nat.lt_of_lt_of_le (ih.known spoke) step.trackers_le
    · obtain ⟨turned, flag⟩ := Alternates.turn (s'.tracking k) ih.told ih.flag
      refine ⟨?_, ?_, fun _ => Nat.lt_of_lt_of_le known step.trackers_le⟩
      · rw [told, reporter]
        exact turned
      · rw [told]
        exact flag

end Alternation

/-! ## One notification at a time -/

section OneByOne

variable {options : Options} {past : List Move} {s s' : System} {m : Move} {k : Nat}

/-- How a tracker keeps up with notifications that reach it one at a time. -/
inductive Keeps (options : Options) (past : List Move) (s : System) (k : Nat) : Prop
  /-- It was told of all that were taken for it, -/
  | quiet (hand : ∀ t, s.handFor k t = [])
      (told : (tracked options k past).map Prod.snd = changes (heard options k past))
      (flag : s.tracking k = underway (heard options k past))
  /-- or of all but the last. -/
  | busy {t : TaskId} {callback : Callback} {method : String} {before : List String}
      (hand : ∀ u, s.handFor k u = if u = t then [callback] else [])
      (taken : heard options k past = method :: before)
      (called : callbackOf k method = some callback) (known : k < s.trackers.length)
      (told : (tracked options k past).map Prod.snd = changes before)
      (flag : s.tracking k = underway before)

theorem heard_same (options : Options) (k : Nat) (past : List Move) (taking : m.taking? = none) :
    heard options k (m :: past) = heard options k past := by
  rw [heard, taking]
  rfl

theorem heard_takes (options : Options) (k : Nat) (past : List Move) (t : TaskId)
    (c : ConnectionId) (n : Notification) :
    heard options k (.did t (.receive c) (.received (some n)) :: past) =
      (if subscribed options past k n.method then [n.method] else []) ++ heard options k past := by
  simp only [heard, Move.taking?, Option.map_some, Option.filter_some]
  split <;> rfl

/-- Nobody has a notification in hand for the tracker when all that were taken were passed to it. -/
theorem Keeps.quiet_of_caughtUp (h : Keeps options past s k) (caughtUp : s.caughtUp k = true) :
    (tracked options k past).map Prod.snd = changes (heard options k past) ∧
      s.tracking k = underway (heard options k past) := by
  cases h with
  | quiet _ told flag => exact ⟨told, flag⟩
  | @busy t _ _ _ hand =>
    have some := hand t
    rw [System.handFor_of_caughtUp caughtUp, if_pos rfl] at some
    cases some

/-- A move that has nothing to do with the tracker. -/
theorem Keeps.neither (h : Keeps options past s k) (run : Run options past s)
    (step : Moves s m s') (taking : m.taking? = none) (tracks : m.tracks k = false) :
    Keeps options (m :: past) s' k := by
  have hand := run.handFor_same step taking tracks
  have flag := (step.tracker_same tracks).1
  have told := tracked_same options past tracks
  have taken := heard_same options k past taking
  cases h with
  | quiet free told' flag' =>
    refine .quiet (fun t => (hand t).trans (free t)) ?_ ?_
    · rw [told, taken]
      exact told'
    · rw [flag, taken]
      exact flag'
  | busy one taken' called known told' flag' =>
    refine .busy (fun u => (hand u).trans (one u)) (taken.trans taken') called
      (Nat.lt_of_lt_of_le known step.trackers_le) ?_ (flag.trans flag')
    rw [told]
    exact told'

/-- A notification is passed to the tracker. -/
theorem Keeps.passes (h : Keeps options past s k) (run : Run options past s) {t : TaskId}
    {callback : Callback} {params : Json} {a : Answer}
    (step : Moves s (.did t (.deliver callback params) a) s') (tracks : callback.tracks k = true) :
    Keeps options (.did t (.deliver callback params) a :: past) s' k := by
  have passed := run.handFor_passes step tracks
  have own := passed t
  rw [if_pos rfl] at own
  cases h with
  | quiet free =>
    rw [free t] at own
    cases List.append_eq_nil_iff.mp own.symm |>.2
  | @busy u one method before hand taken called known told flag =>
    have holder : t = u := by
      by_contra other
      rw [hand t, if_neg other] at own
      cases List.append_eq_nil_iff.mp own.symm |>.2
    subst holder
    rw [hand t, if_pos rfl] at own
    change [] ++ [one] = _ at own
    obtain ⟨none, same⟩ := List.append_inj' own rfl
    obtain rfl := (List.cons.inj same).1
    obtain ⟨tracking, -, told'⟩ := run.tracked_passes step tracks known
    have opens := opens_of_callbackOf called before
    have taken' := heard_same options k past (m := .did t (.deliver one params) a) rfl
    refine .quiet (fun v => ?_) ?_ ?_
    · by_cases mine : v = t
      · rw [mine]
        exact none.symm
      · have other := passed v
        rw [hand v, if_neg mine, List.append_nil] at other
        exact other.symm
    · rw [told', taken', taken, List.map_append, told, flag, opens, List.map_map]
      exact congrArg (· ++ changes before) (List.map_id _)
    · rw [tracking, taken', taken]
      exact opens

/-- A notification is taken. -/
theorem Keeps.takes (h : Keeps options past s k) (run : Run options past s) {t : TaskId}
    {c : ConnectionId} {n : Notification}
    (step : Moves s (.did t (.receive c) (.received (some n))) s')
    (caughtUp : s.caughtUp k = true) :
    Keeps options (.did t (.receive c) (.received (some n)) :: past) s' k := by
  obtain ⟨told, flag⟩ := h.quiet_of_caughtUp caughtUp
  have hand (u : TaskId) : s'.handFor k u =
      if u = t ∧ subscribed options past k n.method then (callbackOf k n.method).toList else [] := by
    rw [run.handFor_takes step k u, System.handFor_of_caughtUp caughtUp, List.append_nil]
  have same : (Move.did t (.receive c) (.received (some n))).tracks k = false := rfl
  have told' := tracked_same options past same
  have flag' := (step.tracker_same same).1
  have taken := heard_takes options k past t c n
  by_cases known : subscribed options past k n.method = true
  · rw [if_pos known] at taken
    obtain ⟨callback, called⟩ := run.called_of_subscribed known
    refine .busy (t := t) (fun u => ?_) taken called ?_ ?_ (flag'.trans flag)
    · rw [hand u, known, called]
      simp
    · exact Nat.lt_of_lt_of_le (run.known_of_subscribed known) step.trackers_le
    · rw [told']
      exact told
  · rw [if_neg known, List.nil_append] at taken
    refine .quiet (fun u => ?_) ?_ ?_
    · rw [hand u, if_neg fun own => known own.2]
    · rw [told', taken]
      exact told
    · rw [flag', taken]
      exact flag

/-- **A tracker keeps up with notifications that reach it one at a time.** -/
theorem Run.keeps (run : Run options past s) (single : oneByOne options k past = true) :
    Keeps options past s k := by
  induction run with
  | start => exact .quiet (fun _ => rfl) rfl rfl
  | @next past s s' m run step ih =>
    obtain ⟨caughtUp, single⟩ := Bool.and_eq_true_iff.mp single
    have before := ih single
    cases concerns k m with
    | takes move =>
      subst move
      rw [run.replay] at caughtUp
      exact before.takes run step caughtUp
    | passes move tracks =>
      subst move
      exact before.passes run step tracks
    | neither taking tracks => exact before.neither run step taking tracks

end OneByOne

/-! ## When a subscription was used up -/

/-- What becomes of a tracker whose subscription was used up in the moves `before`. -/
structure Withdrawn (options : Options) (k : Nat) (before past : List Move) (s : System) :
    Prop where
  /-- It is not registered any more, -/
  gone : ∀ method, subscribed options past k method = false
  /-- and nothing that is taken counts. -/
  unheard : heard options k past = heard options k before
  /-- What a task passed to it, or has in hand for it, was taken before. -/
  passed : ∀ t, s.handFor k t ++ forTracker k (passes t past) =
    forTracker k ((takings options t before).flatMap Taking.passed)
  /-- So it tells nothing more if nobody had anything in hand for it. -/
  silent : (replay options before).caughtUp k = true →
    tracked options k past = tracked options k before ∧ ∀ t, s.handFor k t = []

section Withdrawal

variable {options : Options} {before past : List Move} {s s' : System} {m : Move} {k : Nat}

theorem forTracker_passes_cons (k : Nat) (t : TaskId) (m : Move) (past : List Move) :
    forTracker k (passes t (m :: past)) =
      forTracker k (passes t [m]) ++ forTracker k (passes t past) := by
  show forTracker k (passes t ([m] ++ past)) = _
  simp only [passes, deeds, List.filterMap_append, forTracker_append]

/-- A subscription was used up. -/
theorem Withdrawn.now (run : Run options before s)
    (gone : ∀ method, subscribed options before k method = false) :
    Withdrawn options k before before s := by
  refine ⟨gone, rfl, fun t => ?_, fun caughtUp => ⟨rfl, fun t => ?_⟩⟩
  · rw [← (run.settles t).passed, forTracker_append]
    rfl
  · rw [run.replay] at caughtUp
    exact System.handFor_of_caughtUp caughtUp t

/-- Nothing of it comes back with a move. -/
theorem Withdrawn.next (h : Withdrawn options k before past s) (run : Run options past s)
    (placed : s.Placed k) (step : Moves s m s') :
    Withdrawn options k before (m :: past) s' := by
  have hand (t : TaskId) : s'.handFor k t ++ forTracker k (passes t [m]) = s.handFor k t := by
    have next := run.handFor_next step k t
    cases takes : m.takes? t with
    | none =>
      rw [takes] at next
      exact next
    | some taken =>
      rw [takes, Option.elim_some, h.gone] at next
      exact next
  refine ⟨fun method => run.unsubscribed placed step (h.gone method), ?_, ?_, ?_⟩
  · rw [heard, h.unheard]
    cases m.taking? with
    | none => rfl
    | some n =>
      rw [Option.map_some, Option.filter_some, h.gone]
      rfl
  · intro t
    rw [forTracker_passes_cons, ← List.append_assoc, hand t]
    exact h.passed t
  · intro caughtUp
    obtain ⟨told, free⟩ := h.silent caughtUp
    have nothing (t : TaskId) := List.append_eq_nil_iff.mp ((hand t).trans (free t))
    refine ⟨?_, fun t => (nothing t).1⟩
    rw [← told]
    cases concerns k m with
    | takes move => exact tracked_same options past (by rw [move]; rfl)
    | neither _ tracks => exact tracked_same options past tracks
    | @passes t callback params a move tracks =>
      have passed := (nothing t).2
      rw [move, passes, deeds_did] at passed
      change List.filter (Callback.tracks k) [callback] = [] at passed
      rw [List.filter_cons_of_pos tracks] at passed
      cases passed

/-- **A tracker that is gone** is not called for what is taken afterwards. -/
theorem Run.withdrawn_since {later : List Move} (run : Run options (later ++ before) s)
    (placed : (Worker.replay options before).Placed k)
    (gone : ∀ method, subscribed options before k method = false) :
    s.Placed k ∧ Withdrawn options k before (later ++ before) s := by
  induction later generalizing s with
  | nil =>
    obtain rfl := Run.replay run
    exact ⟨placed, .now run gone⟩
  | cons _ later ih =>
    cases run with
    | next run step =>
      obtain ⟨placed, withdrawn⟩ := ih run
      exact ⟨placed.next run step, withdrawn.next run placed step⟩

end Withdrawal

/-! ## The law -/

/-- What a tracker tells of refreshes. -/
structure Tracked (options : Options) (past : List Move) (s : System) (k : Nat) : Prop where
  /-- It reports, ends, reports, and so on, to one reporter. -/
  alternates : (tracked options k past).reverse =
    (List.range (tracked options k past).length).map fun i => (s.reporter k, turnOf i)
  /-- It is called once for each notification of a method for which it is registered, and is
  registered for none but its two, -/
  audience : ∀ method,
    ((registered options past method).filter fun g => g.callback.tracks k).map (·.callback) =
      if subscribed options past k method then (callbackOf k method).toList else []
  /-- for both or for neither, unless a task is about to register it for the second or has yet to
  remove it. -/
  halves : subscribed options past k refreshStarted ≠ subscribed options past k refresh →
    (∃ t holder started, Instr.trackRest holder k started ∈ s.pool.stack t) ∨
      ∃ t, ∃ g ∈ ofTracker options past k, g.right ∈ s.leaving t
  /-- Whatever subscription is held stands for all its registrations or for none. -/
  paired : ∀ who, ∀ g ∈ ofTracker options past k, ∀ g' ∈ ofTracker options past k,
    g.right ∈ s.holdings.rights who ↔ g'.right ∈ s.holdings.rights who
  /-- Of notifications that reach it one at a time it tells those that change whether a refresh is
  under way, -/
  told : oneByOne options k past = true → s.caughtUp k = true →
    (tracked options k past).map Prod.snd = changes (heard options k past)
  /-- so that its last report has not ended exactly if the last of them says that one begins. -/
  unended : oneByOne options k past = true → s.caughtUp k = true →
    ((tracked options k past).head? = some (s.reporter k, beginning) ↔
      underway (heard options k past) = true)
  /-- Once it was removed from a method it is not registered for it again, -/
  removed : ∀ later m before method, past = later ++ m :: before →
    withdraws options k method before m = true → subscribed options past k method = false
  /-- and what is taken after its subscription was used up leads to nothing: after whoever held a
  part of it gave it up, and has nothing left to remove. -/
  withdrawn : ∀ later mid t holder a before,
    past = later ++ (mid ++ .did t (.act (.dispose holder)) a :: before) →
    (∃ g ∈ ofTracker options before k, g.right ∈ (replay options before).holdings.rights holder) →
    (replay options (mid ++ .did t (.act (.dispose holder)) a :: before)).leaving t = [] →
    Withdrawn options k (mid ++ .did t (.act (.dispose holder)) a :: before) past s

/-- The last turn is a report exactly if the number of turns is odd. -/
theorem head?_of_turns {calls : List (String × Progress)} {name : String}
    (told : calls.reverse = (List.range calls.length).map fun i => (name, turnOf i)) :
    calls.head? = some (name, beginning) ↔ calls.length % 2 = 1 := by
  have last : calls.head? = ((List.range calls.length).map fun i => (name, turnOf i)).getLast? := by
    rw [← told, List.getLast?_reverse]
  rw [last]
  cases calls.length with
  | zero => exact iff_of_false nofun nofun
  | succ n =>
    rw [List.range_succ, List.map_append]
    show (_ ++ [(name, turnOf n)]).getLast? = _ ↔ _
    rw [List.getLast?_concat, Option.some_inj, Prod.mk.injEq, turnOf]
    rcases Nat.mod_two_eq_zero_or_one n with even | odd
    · simp [even, Nat.add_mod]
    · simp [odd, Nat.add_mod, beginning]

/-- **A tracker tells of a refresh when it begins and when it ends**, whatever the worker says. -/
theorem tracked_of_run {options : Options} {past : List Move} {s : System}
    (run : Run options past s) (k : Nat) : Tracked options past s k where
  alternates := (run.alternates k).told
  audience := run.audience k
  halves := run.halves
  paired who _ here _ there := run.paired here there who
  told single caughtUp := ((run.keeps single).quiet_of_caughtUp caughtUp).1
  unended single caughtUp := by
    have alternates := run.alternates k
    have flag := ((run.keeps single).quiet_of_caughtUp caughtUp).2
    rw [head?_of_turns alternates.told, ← flag, alternates.flag]
    exact decide_eq_true_iff.symm
  removed later m before method split removed := by
    subst split
    have then_ := run.earlier
    cases then_ with
    | next earlier step =>
      obtain ⟨placed, gone⟩ := earlier.withdrawn step removed
      exact (run.unsubscribed_since (placed.next earlier step) gone).2
  withdrawn later mid t holder a before split held through := by
    subst split
    obtain ⟨g, here, held⟩ := held
    have surrendered := run.earlier.surrendered_since here held
    exact (run.withdrawn_since surrendered.placed (surrendered.gone through)).2

/-- A worker begins to refresh and is through while a tracker is being registered, which hears the
first only. It begins again and crashes, and the next one is through. Then the subscription is
disposed of, and the worker begins once more. -/
theorem tracked_of_crash : ∃ past s, Run .standard past s ∧
    heard .standard 0 past = [refresh, refreshStarted, refreshStarted] ∧
    tracked .standard 0 past = [("a", .finish), ("a", beginning)] ∧
    oneByOne .standard 0 past = true ∧ s.caughtUp 0 = true ∧
    (∃ later mid t holder a before,
      past = later ++ (mid ++ .did t (.act (.dispose holder)) a :: before) ∧
      (∃ g ∈ ofTracker .standard before 0,
        g.right ∈ (replay .standard before).holdings.rights holder) ∧
      (replay .standard (mid ++ .did t (.act (.dispose holder)) a :: before)).leaving t = []) ∧
    Tracked .standard past s 0 := by
  have asked := Run.start.next (.ask (.initial .standard) (.start (some ⟨[47]⟩)))
  have acted := asked.next (.act (t := 0) (a := .nothing) rfl rfl rfl)
  have handled := acted.next (.act (t := 0) (a := .nothing) rfl rfl rfl)
  have performed := handled.next (.act (t := 0) (a := .nothing) rfl rfl rfl)
  have launched := performed.next (.act (t := 1) (a := .launched (.ok ⟨7, none⟩)) rfl rfl rfl)
  have running := launched.next (.act (t := 1) (a := .nothing) rfl rfl rfl)
  have wanted := running.next (.ask _ (.track "a"))
  have half := wanted.next (.act (t := 4) (a := .nothing) rfl rfl rfl)
  have begun := half.next
    (.act (t := 3) (a := .received (some ⟨refreshStarted, none⟩)) rfl rfl rfl)
  have told := begun.next (.act (t := 3) (a := .nothing) rfl rfl rfl)
  have missed := told.next (.act (t := 3) (a := .received (some ⟨refresh, none⟩)) rfl rfl rfl)
  have whole := missed.next (.act (t := 4) (a := .nothing) rfl rfl rfl)
  have again := whole.next
    (.act (t := 3) (a := .received (some ⟨refreshStarted, none⟩)) rfl rfl rfl)
  have ignored := again.next (.act (t := 3) (a := .nothing) rfl rfl rfl)
  have crashed := ignored.next (.act (t := 2) (a := .exited (.exited none)) rfl rfl rfl)
  have noticed := crashed.next (.act (t := 2) (a := .nothing) rfl rfl rfl)
  have left := noticed.next (.act (t := 2) (a := .nothing) rfl rfl rfl)
  have idle := left.next (.act (t := 5) (a := .nothing) rfl rfl rfl)
  have asked' := idle.next (.ask _ (.start none))
  have acted' := asked'.next (.act (t := 6) (a := .nothing) rfl rfl rfl)
  have handled' := acted'.next (.act (t := 6) (a := .nothing) rfl rfl rfl)
  have performed' := handled'.next (.act (t := 6) (a := .nothing) rfl rfl rfl)
  have launched' := performed'.next (.act (t := 7) (a := .launched (.ok ⟨8, none⟩)) rfl rfl rfl)
  have running' := launched'.next (.act (t := 7) (a := .nothing) rfl rfl rfl)
  have through := running'.next (.act (t := 9) (a := .received (some ⟨refresh, none⟩)) rfl rfl rfl)
  have ended := through.next (.act (t := 9) (a := .nothing) rfl rfl rfl)
  have given := ended.next (.ask _ (.dispose "a"))
  have disposed := given.next (.act (t := 10) (a := .nothing) rfl rfl rfl)
  have parted := disposed.next (.act (t := 10) (a := .nothing) rfl rfl rfl)
  have deaf := parted.next (.act (t := 10) (a := .nothing) rfl rfl rfl)
  have gone := deaf.next (.act (t := 10) (a := .nothing) rfl rfl rfl)
  have unheard := gone.next
    (.act (t := 9) (a := .received (some ⟨refreshStarted, none⟩)) rfl rfl rfl)
  exact ⟨_, _, unheard, by decide +kernel, by decide +kernel, by decide +kernel,
    by decide +kernel, ⟨[_], [_, _, _], _, _, _, _, rfl, by decide +kernel, by decide +kernel⟩,
    tracked_of_run unheard 0⟩

end Supervision.Worker
