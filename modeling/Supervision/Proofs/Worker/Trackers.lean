import Supervision.Proofs.Worker.Rights

/-!
# How trackers are registered

A tracker listens for the beginning and for the end of refreshes. It is registered for the one and
then for the other, and may be called in between; its subscription is used up in the same way, one
half after the other. Subscriptions are handed on and made into others, and that of a tracker may
come to stand beside any number of others; but nobody can take its two halves apart.

`Standing` says how far a tracker has come, and who has a right to it by then. Every run leaves
every tracker at one of these stages (`Run.standing`). So a tracker is called at most once for each
notification of its two methods (`Run.audience`), and it is registered for one method only just as
long as a task has yet to register it for the other or to remove it (`Run.halves`). What was
registered and removed does not come back (`Run.unsubscribed`).
-/

namespace Supervision.Worker

open Message

/-! ## Callbacks of trackers -/

/-- Whether a callback is one of the two of a tracker. -/
def Callback.tracks (k : Nat) : Callback → Bool
  | .trackStart n | .trackEnd n => n = k
  | _ => false

/-- How a tracker is called for notifications of a method. -/
def callbackOf (k : Nat) (method : String) : Option Callback :=
  if method = refreshStarted then some (.trackStart k)
  else if method = refresh then some (.trackEnd k)
  else none

/-- The right to remove a registration. -/
def Registration.right (g : Registration) : String × Nat :=
  (g.method, g.number)

/-- What is registered of a tracker after a history. -/
def ofTracker (options : Options) (past : List Move) (k : Nat) : List Registration :=
  (registrations options past).filter fun g => g.callback.tracks k

section Registered

variable {options : Options} {past : List Move} {s s' : System} {m : Move} {k : Nat}

theorem mem_ofTracker {g : Registration} : g ∈ ofTracker options past k ↔
    g ∈ registrations options past ∧ g.callback.tracks k = true :=
  List.mem_filter

/-- Registrations are known by their numbers. -/
theorem eq_of_number {g g' : Registration} (here : g ∈ registrations options past)
    (there : g' ∈ registrations options past) (same : g.number = g'.number) : g = g' := by
  have numbers : ((registrations options past).map (·.number)).Nodup :=
    List.pairwise_map.mpr ((registrations_sorted options past).imp Nat.ne_of_lt)
  exact List.inj_on_of_nodup_map numbers here there same

theorem Run.number_lt_next (run : Run options past s) {g : Registration}
    (here : g ∈ registrations options past) : g.right.2 < s.listeners.next := by
  rw [run.enrolled.count]
  exact number_lt options past g here

/-- Nothing of a tracker is registered with a move: what there was is still there, but for what is
removed. -/
theorem Run.ofTracker_idle (run : Run options past s)
    (idle : ∀ entry ∈ s.registers m, entry.2.tracks k = false) :
    ofTracker options (m :: past) k =
      (ofTracker options past k).filter fun g => g.right ∉ m.disposes.rights := by
  rw [← run.replay] at idle
  rw [ofTracker, registrations_cons, enlist, List.filter_append, List.filter_filter]
  have none : (List.map (fun entry : (String × Callback) × Nat =>
      (⟨entry.2, entry.1.1, entry.1.2⟩ : Registration))
        (((Worker.replay options past).registers m).zipIdx (enrolments options past))).filter
          (fun g => g.callback.tracks k) = [] := by
    refine List.filter_eq_nil_iff.mpr fun g hg => ?_
    obtain ⟨entry, among, rfl⟩ := List.mem_map.mp hg
    rw [idle entry.1 (List.fst_mem_of_mem_zipIdx among)]
    exact Bool.false_ne_true
  rw [none, List.append_nil, ofTracker, List.filter_filter]
  exact List.filter_congr fun g _ => Bool.and_comm _ _

/-- A callback of a tracker is registered with a move that removes nothing. -/
theorem Run.ofTracker_registers (run : Run options past s) {method : String} {callback : Callback}
    (registers : s.registers m = [(method, callback)]) (disposes : m.disposes = .spent)
    (tracks : callback.tracks k = true) : ofTracker options (m :: past) k =
      ofTracker options past k ++ [⟨s.listeners.next, method, callback⟩] := by
  rw [ofTracker, registrations_cons, enlist, run.replay, registers, disposes, run.enrolled.count,
    List.filter_append]
  simp [Subscription.rights, ofTracker, tracks]

end Registered

/-! ## What a move does for a tracker -/

/-- What a move registers, and how many trackers there are after it. -/
inductive Entries (s : System) (m : Move) : Prop
  | nothing (registers : s.registers m = []) (count : (s.noted m).1.length = s.trackers.length)
  | other {method : String} {callback : Callback} (registers : s.registers m = [(method, callback)])
      (tracks : ∀ k, callback.tracks k = false) (count : (s.noted m).1.length = s.trackers.length)
  | begins {t : TaskId} {holder : String} {a : Answer} (move : m = .did t (.act (.track holder)) a)
      (handle : s.handle = true)
  | rests {t : TaskId} {holder : String} {k : Nat} {started : Subscription String} {a : Answer}
      (move : m = .did t (.trackRest holder k started) a)

theorem entries_act (s : System) (t : TaskId) (a : Action) (b : Answer) :
    Entries s (.did t (.act a) b) := by
  cases a with
  | listen listener wish =>
    cases handle : s.handle with
    | true =>
      refine .other (if_pos handle) ?_ ?_
      · intro k
        cases wish <;> rfl
      · simp only [System.noted, System.act, handle, if_true]
        rfl
    | false =>
      refine .nothing (if_neg (by simp [handle])) ?_
      simp only [System.noted, System.act, handle, Bool.false_eq_true, if_false]
  | track holder =>
    cases handle : s.handle with
    | true => exact .begins rfl handle
    | false =>
      refine .nothing (if_neg (by simp [handle])) ?_
      simp only [System.noted, System.act, handle, Bool.false_eq_true, if_false]
  | dispose holder =>
    refine .nothing rfl ?_
    simp only [System.noted, System.act]
    split <;> rfl
  | call name c => exact .nothing rfl (congrArg (List.length ∘ Prod.fst) (s.noted_call name c))
  | _ => exact .nothing rfl rfl

theorem entries_deliver (s : System) (t : TaskId) (callback : Callback) (params : Json)
    (a : Answer) : Entries s (.did t (.deliver callback params) a) := by
  refine .nothing rfl ?_
  cases callback with
  | shaped =>
    simp only [System.noted, System.deliver]
    split <;> rfl
  | trackStart | trackEnd =>
    simp only [System.noted, System.deliver]
    split
    · exact List.length_set
    · rfl
  | _ => rfl

/-- **A move registers one callback**, if any. -/
theorem entries_of_move (s : System) (m : Move) : Entries s m := by
  cases m with
  | did t i a =>
    cases i with
    | act action => exact entries_act s t action a
    | deliver callback params => exact entries_deliver s t callback params a
    | trackRest => exact .rests rfl
    | refreshListen => exact .other rfl (fun _ => rfl) rfl
    | _ => exact .nothing rfl rfl
  | _ => exact .nothing rfl rfl

/-- What a move is to a tracker. -/
inductive Registers (s : System) (k : Nat) (m : Move) : Prop
  /-- It registers nothing of it. -/
  | idle (idle : ∀ entry ∈ s.registers m, entry.2.tracks k = false)
      (count : s.trackers.length ≤ (s.noted m).1.length)
      (unknown : s.trackers.length ≤ k → (s.noted m).1.length ≤ k)
      (apart : ∀ t holder started a, m ≠ .did t (.trackRest holder k started) a)
      (anew : ∀ t holder a, m = .did t (.act (.track holder)) a → s.handle = true →
        k ≠ s.trackers.length)
  /-- It registers it for the beginning of refreshes. -/
  | begins {t : TaskId} {holder : String} {a : Answer} (move : m = .did t (.act (.track holder)) a)
      (handle : s.handle = true) (new : k = s.trackers.length)
  /-- It registers it for the end of refreshes. -/
  | rests {t : TaskId} {holder : String} {started : Subscription String} {a : Answer}
      (move : m = .did t (.trackRest holder k started) a)

/-- A callback that is not the tracker's registers nothing of it. -/
theorem idle_of_single {s : System} {m : Move} {method : String} {callback : Callback} {k : Nat}
    (registers : s.registers m = [(method, callback)]) (other : callback.tracks k = false) :
    ∀ entry ∈ s.registers m, entry.2.tracks k = false := by
  intro entry there
  rw [registers] at there
  rw [List.mem_singleton.mp there]
  exact other

theorem registers_of_move (s : System) (k : Nat) (m : Move) : Registers s k m := by
  cases entries_of_move s m with
  | nothing registers count =>
    refine .idle ?_ (Nat.le_of_eq count.symm) (count ▸ id) ?_ ?_
    · rw [registers]
      exact List.forall_mem_nil _
    · rintro t holder started a rfl
      cases registers
    · rintro t holder a rfl handle
      rw [System.registers, if_pos handle] at registers
      cases registers
  | other registers tracks count =>
    refine .idle (idle_of_single registers (tracks k)) (Nat.le_of_eq count.symm) (count ▸ id) ?_ ?_
    · rintro t holder started a rfl
      cases registers
      exact Bool.noConfusion ((tracks _).symm.trans (decide_eq_true rfl))
    · rintro t holder a rfl handle
      rw [System.registers, if_pos handle] at registers
      cases registers
      exact Bool.noConfusion ((tracks _).symm.trans (decide_eq_true rfl))
  | @begins t holder a move handle =>
    subst move
    have count : (s.noted (.did t (.act (.track holder)) a)).1.length = s.trackers.length + 1 := by
      simp only [System.noted, System.act, handle, if_true]
      exact List.length_append
    by_cases new : k = s.trackers.length
    · exact .begins rfl handle new
    · have other : (Callback.trackStart s.trackers.length).tracks k = false :=
        decide_eq_false (Ne.symm new)
      refine .idle (idle_of_single (if_pos handle) other) (count ▸ Nat.le_succ _)
        (fun unknown => ?_) ?_ fun _ _ _ _ _ => new
      · omega
      · rintro t holder started a ⟨⟩
  | @rests t holder j started a move =>
    subst move
    by_cases own : j = k
    · subst own
      exact .rests rfl
    · have other : (Callback.trackEnd j).tracks k = false := decide_eq_false own
      refine .idle (idle_of_single rfl other) (Nat.le_refl _) id ?_ ?_
      · rintro t holder started a same
        cases same
        exact own rfl
      · rintro t holder a ⟨⟩

/-! ## How far a tracker has come -/

namespace System

/-- No task is about to register a tracker for the end of refreshes. -/
def Calm (s : System) (k : Nat) : Prop :=
  ∀ t holder started, Instr.trackRest holder k started ∉ s.pool.stack t

/-- Nobody may remove something. -/
structure Free (s : System) (right : String × Nat) : Prop where
  held : ∀ who, right ∉ s.holdings.rights who
  left : ∀ t, right ∉ s.leaving t
  carried : ∀ t, right ∉ s.carried t

/-- Whoever may remove one of two may remove the other, and no refresh may remove either. -/
structure Together (s : System) (first second : String × Nat) : Prop where
  held : ∀ who, first ∈ s.holdings.rights who ↔ second ∈ s.holdings.rights who
  left : ∀ t, first ∈ s.leaving t ↔ second ∈ s.leaving t
  carried : ∀ t, first ∉ s.carried t ∧ second ∉ s.carried t

end System

/-- How far a tracker has come. -/
inductive Standing (options : Options) (past : List Move) (s : System) (k : Nat) : Prop
  /-- There is no such tracker yet. -/
  | unknown (unknown : s.trackers.length ≤ k) (none : ofTracker options past k = [])
      (calm : s.Calm k)
  /-- It is registered for the beginning of refreshes, and a task is about to register it for their
  end. Nobody may remove it. -/
  | begun {t : TaskId} {holder : String} {n : Nat} {rest : List Instr}
      (known : k < s.trackers.length)
      (here : s.pool.stack t = .trackRest holder k (.single refreshStarted n) :: rest)
      (sole : ∀ u holder' started, Instr.trackRest holder' k started ∈ s.pool.stack u → u = t)
      (registered : ofTracker options past k = [⟨n, refreshStarted, .trackStart k⟩])
      (free : s.Free (refreshStarted, n))
  /-- It is registered for both. -/
  | whole {n n' : Nat} (known : k < s.trackers.length) (calm : s.Calm k)
      (registered : ofTracker options past k =
        [⟨n, refreshStarted, .trackStart k⟩, ⟨n', refresh, .trackEnd k⟩])
      (together : s.Together (refreshStarted, n) (refresh, n'))
  /-- It is registered for one, from which a task has yet to remove it. -/
  | leaving {t : TaskId} {g : Registration} (known : k < s.trackers.length) (calm : s.Calm k)
      (registered : ofTracker options past k = [g])
      (called : callbackOf k g.method = some g.callback) (leaves : g.right ∈ s.leaving t)
  /-- It was removed from both. -/
  | gone (known : k < s.trackers.length) (calm : s.Calm k) (none : ofTracker options past k = [])

section Stages

variable {options : Options} {past : List Move} {s s' : System} {m : Move} {k : Nat}

theorem Moves.stack_of_did {t : TaskId} {i : Instr} {a : Answer} (step : Moves s (.did t i a) s') :
    ∃ rest, s.pool.stack t = i :: rest := by
  cases step with
  | act found next => exact ⟨_, (Pool.stack_of_get? found).trans next⟩

/-- Trackers stay. -/
theorem Moves.trackers_le (step : Moves s m s') : s.trackers.length ≤ s'.trackers.length := by
  rw [step.trackers]
  cases registers_of_move s (s.trackers.length + 1) m with
  | idle _ count => exact count
  | begins _ _ new => exact absurd new (Nat.succ_ne_self _)
  | rests move =>
    subst move
    exact Nat.le_refl _

/-- **Whoever is about to register a tracker for the end of refreshes** was before, or registers it
for their beginning with this move. -/
theorem Run.trackRest_next (run : Run options past s) (step : Moves s m s') {u : TaskId}
    {holder : String} {started : Subscription String}
    (there : Instr.trackRest holder k started ∈ s'.pool.stack u) :
    Instr.trackRest holder k started ∈ s.pool.stack u ∨
      ∃ a, m = .did u (.act (.track holder)) a ∧ s.handle = true ∧ k = s.trackers.length ∧
        started = .single refreshStarted s.listeners.next := by
  have numbered := (Sound.of_run run).numbered
  cases step.turns numbered u with
  | same _ stack => exact .inl (stack ▸ there)
  | @went i rest before a caller r move next exec stack =>
    rw [stack] at there
    rcases List.mem_append.mp there with left | later
    · cases urgent : i.urgent with
      | false =>
        rcases exec_urgent exec urgent with ⟨holder', rfl, handle, rfl⟩ | ⟨_, c, -, -, rfl⟩ | calm
        · cases List.mem_singleton.mp left
          exact .inr ⟨a, move, handle, rfl, rfl⟩
        · cases List.mem_singleton.mp left
        · cases calm _ left
      | true =>
        have leads := exec_leads exec _ left
        cases i with
        | act => cases urgent
        | _ => cases leads
    · exact .inl (next ▸ List.mem_cons_of_mem _ later)
  | begun _ _ opens stack =>
    rw [stack] at there
    rw [← List.mem_singleton.mp there] at opens
    cases opens
  | dropped _ _ _ stack =>
    rw [stack] at there
    cases there

/-- Nobody is about to register a tracker that was not begun. -/
theorem Run.calm_next (run : Run options past s) (step : Moves s m s') (calm : s.Calm k)
    (anew : ∀ t holder a, m = .did t (.act (.track holder)) a → s.handle = true →
      k ≠ s.trackers.length) : s'.Calm k := by
  intro u holder started there
  rcases run.trackRest_next step there with before | ⟨a, move, handle, new, -⟩
  · exact calm u holder started before
  · exact anew u holder a move handle new

/-- What stands first goes on standing there until it is done. -/
theorem Run.head_next (run : Run options past s) (step : Moves s m s') {t : TaskId} {i : Instr}
    {rest : List Instr} (here : s.pool.stack t = i :: rest) (stays : i.waits = false)
    (apart : ∀ a, m ≠ .did t i a) : s'.pool.stack t = i :: rest := by
  have numbered := (Sound.of_run run).numbered
  cases step.turns numbered t with
  | same _ stack => exact stack.trans here
  | went move next =>
    rw [here] at next
    obtain ⟨rfl, -⟩ := List.cons.inj next
    exact absurd move (apart _)
  | begun _ new =>
    rw [numbered.stack_of_new new] at here
    cases here
  | dropped _ next waits =>
    rw [here] at next
    obtain ⟨rfl, -⟩ := List.cons.inj next
    rw [stays] at waits
    cases waits

/-- What a user gives up he held. -/
theorem held_of_surrenders {t : TaskId} {right : String × Nat} (given : right ∈ s.surrenders t m) :
    ∃ holder a, m = .did t (.act (.dispose holder)) a ∧ right ∈ s.holdings.rights holder := by
  cases m with
  | did u i a =>
    cases i with
    | act action =>
      cases action with
      | dispose holder =>
        by_cases own : u = t
        · subst own
          rw [System.surrenders, if_pos rfl] at given
          exact ⟨holder, a, rfl, given⟩
        · rw [System.surrenders, if_neg own] at given
          cases given
      | _ => cases given
    | _ => cases given
  | _ => cases given

/-- What nobody may remove is not removed, -/
theorem System.Free.kept {right : String × Nat} (free : s.Free right) (step : Moves s m s') :
    right ∉ m.disposes.rights := by
  intro removed
  rcases step.disposed removed with ⟨t, -, leaving⟩ | ⟨t, carried⟩
  · exact free.left t leaving
  · exact free.carried t carried

/-- and nobody may remove it after a move that does not hand it over. -/
theorem System.Free.next {right : String × Nat} (free : s.Free right) (run : Run options past s)
    (step : Moves s m s') (old : right.2 < s.listeners.next) (apart : right ∉ m.hands) :
    s'.Free right := by
  refine ⟨fun who now => ?_, fun t now => ?_, fun t now => ?_⟩
  · obtain ⟨names, same⟩ := step.held who
    obtain ⟨name, -, had⟩ := (same right old apart).mp now
    exact free.held name had
  · rcases (run.leaving_next step (free.kept step) t).mp now with before | given
    · exact free.left t before
    · obtain ⟨holder, -, -, had⟩ := held_of_surrenders given
      exact free.held holder had
  · rcases run.carried_next step now with before | ⟨-, rfl⟩
    · exact free.carried t before
    · exact Nat.lt_irrefl _ old

/-- **Two that go together** go together after a move that leaves both and hands over neither. -/
theorem System.Together.next {first second : String × Nat} (together : s.Together first second)
    (run : Run options past s) (step : Moves s m s') (old : first.2 < s.listeners.next)
    (old' : second.2 < s.listeners.next) (apart : first ∉ m.hands) (apart' : second ∉ m.hands)
    (kept : first ∉ m.disposes.rights) (kept' : second ∉ m.disposes.rights) :
    s'.Together first second := by
  refine ⟨fun who => ?_, fun t => ?_, fun t => ⟨fun now => ?_, fun now => ?_⟩⟩
  · obtain ⟨names, same⟩ := step.held who
    rw [same first old apart, same second old' apart']
    exact exists_congr fun name => and_congr_right fun _ => together.held name
  · rw [run.leaving_next step kept t, run.leaving_next step kept' t]
    refine or_congr (together.left t) ⟨fun given => ?_, fun given => ?_⟩
    · obtain ⟨holder, a, rfl, had⟩ := held_of_surrenders given
      rw [System.surrenders, if_pos rfl]
      exact (together.held holder).mp had
    · obtain ⟨holder, a, rfl, had⟩ := held_of_surrenders given
      rw [System.surrenders, if_pos rfl]
      exact (together.held holder).mpr had
  · rcases run.carried_next step now with before | ⟨-, rfl⟩
    · exact (together.carried t).1 before
    · exact Nat.lt_irrefl _ old
  · rcases run.carried_next step now with before | ⟨-, rfl⟩
    · exact (together.carried t).2 before
    · exact Nat.lt_irrefl _ old'

/-- A tracker that a task is about to register for the end of refreshes was begun. -/
theorem Standing.of_trackRest (h : Standing options past s k) {t : TaskId} {holder : String}
    {started : Subscription String} {rest : List Instr}
    (first : s.pool.stack t = .trackRest holder k started :: rest) :
    ∃ n, started = .single refreshStarted n ∧ k < s.trackers.length ∧
      (∀ u holder' other, Instr.trackRest holder' k other ∈ s.pool.stack u → u = t) ∧
      ofTracker options past k = [⟨n, refreshStarted, .trackStart k⟩] ∧
      s.Free (refreshStarted, n) := by
  have there : Instr.trackRest holder k started ∈ s.pool.stack t := first ▸ List.mem_cons_self
  cases h with
  | @begun u _ n _ known here sole registered free =>
    obtain rfl := sole t holder started there
    rw [first] at here
    cases here
    exact ⟨n, rfl, known, sole, registered, free⟩
  | unknown _ _ calm => exact absurd there (calm t holder started)
  | whole _ calm => exact absurd there (calm t holder started)
  | leaving _ calm => exact absurd there (calm t holder started)
  | gone _ calm => exact absurd there (calm t holder started)

/-- **What is handed over with a move** belongs to the tracker that the move registers. -/
theorem Moves.apart_of_hands (step : Moves s m s')
    (stages : ∀ j, Standing options past s j) {g : Registration}
    (here : g ∈ ofTracker options past k)
    (apart : ∀ t holder started a, m ≠ .did t (.trackRest holder k started) a) :
    g.right ∉ m.hands := by
  intro handed
  cases m with
  | did t i a =>
    cases i with
    | trackRest holder j started =>
      obtain ⟨rest, first⟩ := step.stack_of_did
      obtain ⟨n, rfl, -, -, registered, -⟩ := (stages j).of_trackRest first
      have same : g.right = (refreshStarted, n) := List.mem_singleton.mp handed
      have other : ⟨n, refreshStarted, .trackStart j⟩ ∈ registrations options past :=
        (mem_ofTracker.mp (registered ▸ List.mem_singleton_self _)).1
      obtain ⟨there, tracks⟩ := mem_ofTracker.mp here
      obtain rfl := eq_of_number there other (Prod.mk.inj same).2
      obtain rfl : j = k := of_decide_eq_true tracks
      exact apart t holder _ a rfl
    | _ => cases handed
  | _ => cases handed

/-! ### One move -/

/-- What a task does first, and what there is instead of it then. -/
theorem Run.stack_did (run : Run options past s) {t : TaskId} {i : Instr} {a : Answer}
    (step : Moves s (.did t i a) s') : ∃ caller r before rest,
      s.exec t caller i a = some (r, before) ∧ s.pool.stack t = i :: rest ∧
        s'.pool.stack t = before ++ rest := by
  cases step.turns (Sound.of_run run).numbered t with
  | same other => exact absurd rfl (other i a)
  | went move next exec stack =>
    cases move
    exact ⟨_, _, _, _, exec, next, stack⟩
  | begun other => exact absurd rfl (other i a)
  | dropped move => cases move

/-- A tracker is registered for the beginning of refreshes. -/
theorem Standing.begins {t : TaskId} {holder : String} {a : Answer} (run : Run options past s)
    (step : Moves s (.did t (.act (.track holder)) a) s') (handle : s.handle = true)
    (h : Standing options past s s.trackers.length) :
    Standing options (.did t (.act (.track holder)) a :: past) s' s.trackers.length := by
  have absent (known : s.trackers.length < s.trackers.length) : False := Nat.lt_irrefl _ known
  cases h with
  | unknown _ none calm =>
    have issued := run.issued
    have registers : s.registers (.did t (.act (.track holder)) a) =
        [(refreshStarted, .trackStart s.trackers.length)] := if_pos handle
    have registered := run.ofTracker_registers registers rfl (decide_eq_true rfl)
    rw [none] at registered
    obtain ⟨caller, r, before, rest, exec, -, stack⟩ := run.stack_did step
    rw [exec_act exec, System.act, if_pos handle] at stack
    have noted : s.noted (.did t (.act (.track holder)) a) =
        (s.trackers ++ [⟨holder, false⟩], s.holdings) := by
      simp only [System.noted, System.act, handle, if_true]
      rfl
    have count : s'.trackers.length = s.trackers.length + 1 := by
      rw [step.trackers, noted]
      exact List.length_append
    refine .begun (count ▸ Nat.lt_succ_self _) stack ?_ registered ⟨?_, ?_, ?_⟩
    · intro u holder' started there
      rcases run.trackRest_next step there with before | ⟨b, move, -⟩
      · exact absurd before (calm u holder' started)
      · cases move
        rfl
    · intro who now
      rw [step.holdings, noted] at now
      exact Nat.lt_irrefl _ (issued.held who _ now)
    · intro u now
      rcases (run.leaving_next step List.not_mem_nil u).mp now with before | given
      · exact Nat.lt_irrefl _ (issued.leaving before)
      · cases given
    · intro u now
      rcases run.carried_next step now with before | ⟨⟨b, move⟩, -⟩
      · exact Nat.lt_irrefl _ (issued.carried before)
      · cases move
  | begun known => exact (absent known).elim
  | whole known => exact (absent known).elim
  | leaving known => exact (absent known).elim
  | gone known => exact (absent known).elim

/-- A tracker is registered for the end of refreshes. Its holder may remove both then, and nobody
else may remove either. -/
theorem Standing.rests {t : TaskId} {holder : String} {started : Subscription String} {a : Answer}
    (run : Run options past s) (step : Moves s (.did t (.trackRest holder k started) a) s')
    (h : Standing options past s k) :
    Standing options (.did t (.trackRest holder k started) a :: past) s' k := by
  obtain ⟨caller, r, before, rest, exec, first, stack⟩ := run.stack_did step
  obtain ⟨n, rfl, known, sole, registered, free⟩ := h.of_trackRest first
  have issued := run.issued
  have own : (Callback.trackEnd k).tracks k = true := decide_eq_true rfl
  have registered' := run.ofTracker_registers
    (m := .did t (.trackRest holder k (.single refreshStarted n)) a) rfl rfl own
  rw [registered] at registered'
  rw [exec_trackRest exec] at stack
  refine .whole (Nat.lt_of_lt_of_le known step.trackers_le) ?_ registered' ⟨?_, ?_, ?_⟩
  · intro u holder' started now
    have ahead := run.ahead t
    rw [first] at ahead
    rcases run.trackRest_next step now with before | ⟨b, move, -⟩
    · obtain rfl := sole u holder' started before
      rw [stack] at now
      cases ahead.calm_of_trackRest _ now
    · cases move
  · intro who
    have holdings : s'.holdings.rights who =
        if who = holder then [(refreshStarted, n), (refresh, s.listeners.next)]
        else s.holdings.rights who := by
      rw [step.holdings]
      exact Holdings.rights_set _ _ _ _
    rw [holdings]
    split
    · exact iff_of_true List.mem_cons_self (List.mem_cons_of_mem _ List.mem_cons_self)
    · exact iff_of_false (free.held who) fun new => Nat.lt_irrefl _ (issued.held who _ new)
  · intro u
    rw [run.leaving_next step List.not_mem_nil u, run.leaving_next step List.not_mem_nil u]
    refine iff_of_false (not_or.mpr ⟨free.left u, List.not_mem_nil⟩)
      (not_or.mpr ⟨fun new => ?_, List.not_mem_nil⟩)
    exact Nat.lt_irrefl _ (issued.leaving new)
  · intro u
    refine ⟨fun now => ?_, fun now => ?_⟩
    · rcases run.carried_next step now with before | ⟨⟨b, move⟩, -⟩
      · exact free.carried u before
      · cases move
    · rcases run.carried_next step now with before | ⟨⟨b, move⟩, -⟩
      · exact Nat.lt_irrefl _ (issued.carried before)
      · cases move

/-- What a move does not concern stays, but for what is removed. -/
theorem Standing.idle (run : Run options past s) (step : Moves s m s')
    (stages : ∀ j, Standing options past s j) (k : Nat)
    (idle : ∀ entry ∈ s.registers m, entry.2.tracks k = false)
    (unknown : s.trackers.length ≤ k → (s.noted m).1.length ≤ k)
    (apart : ∀ t holder started a, m ≠ .did t (.trackRest holder k started) a)
    (anew : ∀ t holder a, m = .did t (.act (.track holder)) a → s.handle = true →
      k ≠ s.trackers.length) : Standing options (m :: past) s' k := by
  have left := run.ofTracker_idle idle
  have onward (known : k < s.trackers.length) : k < s'.trackers.length :=
    Nat.lt_of_lt_of_le known step.trackers_le
  have calmer (calm : s.Calm k) : s'.Calm k := run.calm_next step calm anew
  have unhanded {g : Registration} (here : g ∈ ofTracker options past k) : g.right ∉ m.hands :=
    step.apart_of_hands stages here apart
  have old {g : Registration} (here : g ∈ ofTracker options past k) :
      g.right.2 < s.listeners.next :=
    run.number_lt_next (mem_ofTracker.mp here).1
  cases stages k with
  | unknown new none calm =>
    refine .unknown ?_ (by rw [left, none]; rfl) (calmer calm)
    rw [step.trackers]
    exact unknown new
  | @begun t holder n rest known here sole registered free =>
    have there : ⟨n, refreshStarted, .trackStart k⟩ ∈ ofTracker options past k :=
      registered ▸ List.mem_singleton_self _
    refine .begun (onward known) (run.head_next step here rfl fun a => apart t holder _ a) ?_ ?_
      (free.next run step (old there) (unhanded there))
    · intro u holder' started now
      rcases run.trackRest_next step now with before | ⟨a, move, handle, new, -⟩
      · exact sole u holder' started before
      · exact absurd new (anew u holder' a move handle)
    · rw [left, registered]
      exact List.filter_cons_of_pos (decide_eq_true (free.kept step))
  | @whole n n' known calm registered together =>
    have first : ⟨n, refreshStarted, .trackStart k⟩ ∈ ofTracker options past k :=
      registered ▸ List.mem_cons_self
    have second : ⟨n', refresh, .trackEnd k⟩ ∈ ofTracker options past k :=
      registered ▸ List.mem_cons_of_mem _ List.mem_cons_self
    have differs : (refreshStarted, n) ≠ (refresh, n') := by
      intro same
      exact absurd (Prod.mk.inj same).1 (by decide)
    rw [registered] at left
    by_cases removed : (refreshStarted, n) ∈ m.disposes.rights
    · rcases step.disposed removed with ⟨t, only, leaves⟩ | ⟨t, carried⟩
      · have kept : (refresh, n') ∉ m.disposes.rights := by
          rw [only]
          exact fun same => differs (List.mem_singleton.mp same).symm
        have still := (run.leaving_next step kept t).mpr (.inl ((together.left t).mp leaves))
        have listed : ofTracker options (m :: past) k = [⟨n', refresh, .trackEnd k⟩] := by
          simpa [Registration.right, removed, kept] using left
        exact .leaving (onward known) (calmer calm) listed rfl still
      · exact absurd carried (together.carried t).1
    · by_cases removed' : (refresh, n') ∈ m.disposes.rights
      · rcases step.disposed removed' with ⟨t, -, leaves⟩ | ⟨t, carried⟩
        · have still := (run.leaving_next step removed t).mpr (.inl ((together.left t).mpr leaves))
          have listed : ofTracker options (m :: past) k =
              [⟨n, refreshStarted, .trackStart k⟩] := by
            simpa [Registration.right, removed, removed'] using left
          exact .leaving (onward known) (calmer calm) listed rfl still
        · exact absurd carried (together.carried t).2
      · have listed : ofTracker options (m :: past) k =
            [⟨n, refreshStarted, .trackStart k⟩, ⟨n', refresh, .trackEnd k⟩] := by
          simpa [Registration.right, removed, removed'] using left
        exact .whole (onward known) (calmer calm) listed (together.next run step (old first)
          (old second) (unhanded first) (unhanded second) removed removed')
  | @leaving t g known calm registered called leaves =>
    rw [registered] at left
    by_cases removed : g.right ∈ m.disposes.rights
    · refine .gone (onward known) (calmer calm) (left.trans ?_)
      exact List.filter_cons_of_neg (by simpa using removed)
    · refine .leaving (onward known) (calmer calm) (left.trans ?_) called
        ((run.leaving_next step removed t).mpr (.inl leaves))
      exact List.filter_cons_of_pos (decide_eq_true removed)
  | gone known calm none => exact .gone (onward known) (calmer calm) (by rw [left, none]; rfl)

/-- **Every tracker is at one of its stages**, in every run. -/
theorem Run.standing (run : Run options past s) (k : Nat) : Standing options past s k := by
  induction run generalizing k with
  | start => exact .unknown (Nat.zero_le k) rfl fun _ _ _ => nofun
  | @next past s s' m run step ih =>
    cases registers_of_move s k m with
    | idle idle _ unknown apart anew => exact .idle run step ih k idle unknown apart anew
    | begins move handle new =>
      subst move new
      exact .begins run step handle (ih _)
    | rests move =>
      subst move
      exact .rests run step (ih k)

end Stages

/-! ## Who is called -/

/-- Whether a tracker is registered for a method after a history. -/
def subscribed (options : Options) (past : List Move) (k : Nat) (method : String) : Bool :=
  (registered options past method).any fun g => g.callback.tracks k

section Subscribed

variable {options : Options} {past : List Move} {s s' : System} {m : Move} {k : Nat}
  {method : String}

/-- What is registered of a tracker for a method. -/
theorem registered_tracks (options : Options) (past : List Move) (k : Nat) (method : String) :
    ((registered options past method).filter fun g => g.callback.tracks k) =
      (ofTracker options past k).filter fun g => g.method = method := by
  rw [registered, ofTracker, List.filter_filter, List.filter_filter]
  exact List.filter_congr fun g _ => Bool.and_comm _ _

theorem subscribed_eq (options : Options) (past : List Move) (k : Nat) (method : String) :
    subscribed options past k method =
      (ofTracker options past k).any fun g => g.method = method := by
  rw [subscribed, registered, ofTracker, List.any_filter, List.any_filter]
  simp only [Bool.and_comm]

theorem subscribed_of_nil (none : ofTracker options past k = []) (method : String) :
    subscribed options past k method = false := by
  rw [subscribed_eq, none]
  rfl

theorem ne_refreshStarted : refresh ≠ refreshStarted := by
  decide

/-- **A tracker is called once for each notification of a method for which it is registered**, which
are none but its two. -/
theorem Run.audience (run : Run options past s) (k : Nat) (method : String) :
    ((registered options past method).filter fun g => g.callback.tracks k).map (·.callback) =
      if subscribed options past k method then (callbackOf k method).toList else [] := by
  have alone {g : Registration} (listed : ofTracker options past k = [g])
      (called : callbackOf k g.method = some g.callback) :
      ((ofTracker options past k).filter fun g => g.method = method).map (·.callback) =
        if subscribed options past k method then (callbackOf k method).toList else [] := by
    rw [subscribed_eq, listed]
    by_cases here : g.method = method
    · rw [← here, called]
      simp
    · simp [here]
  rw [registered_tracks]
  cases run.standing k with
  | unknown _ none | gone _ _ none =>
    rw [subscribed_of_nil none, none]
    rfl
  | begun _ _ _ listed => exact alone listed rfl
  | leaving _ _ listed called => exact alone listed called
  | whole _ _ listed =>
    rw [subscribed_eq, listed]
    by_cases first : method = refreshStarted
    · subst first
      simp [callbackOf, ne_refreshStarted]
    · by_cases second : method = refresh
      · subst second
        simp [callbackOf, ne_refreshStarted, ne_refreshStarted.symm]
      · simp [Ne.symm first, Ne.symm second]

/-- Whoever is registered is a tracker. -/
theorem Run.known_of_subscribed (run : Run options past s)
    (there : subscribed options past k method = true) : k < s.trackers.length := by
  cases run.standing k with
  | unknown _ none =>
    rw [subscribed_of_nil none] at there
    cases there
  | begun known => exact known
  | whole known => exact known
  | leaving known => exact known
  | gone known => exact known

/-- A method for which a tracker is registered is one of its two. -/
theorem Run.called_of_subscribed (run : Run options past s)
    (there : subscribed options past k method = true) :
    ∃ callback, callbackOf k method = some callback := by
  have audience := run.audience k method
  rw [if_pos there] at audience
  cases called : callbackOf k method with
  | some callback => exact ⟨callback, rfl⟩
  | none =>
    rw [called] at audience
    have nobody := List.filter_eq_nil_iff.mp (List.map_eq_nil_iff.mp audience)
    obtain ⟨g, here, tracks⟩ := List.any_eq_true.mp there
    exact absurd tracks (nobody g here)

/-- **A tracker is registered for one of its methods only** while a task is about to register it for
the other, or has yet to remove it. -/
theorem Run.halves (run : Run options past s)
    (half : subscribed options past k refreshStarted ≠ subscribed options past k refresh) :
    (∃ t holder started, Instr.trackRest holder k started ∈ s.pool.stack t) ∨
      ∃ t, ∃ g ∈ ofTracker options past k, g.right ∈ s.leaving t := by
  cases run.standing k with
  | unknown _ none | gone _ _ none =>
    rw [subscribed_of_nil none, subscribed_of_nil none] at half
    exact absurd rfl half
  | begun _ here => exact .inl ⟨_, _, _, here ▸ List.mem_cons_self⟩
  | whole _ _ listed =>
    rw [subscribed_eq, subscribed_eq, listed] at half
    simp at half
  | leaving _ _ listed _ leaves => exact .inr ⟨_, _, listed ▸ List.mem_singleton_self _, leaves⟩

/-- **Whoever holds one half of a tracker's subscription holds the other.** -/
theorem Run.paired (run : Run options past s) {g g' : Registration}
    (here : g ∈ ofTracker options past k) (there : g' ∈ ofTracker options past k) (who : String) :
    g.right ∈ s.holdings.rights who ↔ g'.right ∈ s.holdings.rights who := by
  have alone {h : Registration} (listed : ofTracker options past k = [h]) :
      g.right ∈ s.holdings.rights who ↔ g'.right ∈ s.holdings.rights who := by
    rw [listed] at here there
    rw [List.mem_singleton.mp here, List.mem_singleton.mp there]
  cases run.standing k with
  | unknown _ none | gone _ _ none =>
    rw [none] at here
    cases here
  | begun _ _ _ listed => exact alone listed
  | leaving _ _ listed => exact alone listed
  | whole _ _ listed together =>
    have held := together.held who
    rw [listed] at here there
    rcases List.mem_pair.mp here with rfl | rfl <;> rcases List.mem_pair.mp there with rfl | rfl
    · exact Iff.rfl
    · exact held
    · exact held.symm
    · exact Iff.rfl

/-! ## Who is gone -/

/-- A tracker was registered for all it will ever be. -/
structure System.Placed (s : System) (k : Nat) : Prop where
  known : k < s.trackers.length
  calm : s.Calm k

/-- Nothing more is registered of a tracker, -/
theorem System.Placed.idle (placed : s.Placed k) (step : Moves s m s') :
    (∀ entry ∈ s.registers m, entry.2.tracks k = false) ∧
      ∀ t holder a, m = .did t (.act (.track holder)) a → s.handle = true →
        k ≠ s.trackers.length := by
  cases registers_of_move s k m with
  | idle idle _ _ _ anew => exact ⟨idle, anew⟩
  | begins _ _ new => exact absurd placed.known (new ▸ Nat.lt_irrefl _)
  | rests move =>
    subst move
    obtain ⟨rest, first⟩ := step.stack_of_did
    exact absurd (first ▸ List.mem_cons_self) (placed.calm _ _ _)

theorem System.Placed.next (placed : s.Placed k) (run : Run options past s)
    (step : Moves s m s') : s'.Placed k :=
  ⟨Nat.lt_of_lt_of_le placed.known step.trackers_le,
    run.calm_next step placed.calm (placed.idle step).2⟩

/-- and whoever is gone stays so. -/
theorem Run.unsubscribed (run : Run options past s) (placed : s.Placed k) (step : Moves s m s')
    (gone : subscribed options past k method = false) :
    subscribed options (m :: past) k method = false := by
  rw [subscribed_eq, run.ofTracker_idle (placed.idle step).1]
  rw [subscribed_eq] at gone
  refine List.any_eq_false.mpr fun g there => ?_
  exact List.any_eq_false.mp gone g (List.mem_filter.mp there).1

theorem Run.unsubscribed_since {later before : List Move} (run : Run options (later ++ before) s)
    (placed : (Worker.replay options before).Placed k)
    (gone : subscribed options before k method = false) :
    s.Placed k ∧ subscribed options (later ++ before) k method = false := by
  induction later generalizing s with
  | nil =>
    obtain rfl := Run.replay run
    exact ⟨placed, gone⟩
  | cons _ later ih =>
    cases run with
    | next run step =>
      obtain ⟨placed, gone⟩ := ih run
      exact ⟨placed.next run step, run.unsubscribed placed step gone⟩

/-- Whether a move removes a tracker from a method. -/
def withdraws (options : Options) (k : Nat) (method : String) (before : List Move) (m : Move) :
    Bool :=
  (registered options before method).any fun g => g.callback.tracks k && m.removes g

/-- **A tracker that is removed from a method is gone there.** -/
theorem Run.withdrawn (run : Run options past s) (step : Moves s m s')
    (removed : withdraws options k method past m = true) :
    s.Placed k ∧ subscribed options (m :: past) k method = false := by
  obtain ⟨g, here, taken⟩ := List.any_eq_true.mp removed
  obtain ⟨tracks, right⟩ := Bool.and_eq_true_iff.mp taken
  obtain ⟨here, same⟩ := List.mem_filter.mp here
  have there : g ∈ ofTracker options past k := mem_ofTracker.mpr ⟨here, tracks⟩
  have gone : g.right ∈ m.disposes.rights := of_decide_eq_true right
  obtain rfl : g.method = method := of_decide_eq_true same
  have only (placed : s.Placed k)
      (sole : ∀ g' ∈ ofTracker options past k, g'.method = g.method → g' = g) :
      s.Placed k ∧ subscribed options (m :: past) k g.method = false := by
    refine ⟨placed, ?_⟩
    rw [subscribed_eq, run.ofTracker_idle (placed.idle step).1]
    refine List.any_eq_false.mpr fun g' left same => ?_
    obtain ⟨listed, kept⟩ := List.mem_filter.mp left
    obtain rfl := sole g' listed (of_decide_eq_true same)
    exact absurd gone (of_decide_eq_true kept)
  cases run.standing k with
  | unknown _ none | gone _ _ none =>
    rw [none] at there
    cases there
  | begun _ _ _ listed free =>
    rw [listed] at there
    obtain rfl := List.mem_singleton.mp there
    exact absurd gone (free.kept step)
  | leaving known calm listed =>
    refine only ⟨known, calm⟩ fun g' listed' _ => ?_
    rw [listed] at there listed'
    rw [List.mem_singleton.mp there, List.mem_singleton.mp listed']
  | whole known calm listed =>
    refine only ⟨known, calm⟩ fun g' listed' alike => ?_
    rw [listed] at there listed'
    rcases List.mem_pair.mp there with rfl | rfl <;> rcases List.mem_pair.mp listed' with rfl | rfl
    · rfl
    · exact absurd alike ne_refreshStarted
    · exact absurd alike.symm ne_refreshStarted
    · rfl

/-- A user gave a tracker up to a task, which has yet to remove what is left of it. -/
structure Surrendered (options : Options) (k : Nat) (t : TaskId) (past : List Move) (s : System) :
    Prop where
  placed : s.Placed k
  leaves : ∀ g ∈ ofTracker options past k, g.right ∈ s.leaving t

/-- **Whoever gives up something of a tracker gives up all of it.** -/
theorem Run.surrendered (run : Run options past s) {t : TaskId} {holder : String} {a : Answer}
    (step : Moves s (.did t (.act (.dispose holder)) a) s') {g : Registration}
    (here : g ∈ ofTracker options past k) (held : g.right ∈ s.holdings.rights holder) :
    Surrendered options k t (.did t (.act (.dispose holder)) a :: past) s' := by
  have given (placed : s.Placed k) :
      Surrendered options k t (.did t (.act (.dispose holder)) a :: past) s' := by
    refine ⟨placed.next run step, fun g' there => ?_⟩
    rw [run.ofTracker_idle (placed.idle step).1] at there
    refine (run.leaving_next step nofun t).mpr (.inr ?_)
    rw [System.surrenders, if_pos rfl]
    exact (run.paired here (List.mem_filter.mp there).1 holder).mp held
  cases run.standing k with
  | unknown _ none | gone _ _ none =>
    rw [none] at here
    cases here
  | begun _ _ _ listed free =>
    rw [listed] at here
    obtain rfl := List.mem_singleton.mp here
    exact absurd held (free.held holder)
  | whole known calm => exact given ⟨known, calm⟩
  | leaving known calm => exact given ⟨known, calm⟩

theorem Surrendered.next {t : TaskId} (h : Surrendered options k t past s)
    (run : Run options past s) (step : Moves s m s') : Surrendered options k t (m :: past) s' := by
  refine ⟨h.placed.next run step, fun g there => ?_⟩
  rw [run.ofTracker_idle (h.placed.idle step).1] at there
  obtain ⟨before, kept⟩ := List.mem_filter.mp there
  exact (run.leaving_next step (of_decide_eq_true kept) t).mpr (.inl (h.leaves g before))

theorem Run.surrendered_since {mid before : List Move} {t : TaskId} {holder : String} {a : Answer}
    (run : Run options (mid ++ .did t (.act (.dispose holder)) a :: before) s) {g : Registration}
    (here : g ∈ ofTracker options before k)
    (held : g.right ∈ (Worker.replay options before).holdings.rights holder) :
    Surrendered options k t (mid ++ .did t (.act (.dispose holder)) a :: before) s := by
  induction mid generalizing s with
  | nil =>
    cases run with
    | next run step =>
      rw [Run.replay run] at held
      exact run.surrendered step here held
  | cons _ mid ih =>
    cases run with
    | next run step => exact (ih run).next run step

/-- A tracker is gone once the task to which it was given up has nothing left to remove. -/
theorem Surrendered.gone {t : TaskId} (h : Surrendered options k t past s)
    (through : s.leaving t = []) (method : String) : subscribed options past k method = false := by
  refine subscribed_of_nil (List.eq_nil_iff_forall_not_mem.mpr fun g there => ?_) method
  have leaves := h.leaves g there
  rw [through] at leaves
  cases leaves

end Subscribed

end Supervision.Worker
