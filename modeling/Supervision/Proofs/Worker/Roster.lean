import Supervision.Proofs.Worker.Refresh

/-!
# Who is registered

Whoever listens to a worker is registered with the supervisor, and one registry serves the workers of
all starts. Callers register and dispose of subscriptions at any time, listeners while they are
called, and a refresh registers for its own completion. The law here says what all this comes to:
the registry holds what the history says was registered and not disposed of since, each callback
under its method, in the order of registration (`Run.enrolled`).

The history is read without the registry: a registration has the number of those before it, and a
subscription stands for registrations by these numbers. Each callback is registered, and removed, in
a move of its own, also where one subscription stands for several. What is read off the supervisor is
whether there is a handle to it and how many trackers there are.
-/

namespace Supervision.Worker

/-! ## Registrations of a history -/

/-- A callback that is registered, and how many were registered before it. -/
structure Registration where
  number : Nat
  method : String
  callback : Callback

namespace System

/-- What a move registers, under which methods. Without a handle nobody can listen. -/
def registers (s : System) : Move → List (String × Callback)
  | .did _ (.act (.listen listener wish)) _ =>
    if s.handle then [callbackFor listener wish] else []
  | .did _ (.act (.track _)) _ =>
    if s.handle then [(Message.refreshStarted, .trackStart s.trackers.length)] else []
  | .did _ (.trackRest _ tracker _) _ => [(Message.refresh, .trackEnd tracker)]
  | .did t .refreshListen _ => [(Message.refresh, .completion t)]
  | _ => []

end System

/-- The subscription that a move uses up. -/
def Move.disposes : Move → Subscription String
  | .did _ (.revoke (.single method number)) _ => .single method number
  | .did _ (.drop subscription) _ => subscription
  | _ => .spent

/-- Whether a move disposes of a registration. -/
def Move.removes (m : Move) (g : Registration) : Bool :=
  decide ((g.method, g.number) ∈ m.disposes.rights)

/-- How often something was registered. -/
def enrolments (options : Options) : List Move → Nat
  | [] => 0
  | m :: past => enrolments options past + ((replay options past).registers m).length

/-- What is registered after a history, in the order of registration. -/
def registrations (options : Options) : List Move → List Registration
  | [] => []
  | m :: past =>
    let s := replay options past
    ((registrations options past).filter fun g => (g.method, g.number) ∉ m.disposes.rights) ++
      ((s.registers m).zipIdx (enrolments options past)).map
        fun entry => ⟨entry.2, entry.1.1, entry.1.2⟩

/-- What is registered after a move, when some were registered before it. -/
def enlist (options : Options) (m : Move) (past : List Move) (here : List Registration) :
    List Registration :=
  let s := replay options past
  (here.filter fun g => (g.method, g.number) ∉ m.disposes.rights) ++
    ((s.registers m).zipIdx (enrolments options past)).map
      fun entry => ⟨entry.2, entry.1.1, entry.1.2⟩

theorem registrations_cons (options : Options) (m : Move) (past : List Move) :
    registrations options (m :: past) = enlist options m past (registrations options past) :=
  rfl

/-- What is registered for a method. -/
def registered (options : Options) (past : List Move) (method : String) : List Registration :=
  (registrations options past).filter fun g => g.method = method

/-- What is registered for a method after a move: what was and is not disposed of, and what the move
registers for it. -/
theorem registered_cons (options : Options) (m : Move) (past : List Move) (method : String) :
    registered options (m :: past) method =
      ((registered options past method).filter fun g =>
        (method, g.number) ∉ m.disposes.rights) ++
      ((((replay options past).registers m).zipIdx (enrolments options past)).filter
        fun entry => entry.1.1 = method).map fun entry => ⟨entry.2, entry.1.1, entry.1.2⟩ := by
  simp only [registered, registrations, List.filter_append, List.filter_filter, List.filter_map]
  congr 1
  refine List.filter_congr fun g _ => ?_
  by_cases here : g.method = method
  · simp [here]
  · simp [here]

theorem number_lt (options : Options) (past : List Move) :
    ∀ g ∈ registrations options past, g.number < enrolments options past := by
  induction past with
  | nil => exact nofun
  | cons m past ih =>
    intro g hg
    show g.number < enrolments options past + ((replay options past).registers m).length
    rcases List.mem_append.mp hg with old | new
    · exact Nat.lt_add_right _ (ih g (List.mem_filter.mp old).1)
    · obtain ⟨entry, hentry, rfl⟩ := List.mem_map.mp new
      exact (List.snd_lt_add_of_mem_zipIdx hentry)

/-- **Registrations are told apart by their numbers**, and later ones have greater numbers. -/
theorem registrations_sorted (options : Options) (past : List Move) :
    (registrations options past).Pairwise fun g h => g.number < h.number := by
  induction past with
  | nil => exact List.Pairwise.nil
  | cons m past ih =>
    refine List.pairwise_append.mpr ⟨ih.filter _, ?_, ?_⟩
    · have counted : (List.range' (enrolments options past)
          ((replay options past).registers m).length).Pairwise (· < ·) := List.pairwise_lt_range'
      rw [← List.zipIdx_map_snd, List.pairwise_map] at counted
      rwa [List.pairwise_map]
    · intro g old h new
      obtain ⟨entry, hentry, rfl⟩ := List.mem_map.mp new
      refine Nat.lt_of_lt_of_le (number_lt options past g (List.mem_filter.mp old).1) ?_
      exact List.le_snd_of_mem_zipIdx hentry

/-! ## What a move does to the registry -/

/-- The registry after a move: a subscription is used up, and callbacks are inserted. -/
def System.enlisted (s : System) (m : Move) : Registry String Callback :=
  (s.listeners.dispose m.disposes).enroll (s.registers m)

namespace System

theorem listeners_apply (s : System) (e : Event) : (s.apply e).1.listeners = s.listeners :=
  (marks_notices { s with machine := (s.machine.transition e).machine } _).1

theorem listeners_release (s : System) : s.release.listeners = s.listeners :=
  s.release_elim rfl rfl

theorem enlisted_act (s : System) (t : TaskId) (a : Action) (b : Answer) :
    (s.act a).1.listeners = s.enlisted (.did t (.act a) b) := by
  cases a with
  | listen listener wish =>
    cases handle : s.handle <;>
      simp only [act, listen, enlisted, registers, handle, if_true, if_false,
        Bool.false_eq_true] <;> rfl
  | track holder =>
    cases handle : s.handle <;>
      simp only [act, listen, enlisted, registers, handle, if_true, if_false,
        Bool.false_eq_true] <;> rfl
  | dispose holder =>
    simp only [act]
    split <;> rfl
  | call name c =>
    simp only [act, call]
    split
    · cases c with
      | refresh cancelled => cases cancelled <;> rfl
      | _ => rfl
    · rfl
  | _ => rfl

theorem enlisted_deliver (s : System) (t : TaskId) (params : Json) (callback : Callback)
    (b : Answer) :
    (s.deliver params callback).1.listeners = s.enlisted (.did t (.deliver callback params) b) := by
  cases callback with
  | shaped listener method shape =>
    simp only [deliver]
    split <;> rfl
  | trackStart tracker =>
    simp only [deliver]
    split <;> rfl
  | trackEnd tracker =>
    simp only [deliver]
    split <;> rfl
  | _ => rfl

end System

/-- **What an instruction does to the registry.** -/
theorem exec_enlisted {s r : System} {t : TaskId} {caller : String} {i : Instr} {a : Answer}
    {before : List Instr} (h : s.exec t caller i a = some (r, before)) :
    r.listeners = s.enlisted (.did t i a) := by
  unfold System.exec at h
  split at h
  case h_1 e =>
    split at h
    · exact of_result h (s.listeners_apply e)
    · exact of_result h rfl
  case h_3 a => exact of_result h (s.enlisted_act t a _)
  case h_4 c =>
    refine of_result h ?_
    cases c with
    | request _ params => cases params <;> rfl
    | notify _ params => cases params <;> rfl
    | _ => rfl
  case h_7 =>
    split at h
    · exact of_result h rfl
    · cases h
  case h_8 need c =>
    refine of_result h ?_
    cases need <;> cases c <;> rfl
  case h_9 =>
    split at h
    · exact of_result h rfl
    · exact of_result h (s.listeners_apply .stop)
  case h_10 =>
    split at h
    · exact of_result h rfl
    · cases h
  case h_11 =>
    refine of_result h ?_
    unfold System.answered
    split <;> split <;> (try split) <;> rfl
  case h_13 =>
    refine of_result h ?_
    unfold System.receipted
    split <;> rfl
  case h_15 => split at h <;> exact of_result h rfl
  case h_20 => exact of_result h (s.enlisted_deliver t _ _ _)
  case h_23 =>
    refine of_result h ?_
    dsimp only
    split <;> rfl
  case h_25 =>
    split at h
    · exact of_result h rfl
    · cases h
  case h_27 => split at h <;> exact of_result h rfl
  case h_30 subscription =>
    refine of_result h ?_
    cases subscription <;> rfl
  case h_31 => cases h
  all_goals exact of_result h rfl

/-- **What a move does to the registry.** -/
theorem Moves.enlisted {s s' : System} {m : Move} (step : Moves s m s') :
    s'.listeners = s.enlisted m := by
  cases step with
  | @act _ t _ _ rest _ found next taken =>
    obtain ⟨r, before, exec, -, result⟩ := step_exec found next taken
    have listeners := exec_enlisted exec
    rcases result with rfl | rfl
    · exact listeners
    · exact (System.listeners_release _).trans listeners
  | park => exact System.listeners_release _
  | drop => exact System.listeners_release _
  | _ => rfl

/-! ## What the registry holds -/

/-- The registry holds what is registered. -/
structure Enrolled (options : Options) (past : List Move) (s : System) : Prop where
  keyed : s.listeners.Keyed
  count : s.listeners.next = enrolments options past
  under : ∀ method, s.listeners.under method =
    (registered options past method).map fun g => (g.number, g.callback)

/-- Whoever is looked up under a method is registered for it. -/
theorem Enrolled.snapshot {options : Options} {past : List Move} {s : System}
    (h : Enrolled options past s) (method : String) :
    s.listeners.snapshot method = (registered options past method).map (·.callback) := by
  rw [Registry.snapshot, h.under, List.map_map]
  rfl

/-- **The registry holds what is registered**, and nothing else. -/
theorem Run.enrolled {options : Options} {past : List Move} {s : System}
    (run : Run options past s) : Enrolled options past s := by
  induction run with
  | start => exact ⟨Registry.keyed_empty, rfl, fun _ => rfl⟩
  | @next past s s' m run step ih =>
    have listeners := step.enlisted
    have numbers : (s.listeners.dispose m.disposes).next = enrolments options past :=
      (s.listeners.next_dispose _).trans ih.count
    refine ⟨?_, ?_, ?_⟩
    · rw [listeners]
      exact (ih.keyed.dispose _).enroll _
    · rw [listeners, System.enlisted, Registry.next_enroll, numbers, enrolments, run.replay]
    · intro method
      rw [listeners, System.enlisted, Registry.under_enroll, ih.keyed.under_dispose, numbers,
        ih.under, registered_cons, run.replay, List.map_append, List.map_map, List.filter_map]
      rfl

end Supervision.Worker
