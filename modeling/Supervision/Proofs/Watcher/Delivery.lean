import Supervision.Proofs.Watcher.Course

/-!
# Who is told of a signal

The callback of a registration stays in the hands of the daemon when the registration is over. A
signal that comes through it is passed on if its registration is the present one and the watcher is
not idle: to those who listen when that begins, one after the other, and then its consequence is
drawn. In between, code of listeners may stop the watcher, start it again, and change who listens.

If signals are passed on one after the other (`oneByOne`), whatever a listener is told is what was
accepted while it listened, in the same order, and a registration is lost only when everyone was
told why (`served_of_run`). So it is if turns are taken to their ends and no listener has the daemon
send a signal (`oneByOne_of_turns`).
-/

namespace Supervision.Watcher

/-! ## Emissions and rounds -/

/-- A signal that came through the callback of a registration. -/
structure Emission where
  generation : Nat
  signal : Signal
  payload : Option Json

/-- What a listener is told. -/
def Emission.message (e : Emission) : Signal × Option Json :=
  (e.signal, e.payload)

/-- An emission that is passed on, and those who listened when that began. -/
structure Round where
  emission : Emission
  audience : List Listener

/-- What a round brings to those of a name. -/
def Round.share (name : String) (r : Round) : List (Signal × Option Json) :=
  List.replicate (r.audience.countP (·.name = name)) r.emission.message

/-- The emission that a move is, if it is accepted. -/
def System.accepted (s : System) : Move → List Emission
  | .did _ (.signal generation x p) _ =>
    if s.handle ∧ s.machine.hears generation then [⟨generation, x, p⟩] else []
  | _ => []

/-- The round that begins with a move. -/
def System.rounds (s : System) : Move → List Round
  | .did _ (.deliver generation x p) _ => [⟨⟨generation, x, p⟩, s.listeners.snapshot ()⟩]
  | _ => []

/-- The emissions that were accepted, the latest first. -/
def accepted (delays : List Nat) (past : List Move) : List Emission :=
  chronicle System.accepted delays past

/-- The rounds of a history, the latest first. -/
def rounds (delays : List Nat) (past : List Move) : List Round :=
  chronicle System.rounds delays past

/-- What happens to those of a name. -/
def Happening.message? (name : String) : Happening → Option (Signal × Option Json)
  | .delivered listener x p => if listener = name then some (x, p) else none
  | _ => none

/-- What those of a name were told, the latest first. -/
def System.received (s : System) (name : String) : List (Signal × Option Json) :=
  s.history.filterMap (Happening.message? name)

/-- The emission that is passed on next. -/
def Instr.emission? : Instr → Option Emission
  | .deliver generation x p => some ⟨generation, x, p⟩
  | _ => none

/-- What those of a name are about to be told. -/
def Instr.message? (name : String) : Instr → Option (Signal × Option Json)
  | .listener l x p => if l.name = name then some (x, p) else none
  | _ => none

/-- True of what is to be done about a signal that was accepted. -/
def Instr.serves : Instr → Bool
  | .deliver .. | .listener .. | .conclude .. | .lose .. => true
  | _ => false

/-- Whether nothing is to be done about any signal. -/
def System.quiet (s : System) : Bool :=
  s.pool.tasks.all fun e => e.2.stack.all fun i => !i.serves

/-- Whether each signal is accepted when everything is done about those before it. -/
def oneByOne (delays : List Nat) : List Move → Bool
  | [] => true
  | m :: past =>
    (((replay delays past).accepted m).isEmpty || (replay delays past).quiet) &&
      oneByOne delays past

variable {delays : List Nat} {past : List Move} {s s' r : System} {i : Instr} {a : Answer}
  {before rest : List Instr} {t : TaskId} {task : Task Instr}

theorem oneByOne_older {later older : List Move} (h : oneByOne delays (later ++ older) = true) :
    oneByOne delays older = true := by
  induction later with
  | nil => exact h
  | cons m later ih => exact ih (Bool.and_eq_true_iff.mp h).2

theorem System.quiet_iff :
    s.quiet = true ↔ s.pool.Every fun _ task => task.stack.filter Instr.serves = [] := by
  simp only [System.quiet, List.all_eq_true, Pool.Every, List.filter_eq_nil_iff]
  simp

/-! ## What is done about signals -/

theorem serves_acts (as : List Action) : (as.map Instr.act).filter Instr.serves = [] :=
  List.filter_eq_nil_iff.mpr (List.forall_mem_map.mpr fun _ _ => nofun)

theorem serves_revokes (parts : List (Subscription Unit)) :
    (parts.map Instr.revoke).filter Instr.serves = [] :=
  List.filter_eq_nil_iff.mpr (List.forall_mem_map.mpr fun _ _ => nofun)

theorem serves_effects (es : List Effect) : (es.map System.instrFor).filter Instr.serves = [] :=
  List.filter_eq_nil_iff.mpr (List.forall_mem_map.mpr fun e _ => by cases e <;> exact nofun)

theorem serves_listeners (ls : List Listener) (x : Signal) (p : Option Json) :
    (ls.map (Instr.listener · x p)).filter Instr.serves = ls.map (Instr.listener · x p) :=
  List.filter_eq_self.mpr (List.forall_mem_map.mpr fun _ _ => rfl)

theorem Rests.serves {stack : List Instr} (h : Rests stack) :
    stack.filter Instr.serves = [] := by
  cases h <;> rfl

/-- A view that sees only what is done about signals. -/
theorem filterMap_serves {β : Type} {f : Instr → Option β}
    (only : ∀ i, i.serves = false → f i = none) (stack : List Instr) :
    stack.filterMap f = (stack.filter Instr.serves).filterMap f := by
  induction stack with
  | nil => rfl
  | cons i stack ih =>
    cases serves : i.serves with
    | true => simp only [List.filter_cons, serves, if_true, List.filterMap_cons, ih]
    | false => simp [serves, only i serves, ih]

theorem filterMap_of_serves {β : Type} {f : Instr → Option β}
    (only : ∀ i, i.serves = false → f i = none) {stack : List Instr}
    (none : stack.filter Instr.serves = []) : stack.filterMap f = [] := by
  rw [filterMap_serves only, none]
  rfl

theorem emission?_serves (i : Instr) (h : i.serves = false) : i.emission? = none := by
  cases i <;> first | rfl | cases h

theorem message?_serves (name : String) (i : Instr) (h : i.serves = false) :
    i.message? name = none := by
  cases i <;> first | rfl | cases h

theorem late_of_serves {β : Type} {f : Instr → Option β}
    (only : ∀ i, i.serves = false → f i = none) : Late f :=
  fun _ rests => filterMap_of_serves only rests.serves

/-- What an instruction does with signals: the system afterwards, and what the task has to do
instead. -/
inductive Voices (s : System) : Instr → System → List Instr → Prop
  | aside {i : Instr} {r : System} {before : List Instr} (plain : i.serves = false)
      (plains : before.filter Instr.serves = []) (deaf : ∀ t a, s.accepted (.did t i a) = [])
      (same : ∀ name, r.received name = s.received name) : Voices s i r before
  | heard {generation : Nat} {x : Signal} {p : Option Json}
      (accepts : ∀ t a, s.accepted (.did t (.signal generation x p) a) = [⟨generation, x, p⟩]) :
      Voices s (.signal generation x p) s [.deliver generation x p]
  | delivered {generation : Nat} {x : Signal} {p : Option Json} :
      Voices s (.deliver generation x p) s
        ((s.listeners.snapshot ()).map (.listener · x p) ++ [.conclude generation x])
  | reached {l : Listener} {x : Signal} {p : Option Json} {as : List Action} :
      Voices s (.listener l x p) (s.record (.delivered l.name x p)) (as.map .act)
  | settled {generation : Nat} {x : Signal} {r : System}
      (same : ∀ name, r.received name = s.received name) : Voices s (.conclude generation x) r []
  | failed {generation : Nat} {x : Signal} {why : String}
      (bad : x = .error why ∨ x = .closed ∧ why = "connection closed") :
      Voices s (.conclude generation x) s [.lose generation why]
  | lost {generation : Nat} {why : String} {r : System} {before : List Instr}
      (plains : before.filter Instr.serves = [])
      (same : ∀ name, r.received name = s.received name) : Voices s (.lose generation why) r before

theorem System.received_notices (ns : List Notice) (name : String) :
    (ns.foldl System.notice s).received name = s.received name := by
  induction ns generalizing s with
  | nil => rfl
  | cons n ns ih =>
    refine (ih (s := s.notice n)).trans ?_
    cases n <;> rfl

/-- **What an instruction does with signals.** -/
theorem Does.voices (h : Does s i a r before) : Voices s i r before := by
  cases h with
  | lapsed lapses =>
    cases i with
    | conclude => exact .settled fun _ => rfl
    | act | begin | registered | sleep => exact .aside rfl rfl (fun _ _ => rfl) fun _ => rfl
    | _ => cases lapses
  | enrolled parts enrols =>
    cases i with
    | act | revoke | clear => exact .aside rfl (serves_revokes parts) (fun _ _ => rfl) fun _ => rfl
    | _ => cases enrols
  | made makes =>
    cases makes with
    | lose => exact .lost (serves_effects _) (System.received_notices _)
    | begin | stop | registered =>
      exact .aside rfl (serves_effects _) (fun _ _ => rfl) (System.received_notices _)
  | dropped =>
    exact .aside rfl (serves_effects _) (fun _ _ => rfl) (System.received_notices _)
  | used | told => exact .aside rfl (serves_acts _) (fun _ _ => rfl) fun _ => rfl
  | meanwhile =>
    refine .aside rfl ?_ (fun _ _ => rfl) fun _ => rfl
    rw [List.filter_append, serves_acts]
    rfl
  | heard handle hears => exact .heard fun _ _ => if_pos ⟨handle, hears⟩
  | unheard deaf => exact .aside rfl rfl (fun _ _ => if_neg deaf) fun _ => rfl
  | delivered => exact .delivered
  | reached => exact .reached
  | renewed => exact .settled fun _ => rfl
  | failed bad => exact .failed bad
  | started | halted | disposed | emitted | ended | refused =>
    exact .aside rfl rfl (fun _ _ => rfl) fun _ => rfl

/-- What a task has left to do about the emission accepted last. -/
inductive Passing : List Emission → List Instr → Prop
  | nothing {past : List Emission} : Passing past []
  | due (e : Emission) {past : List Emission} :
      Passing (e :: past) [.deliver e.generation e.signal e.payload]
  | round (e : Emission) (left : List Listener) {past : List Emission} :
      Passing (e :: past)
        (left.map (.listener · e.signal e.payload) ++ [.conclude e.generation e.signal])
  | lost (e : Emission) {why : String} {past : List Emission}
      (bad : e.signal = .error why ∨ e.signal = .closed ∧ why = "connection closed") :
      Passing (e :: past) [.lose e.generation why]

theorem Passing.of_eq_nil {past : List Emission} {view : List Instr} (h : view = []) :
    Passing past view :=
  h ▸ .nothing

theorem Passing.of_deliver {past : List Emission} {view : List Instr} {generation : Nat}
    {x : Signal} {p : Option Json} (h : Passing past (.deliver generation x p :: view)) :
    view = [] := by
  generalize shape : Instr.deliver generation x p :: view = stack at h
  cases h with
  | due e =>
    cases shape
    rfl
  | round e left => cases left <;> cases shape
  | _ => cases shape

theorem Passing.of_listener {past : List Emission} {view : List Instr} {l : Listener} {x : Signal}
    {p : Option Json} (h : Passing past (.listener l x p :: view)) :
    ∃ (left : List Listener) (generation : Nat),
      view = left.map (Instr.listener · x p) ++ [.conclude generation x] := by
  generalize shape : Instr.listener l x p :: view = stack at h
  cases h with
  | round e left =>
    cases left with
    | nil => cases shape
    | cons l left =>
      cases shape
      exact ⟨left, _, rfl⟩
  | _ => cases shape

theorem Passing.of_lose {past : List Emission} {view : List Instr} {generation : Nat}
    {why : String} (h : Passing past (.lose generation why :: view)) :
    view = [] ∧ ∃ e earlier, past = e :: earlier ∧ e.generation = generation ∧
      (e.signal = .error why ∨ e.signal = .closed ∧ why = "connection closed") := by
  generalize shape : Instr.lose generation why :: view = stack at h
  cases h with
  | round e left => cases left <;> cases shape
  | lost e bad =>
    cases shape
    exact ⟨rfl, e, _, rfl, rfl, bad⟩
  | _ => cases shape

/-- What is done about a signal goes on in the same task. -/
theorem Passing.step {past : List Emission} {view : List Instr} (h : Passing past (i :: view))
    (serves : i.serves = true) (voices : Voices s i r before) :
    Passing past (before.filter Instr.serves ++ view) := by
  generalize shape : i :: view = stack at h
  cases h with
  | nothing => cases shape
  | due e =>
    obtain ⟨rfl, rfl⟩ := List.cons.inj shape
    cases voices with
    | aside plain => cases plain
    | delivered =>
      rw [List.filter_append, serves_listeners, List.append_nil]
      exact .round e _
  | round e left =>
    obtain ⟨generation, x, p⟩ := e
    cases left with
    | nil =>
      obtain ⟨rfl, rfl⟩ := List.cons.inj shape
      cases voices with
      | aside plain => cases plain
      | settled => exact .nothing
      | failed bad => exact .lost ⟨generation, x, p⟩ bad
    | cons l left =>
      obtain ⟨rfl, rfl⟩ := List.cons.inj shape
      cases voices with
      | aside plain => cases plain
      | reached =>
        rw [serves_acts, List.nil_append]
        exact .round ⟨generation, x, p⟩ left
  | lost e =>
    obtain ⟨rfl, rfl⟩ := List.cons.inj shape
    cases voices with
    | aside plain => cases plain
    | lost plains => exact .of_eq_nil (by rw [plains, List.append_nil])

theorem accepted_did (run : Run delays past s) :
    accepted delays (.did t i a :: past) = s.accepted (.did t i a) ++ accepted delays past :=
  chronicle_did run _

theorem rounds_did (run : Run delays past s) :
    rounds delays (.did t i a :: past) = s.rounds (.did t i a) ++ rounds delays past :=
  chronicle_did run _

/-- What is done about a signal is no signal. -/
theorem accepted_of_serves (serves : i.serves = true) (s : System) (t : TaskId) (a : Answer) :
    s.accepted (.did t i a) = [] := by
  cases i <;> first | rfl | cases serves

theorem heard_of_accepted {m : Move} {e : Emission} (h : s.accepted m = [e]) :
    s.handle = true ∧ s.machine.hears e.generation = true ∧
      ∃ t a, m = .did t (.signal e.generation e.signal e.payload) a := by
  unfold System.accepted at h
  split at h
  next t generation x p a =>
    split at h
    next both =>
      cases h
      exact ⟨both.1, both.2, t, a, rfl⟩
    next => cases h
  next => cases h

/-- When a signal is accepted, nothing is left to do about others. -/
theorem Run.quiet_of_accepted (run : Run delays past s) {m : Move}
    (single : oneByOne delays (m :: past) = true) {e : Emission} (accepts : s.accepted m = [e]) :
    s.pool.Every fun _ task => task.stack.filter Instr.serves = [] := by
  have here := (Bool.and_eq_true_iff.mp single).1
  rw [run.replay, accepts] at here
  exact System.quiet_iff.mp (by simpa using here)

/-- One task at most has something to do about signals, and it is about the one accepted last. -/
def System.Serves (s : System) (past : List Emission) (owner : TaskId) : Prop :=
  s.pool.Every fun k task => Passing past (task.stack.filter Instr.serves) ∧
    (k ≠ owner → task.stack.filter Instr.serves = [])

theorem System.serves_of_quiet
    (quiet : s.pool.Every fun _ task => task.stack.filter Instr.serves = []) (past : List Emission)
    (owner : TaskId) : s.Serves past owner :=
  quiet.mono fun _ _ none => ⟨.of_eq_nil none, fun _ => none⟩

/-- What is done about signals goes on when a task goes on. -/
theorem System.Serves.step {past : List Emission} {owner : TaskId} (h : s.Serves past owner)
    (does : Does s i a r before) {stack : List Instr}
    (own : Passing past (stack.filter Instr.serves))
    (apart : t ≠ owner → stack.filter Instr.serves = []) :
    (r.proceed t stack).Serves past owner := by
  have every := does.every h (fun _ _ here => here) fun _ _ rests =>
    ⟨.of_eq_nil rests.serves, fun _ => rests.serves⟩
  exact every.proceed fun _ _ _ => ⟨own, apart⟩

/-- **If signals come one after the other, only the latest is being passed on.** -/
theorem Run.serves (run : Run delays past s) (single : oneByOne delays past = true) :
    ∃ owner, s.Serves (accepted delays past) owner := by
  induction run with
  | start => exact ⟨0, Pool.every_empty⟩
  | @next past s s' m run step _ ih =>
    obtain ⟨owner, every⟩ := ih (Bool.and_eq_true_iff.mp single).2
    cases step with
    | ask a => exact ⟨owner, every.spawn ⟨.nothing, fun _ => rfl⟩⟩
    | park => exact ⟨owner, every.park fun _ _ here => here⟩
    | @act _ t task i rest a found next taken =>
      obtain ⟨r, before, does, -, rfl⟩ := step_does found next taken
      have here := every _ (Pool.mem_of_get? found)
      simp only [next] at here
      have voices := does.voices
      cases serves : i.serves with
      | true =>
        rw [List.filter_cons, if_pos serves] at here
        have mine : t = owner := Decidable.byContradiction fun other => nomatch here.2 other
        rw [accepted_did run, accepted_of_serves serves, List.nil_append]
        refine ⟨owner, every.step does ?_ fun other => absurd mine other⟩
        rw [List.filter_append]
        exact here.1.step serves voices
      | false =>
        rw [List.filter_cons, serves, if_neg nofun] at here
        cases voices with
        | aside _ plains deaf =>
          rw [accepted_did run, deaf, List.nil_append]
          refine ⟨owner, every.step does ?_ ?_⟩ <;>
            rw [List.filter_append, plains, List.nil_append]
          · exact here.1
          · exact here.2
        | @heard generation x p accepts =>
          have quiet := run.quiet_of_accepted single (accepts t a)
          have none : rest.filter Instr.serves = [] := by
            have own : task.stack.filter Instr.serves = [] := quiet _ (Pool.mem_of_get? found)
            rw [next] at own
            exact own
          rw [accepted_did run, accepts]
          refine ⟨t, (System.serves_of_quiet quiet _ t).step does ?_ fun other => absurd rfl other⟩
          show Passing _ (Instr.deliver generation x p :: rest.filter Instr.serves)
          rw [none]
          exact .due ⟨generation, x, p⟩
        | delivered | reached | settled | failed | lost => cases serves

/-! ## Every round reaches those who listen -/

/-- What listeners are about to be told, as those of a name see it. -/
theorem message?_listeners (ls : List Listener) (x : Signal) (p : Option Json) (name : String) :
    (ls.map (Instr.listener · x p)).filterMap (Instr.message? name) =
      List.replicate (ls.countP (·.name = name)) (x, p) := by
  induction ls with
  | nil => rfl
  | cons l ls ih =>
    by_cases named : l.name = name
    · simp [Instr.message?, named, ih, List.replicate_succ]
    · simp [Instr.message?, named, ih]

theorem emission?_listeners (ls : List Listener) (x : Signal) (p : Option Json) :
    (ls.map (Instr.listener · x p)).filterMap Instr.emission? = [] :=
  List.filterMap_eq_nil_iff.mpr (List.forall_mem_map.mpr fun _ _ => rfl)

/-- A view of what is done about signals, of all tasks but the one that has it in hand. -/
theorem System.Serves.others {β : Type} {f : Instr → Option β} {past : List Emission}
    (h : s.Serves past t) (only : ∀ i, i.serves = false → f i = none) :
    s.pool.Every fun k task => k ≠ t → task.stack.filterMap f = [] :=
  h.mono fun _ _ here other => filterMap_of_serves only (here.2 other)

/-- What is passed on and what is about to be. -/
structure Ledgers (delays : List Nat) (past : List Move) (s : System) : Prop where
  emissions : s.pool.work Instr.emission? ++ (rounds delays past).map Round.emission =
    accepted delays past
  messages : ∀ name, s.pool.work (Instr.message? name) ++ s.received name =
    (rounds delays past).flatMap (Round.share name)

theorem Ledgers.congr {later : List Move} (h : Ledgers delays past s)
    (emissions : s'.pool.work Instr.emission? = s.pool.work Instr.emission?)
    (messages : ∀ name, s'.pool.work (Instr.message? name) = s.pool.work (Instr.message? name))
    (received : ∀ name, s'.received name = s.received name)
    (same : rounds delays later = rounds delays past)
    (silent : accepted delays later = accepted delays past) : Ledgers delays later s' where
  emissions := by
    rw [emissions, same, silent]
    exact h.emissions
  messages name := by
    rw [messages, received, same]
    exact h.messages name

/-- True of an instruction that tells nobody anything, and of what comes of it. -/
structure Mute (i : Instr) (before : List Instr) : Prop where
  emission : i.emission? = none ∧ before.filterMap Instr.emission? = []
  message : ∀ name, i.message? name = none ∧ before.filterMap (Instr.message? name) = []

theorem mute_of_plains (plains : before.filter Instr.serves = []) (emission : i.emission? = none)
    (message : ∀ name, i.message? name = none) : Mute i before where
  emission := ⟨emission, filterMap_of_serves emission?_serves plains⟩
  message name := ⟨message name, filterMap_of_serves (message?_serves name) plains⟩

theorem rounds_of_emission? (none : i.emission? = none) (s : System) (t : TaskId) (a : Answer) :
    s.rounds (.did t i a) = [] := by
  cases i <;> first | rfl | cases none

/-- What tells nobody anything leaves what is passed on, and what is about to be. -/
theorem Ledgers.mute (h : Ledgers delays past s) (run : Run delays past s)
    (found : s.pool.get? t = some task) (next : task.stack = i :: rest) (does : Does s i a r before)
    (mute : Mute i before) (silent : s.accepted (.did t i a) = [])
    (same : ∀ name, r.received name = s.received name) :
    Ledgers delays (.did t i a :: past) (r.proceed t (before ++ rest)) := by
  have kept {β : Type} {f : Instr → Option β} (only : ∀ i, i.serves = false → f i = none)
      (none : f i = none ∧ before.filterMap f = []) :
      (r.proceed t (before ++ rest)).pool.work f = s.pool.work f :=
    run.work_kept (late_of_serves only) found next does (by rw [none.1, none.2]; rfl)
  refine h.congr (kept emission?_serves mute.emission)
    (fun name => kept (message?_serves name) (mute.message name)) same ?_ ?_
  · rw [rounds_did run, rounds_of_emission? mute.emission.1, List.nil_append]
  · rw [accepted_did run, silent, List.nil_append]

/-- Whoever has something to do about a signal is the one. -/
theorem System.Serves.owner {past : List Emission} {owner : TaskId} (h : s.Serves past owner)
    (found : s.pool.get? t = some task) (next : task.stack = i :: rest)
    (serves : i.serves = true) : t = owner := by
  have here := (h _ (Pool.mem_of_get? found)).2
  simp only [next, List.filter_cons, if_pos serves] at here
  exact Decidable.byContradiction fun other => nomatch here other

theorem Ledgers.heard (h : Ledgers delays past s) (run : Run delays past s) {generation : Nat}
    {x : Signal} {p : Option Json} (found : s.pool.get? t = some task)
    (next : task.stack = .signal generation x p :: rest)
    (does : Does s (.signal generation x p) a s [.deliver generation x p])
    (accepts : s.accepted (.did t (.signal generation x p) a) = [⟨generation, x, p⟩])
    (quiet : s.pool.Every fun _ task => task.stack.filter Instr.serves = []) :
    Ledgers delays (.did t (.signal generation x p) a :: past)
      (s.proceed t ([.deliver generation x p] ++ rest)) where
  emissions := by
    have others := (System.serves_of_quiet quiet [] t).others emission?_serves
    have own : task.stack.filterMap Instr.emission? = [] :=
      filterMap_of_serves emission?_serves (quiet _ (Pool.mem_of_get? found))
    have emissions := h.emissions
    rw [Pool.work_sole (Sound.of_run run).tidy.numbered found others, own] at emissions
    rw [next] at own
    rw [accepted_did run, accepts, rounds_did run,
      run.work_turn (late_of_serves emission?_serves) found does others, ← emissions]
    exact congrArg (_ :: · ++ _) own
  messages name := by
    rw [rounds_did run, run.work_kept (late_of_serves (message?_serves name)) found next does rfl]
    exact h.messages name

theorem Ledgers.delivered (h : Ledgers delays past s) (run : Run delays past s) {generation : Nat}
    {x : Signal} {p : Option Json} (found : s.pool.get? t = some task)
    (next : task.stack = .deliver generation x p :: rest)
    (does : Does s (.deliver generation x p) a s before)
    (reaches : before =
      (s.listeners.snapshot ()).map (.listener · x p) ++ [.conclude generation x])
    (serves : s.Serves (accepted delays past) t) :
    Ledgers delays (.did t (.deliver generation x p) a :: past) (s.proceed t (before ++ rest)) := by
  have numbered := (Sound.of_run run).tidy.numbered
  have done : rest.filter Instr.serves = [] := by
    have here := (serves _ (Pool.mem_of_get? found)).1
    rw [next] at here
    exact here.of_deliver
  have blind {β : Type} {f : Instr → Option β} (only : ∀ i, i.serves = false → f i = none) :
      rest.filterMap f = [] := filterMap_of_serves only done
  refine ⟨?_, fun name => ?_⟩
  · have emissions := h.emissions
    have others := serves.others emission?_serves
    rw [Pool.work_sole numbered found others, next] at emissions
    simp only [List.filterMap_cons, Instr.emission?, blind emission?_serves] at emissions
    rw [accepted_did run, rounds_did run, ← emissions,
      run.work_turn (late_of_serves emission?_serves) found does others, List.filterMap_append,
      blind emission?_serves, reaches, List.filterMap_append, emission?_listeners]
    rfl
  · have messages := h.messages name
    have others := serves.others (message?_serves name)
    rw [Pool.work_sole numbered found others, next] at messages
    simp only [List.filterMap_cons, Instr.message?, blind (message?_serves name)] at messages
    rw [rounds_did run, run.work_turn (late_of_serves (message?_serves name)) found does others,
      List.filterMap_append, blind (message?_serves name), reaches, List.filterMap_append,
      message?_listeners, System.rounds, List.flatMap_append, ← messages, List.flatMap_singleton,
      List.append_nil, List.append_assoc]
    rfl

theorem Ledgers.reached (h : Ledgers delays past s) (run : Run delays past s) {l : Listener}
    {x : Signal} {p : Option Json} {as : List Action} (found : s.pool.get? t = some task)
    (next : task.stack = .listener l x p :: rest)
    (does : Does s (.listener l x p) a (s.record (.delivered l.name x p)) (as.map .act))
    (serves : s.Serves (accepted delays past) t) :
    Ledgers delays (.did t (.listener l x p) a :: past)
      ((s.record (.delivered l.name x p)).proceed t (as.map .act ++ rest)) where
  emissions := by
    have none := filterMap_of_serves emission?_serves (serves_acts as)
    rw [rounds_did run, accepted_did run,
      run.work_kept (late_of_serves emission?_serves) found next does none]
    exact h.emissions
  messages name := by
    have others := serves.others (message?_serves name)
    have messages := h.messages name
    -- The rest of the round brings the same, so it does not matter which of it comes first.
    obtain ⟨count, left⟩ : ∃ count, rest.filterMap (Instr.message? name) =
        List.replicate count (x, p) := by
      have here := (serves _ (Pool.mem_of_get? found)).1
      rw [next] at here
      obtain ⟨left, generation, view⟩ := here.of_listener
      rw [filterMap_serves (message?_serves name), view, List.filterMap_append, message?_listeners]
      exact ⟨_, List.append_nil _⟩
    have none := filterMap_of_serves (message?_serves name) (serves_acts as)
    rw [Pool.work_sole (Sound.of_run run).tidy.numbered found others, next] at messages
    rw [rounds_did run, run.work_turn (late_of_serves (message?_serves name)) found does others,
      List.filterMap_append, none, left]
    refine Eq.trans ?_ messages
    have told : (s.record (.delivered l.name x p)).received name =
        (if l.name = name then [(x, p)] else []) ++ s.received name := by
      by_cases named : l.name = name <;> simp [System.received, System.record, Happening.message?,
        named]
    have head : (Instr.listener l x p :: rest).filterMap (Instr.message? name) =
        (if l.name = name then [(x, p)] else []) ++ List.replicate count (x, p) := by
      by_cases named : l.name = name <;> simp [Instr.message?, named, left]
    rw [head]
    show _ ++ (s.record (.delivered l.name x p)).received name = _
    rw [told, List.nil_append]
    split
    · rw [← List.append_assoc, ← List.replicate_succ', List.replicate_succ]
      rfl
    · rfl

/-- **If signals come one after the other, what listeners are told is what was accepted.** -/
theorem Run.ledgers (run : Run delays past s) (single : oneByOne delays past = true) :
    Ledgers delays past s := by
  induction run with
  | start => exact ⟨rfl, fun _ => rfl⟩
  | @next past s s' m run step _ ih =>
    have earlier := (Bool.and_eq_true_iff.mp single).2
    have ledgers := ih earlier
    have lateE : Late Instr.emission? := late_of_serves emission?_serves
    have lateM (name : String) : Late (Instr.message? name) := late_of_serves (message?_serves name)
    cases step with
    | ask a =>
      exact ledgers.congr (s.work_asked lateE a) (fun name => s.work_asked (lateM name) a)
        (fun _ => rfl) rfl rfl
    | park found next waits =>
      exact ledgers.congr (run.work_parked lateE found next waits)
        (fun name => run.work_parked (lateM name) found next waits) (fun _ => rfl) rfl rfl
    | @act _ t task i rest a found next taken =>
      obtain ⟨r, before, does, -, rfl⟩ := step_does found next taken
      obtain ⟨owner, serves⟩ := run.serves earlier
      cases does.voices with
      | aside plain plains deaf same =>
        exact ledgers.mute run found next does (mute_of_plains plains (emission?_serves i plain)
          fun name => message?_serves name i plain) (deaf t a) same
      | settled same =>
        exact ledgers.mute run found next does (mute_of_plains rfl rfl fun _ => rfl) rfl same
      | failed =>
        exact ledgers.mute run found next does ⟨⟨rfl, rfl⟩, fun _ => ⟨rfl, rfl⟩⟩ rfl
          fun _ => rfl
      | lost plains same =>
        exact ledgers.mute run found next does (mute_of_plains plains rfl fun _ => rfl) rfl same
      | heard accepts =>
        have quiet := run.quiet_of_accepted single (accepts t a)
        exact ledgers.heard run found next does (accepts t a) quiet
      | delivered =>
        obtain rfl := serves.owner found next rfl
        exact ledgers.delivered run found next does rfl serves
      | reached =>
        obtain rfl := serves.owner found next rfl
        exact ledgers.reached run found next does serves

/-! ## Manners -/

/-- True of what the daemon does. -/
def Action.signals : Action → Bool
  | .signal .. => true
  | _ => false

/-- Whether listeners, and the one who is told whether the daemon is listened to, leave signals to
the daemon, and the daemon leaves everything else to users. -/
def Move.mannerly : Move → Bool
  | .did _ (.listener ..) (.actions as) => as.all fun a => !a.signals
  | .did _ (.tell _) (.actions as) => as.all fun a => !a.signals
  | .did _ (.unregister _) (.actions as) => as.all Action.signals
  | .did _ (.register _) (.actions as) => as.all Action.signals
  | _ => true

def mannerly (past : List Move) : Bool :=
  past.all Move.mannerly

/-- True of what the daemon does when it is asked to. -/
def Instr.emits : Instr → Bool
  | .act a => a.signals
  | .signal .. | .unregister _ => true
  | _ => false

/-- True of a watcher that accepts no signal. -/
def System.Deaf (s : System) : Prop :=
  s.handle = false ∨ s.machine.state = .idle

/-- True of what comes of users. -/
def Instr.user (i : Instr) : Bool :=
  !i.emits && !i.roots

theorem System.not_deaf {generation : Nat} (handle : s.handle = true)
    (hears : s.machine.hears generation = true) : ¬s.Deaf := by
  rintro (gone | idle)
  · rw [gone] at handle
    cases handle
  · exact (Machine.eq_of_hears hears).2 idle

/-- What a task has to do: what users brought about comes before what the daemon does of its own.
If the daemon does something before that, no signal is accepted meanwhile. -/
inductive Polite (deaf : Prop) : List Instr → Prop
  | intro {inner user daemon : List Instr} (meanwhile : inner ≠ [] → deaf)
      (inners : ∀ i ∈ inner, i.emits = true) (users : ∀ i ∈ user, i.user = true)
      (daemons : ∀ i ∈ daemon, i.user = false) : Polite deaf (inner ++ (user ++ daemon))

/-- What comes of an instruction of a user: what the daemon is asked to do comes first. -/
inductive Answers (deaf : Prop) : List Instr → Prop
  | intro {inner user : List Instr} (meanwhile : inner ≠ [] → deaf)
      (inners : ∀ i ∈ inner, i.emits = true) (users : ∀ i ∈ user, i.user = true) :
      Answers deaf (inner ++ user)

theorem Answers.of_users {deaf : Prop} (users : ∀ i ∈ before, i.user = true) :
    Answers deaf before :=
  @Answers.intro deaf [] before (fun some => absurd rfl some) nofun users

theorem user_acts {as : List Action} (manners : as.all (fun a => !a.signals) = true) :
    ∀ i ∈ as.map Instr.act, i.user = true := by
  refine List.forall_mem_map.mpr fun a ha => ?_
  have here := List.all_eq_true.mp manners a ha
  simpa [Instr.user, Instr.emits, Instr.roots] using here

theorem emits_acts {as : List Action} (manners : as.all Action.signals = true) :
    ∀ i ∈ as.map Instr.act, i.emits = true :=
  List.forall_mem_map.mpr (List.all_eq_true.mp manners)

theorem user_of_emits (h : i.emits = true) : i.user = false := by
  rw [Instr.user, h]
  rfl

theorem user_of_serves (h : i.serves = true) : i.user = true := by
  cases i <;> first | rfl | cases h

theorem user_revokes (parts : List (Subscription Unit)) :
    ∀ i ∈ parts.map Instr.revoke, i.user = true :=
  List.forall_mem_map.mpr fun _ _ => rfl

theorem emits_giveUp (m : Machine) : ∀ i ∈ m.giveUp.map System.instrFor, i.emits = true := by
  unfold Machine.giveUp
  split <;> simp [System.instrFor, Instr.emits]

theorem user_lost (m : Machine) : ∀ i ∈ m.lost.map System.instrFor, i.user = true := by
  unfold Machine.lost
  split <;> simp [System.instrFor, Instr.user, Instr.emits, Instr.roots]

/-- When a registration is given up, the daemon is asked to, and then it is told. -/
theorem Answers.of_leaving {deaf : Prop} (m : Machine) (here : deaf) :
    Answers deaf ((m.giveUp ++ m.lost).map System.instrFor) := by
  rw [List.map_append]
  exact .intro (fun _ => here) (emits_giveUp m) (user_lost m)

theorem Machine.begin_effects (m : Machine) (retried : Bool) : (m.begin retried).effects = [] := by
  unfold begin
  split <;> rfl

theorem Machine.lose_of_hears {m : Machine} {generation : Nat} (delays : List Nat) (why : String)
    (hears : m.hears generation = true) : (m.lose delays generation why).machine.state = .idle ∧
      (m.lose delays generation why).effects = m.giveUp ++ m.lost := by
  rw [lose, if_pos hears]
  refine ⟨?_, rfl⟩
  show (scheduleRetry _ _).1.state = _
  rw [scheduleRetry_machine]

/-- **What comes of an instruction of a user.** -/
theorem Does.answers (h : Does s i a r before) (user : i.user = true)
    (manners : (Move.did t i a).mannerly = true) : Answers r.Deaf before := by
  cases h with
  | lapsed | renewed => exact .of_users nofun
  | enrolled parts => exact .of_users (user_revokes parts)
  | started | halted | disposed | failed =>
    exact .of_users (by simp [Instr.user, Instr.emits, Instr.roots])
  | told | reached => exact .of_users (user_acts manners)
  | delivered =>
    refine .of_users fun j hj => ?_
    rcases List.mem_append.mp hj with hj | hj
    · obtain ⟨l, -, rfl⟩ := List.mem_map.mp hj
      rfl
    · rw [List.mem_singleton.mp hj]
      rfl
  | dropped =>
    have gone := (System.noticed_apply { s with handle := false } s.machine.dropped).handle
    have asked : Answers (System.Deaf _) (s.machine.giveUp.map System.instrFor ++ []) :=
      .intro (fun _ => .inl gone) (emits_giveUp s.machine) nofun
    rwa [List.append_nil] at asked
  | @made _ c makes =>
    have noticed := s.noticed_apply c
    cases makes with
    | begin =>
      rw [System.apply, Machine.begin_effects]
      exact .of_users (List.forall_mem_nil _)
    | stop => exact .of_leaving s.machine (.inr noticed.state)
    | @lose generation why =>
      cases hears : s.machine.hears generation with
      | true =>
        obtain ⟨idle, effects⟩ := Machine.lose_of_hears s.delays why hears
        rw [System.apply, effects]
        exact .of_leaving s.machine (.inr (noticed.state.trans idle))
      | false =>
        rw [System.apply, Machine.lose, hears]
        exact .of_users (List.forall_mem_nil _)
    | registered => cases user
  | emitted | meanwhile | ended | refused | used | heard | unheard => cases user

/-- What comes of what the daemon does. -/
theorem Does.emitted_of (h : Does s i a r before) (emits : i.emits = true)
    (manners : (Move.did t i a).mannerly = true) :
    (r = s ∧ ∀ j ∈ before, j.emits = true) ∨ ¬s.Deaf ∧ ∀ j ∈ before, j.user = true := by
  cases h with
  | lapsed => exact .inl ⟨rfl, nofun⟩
  | emitted => exact .inl ⟨rfl, by simp [Instr.emits]⟩
  | unheard => exact .inl ⟨rfl, nofun⟩
  | used => exact .inl ⟨rfl, emits_acts manners⟩
  | heard handle hears =>
    exact .inr ⟨System.not_deaf handle hears, by simp [Instr.user, Instr.emits, Instr.roots]⟩
  | @enrolled i _ _ _ enrols =>
    cases i with
    | act a =>
      cases a with
      | listen | unlisten | combine => cases emits
      | _ => cases enrols
    | revoke | clear => cases emits
    | _ => cases enrols
  | made makes => cases makes <;> cases emits
  | _ => cases emits

/-- What comes of a registration and of the task that tries again. -/
theorem Does.rooted_of (h : Does s i a r before) (root : i.roots = true)
    (manners : (Move.did t i a).mannerly = true) :
    (∀ j ∈ before, j.user = false) ∨ ∀ j ∈ before, j.user = true := by
  cases h with
  | lapsed => exact .inl nofun
  | enrolled parts => exact .inr (user_revokes parts)
  | meanwhile =>
    refine .inl fun j hj => ?_
    rcases List.mem_append.mp hj with hj | hj
    · exact user_of_emits (emits_acts manners j hj)
    · rw [List.mem_singleton.mp hj]
      rfl
  | ended | refused => exact .inl (by simp [Instr.user, Instr.emits, Instr.roots])
  | made makes =>
    cases makes with
    | begin =>
      rw [System.apply, Machine.begin_effects]
      exact .inl (List.forall_mem_nil _)
    | @registered generation result =>
      cases result with
      | ok h =>
        simp only [System.apply, Machine.registered]
        split
        · exact .inr (by simp [System.instrFor, Instr.user, Instr.emits, Instr.roots])
        · exact .inl (by simp [System.instrFor, Instr.user, Instr.emits, Instr.roots])
      | error why =>
        simp only [System.apply, Machine.registered]
        split
        · exact .inr (by simp [System.instrFor, Instr.user, Instr.emits, Instr.roots])
        · exact .inl (List.forall_mem_nil _)
    | stop | lose => cases root
  | _ => cases root

/-- If the daemon does nothing before users are done, signals may be accepted. -/
theorem Polite.calm {deaf : Prop} {user daemon : List Instr} (users : ∀ i ∈ user, i.user = true)
    (daemons : ∀ i ∈ daemon, i.user = false) : Polite deaf (user ++ daemon) :=
  @Polite.intro deaf [] user daemon (fun some => absurd rfl some) nofun users daemons

theorem Polite.daemon {deaf : Prop} {stack : List Instr} (daemons : ∀ i ∈ stack, i.user = false) :
    Polite deaf stack :=
  @Polite.calm deaf [] stack nofun daemons

/-- **What a task has to do keeps its order**, if all have manners. -/
theorem Polite.step (h : Polite s.Deaf (i :: rest)) (does : Does s i a r before)
    (manners : (Move.did t i a).mannerly = true) : Polite r.Deaf (before ++ rest) := by
  generalize shape : i :: rest = stack at h
  cases h with
  | @intro inner user daemon deaf inners users daemons =>
    cases inner with
    | cons first inner =>
      obtain ⟨rfl, rfl⟩ := List.cons.inj shape
      obtain ⟨emits, inners⟩ := List.forall_mem_cons.mp inners
      rcases does.emitted_of emits manners with ⟨rfl, emits⟩ | ⟨hears, -⟩
      · show Polite r.Deaf (before ++ (inner ++ (user ++ daemon)))
        rw [← List.append_assoc]
        exact .intro (fun _ => deaf nofun) (List.forall_mem_append.mpr ⟨emits, inners⟩) users
          daemons
      · exact absurd (deaf nofun) hears
    | nil =>
      cases user with
      | cons first user =>
        obtain ⟨rfl, rfl⟩ := List.cons.inj shape
        obtain ⟨asked, users⟩ := List.forall_mem_cons.mp users
        cases does.answers asked manners with
        | @intro inner before deaf inners answers =>
          show Polite r.Deaf (inner ++ before ++ (user ++ daemon))
          rw [List.append_assoc, ← List.append_assoc before]
          exact .intro deaf inners (List.forall_mem_append.mpr ⟨answers, users⟩) daemons
      | nil =>
        obtain rfl : i :: rest = daemon := shape
        obtain ⟨own, later⟩ := List.forall_mem_cons.mp daemons
        have alone (own : ∀ j ∈ before, j.user = false) : Polite r.Deaf (before ++ rest) :=
          .daemon (List.forall_mem_append.mpr ⟨own, later⟩)
        cases emits : i.emits with
        | true =>
          rcases does.emitted_of emits manners with ⟨-, emits⟩ | ⟨-, users⟩
          · exact alone fun j hj => user_of_emits (emits j hj)
          · exact .calm users later
        | false =>
          have root : i.roots = true := by simpa [Instr.user, emits] using own
          rcases does.rooted_of root manners with own | users
          · exact alone own
          · exact .calm users later

/-- While a signal may be accepted, nothing is to be done after one about another. -/
theorem Polite.quiet {deaf : Prop} {generation : Nat} {x : Signal} {p : Option Json}
    (h : Polite deaf (.signal generation x p :: rest)) (hears : ¬deaf) :
    (Instr.signal generation x p :: rest).filter Instr.serves = [] := by
  generalize shape : Instr.signal generation x p :: rest = stack at h
  cases h with
  | @intro inner user daemon meanwhile inners users daemons =>
    cases inner with
    | cons => exact absurd (meanwhile nofun) hears
    | nil =>
      cases user with
      | cons first user =>
        obtain ⟨rfl, -⟩ := List.cons.inj shape
        cases users _ List.mem_cons_self
      | nil =>
        refine List.filter_eq_nil_iff.mpr fun i hi serves => ?_
        have user := user_of_serves serves
        rw [daemons i hi] at user
        cases user

theorem Rests.polite {stack : List Instr} (h : Rests stack) (deaf : Prop) : Polite deaf stack := by
  cases h with
  | asked a =>
    cases signals : a.signals with
    | true => exact .daemon (by simp [Instr.user, Instr.emits, signals])
    | false =>
      exact @Polite.calm deaf [.act a] []
        (by simp [Instr.user, Instr.emits, Instr.roots, signals]) nofun
  | registers generation => exact .daemon (by simp [Instr.user, Instr.roots])
  | sleeps delay => exact .daemon (by simp [Instr.user, Instr.roots])

/-- **In turns taken to their ends every task keeps its order**, if all have manners. -/
theorem Run.polite (run : Run delays past s) (turns : orderly delays past = true)
    (manners : mannerly past = true) : s.pool.Every fun _ task => Polite s.Deaf task.stack := by
  induction run with
  | start => exact Pool.every_empty
  | @next past s s' m run step _ ih =>
    obtain ⟨here, earlier⟩ := Bool.and_eq_true_iff.mp manners
    have every := ih (orderly_tail turns) earlier
    cases step with
    | ask a => exact every.spawn ((Rests.asked a).polite _)
    | park => exact every.park fun _ _ polite => polite
    | @act _ t task i rest a found next taken =>
      obtain ⟨r, before, does, -, rfl⟩ := step_does found next taken
      have polite := every _ (Pool.mem_of_get? found)
      simp only [next] at polite
      intro e he
      rcases run.turn does (run.alone turns) he with ⟨-, rests⟩ | ⟨-, own⟩
      · exact rests.polite _
      · rw [own]
        have after : Polite r.Deaf (before ++ rest) := polite.step does here
        exact after

/-- **If turns are taken to their ends and all have manners, signals come one after the other.** -/
theorem oneByOne_of_turns (run : Run delays past s) (turns : orderly delays past = true)
    (manners : mannerly past = true) : oneByOne delays past = true := by
  induction run with
  | start => rfl
  | @next past s s' m run step _ ih =>
    obtain ⟨here, earlier⟩ := Bool.and_eq_true_iff.mp manners
    have single := ih (orderly_tail turns) earlier
    have every := run.polite (orderly_tail turns) earlier
    rw [oneByOne, single, Bool.and_true, run.replay]
    cases step with
    | ask | park => rfl
    | @act _ t task i rest a found next taken =>
      obtain ⟨r, before, does, -, rfl⟩ := step_does found next taken
      cases does.voices with
      | @heard generation x p accepts =>
        obtain ⟨handle, hears, -⟩ := heard_of_accepted (accepts t a)
        have polite := every _ (Pool.mem_of_get? found)
        simp only [next] at polite
        rw [accepts, Bool.or_eq_true]
        refine .inr (System.quiet_iff.mpr fun e he => ?_)
        by_cases other : e.1 = t
        · obtain ⟨k, own⟩ := e
          obtain rfl : k = t := other
          obtain rfl := (Sound.of_run run).tidy.numbered.unique (Pool.mem_of_get? found) he
          show task.stack.filter Instr.serves = []
          rw [next]
          exact polite.quiet (System.not_deaf handle hears)
        · have parked := System.parked_of_alone (run.alone turns) e he other
          exact ((run.seated e he).2 parked).serves
      | aside _ _ deaf => rw [deaf]; rfl
      | delivered | reached | settled | failed | lost => rfl

/-! ## The law -/

/-- The watcher when a task has gone past its next instruction, and nothing else has changed. -/
def System.skip (s : System) (t : TaskId) : System :=
  s.proceed t (((s.pool.get? t).map (·.stack.tail)).getD [])

/-- True when everything that was accepted was passed on, and everyone was told who listened. -/
def Delivered (delays : List Nat) (past : List Move) (s : System) : Prop :=
  (rounds delays past).map Round.emission = accepted delays past ∧
    ∀ name, s.received name = (rounds delays past).flatMap (Round.share name)

/-- Who is told of what. -/
structure Served (delays : List Nat) (past : List Move) (s : System) : Prop where
  /-- A signal that is not accepted changes nothing. -/
  ignored : ∀ later t generation x p a older,
    past = later ++ .did t (.signal generation x p) a :: older →
    (replay delays older).accepted (.did t (.signal generation x p) a) = [] →
    replay delays (.did t (.signal generation x p) a :: older) = (replay delays older).skip t
  /-- With what is about to be passed on, what was accepted is passed on in the same order; and with
  what they are about to be told, listeners are told it as often as they listen then. -/
  ledgers : oneByOne delays past = true → Ledgers delays past s
  /-- Between two turns nothing is about to be passed on. -/
  rest : oneByOne delays past = true → (∀ e ∈ s.pool.tasks, e.2.parked = true) →
    Delivered delays past s
  /-- When a registration is lost, everyone was told, and of its end last. -/
  torn : oneByOne delays past = true → ∀ later t generation why a older,
    past = later ++ .did t (.lose generation why) a :: older →
    Delivered delays older (replay delays older) ∧
      ∃ e earlier, accepted delays older = e :: earlier ∧ e.generation = generation ∧
        (e.signal = .error why ∨ e.signal = .closed ∧ why = "connection closed")
  /-- A registration that the watcher once did not hear any more is not lost again. -/
  spared : ∀ later t generation why a since older,
    past = later ++ .did t (.lose generation why) a :: (since ++ older) →
    generation ≤ (replay delays older).machine.generation →
    (replay delays older).machine.hears generation = false →
    replay delays (.did t (.lose generation why) a :: (since ++ older)) =
      (replay delays (since ++ older)).skip t
  /-- In turns that are taken to their ends, if all have manners, signals come one after the
  other. -/
  turns : orderly delays past = true → mannerly past = true → oneByOne delays past = true

theorem Ledgers.all (h : Ledgers delays past s) (none : s.pool.work Instr.emission? = [])
    (nobody : ∀ name, s.pool.work (Instr.message? name) = []) : Delivered delays past s := by
  refine ⟨?_, fun name => ?_⟩
  · have emissions := h.emissions
    rwa [none, List.nil_append] at emissions
  · have messages := h.messages name
    rwa [nobody, List.nil_append] at messages

theorem System.skip_eq (found : s.pool.get? t = some task) (next : task.stack = i :: rest) :
    s.skip t = s.proceed t rest := by
  rw [System.skip, found, Option.map_some, Option.getD_some, next, List.tail_cons]

/-- **A signal that is not accepted changes nothing.** -/
theorem Run.ignored {later older : List Move} {generation : Nat} {x : Signal} {p : Option Json}
    (run : Run delays (later ++ .did t (.signal generation x p) a :: older) s)
    (silent : (Watcher.replay delays older).accepted (.did t (.signal generation x p) a) = []) :
    Watcher.replay delays (.did t (.signal generation x p) a :: older) =
      (Watcher.replay delays older).skip t := by
  obtain ⟨task, rest, r, before, found, next, does, after⟩ := run.did
  rw [after, System.skip_eq found next]
  cases does with
  | unheard => rfl
  | heard handle hears =>
    rw [System.accepted, if_pos ⟨handle, hears⟩] at silent
    cases silent
  | lapsed lapses => cases lapses
  | enrolled _ enrols => cases enrols
  | made makes => cases makes

/-- **A registration that the watcher once did not hear any more is not lost again.** -/
theorem Run.spared {later since older : List Move} {generation : Nat} {why : String}
    (run : Run delays (later ++ .did t (.lose generation why) a :: (since ++ older)) s)
    (begun : generation ≤ (Watcher.replay delays older).machine.generation)
    (deaf : (Watcher.replay delays older).machine.hears generation = false) :
    Watcher.replay delays (.did t (.lose generation why) a :: (since ++ older)) =
      (Watcher.replay delays (since ++ older)).skip t := by
  obtain ⟨task, rest, r, before, found, next, does, after⟩ := run.did
  have done := (run.before.done (Machine.done_of_deaf begun deaf)).deaf
  rw [after, System.skip_eq found next]
  cases does with
  | lapsed lapses => cases lapses
  | enrolled _ enrols => cases enrols
  | made makes =>
    cases makes with
    | lose =>
      rw [Machine.lose, done]
      rfl

/-- **When a registration is lost, everyone was told**, and of its end last. -/
theorem Run.torn {later older : List Move} {generation : Nat} {why : String}
    (run : Run delays (later ++ .did t (.lose generation why) a :: older) s)
    (single : oneByOne delays older = true) :
    Delivered delays older (Watcher.replay delays older) ∧
      ∃ e earlier, accepted delays older = e :: earlier ∧ e.generation = generation ∧
        (e.signal = .error why ∨ e.signal = .closed ∧ why = "connection closed") := by
  obtain ⟨task, rest, r, before, found, next, -, -⟩ := run.did
  obtain ⟨owner, serves⟩ := run.before.serves single
  obtain rfl := serves.owner found next rfl
  have here := (serves _ (Pool.mem_of_get? found)).1
  rw [next] at here
  obtain ⟨done, cause⟩ := here.of_lose
  -- The task that tears it down is the only one that is busy with signals, and done with them.
  have none {β : Type} {f : Instr → Option β} (only : ∀ i, i.serves = false → f i = none)
      (lose : f (.lose generation why) = none) :
      (Watcher.replay delays older).pool.work f = [] := by
    rw [Pool.work_sole (Sound.of_run run.before).tidy.numbered found (serves.others only), next,
      List.filterMap_cons_none lose]
    exact filterMap_of_serves only done
  exact ⟨(run.before.ledgers single).all (none emission?_serves rfl)
    fun name => none (message?_serves name) rfl, cause⟩

/-- **A listener is told what was accepted while it listened.** -/
theorem served_of_run (run : Run delays past s) : Served delays past s where
  ignored := by
    rintro later t generation x p a older rfl
    exact run.ignored
  ledgers := run.ledgers
  rest single parked := (run.ledgers single).all
    (run.work_of_rest (late_of_serves emission?_serves) parked)
    fun name => run.work_of_rest (late_of_serves (message?_serves name)) parked
  torn := by
    rintro single later t generation why a older rfl
    exact run.torn (Bool.and_eq_true_iff.mp (oneByOne_older single)).2
  spared := by
    rintro later t generation why a since older rfl
    exact run.spared
  turns := oneByOne_of_turns run

/-- A listener that has the watcher begin anew when it is told of an error. -/
theorem served_of_restart_from_within : ∃ past s, Run [5] past s ∧ orderly [5] past = true ∧
    mannerly past = true ∧ s.received "l" = [(.error "e", none)] ∧
    s.machine = ⟨.starting, 2, none, 0, none, false⟩ ∧ Served [5] past s := by
  have asked := (Run.start : Run [5] [] (.initial [5])).next (.ask _ (.listen ⟨"l", 0⟩)) nofun
  have listens := asked.next (.act (t := 0) (a := .nothing) rfl rfl rfl) nofun
  have asked := listens.next (.ask _ .start) nofun
  have started := asked.next (.act (t := 1) (a := .nothing) rfl rfl rfl) nofun
  have begun := started.next (.act (t := 1) (a := .nothing) rfl rfl rfl) nofun
  have granted := begun.next (.act (t := 2) (a := .registered (.ok 0)) rfl rfl rfl) nofun
  have listening := granted.next (.act (t := 2) (a := .nothing) rfl rfl rfl) nofun
  have told := listening.next (.act (t := 2) (a := .actions []) rfl rfl rfl) nofun
  have emitted := told.next (.ask _ (.signal 1 (.error "e") none)) nofun
  have signalled := emitted.next (.act (t := 3) (a := .nothing) rfl rfl rfl) nofun
  have heard := signalled.next (.act (t := 3) (a := .nothing) rfl rfl rfl) nofun
  have delivered := heard.next (.act (t := 3) (a := .nothing) rfl rfl rfl) nofun
  have reached := delivered.next
    (.act (t := 3) (a := .actions [.stop, .start]) rfl rfl rfl) nofun
  have halted := reached.next (.act (t := 3) (a := .nothing) rfl rfl rfl) nofun
  have stopped := halted.next (.act (t := 3) (a := .nothing) rfl rfl rfl) nofun
  have gaveUp := stopped.next (.act (t := 3) (a := .actions []) rfl rfl rfl) nofun
  have told := gaveUp.next (.act (t := 3) (a := .actions []) rfl rfl rfl) nofun
  have started := told.next (.act (t := 3) (a := .nothing) rfl rfl rfl) nofun
  have begun := started.next (.act (t := 3) (a := .nothing) rfl rfl rfl) nofun
  have concluded := begun.next (.act (t := 3) (a := .nothing) rfl rfl rfl) nofun
  have spared := concluded.next (.act (t := 3) (a := .nothing) rfl rfl rfl) nofun
  exact ⟨_, _, spared, rfl, rfl, rfl, rfl, served_of_run spared⟩

end Supervision.Watcher
