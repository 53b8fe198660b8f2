import Supervision.Proofs.Worker.Dispatch

/-!
# How often a request is sent

A request looks for a running worker, asks the connection that it found, and does both again when
the worker was busy, as often as was set. `Trying` says how far it has come by what it still has to
do. The law (`Attempted`) compares three readings of its history: what its searches came to
(`searches`), its attempts (`attempts`), and what it returned (`returns`); `verdict` says what is
to be returned by the first two alone.

Between two attempts the worker may be gone and another one be started, so that each may be made on
a connection of its own. The connection is the machine's at the moment in which the task looks; it
is so still when it is asked where nobody interrupts the task between two waits (`unbroken`). That
an answer comes is not established here.
-/

namespace Supervision.Worker

/-! ## What was set -/

theorem System.options_notices (s : System) (ns : List Notice) :
    (ns.foldl notice s).options = s.options := by
  induction ns generalizing s with
  | nil => rfl
  | cons n ns ih =>
    rw [List.foldl_cons, ih]
    cases n <;> rfl

theorem System.options_apply (s : System) (e : Event) : (s.apply e).1.options = s.options :=
  System.options_notices _ _

theorem System.options_act (s : System) (a : Action) : (s.act a).1.options = s.options := by
  cases a with
  | call name c =>
    simp only [act, call]
    split
    · split <;> rfl
    · rfl
  | listen | track | dispose =>
    simp only [act]
    split <;> rfl
  | _ => rfl

theorem System.options_deliver (s : System) (params : Json) (callback : Callback) :
    (s.deliver params callback).1.options = s.options := by
  cases callback with
  | shaped | trackStart | trackEnd =>
    simp only [deliver]
    split <;> rfl
  | _ => rfl

/-- No instruction changes what was set. -/
theorem exec_options {s r : System} {t : TaskId} {caller : String} {i : Instr} {a : Answer}
    {before : List Instr} (h : s.exec t caller i a = some (r, before)) : r.options = s.options := by
  unfold System.exec at h
  split at h
  case h_1 =>
    split at h
    · exact of_result h (s.options_apply _)
    · exact of_result h rfl
  case h_3 => exact of_result h (s.options_act _)
  case h_4 c =>
    refine of_result h ?_
    cases c with
    | request _ params => cases params <;> rfl
    | notify _ params => cases params <;> rfl
    | _ => rfl
  case h_8 need c =>
    refine of_result h ?_
    cases need <;> cases c <;> rfl
  case h_9 =>
    split at h
    · exact of_result h rfl
    · exact of_result h (s.options_apply .stop)
  case h_11 =>
    refine of_result h ?_
    unfold System.answered
    split <;> split <;> (try split) <;> rfl
  case h_13 =>
    refine of_result h ?_
    unfold System.receipted
    split <;> rfl
  case h_20 => exact of_result h (s.options_deliver _ _)
  case h_23 =>
    refine of_result h ?_
    dsimp only
    split <;> rfl
  case h_30 subscription =>
    refine of_result h ?_
    cases subscription <;> rfl
  case h_31 => cases h
  all_goals
    first
      | exact of_result h rfl
      | (split at h <;> first | exact of_result h rfl | cases h)

theorem System.options_release (s : System) : s.release.options = s.options :=
  s.release_elim rfl rfl

/-- **What was set stays so.** -/
theorem Run.options_eq {options : Options} {past : List Move} {s : System}
    (run : Run options past s) : s.options = options := by
  induction run with
  | start => rfl
  | @next past s s' m run step ih =>
    cases step with
    | act found next taken =>
      obtain ⟨r, before, exec, -, result⟩ := step_exec found next taken
      have same := (exec_options exec).trans ih
      rcases result with rfl | rfl
      · exact same
      · exact (System.options_release _).trans same
    | park => exact (System.options_release _).trans ih
    | drop => exact (System.options_release _).trans ih
    | _ => exact ih


/-! ## What a request went through -/

/-- An attempt at a request: the connection that was asked, what it was asked, and what came of
it. -/
structure Attempt where
  connection : ConnectionId
  method : String
  params : Option Json
  outcome : Except TransportError Json

namespace Attempt

/-- The worker was busy. -/
def busy (options : Options) (a : Attempt) : Bool :=
  match a.outcome with
  | .ok _ => false
  | .error why => why.responseCode? = some options.busyCode

/-- What a caller gets of an attempt: a result, which may have to have a shape. -/
def result (shape : Option Json.Shape) (a : Attempt) : Option Json :=
  match shape with
  | none => a.outcome.toOption
  | some shape => a.outcome.toOption.bind fun v => (shape.read v).toOption

/-- A worker that was busy gave no result. -/
theorem result_of_busy {options : Options} {a : Attempt} (busy : a.busy options = true)
    (shape : Option Json.Shape) : a.result shape = none := by
  obtain ⟨c, method, params, outcome⟩ := a
  cases outcome with
  | ok => cases busy
  | error => cases shape <;> rfl

end Attempt

/-- The attempt whose outcome a deed takes. -/
def attempt? : Instr × Answer → Option Attempt
  | (.ask c method params (.answer _ _), .replied outcome) => some ⟨c, method, params, outcome⟩
  | _ => none

/-- What the search for a running worker came to, after which a request goes on. -/
def search? : Instr × Answer → Option (Except SupervisorError ConnectionId)
  | (.use (.request ..) found, _) => some found
  | _ => none

/-- What a deed returns to the caller of a request. -/
def return? : Instr × Answer → Option (Option Json)
  | (.finish (.answer v), _) => some v
  | _ => none

/-- The attempts of a task, the latest first. -/
def attempts (t : TaskId) (moves : List Move) : List Attempt :=
  (deeds t moves).filterMap attempt?

/-- What the searches of a task came to, the latest first. -/
def searches (t : TaskId) (moves : List Move) : List (Except SupervisorError ConnectionId) :=
  (deeds t moves).filterMap search?

/-- What a task returned. -/
def returns (t : TaskId) (moves : List Move) : List (Option Json) :=
  (deeds t moves).filterMap return?

/-- What a request returns after some searches and attempts, the latest first. Nothing yet as long
as each search found a worker, each attempt found it busy, and it may be sent again. -/
def verdict (options : Options) (shape : Option Json.Shape) :
    List (Except SupervisorError ConnectionId) → List Attempt → Option (Option Json)
  | .error _ :: _, _ => some none
  | _, [] => none
  | _, a :: older =>
    if a.busy options then if options.maxBusyRetries ≤ older.length then some none else none
    else some (a.result shape)

/-- The connection whose answer an instruction waits for. -/
def Instr.asks? : Instr → Option ConnectionId
  | .ask c _ _ (.answer ..) => some c
  | _ => none

/-- How often a request was sent again, where an instruction knows it. -/
def Instr.retries? : Instr → Option Nat
  | .look (.request _ _ _ n) _ | .take (.request _ _ _ n) .. | .wait (.request _ _ _ n) ..
  | .use (.request _ _ _ n) _ | .ask _ _ _ (.answer _ n) => some n
  | _ => none

/-- The need for which an instruction looks for a running worker. -/
def Instr.need? : Instr → Option Need
  | .look need _ | .take need .. | .wait need .. => some need
  | _ => none

/-- True of histories in which a task is not interrupted between two waits: before it executes an
instruction at which it cannot have waited, the last move was its own, if it has made any. -/
def unbroken (t : TaskId) : List Move → Bool
  | [] => true
  | m :: older =>
    (match m.deed? t with
      | some (i, _) =>
        i.waits || (deeds t older).isEmpty || (older.head?.bind (Move.deed? t)).isSome
      | none => true) && unbroken t older

theorem unbroken_of_append {t : TaskId} {newer older : List Move}
    (h : unbroken t (newer ++ older) = true) : unbroken t older = true := by
  induction newer with
  | nil => exact h
  | cons m newer ih =>
    rw [List.cons_append, unbroken, Bool.and_eq_true] at h
    exact ih h.2

/-- The machine ran with a connection at a moment since which a task has done nothing. -/
def Obtained (t : TaskId) (c : ConnectionId) (later : List Move) (s : System) : Prop :=
  ∃ newer i b older mid, later = newer ++ .did t i b :: older ∧ (∀ j a, .did t j a ∉ newer) ∧
    Ensues mid newer s ∧ mid.machine.RunsWith c

theorem Obtained.next {t : TaskId} {c : ConnectionId} {later : List Move} {s s' : System} {m : Move}
    (h : Obtained t c later s) (step : Moves s m s') (other : ∀ i a, m ≠ .did t i a) :
    Obtained t c (m :: later) s' := by
  obtain ⟨newer, i, b, older, mid, rfl, still, ensues, runs⟩ := h
  refine ⟨m :: newer, i, b, older, mid, rfl, ?_, ensues.next step, runs⟩
  intro j a did
  rcases List.mem_cons.mp did with same | did
  · exact other j a same.symm
  · exact still j a did

/-- Where nobody interrupts a task, the machine runs with the connection when the task goes on. -/
theorem Obtained.now {t : TaskId} {c : ConnectionId} {later : List Move} {s : System}
    (h : Obtained t c later s) {i : Instr} {a : Answer}
    (whole : unbroken t (.did t i a :: later) = true) (goes : i.waits = false) :
    s.machine.RunsWith c := by
  obtain ⟨newer, k, b, older, mid, rfl, still, ensues, runs⟩ := h
  have begun : (k, b) ∈ deeds t (newer ++ .did t k b :: older) := by
    refine List.mem_filterMap.mpr ⟨.did t k b, ?_, if_pos rfl⟩
    exact List.mem_append_right _ List.mem_cons_self
  cases newer with
  | nil =>
    cases ensues
    exact runs
  | cons m newer =>
    have quiet : m.deed? t = none :=
      deed?_of_other fun j d same => still j d (same ▸ List.mem_cons_self)
    rw [unbroken, Move.deed?, if_pos rfl, Bool.and_eq_true] at whole
    have last : (i.waits || (deeds t (m :: newer ++ .did t k b :: older)).isEmpty ||
        (m.deed? t).isSome) = true := whole.1
    rw [goes, quiet, Bool.false_or, Option.isSome_none, Bool.or_false, List.isEmpty_iff] at last
    rw [last] at begun
    cases begun

/-- An attempt begins on a connection with which the machine ran since the task did anything else,
and still runs if nobody interrupts the task. -/
def Begun (first : System) (t : TaskId) (later : List Move) : Prop :=
  ∀ newer older need c a, later = newer ++ .did t (.use need (.ok c)) a :: older →
    ∃ s, Ensues first older s ∧ Obtained t c older s ∧
      (unbroken t later = true → s.machine.RunsWith c)

/-! ## How far a request has come -/

/-- A request that goes on was sent in vain so far, and to every connection that it found; an
answer of the latest may be pending. -/
structure Tried (options : Options) (method : String) (params : Option Json) (t : TaskId)
    (later : List Move) (pending : Option ConnectionId) (retries : Nat) : Prop where
  busy : ∀ a ∈ attempts t later, a.busy options = true
  same : ∀ a ∈ attempts t later, a.method = method ∧ a.params = params
  count : (attempts t later).length = retries
  bound : retries ≤ options.maxBusyRetries
  found : searches t later =
    (pending.toList ++ (attempts t later).map (·.connection)).map .ok
  open_ : returns t later = []

/-- A request that is over was sent to every connection that it found, in vain but for the last
time. -/
structure Concluded (options : Options) (method : String) (params : Option Json)
    (shape : Option Json.Shape) (t : TaskId) (later : List Move) (v : Option Json) : Prop where
  busy : ∀ a ∈ (attempts t later).tail, a.busy options = true
  same : ∀ a ∈ attempts t later, a.method = method ∧ a.params = params
  bound : (attempts t later).length ≤ options.maxBusyRetries + 1
  found : (searches t later).filterMap Except.toOption = (attempts t later).map (·.connection)
  verdict : verdict options shape (searches t later) (attempts t later) = some v
  answered : v = (attempts t later).head?.bind (Attempt.result shape)

/-- How far a request has come, by what it still has to do. -/
inductive Trying (options : Options) (method : String) (params : Option Json)
    (shape : Option Json.Shape) (t : TaskId) (later : List Move) (s : System) : List Instr → Prop
  /-- It looks for a running worker, after it has carried out what a start brings with it. -/
  | seeking {front : List Instr} {i : Instr} {n : Nat}
      (tried : Tried options method params t later none n)
      (way : ∀ j ∈ front, j.incidental = true)
      (seeks : i.need? = some (.request method params shape n)) :
      Trying options method params shape t later s (front ++ [i])
  | found {r : Except SupervisorError ConnectionId} {n : Nat}
      (tried : Tried options method params t later none n)
      (obtained : ∀ c, r = .ok c → Obtained t c later s) :
      Trying options method params shape t later s [.use (.request method params shape n) r]
  | asking {c : ConnectionId} {n : Nat}
      (tried : Tried options method params t later (some c) n) :
      Trying options method params shape t later s [.ask c method params (.answer shape n)]
  | returning {v : Option Json} (concluded : Concluded options method params shape t later v)
      (open_ : returns t later = []) :
      Trying options method params shape t later s [.finish (.answer v)]
  | returned {v : Option Json} (concluded : Concluded options method params shape t later v)
      (closed : returns t later = [v]) : Trying options method params shape t later s []
  /-- It was given up while it waited. -/
  | givenUp {pending : Option ConnectionId} {n : Nat}
      (tried : Tried options method params t later pending n) :
      Trying options method params shape t later s []

/-- A request that has just begun to look for a worker. -/
theorem Trying.seek {options : Options} {method : String} {params : Option Json}
    {shape : Option Json.Shape} {t : TaskId} {later : List Move} {s : System} {i : Instr} {n : Nat}
    (tried : Tried options method params t later none n)
    (seeks : i.need? = some (.request method params shape n)) :
    Trying options method params shape t later s [i] := by
  have way : ∀ j ∈ ([] : List Instr), j.incidental = true := List.forall_mem_nil _
  exact .seeking tried way seeks

/-- Two histories in which a task looked for workers, sent a request and returned alike. -/
structure SameTally (t : TaskId) (later later' : List Move) : Prop where
  attempts : attempts t later' = attempts t later
  searches : searches t later' = searches t later
  returns : returns t later' = returns t later

section Tally

variable {t : TaskId} {later later' : List Move}

theorem sameTally_of_other {m : Move} (other : ∀ i a, m ≠ .did t i a) :
    SameTally t later (m :: later) := by
  have same : deeds t (m :: later) = deeds t later := by
    rw [deeds_cons, deed?_of_other other]
    rfl
  constructor
  · rw [Worker.attempts, same]
    rfl
  · rw [Worker.searches, same]
    rfl
  · rw [Worker.returns, same]
    rfl

theorem attempts_did (t : TaskId) (i : Instr) (a : Answer) (later : List Move) :
    attempts t (.did t i a :: later) = (attempt? (i, a)).toList ++ attempts t later := by
  rw [attempts, deeds_did, filterMap_cons_toList]
  rfl

theorem searches_did (t : TaskId) (i : Instr) (a : Answer) (later : List Move) :
    searches t (.did t i a :: later) = (search? (i, a)).toList ++ searches t later := by
  rw [searches, deeds_did, filterMap_cons_toList]
  rfl

theorem returns_did (t : TaskId) (i : Instr) (a : Answer) (later : List Move) :
    returns t (.did t i a :: later) = (return? (i, a)).toList ++ returns t later := by
  rw [returns, deeds_did, filterMap_cons_toList]
  rfl

theorem sameTally_of_deed {i : Instr} {a : Answer} (attempt : attempt? (i, a) = none)
    (search : search? (i, a) = none) (ret : return? (i, a) = none) :
    SameTally t later (.did t i a :: later) := by
  constructor
  · rw [attempts_did, attempt]
    rfl
  · rw [searches_did, search]
    rfl
  · rw [returns_did, ret]
    rfl

variable (t later) in
/-- What a start brings with it is no part of the request. -/
theorem sameTally_of_incidental {i : Instr} (h : i.incidental = true) (a : Answer) :
    SameTally t later (.did t i a :: later) := by
  refine sameTally_of_deed ?_ ?_ ?_
  · unfold attempt?
    split
    next same =>
      cases same
      cases h
    next => rfl
  · cases i <;> first | rfl | cases h
  · cases i <;> first | rfl | cases h

variable (t later) in
/-- Nor is a step of the search. -/
theorem sameTally_of_need {i : Instr} {need : Need} (h : i.need? = some need) (a : Answer) :
    SameTally t later (.did t i a :: later) := by
  cases i <;> first | exact sameTally_of_deed rfl rfl rfl | cases h

variable {options : Options} {method : String} {params : Option Json} {shape : Option Json.Shape}

theorem Tried.congr {pending : Option ConnectionId} {n : Nat}
    (h : Tried options method params t later pending n) (same : SameTally t later later') :
    Tried options method params t later' pending n := by
  obtain ⟨busy, alike, count, bound, found, open_⟩ := h
  rw [← same.attempts] at busy alike count found
  rw [← same.searches] at found
  rw [← same.returns] at open_
  exact ⟨busy, alike, count, bound, found, open_⟩

theorem Concluded.congr {v : Option Json} (h : Concluded options method params shape t later v)
    (sent : attempts t later' = attempts t later) (sought : searches t later' = searches t later) :
    Concluded options method params shape t later' v := by
  obtain ⟨busy, alike, bound, found, verdict, answered⟩ := h
  rw [← sent] at busy alike bound found verdict answered
  rw [← sought] at found verdict
  exact ⟨busy, alike, bound, found, verdict, answered⟩

/-- What others do leaves a request where it is. -/
theorem Trying.other {s s' : System} {m : Move} {stack : List Instr}
    (h : Trying options method params shape t later s stack) (step : Moves s m s')
    (other : ∀ i a, m ≠ .did t i a) :
    Trying options method params shape t (m :: later) s' stack := by
  have same : SameTally t later (m :: later) := sameTally_of_other other
  cases h with
  | seeking tried way seeks => exact .seeking (tried.congr same) way seeks
  | found tried obtained =>
    exact .found (tried.congr same) fun c here => (obtained c here).next step other
  | asking tried => exact .asking (tried.congr same)
  | returning concluded open_ =>
    exact .returning (concluded.congr same.attempts same.searches) (same.returns.trans open_)
  | returned concluded closed =>
    exact .returned (concluded.congr same.attempts same.searches) (same.returns.trans closed)
  | givenUp tried => exact .givenUp (tried.congr same)

end Tally

/-! ## The steps of a request -/

/-- A search goes on, perhaps after something else, or is over; where it found a connection the
machine runs with it. -/
def SearchesOn (s : System) (need : Need) (before : List Instr) : Prop :=
  ∃ front j, before = front ++ [j] ∧ (∀ k ∈ front, k.incidental = true) ∧
    (j.need? = some need ∨
      ∃ found, before = [.use need found] ∧ ∀ c, found = .ok c → s.machine.RunsWith c)

theorem SearchesOn.still {s : System} {need : Need} {j : Instr} (seeks : j.need? = some need) :
    SearchesOn s need [j] :=
  ⟨[], j, rfl, List.forall_mem_nil _, .inl seeks⟩

theorem SearchesOn.through {s : System} {need : Need} {found : Except SupervisorError ConnectionId}
    (runs : ∀ c, found = .ok c → s.machine.RunsWith c) : SearchesOn s need [.use need found] :=
  ⟨[], _, rfl, List.forall_mem_nil _, .inr ⟨found, rfl, runs⟩⟩

theorem searchesOn_look (s : System) (need : Need) (awaited : Bool) :
    SearchesOn s need (s.look need awaited) := by
  unfold System.look
  split
  · exact .still rfl
  · split
    · exact .through fun _ => nofun
    · exact ⟨[_], _, rfl, List.all_eq_true.mp rfl, .inl rfl⟩
  · exact .still rfl
  · exact .still rfl

theorem searchesOn_take (s : System) (need : Need) (awaited : Bool) (seen : Nat) :
    SearchesOn s need (s.take need awaited seen) := by
  unfold System.take
  split
  next running =>
    split
    next c connection =>
      refine .through fun d here => ?_
      cases here
      exact ⟨running, connection⟩
    next => exact .through fun _ => nofun
  next => exact .still rfl

/-- Whoever looks for a running worker changes nothing, and goes on to or is done. -/
theorem exec_search {s r : System} {t : TaskId} {caller : String} {i : Instr} {a : Answer}
    {before : List Instr} {need : Need} (h : s.exec t caller i a = some (r, before))
    (seeks : i.need? = some need) : r = s ∧ SearchesOn s need before := by
  cases i with
  | look _ awaited =>
    cases seeks
    cases a with
    | nothing =>
      cases h
      exact ⟨rfl, searchesOn_look s need awaited⟩
    | _ => cases h
  | take _ awaited seen =>
    cases seeks
    cases a with
    | nothing =>
      cases h
      exact ⟨rfl, searchesOn_take s need awaited seen⟩
    | _ => cases h
  | wait _ awaited seen =>
    cases seeks
    cases a with
    | nothing =>
      simp only [System.exec] at h
      split at h
      · cases h
        exact ⟨rfl, .still rfl⟩
      · cases h
    | _ => cases h
  | _ => cases seeks

/-- Looking for a running worker leaves the machine as it is. -/
theorem Moves.machine_search {s s' : System} {t : TaskId} {i : Instr} {a : Answer} {need : Need}
    (step : Moves s (.did t i a) s') (seeks : i.need? = some need) : s'.machine = s.machine := by
  cases step with
  | act found next taken =>
    obtain ⟨r, before, exec, -, result⟩ := step_exec found next taken
    obtain ⟨rfl, -⟩ := exec_search exec seeks
    rcases result with rfl | rfl
    · rfl
    · exact System.machine_release _

section Verdict

variable {options : Options} {method : String} {params : Option Json} {shape : Option Json.Shape}
variable {t : TaskId} {later : List Move}

/-- A request that goes on has nothing to return. -/
theorem Tried.goesOn {pending : Option ConnectionId} {n : Nat}
    (h : Tried options method params t later pending n) :
    verdict options shape (searches t later) (attempts t later) = none := by
  obtain ⟨busy, -, count, bound, found, -⟩ := h
  rw [found]
  generalize attempts t later = sent at busy count ⊢
  cases sent with
  | nil => cases pending <;> rfl
  | cons a older =>
    have again : ¬ options.maxBusyRetries ≤ older.length := by
      rw [List.length_cons] at count
      omega
    cases pending <;>
      simp only [Option.toList, List.map_cons, List.cons_append, List.nil_append, verdict,
        busy a List.mem_cons_self, if_true, if_neg again]

theorem filterMap_toOption_ok {ε α : Type} (l : List α) :
    (l.map (Except.ok (ε := ε))).filterMap Except.toOption = l := by
  rw [List.filterMap_map]
  exact List.filterMap_some

theorem Tried.connections {pending : Option ConnectionId} {n : Nat}
    (h : Tried options method params t later pending n) :
    (searches t later).filterMap Except.toOption =
      pending.toList ++ (attempts t later).map (·.connection) := by
  rw [h.found, filterMap_toOption_ok]

/-- A search is over: a connection is asked next, or the request is. -/
theorem Tried.use {n : Nat} (h : Tried options method params t later none n)
    (shape : Option Json.Shape) (found : Except SupervisorError ConnectionId) (a : Answer) :
    let move := Move.did t (.use (.request method params shape n) found) a
    (∀ c, found = .ok c → Tried options method params t (move :: later) (some c) n) ∧
    (∀ why, found = .error why → Concluded options method params shape t (move :: later) none) ∧
    returns t (move :: later) = [] := by
  intro move
  have sent : attempts t (move :: later) = attempts t later := attempts_did ..
  have sought : searches t (move :: later) = found :: searches t later := searches_did ..
  have back : returns t (move :: later) = returns t later := returns_did ..
  obtain ⟨busy, same, count, bound, balanced, open_⟩ := h
  refine ⟨?_, ?_, back.trans open_⟩
  · rintro c rfl
    constructor
    · rwa [sent]
    · rwa [sent]
    · rwa [sent]
    · exact bound
    · rw [sent, sought, balanced]
      rfl
    · rwa [back]
  · rintro why rfl
    constructor
    · rw [sent]
      exact fun b hb => busy b (List.mem_of_mem_tail hb)
    · rwa [sent]
    · rw [sent]
      exact Nat.le_trans (Nat.le_of_eq count) (Nat.le_succ_of_le bound)
    · rw [sent, sought, balanced]
      exact filterMap_toOption_ok _
    · rw [sought]
      rfl
    · rw [sent]
      cases here : (attempts t later).head? with
      | none => rfl
      | some last =>
        exact (Attempt.result_of_busy (busy last (List.mem_of_mem_head? here)) shape).symm

/-- An attempt is over: the request is, or the worker was busy and it is sent again. -/
theorem Tried.ask {c : ConnectionId} {n : Nat}
    (h : Tried options method params t later (some c) n) (shape : Option Json.Shape)
    (outcome : Except TransportError Json) :
    let move := Move.did t (.ask c method params (.answer shape n)) (.replied outcome)
    let attempt : Attempt := ⟨c, method, params, outcome⟩
    (attempt.busy options = true → n < options.maxBusyRetries →
      Tried options method params t (move :: later) none (n + 1)) ∧
    (attempt.busy options = true → ¬ n < options.maxBusyRetries →
      Concluded options method params shape t (move :: later) none) ∧
    (attempt.busy options = false →
      Concluded options method params shape t (move :: later) (attempt.result shape)) ∧
    returns t (move :: later) = [] := by
  intro move attempt
  have sent : attempts t (move :: later) = attempt :: attempts t later := attempts_did ..
  have sought : searches t (move :: later) = searches t later := searches_did ..
  have back : returns t (move :: later) = returns t later := returns_did ..
  obtain ⟨busy, same, count, bound, found, open_⟩ := h
  have same' : ∀ b ∈ attempt :: attempts t later, b.method = method ∧ b.params = params :=
    List.forall_mem_cons.mpr ⟨⟨rfl, rfl⟩, same⟩
  have found' : searches t (move :: later) =
      ((attempts t (move :: later)).map (·.connection)).map .ok := by
    rw [sought, sent, found]
    rfl
  have concluded {v : Option Json} (verdict : verdict options shape
      (((attempts t (move :: later)).map (·.connection)).map .ok) (attempt :: attempts t later) =
        some v) (answered : v = attempt.result shape) :
      Concluded options method params shape t (move :: later) v := by
    constructor
    · rwa [sent]
    · rwa [sent]
    · rw [sent, List.length_cons, count]
      exact Nat.succ_le_succ bound
    · rw [found', filterMap_toOption_ok]
    · rw [found']
      exact sent ▸ verdict
    · rw [sent]
      exact answered
  refine ⟨fun here more => ?_,
    fun here enough => concluded ?_ (Attempt.result_of_busy here shape).symm,
    fun here => concluded ?_ rfl, back.trans open_⟩
  · constructor
    · rw [sent]
      exact List.forall_mem_cons.mpr ⟨here, busy⟩
    · rwa [sent]
    · rw [sent, List.length_cons, count]
    · exact more
    · exact found'
    · rwa [back]
  · rw [sent]
    simp only [List.map_cons, verdict, here, if_true, count, if_pos (Nat.not_lt.mp enough)]
  · rw [sent]
    simp only [List.map_cons, verdict, here, Bool.false_eq_true, if_false]

end Verdict

section Steps

variable {options : Options} {method : String} {params : Option Json} {shape : Option Json.Shape}
variable {t : TaskId} {later : List Move} {s s' r : System} {a : Answer} {caller : String}
variable {before : List Instr}

/-- Where a search goes on or is over, so does the request. -/
theorem SearchesOn.trying {n : Nat}
    (h : SearchesOn s (.request method params shape n) before)
    (tried : Tried options method params t later none n)
    (obtained : ∀ c, s.machine.RunsWith c → Obtained t c later s') :
    Trying options method params shape t later s' before := by
  obtain ⟨front, j, rfl, way, seeks | ⟨found, alone, runs⟩⟩ := h
  · exact .seeking tried way seeks
  · rw [alone]
    exact .found tried fun c here => obtained c (runs c here)

/-- A request that was answered is sent again or returns. -/
theorem Tried.answered {c : ConnectionId} {n : Nat} {outcome : Except TransportError Json}
    (h : Tried options method params t later (some c) n) (set : s.options = options)
    (hexec : s.exec t caller (.ask c method params (.answer shape n)) (.replied outcome) =
      some (r, before)) :
    Trying options method params shape t
      (.did t (.ask c method params (.answer shape n)) (.replied outcome) :: later) s' before := by
  obtain ⟨again, exhausted, settled, open_⟩ := h.ask shape outcome
  obtain rfl : (s.answered method params shape n outcome).2 = before :=
    congrArg Prod.snd (Option.some.inj hexec)
  unfold System.answered
  cases outcome with
  | ok v =>
    have settled := settled rfl
    cases shape with
    | none => exact .returning settled open_
    | some shape =>
      simp only [Attempt.result, Except.toOption, Option.bind_some] at settled
      dsimp only
      cases read : shape.read v with
      | ok w =>
        rw [read] at settled
        exact .returning settled open_
      | error why =>
        rw [read] at settled
        exact .returning settled open_
  | error why =>
    dsimp only
    rw [set]
    split
    next busy =>
      have here := decide_eq_true busy
      split
      next enough => exact .returning (exhausted here (Nat.not_lt.mpr enough)) open_
      next more =>
        exact .seek (again here (Nat.not_le.mp more)) rfl
    next other =>
      have settled := settled (decide_eq_false other)
      cases shape <;> exact .returning settled open_

/-- **A request goes on from one stage to the next.** -/
theorem Trying.exec {i : Instr} {rest : List Instr}
    (h : Trying options method params shape t later s (i :: rest)) (set : s.options = options)
    (step : Moves s (.did t i a) s') (hexec : s.exec t caller i a = some (r, before)) :
    Trying options method params shape t (.did t i a :: later) s' (before ++ rest) := by
  generalize hstack : i :: rest = stack at h
  cases h with
  | @seeking front j n tried way seeks =>
    cases front with
    | cons k front =>
      obtain ⟨rfl, rfl⟩ := List.cons.inj hstack
      have quiet := sameTally_of_incidental t later (way i List.mem_cons_self) a
      show Trying options method params shape t _ s' (before ++ (front ++ [j]))
      rw [← List.append_assoc]
      refine .seeking (tried.congr quiet) ?_ seeks
      intro k hk
      rcases List.mem_append.mp hk with hk | hk
      · exact exec_incidental hexec (way _ List.mem_cons_self) k hk
      · exact way k (List.mem_cons_of_mem _ hk)
    | nil =>
      obtain ⟨rfl, rfl⟩ := List.cons.inj hstack
      have machine := step.machine_search seeks
      have quiet := sameTally_of_need t later seeks a
      rw [List.append_nil]
      refine (exec_search hexec seeks).2.trying (tried.congr quiet) fun c runs => ?_
      exact ⟨[], i, a, later, s', rfl, fun _ _ => List.not_mem_nil, .here s', machine ▸ runs⟩
  | @found found n tried =>
    obtain ⟨rfl, rfl⟩ := List.cons.inj hstack
    obtain ⟨asks, fails, open_⟩ := tried.use shape found a
    cases a with
    | nothing =>
      cases found with
      | ok c =>
        cases hexec
        exact .asking (asks c rfl)
      | error why =>
        cases hexec
        exact .returning (fails why rfl) open_
    | _ => cases hexec
  | asking tried =>
    obtain ⟨rfl, rfl⟩ := List.cons.inj hstack
    cases a with
    | replied outcome =>
      rw [List.append_nil]
      exact tried.answered set hexec
    | _ => cases hexec
  | @returning v concluded open_ =>
    obtain ⟨rfl, rfl⟩ := List.cons.inj hstack
    cases a with
    | nothing =>
      cases hexec
      refine .returned (concluded.congr (attempts_did ..) (searches_did ..)) ?_
      exact (returns_did ..).trans (congrArg (v :: ·) open_)
    | _ => cases hexec
  | returned => cases hstack
  | givenUp => cases hstack

/-- Whoever is given up while it waits has nothing more to do. -/
theorem Trying.drop {i : Instr} {rest : List Instr}
    (h : Trying options method params shape t later s (i :: rest)) (waits : i.waits = true) :
    Trying options method params shape t (.parked t :: later) s' [] := by
  have same : SameTally t later (.parked t :: later) := sameTally_of_other fun _ _ => nofun
  generalize hstack : i :: rest = stack at h
  cases h with
  | seeking tried => exact .givenUp (tried.congr same)
  | asking tried => exact .givenUp (tried.congr same)
  | found =>
    obtain ⟨rfl, -⟩ := List.cons.inj hstack
    cases waits
  | returning =>
    obtain ⟨rfl, -⟩ := List.cons.inj hstack
    cases waits
  | returned => cases hstack
  | givenUp => cases hstack

end Steps

/-! ## The call -/

/-- What is known of a request that began with the system `first`, after the moves `later`, when its
task has `stack` to do. -/
structure Attempted (options : Options) (method : String) (params : Option Json)
    (shape : Option Json.Shape) (first : System) (t : TaskId) (later : List Move)
    (stack : List Instr) : Prop where
  /-- Every attempt carries the same method and params, -/
  same : ∀ a ∈ attempts t later, a.method = method ∧ a.params = params
  /-- also one whose answer is pending. -/
  pending : ∀ c m p n wanted, .ask c m p (.answer wanted n) ∈ stack → m = method ∧ p = params
  /-- A connection is asked once for each search that found one; it is the last whose answer may be
  pending, or never come because the request was given up meanwhile. -/
  once : ∃ pending : Option ConnectionId,
    (searches t later).filterMap Except.toOption =
      pending.toList ++ (attempts t later).map (·.connection) ∧
    (pending.toList = stack.filterMap Instr.asks? ∨ stack = [] ∧ returns t later = [])
  /-- Only what found the worker busy is followed by another attempt, -/
  busy : ∀ a ∈ (attempts t later).tail, a.busy options = true
  /-- as often as was set and no more. -/
  bound : (attempts t later).length ≤ options.maxBusyRetries + 1
  /-- What the task counts never exceeds what was set. -/
  counted : ∀ i ∈ stack, ∀ n, i.retries? = some n →
    n = (attempts t later).length ∧ n ≤ options.maxBusyRetries
  /-- The request returns when a search fails, an attempt does not find the worker busy, or it may
  not be sent again, and for no other reason. -/
  ends : ∀ v, verdict options shape (searches t later) (attempts t later) = some v ↔
    stack = [.finish (.answer v)] ∨ v ∈ returns t later
  /-- It returns the result of the last attempt, if that has one. -/
  answered : ∀ v ∈ returns t later, v = (attempts t later).head?.bind (Attempt.result shape)
  begun : Begun first t later

section Call

variable {options : Options} {method : String} {params : Option Json} {shape : Option Json.Shape}
variable {first : System} {t : TaskId} {later : List Move} {stack : List Instr}

theorem Tried.attempted {pending : Option ConnectionId} {n : Nat}
    (h : Tried options method params t later pending n)
    (asks : ∀ c m p k wanted, .ask c m p (.answer wanted k) ∈ stack → m = method ∧ p = params)
    (waits : pending.toList = stack.filterMap Instr.asks? ∨ stack = [])
    (counts : ∀ i ∈ stack, ∀ k, i.retries? = some k → k = n)
    (goesOn : ∀ v, stack ≠ [.finish (.answer v)]) (begun : Begun first t later) :
    Attempted options method params shape first t later stack where
  same := h.same
  pending := asks
  once := ⟨pending, h.connections, waits.imp_right fun none => ⟨none, h.open_⟩⟩
  busy a ha := h.busy a (List.mem_of_mem_tail ha)
  bound := Nat.le_succ_of_le (h.count ▸ h.bound)
  counted i hi k hk := by
    rw [counts i hi k hk]
    exact ⟨h.count.symm, h.bound⟩
  ends v := by
    rw [h.goesOn, h.open_]
    constructor
    · exact nofun
    · rintro (closes | returned)
      · exact absurd closes (goesOn v)
      · cases returned
  answered v returned := by
    rw [h.open_] at returned
    cases returned
  begun := begun

theorem Concluded.attempted {v : Option Json}
    (h : Concluded options method params shape t later v)
    (stage : stack = [.finish (.answer v)] ∧ returns t later = [] ∨
      stack = [] ∧ returns t later = [v]) (begun : Begun first t later) :
    Attempted options method params shape first t later stack where
  same := h.same
  pending c m p n wanted asks := by
    rcases stage with ⟨rfl, -⟩ | ⟨rfl, -⟩
    · cases List.mem_singleton.mp asks
    · cases asks
  once := by
    refine ⟨none, h.found, .inl ?_⟩
    rcases stage with ⟨rfl, -⟩ | ⟨rfl, -⟩ <;> rfl
  busy := h.busy
  bound := h.bound
  counted i hi k hk := by
    rcases stage with ⟨rfl, -⟩ | ⟨rfl, -⟩
    · rw [List.mem_singleton.mp hi] at hk
      cases hk
    · cases hi
  ends w := by
    rw [h.verdict]
    rcases stage with ⟨rfl, closed⟩ | ⟨rfl, closed⟩
    · rw [closed]
      simp
    · rw [closed]
      simp [eq_comm]
  answered w returned := by
    rcases stage with ⟨-, closed⟩ | ⟨-, closed⟩
    · rw [closed] at returned
      cases returned
    · rw [closed] at returned
      rw [List.mem_singleton.mp returned]
      exact h.answered
  begun := begun

/-- True of instructions with which a request waits for its answer, or knows how often it was
sent. -/
theorem asks_of_incidental {i : Instr} (way : i.incidental = true) :
    i.asks? = none ∧ i.retries? = none := by
  cases i with
  | ask _ _ _ use =>
    cases use with
    | ignore => exact ⟨rfl, rfl⟩
    | answer => cases way
  | handle | perform | report | drop => exact ⟨rfl, rfl⟩
  | _ => cases way

theorem Trying.attempted {s : System}
    (h : Trying options method params shape t later s stack) (begun : Begun first t later) :
    Attempted options method params shape first t later stack := by
  cases h with
  | @seeking front i n tried way seeks =>
    have quiet : ∀ j ∈ front ++ [i], j.asks? = none ∧ ∀ k, j.retries? = some k → k = n := by
      intro j hj
      rcases List.mem_append.mp hj with hj | hj
      · obtain ⟨asks, retries⟩ := asks_of_incidental (way j hj)
        refine ⟨asks, fun k hk => ?_⟩
        rw [retries] at hk
        cases hk
      · rw [List.mem_singleton.mp hj]
        cases i <;> cases seeks <;> exact ⟨rfl, fun k hk => (Option.some.inj hk).symm⟩
    refine tried.attempted ?_ (.inl ?_) (fun j hj => (quiet j hj).2) ?_ begun
    · intro c m p k wanted asks
      cases (quiet _ asks).1
    · exact (List.filterMap_eq_nil_iff.mpr fun j hj => (quiet j hj).1).symm
    · intro v final
      obtain ⟨rfl, last⟩ := List.append_eq_singleton_iff.mp final |>.resolve_right (by simp)
      obtain ⟨rfl, -⟩ := List.cons.inj last
      cases seeks
  | found tried =>
    refine tried.attempted ?_ (.inl rfl) ?_ (fun _ => nofun) begun
    · intro c m p k wanted asks
      cases List.mem_singleton.mp asks
    · intro i hi k hk
      rw [List.mem_singleton.mp hi] at hk
      exact (Option.some.inj hk).symm
  | asking tried =>
    refine tried.attempted ?_ (.inl rfl) ?_ (fun _ => nofun) begun
    · intro c m p k wanted asks
      cases List.mem_singleton.mp asks
      exact ⟨rfl, rfl⟩
    · intro i hi k hk
      rw [List.mem_singleton.mp hi] at hk
      exact (Option.some.inj hk).symm
  | returning concluded open_ => exact concluded.attempted (.inl ⟨rfl, open_⟩) begun
  | returned concluded closed => exact concluded.attempted (.inr ⟨rfl, closed⟩) begun
  | givenUp tried =>
    exact tried.attempted (fun _ _ _ _ _ => nofun) (.inr rfl) (fun _ => nofun) (fun _ => nofun)
      begun

end Call

/-- How far a request has come in any moment since it began. -/
theorem trying_of_begin {options : Options} {past later : List Move} {s₀ first s : System}
    {t : TaskId} {method : String} {params : Option Json} {shape : Option Json.Shape}
    (run : Run options past s₀)
    (called : Moves s₀ (.did t (.begin (.request method (.ok params) shape)) .nothing) first)
    (onward : Ensues first later s) :
    Trying options method params shape t later s (s.pool.stack t) := by
  have after := called.numbered (Sound.of_run run).numbered
  obtain ⟨old, begins⟩ := run.begins called
  have start : Tried options method params t [] none 0 :=
    ⟨List.forall_mem_nil _, List.forall_mem_nil _, rfl, Nat.zero_le _, rfl, rfl⟩
  refine onward.turns after.1 old ?_ (fun _ step other h => h.other step other) ?_
    fun _ _ waits h => h.drop waits
  · cases found : first.pool.get? t with
    | none =>
      rw [Pool.stack, found]
      exact .givenUp start
    | some task =>
      rw [Pool.stack_of_get? found, (begins task (Pool.mem_of_get? found)).2]
      exact .seek start rfl
  · intro later s i a s' caller r rest before reached step exec h
    exact h.exec ((reached.run (run.next called)).options_eq) step exec

/-- **A request is sent again only to a worker that was busy, and only so often.** Whatever others
do meanwhile, whatever the searches for a worker come to and the attempts, and on whichever
connections they are made. -/
theorem attempted_of_request {options : Options} {past later : List Move} {s₀ first s : System}
    {t : TaskId} {method : String} {params : Option Json} {shape : Option Json.Shape}
    (run : Run options past s₀)
    (called : Moves s₀ (.did t (.begin (.request method (.ok params) shape)) .nothing) first)
    (onward : Ensues first later s) :
    Attempted options method params shape first t later (s.pool.stack t) := by
  refine (trying_of_begin run called onward).attempted ?_
  rintro newer older need c a rfl
  obtain ⟨_, reached, -⟩ := onward.split
  cases reached with
  | @next mid _ _ _ before step =>
    have stage := trying_of_begin run called before
    cases step with
    | act found next =>
      rw [Pool.stack_of_get? found, next] at stage
      have obtained : Obtained t c older mid := by
        generalize hstack : Instr.use need (.ok c) :: _ = stack at stage
        cases stage with
        | @seeking front j n tried way seeks =>
          cases front with
          | nil =>
            obtain ⟨rfl, -⟩ := List.cons.inj hstack
            cases seeks
          | cons k front =>
            obtain ⟨rfl, -⟩ := List.cons.inj hstack
            cases way _ List.mem_cons_self
        | found tried obtained =>
          obtain ⟨same, -⟩ := List.cons.inj hstack
          exact obtained c (Instr.use.inj same).2.symm
        | _ => cases hstack
      refine ⟨mid, before, obtained, fun whole => ?_⟩
      exact obtained.now (unbroken_of_append whole) rfl

/-- A worker is busy and then gone, and the request starts another one, which answers. -/
theorem attempted_of_restarted_worker : ∃ s₀ past first later s, Run .standard past s₀ ∧
    Moves s₀ (.did 5 (.begin (.request "m" (.ok none) none)) .nothing) first ∧
    Ensues first later s ∧ (attempts 5 later).map (·.connection) = [8, 7] ∧
    returns 5 later = [some (.int 1)] ∧ unbroken 5 later = true ∧
    Attempted .standard "m" none none first 5 later (s.pool.stack 5) := by
  have asked := Run.start.next (.ask (.initial .standard) (.start (some ⟨[47]⟩)))
  have acted := asked.next (.act (t := 0) (a := .nothing) rfl rfl rfl)
  have handled := acted.next (.act (t := 0) (a := .nothing) rfl rfl rfl)
  have performed := handled.next (.act (t := 0) (a := .nothing) rfl rfl rfl)
  have launched := performed.next (.act (t := 1) (a := .launched (.ok ⟨7, none⟩)) rfl rfl rfl)
  have running := launched.next (.act (t := 1) (a := .nothing) rfl rfl rfl)
  have wanted := running.next (.ask _ (.call "f" (.request "m" (.ok none) none)))
  have joined := wanted.next (.act (t := 4) (a := .nothing) rfl rfl rfl)
  have called := joined.act (t := 5) (a := .nothing) rfl rfl rfl
  have begun := joined.next called
  have looked := begun.here.next (.act (t := 5) (a := .nothing) rfl rfl rfl)
  have taken := looked.next (.act (t := 5) (a := .nothing) rfl rfl rfl)
  have used := taken.next (.act (t := 5) (a := .nothing) rfl rfl rfl)
  have gone := used.next (.act (t := 2) (a := .exited (.exited none)) rfl rfl rfl)
  have noticed := gone.next (.act (t := 2) (a := .nothing) rfl rfl rfl)
  have clearing := noticed.next (.act (t := 2) (a := .nothing) rfl rfl rfl)
  have idle := clearing.next (.act (t := 6) (a := .nothing) rfl rfl rfl)
  have busy := idle.next (.act (t := 5)
    (a := .replied (.error (.response ⟨Message.busyCode, "busy", none⟩))) rfl rfl rfl)
  have again := busy.next (.act (t := 5) (a := .nothing) rfl rfl rfl)
  have starting := again.next (.act (t := 5) (a := .nothing) rfl rfl rfl)
  have started := starting.next (.act (t := 5) (a := .nothing) rfl rfl rfl)
  have launched' := started.next (.act (t := 7) (a := .launched (.ok ⟨8, none⟩)) rfl rfl rfl)
  have running' := launched'.next (.act (t := 7) (a := .nothing) rfl rfl rfl)
  have woken := running'.next (.act (t := 5) (a := .nothing) rfl rfl rfl)
  have looked' := woken.next (.act (t := 5) (a := .nothing) rfl rfl rfl)
  have taken' := looked'.next (.act (t := 5) (a := .nothing) rfl rfl rfl)
  have used' := taken'.next (.act (t := 5) (a := .nothing) rfl rfl rfl)
  have answered := used'.next (.act (t := 5) (a := .replied (.ok (.int 1))) rfl rfl rfl)
  have returned := answered.next (.act (t := 5) (a := .nothing) rfl rfl rfl)
  exact ⟨_, _, _, _, _, joined, called, returned, rfl, rfl, by decide +kernel,
    attempted_of_request joined called returned⟩

end Supervision.Worker
