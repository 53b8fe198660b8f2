import Supervision.Listener.Ledger
import Supervision.Proofs.Listener.Registry

/-!
# The ledger of a registry

Listeners come and go, several subscriptions are made into one and that into others, some are used up
twice, some are forgotten, and the registry may be gone before any of them. The law says that nothing
of this confuses a registry: at any time it has exactly the callbacks that were inserted and neither
taken back nor cleared (`Exact`).

The history is read without the registry. An insertion has the number of those before it, which is
never used again, and a holder is entrusted with insertions: with his own, and with those of others
whose subscriptions were made into his. What is read off the ledger is only whether there is still a
handle and under which key a method is found.
-/

namespace Supervision.Ledger

/-! ## What a history says -/

/-- The registry in use after a history, the latest action of which is in front. -/
def after (reach : Reach) : List Action → Ledger
  | [] => .new reach
  | a :: past => ((after reach past).act a).1

/-- A callback that was inserted under a key, and how many were inserted before it. -/
structure Insertion where
  number : Nat
  key : String
  callback : String
  deriving DecidableEq

namespace Insertion

/-- What allows to remove it. -/
def right (e : Insertion) : String × Nat :=
  (e.key, e.number)

/-- How it stands under its key. -/
def item (e : Insertion) : Nat × String :=
  (e.number, e.callback)

end Insertion

/-- What an action inserts after some others. Without a handle nothing can be inserted. -/
def inserts (l : Ledger) (before : Nat) : Action → List Insertion
  | .insert holder method => if l.alive then [⟨before, l.key method, holder⟩] else []
  | _ => []

/-- What was inserted, in this order. -/
def insertions (reach : Reach) : List Action → List Insertion
  | [] => []
  | a :: past =>
    insertions reach past ++ (after reach past).inserts (insertions reach past).length a

/-- The insertions that a holder can take back. -/
def entrusted (reach : Reach) : List Action → String → List Insertion
  | [], _ => []
  | .insert holder method :: past, who =>
    if who = holder ∧ (after reach past).alive then
      (after reach past).inserts (insertions reach past).length (.insert holder method)
    else entrusted reach past who
  | .dispose holder :: past, who => if who = holder then [] else entrusted reach past who
  | .forget holder :: past, who => if who = holder then [] else entrusted reach past who
  | .combine holder parts :: past, who =>
    if who = holder then parts.flatMap (entrusted reach past)
    else if who ∈ parts then [] else entrusted reach past who
  | _ :: past, who => entrusted reach past who

/-- What an action takes back. A registry that is gone has no callbacks, and those of single methods
are not cleared. -/
def revokes (reach : Reach) (past : List Action) : Action → List Insertion
  | .dispose holder => if (after reach past).alive then entrusted reach past holder else []
  | .clear => if (after reach past).alive ∧ reach = .all then insertions reach past else []
  | _ => []

/-- What was taken back. -/
def revoked (reach : Reach) : List Action → List Insertion
  | [] => []
  | a :: past => revoked reach past ++ revokes reach past a

/-- What was inserted under a key and not taken back. -/
def standing (reach : Reach) (past : List Action) (key : String) : List Insertion :=
  (insertions reach past).filter fun e => e.key = key ∧ e ∉ revoked reach past

variable {reach : Reach} {past : List Action} {a : Action}

/-- Insertions are told apart by their numbers. -/
theorem numbers_insertions (reach : Reach) (past : List Action) :
    (insertions reach past).map Insertion.number = List.range (insertions reach past).length := by
  induction past with
  | nil => rfl
  | cons a past ih =>
    rw [insertions, List.map_append, ih, List.length_append, List.range_add]
    congr 1
    unfold inserts
    split
    · split <;> simp
    · rfl

theorem eq_of_number {e e' : Insertion} (mem : e ∈ insertions reach past)
    (mem' : e' ∈ insertions reach past) (same : e.number = e'.number) : e = e' := by
  have apart : ((insertions reach past).map Insertion.number).Nodup := by
    rw [numbers_insertions]
    exact List.nodup_range
  exact List.inj_on_of_nodup_map apart mem mem' same

theorem insertions_mono (reach : Reach) (a : Action) (past : List Action) :
    insertions reach past ⊆ insertions reach (a :: past) :=
  List.subset_append_left _ _

/-- Holders are entrusted with what was inserted. -/
theorem entrusted_subset (reach : Reach) (past : List Action) (who : String) :
    entrusted reach past who ⊆ insertions reach past := by
  induction past generalizing who with
  | nil => exact List.nil_subset _
  | cons a past ih =>
    have kept (who : String) := List.Subset.trans (ih who) (insertions_mono reach a past)
    cases a with
    | insert holder method =>
      unfold entrusted
      split
      · exact List.subset_append_right _ _
      · exact kept who
    | dispose holder | forget holder =>
      unfold entrusted
      split
      · exact List.nil_subset _
      · exact kept who
    | combine holder parts =>
      unfold entrusted
      split
      · intro e he
        obtain ⟨part, -, of_part⟩ := List.mem_flatMap.mp he
        exact kept part of_part
      · split
        · exact List.nil_subset _
        · exact kept who
    | fire | snapshot | fireSnapshot | clear | clone | share | drop | idle => exact kept who

theorem revokes_subset (reach : Reach) (past : List Action) (a : Action) :
    revokes reach past a ⊆ insertions reach past := by
  unfold revokes
  split
  · split
    · exact entrusted_subset reach past _
    · exact List.nil_subset _
  · split
    · exact List.Subset.refl _
    · exact List.nil_subset _
  · exact List.nil_subset _

theorem revoked_subset (reach : Reach) (past : List Action) :
    revoked reach past ⊆ insertions reach past := by
  induction past with
  | nil => exact List.nil_subset _
  | cons a past ih =>
    refine List.append_subset.mpr ⟨?_, ?_⟩
    · exact List.Subset.trans ih (insertions_mono reach a past)
    · exact List.Subset.trans (revokes_subset reach past a) (insertions_mono reach a past)

/-- What stands under a key after an action: what stood and is not taken back, and what the action
inserts there. -/
theorem standing_cons (reach : Reach) (a : Action) (past : List Action) (key : String) :
    standing reach (a :: past) key =
      (standing reach past key).filter (· ∉ revokes reach past a) ++
        ((after reach past).inserts (insertions reach past).length a).filter (·.key = key) := by
  unfold standing
  rw [insertions, List.filter_append, List.filter_filter]
  congr 1
  · refine List.filter_congr fun e _ => ?_
    simp only [revoked, List.mem_append, not_or, Bool.decide_and]
    ac_rfl
  · -- What is new has a number that nothing before it has.
    refine List.filter_congr fun e new => ?_
    have number : e.number = (insertions reach past).length := by
      unfold inserts at new
      split at new
      · split at new
        · rw [List.mem_singleton.mp new]
        · cases new
      · cases new
    have fresh : e ∉ revoked reach (a :: past) := by
      intro taken
      have old : e ∈ insertions reach past := by
        rcases List.mem_append.mp taken with before | now
        · exact revoked_subset reach past before
        · exact revokes_subset reach past a now
      have counted := List.mem_map_of_mem (f := Insertion.number) old
      rw [numbers_insertions, number] at counted
      exact absurd (List.mem_range.mp counted) (Nat.lt_irrefl _)
    simp [fresh]

/-! ## What is kept -/

/-- How a ledger agrees with its history. -/
structure Kept (reach : Reach) (past : List Action) (l : Ledger) : Prop where
  reaches : l.reach = reach
  keyed : l.registry.Keyed
  filled : l.registry.Filled
  next : l.registry.next = (insertions reach past).length
  under : ∀ key, l.registry.under key = (standing reach past key).map Insertion.item
  rights : ∀ who right, right ∈ l.holdings.rights who ↔
    ∃ e ∈ entrusted reach past who, e.right = right

theorem Kept.new (reach : Reach) : Kept reach [] (new reach) where
  reaches := rfl
  keyed := Registry.keyed_empty
  filled := Registry.filled_empty
  next := rfl
  under _ := rfl
  rights _ _ := iff_of_false nofun nofun

variable {l : Ledger}

/-- Using up what a holder has removes what he is entrusted with. -/
theorem Kept.under_dispose (h : Kept reach past l) {who : String} {s : Subscription String}
    (held : l.holdings.get? who = some s) (key : String) :
    (l.registry.dispose s).under key =
      ((standing reach past key).filter (· ∉ entrusted reach past who)).map Insertion.item := by
  rw [h.keyed.under_dispose, h.under, List.filter_map]
  congr 1
  refine List.filter_congr fun e stands => ?_
  obtain ⟨inserted, here⟩ := List.mem_filter.mp stands
  have under : e.key = key := (of_decide_eq_true here).1
  have rights := h.rights who (key, e.number)
  rw [Holdings.rights_of_get? held] at rights
  have same : (∃ e' ∈ entrusted reach past who, e'.right = (key, e.number)) ↔
      e ∈ entrusted reach past who := by
    refine ⟨fun ⟨e', mem, right⟩ => ?_, fun mem => ⟨e, mem, under ▸ rfl⟩⟩
    obtain rfl : e' = e :=
      eq_of_number (entrusted_subset reach past who mem) inserted (Prod.mk.inj right).2
    exact mem
  exact decide_eq_decide.mpr (not_congr (rights.trans same))

/-- What holders have after an action is what they are then entrusted with. -/
theorem Kept.rights_cons (h : Kept reach past (after reach past)) (a : Action)
    (who : String) (right : String × Nat) :
    right ∈ (after reach (a :: past)).holdings.rights who ↔
      ∃ e ∈ entrusted reach (a :: past) who, e.right = right := by
  have before := h.rights
  cases a with
  | insert holder method =>
    by_cases alive : (after reach past).alive
    · simp only [after, act, alive, if_true, entrusted, and_true]
      rw [Holdings.rights_set]
      split
      · simp [Registry.insert, Subscription.rights, inserts, alive, Insertion.right, h.next,
          eq_comm]
      · exact before who right
    · simp only [after, act, alive, entrusted, and_false, if_false, Bool.false_eq_true]
      exact before who right
  | dispose holder =>
    cases held : (after reach past).holdings.get? holder with
    | none =>
      simp only [after, act, held, entrusted]
      split
      next here =>
        rw [here, Holdings.rights_of_get?_eq_none held]
        simp
      next => exact before who right
    | some s =>
      simp only [after, act, held, entrusted]
      rw [Holdings.rights_set]
      split
      · simp [Subscription.rights]
      · exact before who right
  | forget holder =>
    simp only [after, act, entrusted]
    rw [Holdings.rights_drop]
    split
    · simp
    · exact before who right
  | combine holder parts =>
    simp only [after, act, entrusted]
    rw [Holdings.mem_rights_combine]
    split
    · simp only [before, List.mem_flatMap]
      grind
    · simp only [before]
      split <;> simp_all
  | fire | fireSnapshot | drop | idle => exact before who right
  | snapshot | clear | clone | share =>
    simp only [after, act, entrusted]
    split <;> exact before who right

/-- An action that inserts and takes back nothing, and leaves the registry as it is, keeps what is
under each key. -/
theorem Kept.of_same (h : Kept reach past (after reach past)) (a : Action)
    (here : (after reach (a :: past)).reach = (after reach past).reach)
    (registry : (after reach (a :: past)).registry = (after reach past).registry)
    (inserts : (after reach past).inserts (insertions reach past).length a = [])
    (revokes : revokes reach past a = []) : Kept reach (a :: past) (after reach (a :: past)) where
  reaches := here.trans h.reaches
  keyed := registry ▸ h.keyed
  filled := registry ▸ h.filled
  next := by rw [registry, h.next, insertions, inserts, List.append_nil]
  under key := by
    rw [registry, h.under, standing_cons, inserts, revokes]
    simp
  rights := h.rights_cons a

theorem Kept.insert (h : Kept reach past (after reach past)) {holder method : String}
    (alive : (after reach past).alive) :
    Kept reach (.insert holder method :: past) (after reach (.insert holder method :: past)) := by
  have registry : (after reach (.insert holder method :: past)).registry =
      ((after reach past).registry.insert ((after reach past).key method) holder).1 := by
    simp only [after, act, alive, if_true]
  have new : (after reach past).inserts (insertions reach past).length (.insert holder method) =
      [⟨(insertions reach past).length, (after reach past).key method, holder⟩] := if_pos alive
  refine ⟨?_, ?_, ?_, ?_, ?_, h.rights_cons _⟩
  · simp only [after, act, alive, if_true]
    exact h.reaches
  · rw [registry]
    exact h.keyed.insert _ _
  · rw [registry]
    exact h.filled.insert _ _
  · rw [registry, insertions, new, List.length_append]
    exact congrArg (· + 1) h.next
  · intro key
    rw [registry, Registry.under_insert, h.under, h.next, standing_cons, new]
    by_cases here : (after reach past).key method = key <;>
      simp [here, revokes, Insertion.item]

theorem Kept.dispose (h : Kept reach past (after reach past)) {holder : String}
    {s : Subscription String} (held : (after reach past).holdings.get? holder = some s)
    (alive : (after reach past).alive) :
    Kept reach (.dispose holder :: past) (after reach (.dispose holder :: past)) := by
  have registry : (after reach (.dispose holder :: past)).registry =
      (after reach past).registry.dispose s := by
    simp only [after, act, held, alive, if_true]
  have taken : revokes reach past (.dispose holder) = entrusted reach past holder := if_pos alive
  refine ⟨?_, ?_, ?_, ?_, ?_, h.rights_cons _⟩
  · simp only [after, act, held]
    exact h.reaches
  · rw [registry]
    exact h.keyed.dispose s
  · rw [registry]
    exact h.filled.dispose s
  · rw [registry, Registry.next_dispose, h.next, insertions]
    exact congrArg List.length (List.append_nil _).symm
  · intro key
    rw [registry, h.under_dispose held, standing_cons, taken]
    exact congrArg (List.map _) (List.append_nil _).symm

theorem Kept.clear (h : Kept reach past (after reach past)) (alive : (after reach past).alive)
    (all : reach = .all) : Kept reach (.clear :: past) (after reach (.clear :: past)) := by
  have here := h.reaches.trans all
  have registry : (after reach (.clear :: past)).registry = (after reach past).registry.clear := by
    simp only [after, act, alive, here, and_self, if_true]
  have taken : revokes reach past .clear = insertions reach past := if_pos ⟨alive, all⟩
  refine ⟨?_, ?_, ?_, ?_, ?_, h.rights_cons _⟩
  · simp only [after, act, alive, here, and_self, if_true]
    exact all.symm
  · rw [registry]
    exact Registry.keyed_empty
  · rw [registry]
    exact Registry.filled_empty
  · rw [registry, insertions]
    exact h.next.trans (congrArg List.length (List.append_nil _).symm)
  · intro key
    have nothing : (standing reach past key).filter (· ∉ insertions reach past) = [] := by
      refine List.filter_eq_nil_iff.mpr ?_
      intro e stands
      simpa using List.mem_of_mem_filter stands
    rw [registry, standing_cons, taken, nothing]
    rfl

/-- **An action keeps a ledger as its history says.** -/
theorem Kept.cons (h : Kept reach past (after reach past)) (a : Action) :
    Kept reach (a :: past) (after reach (a :: past)) := by
  cases a with
  | insert holder method =>
    by_cases alive : (after reach past).alive
    · exact h.insert alive
    · refine h.of_same _ ?_ ?_ (if_neg alive) rfl <;>
        simp only [after, act, alive, if_false, Bool.false_eq_true]
  | dispose holder =>
    cases held : (after reach past).holdings.get? holder with
    | none =>
      have nothing : entrusted reach past holder = [] := by
        refine List.eq_nil_iff_forall_not_mem.mpr ?_
        intro e mem
        have right := (h.rights holder e.right).mpr ⟨e, mem, rfl⟩
        rw [Holdings.rights_of_get?_eq_none held] at right
        cases right
      refine h.of_same _ ?_ ?_ rfl ((if_congr Iff.rfl nothing rfl).trans (ite_self _)) <;>
        simp only [after, act, held]
    | some s =>
      by_cases alive : (after reach past).alive
      · exact h.dispose held alive
      · refine h.of_same _ ?_ ?_ rfl (if_neg alive) <;>
          simp only [after, act, held, alive, if_false, Bool.false_eq_true]
  | clear =>
    by_cases all : (after reach past).alive ∧ reach = .all
    · exact h.clear all.1 all.2
    · have still : ¬((after reach past).alive ∧ (after reach past).reach = .all) := by
        rwa [h.reaches]
      refine h.of_same _ ?_ ?_ rfl (if_neg all) <;> simp only [after, act, still, if_false]
  | forget | combine | fire | fireSnapshot | drop | idle => exact h.of_same _ rfl rfl rfl rfl
  | snapshot | clone | share =>
    refine h.of_same _ ?_ ?_ rfl rfl <;> simp only [after, act] <;> split <;> rfl

theorem kept_of_history (reach : Reach) (past : List Action) :
    Kept reach past (after reach past) := by
  induction past with
  | nil => exact .new reach
  | cons a past ih => exact ih.cons a

theorem Kept.snapshot (h : Kept reach past l) (key : String) :
    l.registry.snapshot key = (standing reach past key).map (·.callback) := by
  rw [Registry.snapshot, h.under, List.map_map]
  rfl

/-! ## The ledger -/

/-- What a registry has and tells after a history. -/
structure Exact (reach : Reach) (past : List Action) : Prop where
  /-- Under each key is what was inserted for it and neither taken back nor cleared, in this order. -/
  under : ∀ key,
    (after reach past).registry.under key = (standing reach past key).map Insertion.item
  /-- A key is there exactly as long as something stands under it. -/
  keys : ∀ key,
    key ∈ (after reach past).registry.entries.map Prod.fst ↔ standing reach past key ≠ []
  /-- Whoever has a handle and asks for the callbacks of a method gets these, -/
  snapshot : (after reach past).alive → ∀ method,
    ((after reach past).act (.snapshot method)).1.kept =
      (standing reach past ((after reach past).key method)).map (·.callback)
  /-- an event reaches them, -/
  fire : (after reach past).alive → ∀ method,
    ((after reach past).act (.fire method)).2.fired =
      (standing reach past ((after reach past).key method)).map (·.callback)
  /-- and they are counted. -/
  count : (after reach past).alive → ∀ method,
    (after reach past).count? method =
      some (standing reach past ((after reach past).key method)).length
  /-- Whoever inserts a callback for a method is told whether the method had none. -/
  first : (after reach past).alive → reach = .method → ∀ holder method,
    ((after reach past).act (.insert holder method)).2.first =
      some (decide (standing reach past method = []))
  /-- Whoever disposes takes back what he is entrusted with, and nothing else of any method. -/
  dispose : (after reach past).alive → ∀ holder key,
    ((after reach past).act (.dispose holder)).1.registry.under key =
      ((standing reach past key).filter (· ∉ entrusted reach past holder)).map Insertion.item
  /-- Without a handle nothing changes a registry any more, and there will be no handle. -/
  gone : (after reach past).alive = false → ∀ a,
    ((after reach past).act a).1.registry = (after reach past).registry ∧
      ((after reach past).act a).1.alive = false

/-- A registry without handles is left alone. -/
theorem act_of_gone (gone : l.alive = false) (a : Action) :
    (l.act a).1.registry = l.registry ∧ (l.act a).1.alive = false := by
  cases a with
  | dispose holder =>
    cases held : l.holdings.get? holder with
    | none => simp only [act, held, gone, and_self]
    | some s =>
      simp only [act, held, gone, Bool.false_eq_true, if_false, true_and]
      exact gone
  | drop =>
    have none : l.handles = 0 := by simpa [alive] using gone
    simp [act, alive, none]
  | insert | snapshot | clear | clone | share =>
    simp only [act, gone, Bool.false_eq_true, if_false, false_and, and_self]
  | forget | combine | fire | fireSnapshot | idle => exact ⟨rfl, gone⟩

/-- **A registry is an exact ledger of its subscriptions**, whatever was done with it and with them. -/
theorem exact_of_history (reach : Reach) (past : List Action) : Exact reach past := by
  have kept := kept_of_history reach past
  have after_dispose (holder : String) :=
    (kept_of_history reach (.dispose holder :: past)).under
  refine ⟨kept.under, ?_, ?_, ?_, ?_, ?_, ?_, act_of_gone⟩
  · intro key
    rw [kept.filled.mem_keys_iff, kept.under, ne_eq, List.map_eq_nil_iff]
  · intro alive method
    simp only [act, alive, if_true]
    exact kept.snapshot _
  · intro alive method
    simp only [act, alive, if_true]
    exact kept.snapshot _
  · intro alive method
    simp only [count?, alive, if_true, Registry.count, kept.under, List.length_map]
  · intro alive single holder method
    have here : (after reach past).reach = .method := kept.reaches.trans single
    have under : (after reach past).key method = method := by rw [key, here]
    simp only [act, alive, here, if_true, Registry.insert, Registry.count, under, kept.under,
      List.length_map, List.length_eq_zero_iff]
  · intro alive holder key
    have taken : revokes reach past (.dispose holder) = entrusted reach past holder := if_pos alive
    refine (after_dispose holder key).trans ?_
    rw [standing_cons, taken]
    exact congrArg (List.map _) (List.append_nil _)

/-- A subscription that was used up, made into another one and that into a third, which outlives a
handle: what is left is what nobody took back. -/
example :
    (standing .method
      [.dispose "all", .drop, .combine "all" ["two", "three"], .combine "two" ["one", "two"],
        .dispose "one", .clone, .insert "three" "m", .insert "two" "n", .insert "other" "m",
        .insert "one" "m"] "m").map (·.callback) = ["other"] := by
  decide

end Supervision.Ledger
