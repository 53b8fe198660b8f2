import Supervision.Listener.Registry
import Mathlib.Data.List.Nodup

/-!
# What a registry holds

A registry holds what was inserted and not removed. The first laws say only where a callback can come
from: what is found under a key was inserted under that key (`holds_insert`), and using up a
subscription brings nothing (`Holds.of_dispose`).

The others say exactly what is found under a key after each operation. An insertion adds at the end
of its key (`under_insert`), and using up a subscription takes away what it stands for and nothing
else (`Keyed.under_dispose`); the latter needs that no key is there twice, which every operation
keeps (`Keyed`). No key stays without a callback (`Filled`).

At the end stands what the subscriptions of a holder stand for, also where several are made into one
(`Holdings.mem_rights_combine`).
-/

namespace Supervision

namespace Registry

variable {κ α : Type} [DecidableEq κ] {r : Registry κ α} {key : κ} {callback : α}

/-! ## Where a callback comes from -/

/-- A callback is somewhere under a key. -/
def Holds (r : Registry κ α) (key : κ) (callback : α) : Prop :=
  ∃ e ∈ r.entries, e.1 = key ∧ ∃ number, (number, callback) ∈ e.2

theorem holds_of_mem_snapshot (h : callback ∈ r.snapshot key) : r.Holds key callback := by
  obtain ⟨item, hitem, rfl⟩ := List.mem_map.mp h
  unfold under at hitem
  cases found : r.entries.lookup key with
  | none =>
    rw [found] at hitem
    cases hitem
  | some items =>
    rw [found] at hitem
    obtain ⟨before, after, heq, -⟩ := List.lookup_eq_some_iff.mp found
    exact ⟨(key, items), heq ▸ List.mem_append_right _ List.mem_cons_self, rfl, item.1, hitem⟩

theorem mem_addUnder {item : Nat × α} {entries : List (κ × List (Nat × α))}
    {e : κ × List (Nat × α)} (he : e ∈ addUnder key item entries) {found : Nat × α}
    (hfound : found ∈ e.2) :
    (∃ old ∈ entries, old.1 = e.1 ∧ found ∈ old.2) ∨ e.1 = key ∧ found = item := by
  induction entries with
  | nil =>
    rw [List.mem_singleton.mp he] at hfound ⊢
    exact .inr ⟨rfl, List.mem_singleton.mp hfound⟩
  | cons first rest ih =>
    obtain ⟨k, items⟩ := first
    have onward (old : ∃ old ∈ rest, old.1 = e.1 ∧ found ∈ old.2) :
        ∃ old ∈ (k, items) :: rest, old.1 = e.1 ∧ found ∈ old.2 := by
      obtain ⟨old, hold, same⟩ := old
      exact ⟨old, List.mem_cons_of_mem _ hold, same⟩
    unfold addUnder at he
    split at he
    next here =>
      rcases List.mem_cons.mp he with rfl | he
      · rcases List.mem_append.mp hfound with old | new
        · exact .inl ⟨_, List.mem_cons_self, rfl, old⟩
        · exact .inr ⟨here, List.mem_singleton.mp new⟩
      · exact .inl (onward ⟨e, he, rfl, hfound⟩)
    next =>
      rcases List.mem_cons.mp he with rfl | he
      · exact .inl ⟨_, List.mem_cons_self, rfl, hfound⟩
      · exact (ih he).imp_left onward

/-- What is found after an insertion was there, or is what was inserted. -/
theorem holds_insert {k : κ} {new : α} (h : (r.insert k new).1.Holds key callback) :
    r.Holds key callback ∨ key = k ∧ callback = new := by
  obtain ⟨e, he, rfl, number, found⟩ := h
  rcases mem_addUnder he found with ⟨old, hold, same, hfound⟩ | ⟨same, heq⟩
  · exact .inl ⟨old, hold, same, number, hfound⟩
  · exact .inr ⟨same, (Prod.mk.inj heq).2⟩

theorem mem_removeUnder {number : Nat} {entries : List (κ × List (Nat × α))}
    {e : κ × List (Nat × α)} (he : e ∈ removeUnder key number entries) :
    ∃ old ∈ entries, old.1 = e.1 ∧ e.2 ⊆ old.2 := by
  induction entries with
  | nil => cases he
  | cons first rest ih =>
    obtain ⟨k, items⟩ := first
    have same (here : e ∈ rest) : ∃ old ∈ (k, items) :: rest, old.1 = e.1 ∧ e.2 ⊆ old.2 :=
      ⟨e, List.mem_cons_of_mem _ here, rfl, List.Subset.refl _⟩
    unfold removeUnder at he
    split at he
    · split at he
      next => exact same he
      next =>
        rcases List.mem_cons.mp he with rfl | he
        · exact ⟨_, List.mem_cons_self, rfl, List.filter_sublist.subset⟩
        · exact same he
    · rcases List.mem_cons.mp he with rfl | he
      · exact ⟨_, List.mem_cons_self, rfl, List.Subset.refl _⟩
      · obtain ⟨old, hold, key, subset⟩ := ih he
        exact ⟨old, List.mem_cons_of_mem _ hold, key, subset⟩

theorem Holds.of_remove {k : κ} {number : Nat} (h : (r.remove k number).Holds key callback) :
    r.Holds key callback := by
  obtain ⟨e, he, rfl, n, found⟩ := h
  obtain ⟨old, hold, same, subset⟩ := mem_removeUnder he
  exact ⟨old, hold, same, n, subset found⟩

mutual

/-- What is found after a subscription was used up was there. -/
theorem Holds.of_dispose {r : Registry κ α} : (s : Subscription κ) →
    (r.dispose s).Holds key callback → r.Holds key callback
  | .spent, h => h
  | .single _ _, h => h.of_remove
  | .combined parts, h => Holds.of_disposeAll parts h

theorem Holds.of_disposeAll {r : Registry κ α} : (parts : List (Subscription κ)) →
    (r.disposeAll parts).Holds key callback → r.Holds key callback
  | [], h => h
  | s :: rest, h => Holds.of_dispose s (Holds.of_disposeAll rest h)

end

/-! ## What is found under a key -/

/-- What a list of entries has under a key. -/
def found (entries : List (κ × List (Nat × α))) (key : κ) : List (Nat × α) :=
  (entries.lookup key).getD []

theorem found_cons (k : κ) (items : List (Nat × α)) (rest : List (κ × List (Nat × α))) (key : κ) :
    found ((k, items) :: rest) key = if k = key then items else found rest key := by
  unfold found
  by_cases here : k = key
  · rw [if_pos here, here, List.lookup_cons_self]
    rfl
  · rw [if_neg here, List.lookup_cons, beq_eq_false_iff_ne.mpr (Ne.symm here)]

theorem found_addUnder (entries : List (κ × List (Nat × α))) (k : κ) (item : Nat × α) (key : κ) :
    found (addUnder k item entries) key =
      found entries key ++ if k = key then [item] else [] := by
  induction entries with
  | nil => exact found_cons k [item] [] key
  | cons first rest ih =>
    obtain ⟨other, items⟩ := first
    unfold addUnder
    split
    next here =>
      subst here
      rw [found_cons, found_cons]
      split
      · rfl
      · exact (List.append_nil _).symm
    next ne =>
      rw [found_cons, found_cons, ih]
      split
      next here => rw [if_neg (here ▸ Ne.symm ne), List.append_nil]
      next => rfl

/-- **An insertion adds a callback at the end of its key**, under a number of its own. -/
theorem under_insert (r : Registry κ α) (k : κ) (callback : α) (key : κ) :
    (r.insert k callback).1.under key =
      r.under key ++ if k = key then [(r.next, callback)] else [] :=
  found_addUnder r.entries k (r.next, callback) key

theorem found_eq_nil {entries : List (κ × List (Nat × α))} {key : κ}
    (absent : key ∉ entries.map Prod.fst) : found entries key = [] := by
  have nothing : entries.lookup key = none := by
    refine List.lookup_eq_none_iff.mpr fun e he => ?_
    refine bne_iff_ne.mpr fun same => absent ?_
    rw [same]
    exact List.mem_map_of_mem he
  rw [found, nothing]
  rfl

theorem found_removeUnder {entries : List (κ × List (Nat × α))}
    (distinct : (entries.map Prod.fst).Nodup) (k : κ) (number : Nat) (key : κ) :
    found (removeUnder k number entries) key =
      (found entries key).filter fun item => !decide (k = key ∧ item.1 = number) := by
  induction entries with
  | nil => rfl
  | cons first rest ih =>
    obtain ⟨other, items⟩ := first
    obtain ⟨alone, distinct⟩ := List.nodup_cons.mp distinct
    have elsewhere (ne : k ≠ key) (l : List (Nat × α)) :
        l.filter (fun item => !decide (k = key ∧ item.1 = number)) = l := by
      simp [ne]
    unfold removeUnder
    split
    next here =>
      subst here
      by_cases same : other = key
      · subst same
        have sought (l : List (Nat × α)) :
            l.filter (fun item => !decide (other = other ∧ item.1 = number)) =
              l.filter (fun item => item.1 ≠ number) := by
          simp
        rw [found_cons, if_pos rfl, sought]
        split
        next none => rw [found_eq_nil alone, none]
        next left _ => rw [found_cons, if_pos rfl]
      · rw [found_cons, if_neg same, elsewhere same]
        split
        · rfl
        · rw [found_cons, if_neg same]
    next ne =>
      rw [found_cons, found_cons, ih distinct]
      split
      next here => rw [elsewhere (here ▸ Ne.symm ne)]
      next => rfl

/-- No key is there twice. -/
def Keyed (r : Registry κ α) : Prop :=
  (r.entries.map Prod.fst).Nodup

omit [DecidableEq κ] in
theorem keyed_empty : (empty : Registry κ α).Keyed :=
  List.nodup_nil

theorem keys_addUnder (entries : List (κ × List (Nat × α))) (key : κ) (item : Nat × α) :
    (addUnder key item entries).map Prod.fst =
      if key ∈ entries.map Prod.fst then entries.map Prod.fst
      else entries.map Prod.fst ++ [key] := by
  induction entries with
  | nil => rfl
  | cons first rest ih =>
    obtain ⟨k, items⟩ := first
    unfold addUnder
    by_cases here : k = key
    · simp [here]
    · rw [if_neg here, List.map_cons, ih, List.map_cons]
      by_cases behind : key ∈ rest.map Prod.fst
      · rw [if_pos behind, if_pos (List.mem_cons_of_mem _ behind)]
      · rw [if_neg behind, if_neg]
        · rfl
        · exact fun inside => (List.mem_cons.mp inside).elim (Ne.symm here) behind

theorem Keyed.insert (h : r.Keyed) (key : κ) (callback : α) : (r.insert key callback).1.Keyed := by
  unfold Keyed
  refine (congrArg List.Nodup (keys_addUnder r.entries key (r.next, callback))).mpr ?_
  split
  · exact h
  next new => exact List.Nodup.append h (List.nodup_singleton _) (by simpa using new)

theorem keys_removeUnder (entries : List (κ × List (Nat × α))) (key : κ) (number : Nat) :
    ((removeUnder key number entries).map Prod.fst).Sublist (entries.map Prod.fst) := by
  induction entries with
  | nil => exact List.Sublist.refl _
  | cons first rest ih =>
    obtain ⟨k, items⟩ := first
    unfold removeUnder
    split
    · split
      · exact List.sublist_cons_self _ _
      · exact List.Sublist.refl _
    · exact ih.cons_cons _

theorem Keyed.remove (h : r.Keyed) (key : κ) (number : Nat) : (r.remove key number).Keyed :=
  List.Nodup.sublist (keys_removeUnder r.entries key number) h

/-- No key is there without a callback. -/
def Filled (r : Registry κ α) : Prop :=
  ∀ e ∈ r.entries, e.2 ≠ []

omit [DecidableEq κ] in
theorem filled_empty : (empty : Registry κ α).Filled :=
  nofun

/-- A key is there exactly if something is found under it. -/
theorem Filled.mem_keys_iff (h : r.Filled) (key : κ) :
    key ∈ r.entries.map Prod.fst ↔ r.under key ≠ [] := by
  refine ⟨fun there none => ?_, fun some => ?_⟩
  · cases looked : r.entries.lookup key with
    | none =>
      obtain ⟨e, he, rfl⟩ := List.mem_map.mp there
      have differs := List.lookup_eq_none_iff.mp looked e he
      exact absurd rfl (bne_iff_ne.mp differs)
    | some items =>
      obtain ⟨before, behind, split, -⟩ := List.lookup_eq_some_iff.mp looked
      have here : (key, items) ∈ r.entries := split ▸ List.mem_append_right _ List.mem_cons_self
      refine h _ here ?_
      rwa [under, looked] at none
  · by_contra absent
    exact some (found_eq_nil absent)

theorem Filled.insert (h : r.Filled) (key : κ) (callback : α) :
    (r.insert key callback).1.Filled := by
  have kept (entries : List (κ × List (Nat × α))) (filled : ∀ e ∈ entries, e.2 ≠ []) :
      ∀ e ∈ addUnder key (r.next, callback) entries, e.2 ≠ [] := by
    induction entries with
    | nil => simp [addUnder]
    | cons first rest ih =>
      have behind := ih fun e he => filled e (List.mem_cons_of_mem _ he)
      unfold addUnder
      split
      · simpa using fun k items he => filled (k, items) (List.mem_cons_of_mem _ he)
      · exact List.forall_mem_cons.mpr ⟨filled _ List.mem_cons_self, behind⟩
  exact kept r.entries h

theorem Filled.remove (h : r.Filled) (key : κ) (number : Nat) : (r.remove key number).Filled := by
  have kept (entries : List (κ × List (Nat × α))) (filled : ∀ e ∈ entries, e.2 ≠ []) :
      ∀ e ∈ removeUnder key number entries, e.2 ≠ [] := by
    induction entries with
    | nil => exact nofun
    | cons first rest ih =>
      have behind : ∀ e ∈ rest, e.2 ≠ [] := fun e he => filled e (List.mem_cons_of_mem _ he)
      unfold removeUnder
      split
      · split
        next => exact behind
        next left some => exact List.forall_mem_cons.mpr ⟨fun none => some none, behind⟩
      · exact List.forall_mem_cons.mpr ⟨filled _ List.mem_cons_self, ih behind⟩
  exact kept r.entries h

end Registry

/-! ## What a subscription stands for -/

namespace Subscription

variable {κ : Type}

mutual

/-- What may be removed with a subscription: callbacks, by key and number. -/
def rights : Subscription κ → List (κ × Nat)
  | .spent => []
  | .single key number => [(key, number)]
  | .combined parts => rightsOf parts

def rightsOf : List (Subscription κ) → List (κ × Nat)
  | [] => []
  | s :: rest => s.rights ++ rightsOf rest

end

end Subscription

namespace Registry

variable {κ α : Type} [DecidableEq κ]

mutual

theorem Keyed.dispose {r : Registry κ α} (h : r.Keyed) : (s : Subscription κ) →
    (r.dispose s).Keyed
  | .spent => h
  | .single key number => h.remove key number
  | .combined parts => h.disposeAll parts

theorem Keyed.disposeAll {r : Registry κ α} (h : r.Keyed) : (parts : List (Subscription κ)) →
    (r.disposeAll parts).Keyed
  | [] => h
  | s :: rest => (h.dispose s).disposeAll rest

end

mutual

theorem Filled.dispose {r : Registry κ α} (h : r.Filled) : (s : Subscription κ) →
    (r.dispose s).Filled
  | .spent => h
  | .single key number => h.remove key number
  | .combined parts => h.disposeAll parts

theorem Filled.disposeAll {r : Registry κ α} (h : r.Filled) : (parts : List (Subscription κ)) →
    (r.disposeAll parts).Filled
  | [] => h
  | s :: rest => (h.dispose s).disposeAll rest

end

mutual

/-- Numbers are not given back. -/
theorem next_dispose (r : Registry κ α) : (s : Subscription κ) → (r.dispose s).next = r.next
  | .spent => rfl
  | .single _ _ => rfl
  | .combined parts => r.next_disposeAll parts

theorem next_disposeAll (r : Registry κ α) : (parts : List (Subscription κ)) →
    (r.disposeAll parts).next = r.next
  | [] => rfl
  | s :: rest => ((r.dispose s).next_disposeAll rest).trans (r.next_dispose s)

end

mutual

/-- **Using up a subscription removes what it stands for**, and nothing else. -/
theorem Keyed.under_dispose {r : Registry κ α} (h : r.Keyed) (key : κ) : (s : Subscription κ) →
    (r.dispose s).under key = (r.under key).filter fun item => (key, item.1) ∉ s.rights
  | .spent => by simp [Registry.dispose, Subscription.rights]
  | .single k number => by
    refine (found_removeUnder h k number key).trans ?_
    simp [Subscription.rights, under, found, eq_comm]
  | .combined parts => h.under_disposeAll key parts

theorem Keyed.under_disposeAll {r : Registry κ α} (h : r.Keyed) (key : κ) :
    (parts : List (Subscription κ)) → (r.disposeAll parts).under key =
      (r.under key).filter fun item => (key, item.1) ∉ Subscription.rightsOf parts
  | [] => by simp [Registry.disposeAll, Subscription.rightsOf]
  | s :: rest => by
    rw [Registry.disposeAll, (h.dispose s).under_disposeAll key rest, h.under_dispose key s,
      List.filter_filter]
    refine List.filter_congr fun item _ => ?_
    simp [Subscription.rightsOf, Bool.and_comm]

end

/-! ## Several insertions -/

/-- Inserts callbacks one after the other. -/
def enroll (r : Registry κ α) (callbacks : List (κ × α)) : Registry κ α :=
  callbacks.foldl (fun r entry => (r.insert entry.1 entry.2).1) r

theorem next_enroll (r : Registry κ α) (callbacks : List (κ × α)) :
    (r.enroll callbacks).next = r.next + callbacks.length := by
  induction callbacks generalizing r with
  | nil => rfl
  | cons entry rest ih =>
    refine (ih (r.insert entry.1 entry.2).1).trans ?_
    show r.next + 1 + rest.length = r.next + (rest.length + 1)
    omega

theorem Keyed.enroll {r : Registry κ α} (h : r.Keyed) (callbacks : List (κ × α)) :
    (r.enroll callbacks).Keyed := by
  induction callbacks generalizing r with
  | nil => exact h
  | cons entry rest ih => exact ih (h.insert entry.1 entry.2)

/-- Each insertion has the next number, and is found after those before it. -/
theorem under_enroll (r : Registry κ α) (callbacks : List (κ × α)) (key : κ) :
    (r.enroll callbacks).under key = r.under key ++
      ((callbacks.zipIdx r.next).filter fun entry => entry.1.1 = key).map
        fun entry => (entry.2, entry.1.2) := by
  induction callbacks generalizing r with
  | nil => exact (List.append_nil _).symm
  | cons entry rest ih =>
    refine (ih (r.insert entry.1 entry.2).1).trans ?_
    rw [under_insert, List.zipIdx_cons, List.append_assoc]
    congr 1
    by_cases here : entry.1 = key
    · rw [if_pos here, List.filter_cons_of_pos (by simpa using here)]
      rfl
    · rw [if_neg here, List.filter_cons_of_neg (by simpa using here)]
      rfl

end Registry

/-! ## What holders have -/

namespace Holdings

variable {κ : Type} {right : κ × Nat}

theorem get?_cons (name : String) (s : Subscription κ) (rest : Holdings κ) (who : String) :
    get? ((name, s) :: rest) who = if who = name then some s else get? rest who := by
  unfold get?
  rw [List.lookup_cons]
  by_cases here : who = name
  · simp [here]
  · rw [beq_eq_false_iff_ne.mpr here, if_neg here]

theorem get?_drop (h : Holdings κ) (holder who : String) :
    (h.drop holder).get? who = if who = holder then none else h.get? who := by
  induction h with
  | nil => exact (ite_self _).symm
  | cons p rest ih =>
    obtain ⟨name, s⟩ := p
    unfold drop at ih ⊢
    by_cases dropped : name = holder
    · rw [List.filter_cons_of_neg (by simpa using dropped), ih, get?_cons, dropped]
      split <;> rfl
    · rw [List.filter_cons_of_pos (by simpa using dropped), get?_cons, ih, get?_cons]
      by_cases here : who = name
      · rw [if_pos here, if_neg (here ▸ dropped), if_pos here]
      · rw [if_neg here, if_neg here]

theorem get?_set (h : Holdings κ) (holder : String) (s : Subscription κ) (who : String) :
    (h.set holder s).get? who = if who = holder then some s else h.get? who := by
  rw [set, get?_cons, get?_drop]
  split <;> rfl

theorem get?_takeAll (h : Holdings κ) (names : List String) (who : String) :
    (h.takeAll names).2.get? who = if who ∈ names then none else h.get? who := by
  induction names generalizing h with
  | nil => simp [takeAll]
  | cons name rest ih =>
    rw [takeAll, ih, get?_drop]
    by_cases behind : who ∈ rest
    · simp [behind]
    · by_cases here : who = name <;> simp [behind, here]

/-- What a holder may remove. -/
def rights (h : Holdings κ) (who : String) : List (κ × Nat) :=
  ((h.get? who).getD .spent).rights

theorem rights_of_get? {h : Holdings κ} {who : String} {s : Subscription κ}
    (held : h.get? who = some s) : h.rights who = s.rights := by
  rw [rights, held]
  rfl

theorem rights_of_get?_eq_none {h : Holdings κ} {who : String} (none : h.get? who = none) :
    h.rights who = [] := by
  rw [rights, none]
  rfl

theorem rights_drop (h : Holdings κ) (holder who : String) :
    (h.drop holder).rights who = if who = holder then [] else h.rights who := by
  unfold rights
  rw [get?_drop]
  split <;> rfl

theorem rights_set (h : Holdings κ) (holder : String) (s : Subscription κ) (who : String) :
    (h.set holder s).rights who = if who = holder then s.rights else h.rights who := by
  unfold rights
  rw [get?_set]
  split <;> rfl

/-- What is taken from holders stands for what they had. -/
theorem mem_rightsOf_takeAll (h : Holdings κ) (names : List String) :
    right ∈ Subscription.rightsOf (h.takeAll names).1 ↔ ∃ name ∈ names, right ∈ h.rights name := by
  induction names generalizing h with
  | nil => simp [takeAll, Subscription.rightsOf]
  | cons name rest ih =>
    have first : right ∈ Subscription.rightsOf (h.takeAll (name :: rest)).1 ↔
        right ∈ h.rights name ∨
          right ∈ Subscription.rightsOf ((h.drop name).takeAll rest).1 := by
      rw [takeAll, rights]
      cases h.get? name with
      | none => simp [Subscription.rights]
      | some s => simp [Subscription.rightsOf]
    rw [first, ih, List.exists_mem_cons_iff]
    constructor
    · rintro (here | ⟨other, behind, had⟩)
      · exact .inl here
      · by_cases taken : other = name
        · rw [rights_drop, if_pos taken] at had
          cases had
        · rw [rights_drop, if_neg taken] at had
          exact .inr ⟨other, behind, had⟩
    · rintro (here | ⟨other, behind, had⟩)
      · exact .inl here
      · by_cases taken : other = name
        · exact .inl (taken ▸ had)
        · exact .inr ⟨other, behind, by rwa [rights_drop, if_neg taken]⟩

/-- **A combination stands for what its parts stood for**, which their holders lose. -/
theorem mem_rights_combine (h : Holdings κ) (holder : String) (names : List String)
    (who : String) :
    right ∈ (h.combine holder names).rights who ↔
      if who = holder then ∃ name ∈ names, right ∈ h.rights name
      else who ∉ names ∧ right ∈ h.rights who := by
  rw [combine, rights_set]
  split
  · exact h.mem_rightsOf_takeAll names
  · unfold rights
    rw [get?_takeAll]
    split <;> simp_all [Subscription.rights]

end Holdings

end Supervision
