import Supervision.Text.Offset

/-!
# References in texts

A reference `${name}` in a text stands for a value. Expanding a text goes through it once, from one
opening to the next, by offsets into what is left of it: what a value brings in is written and not
looked at again. No offset that comes up is refused by the text that it cuts (`turn_cases`), so the
text is read to its end (`run_isSome`).
-/

namespace Supervision.Text

/-- A text whose references are being replaced: what was written, and what is left to read. -/
structure Expansion where
  written : List Char
  rest : List Char
  deriving DecidableEq, Repr

namespace Expansion

/-- What a reference begins with. -/
def opening : List Char := ['$', '\x7b']

/-- What it ends with. -/
def closing : Char := '\x7d'

/-- One turn, from the offset of the next opening. What is before it is written, and then what the
reference stands for; a reference without a name, or without an end, stays as written. `none` means
that some offset is no place of the text that it is to cut. -/
def turn (value : List Char → List Char) (start : Nat) (e : Expansion) : Option Expansion := do
  let (before, reference) ← cut? start e.rest
  let (_, after) ← cut? (start + 2) e.rest
  match offsetOf? [closing] after with
  | some 0 =>
    let (_, rest) ← cut? 1 after
    return ⟨e.written ++ before ++ (opening ++ [closing]), rest⟩
  | some stop =>
    let (name, _) ← cut? stop after
    let (_, rest) ← cut? (stop + 1) after
    return ⟨e.written ++ before ++ value name, rest⟩
  | none => return ⟨e.written ++ before ++ reference, []⟩

/-- All that a turn can come to. What it reads does not depend on the values, and none fails. -/
theorem turn_cases {start : Nat} {text : List Char} (found : offsetOf? opening text = some start) :
    ∃ before after, text = before ++ (opening ++ after) ∧ width before = start ∧
      ¬opening <:+: before ∧
      ((closing ∉ after ∧ ∀ value written,
          turn value start ⟨written, text⟩ = some ⟨written ++ before ++ (opening ++ after), []⟩) ∨
        (∃ rest, after = closing :: rest ∧ ∀ value written,
          turn value start ⟨written, text⟩ =
            some ⟨written ++ before ++ (opening ++ [closing]), rest⟩) ∨
        ∃ name rest, after = name ++ closing :: rest ∧ name ≠ [] ∧ closing ∉ name ∧
          ∀ value written,
            turn value start ⟨written, text⟩ = some ⟨written ++ before ++ value name, rest⟩) := by
  have absent : ∀ {cs : List Char}, ¬[closing] <:+: cs → closing ∉ cs := by
    intro cs free mem
    obtain ⟨front, back, rfl⟩ := List.append_of_mem mem
    exact free ⟨front, back, by rw [List.append_assoc, List.singleton_append]⟩
  have nonempty : opening ≠ [] := List.cons_ne_nil _ _
  obtain ⟨before, after, whole, rfl, plain⟩ := of_offsetOf? nonempty found
  refine ⟨before, after, whole, rfl, plain, ?_⟩
  -- Each of the four cuts is at an end of something that was found.
  have first : cut? (width before) text = some (before, opening ++ after) :=
    cut?_eq_some.2 ⟨whole, rfl⟩
  have second : cut? (width before + 2) text = some (before ++ opening, after) :=
    cut?_eq_some.2 ⟨by rw [whole, List.append_assoc], width_append before opening⟩
  cases ends : offsetOf? [closing] after with
  | none =>
    refine .inl ⟨absent (not_infix_of_offsetOf? (List.cons_ne_nil _ _) ends), fun _ _ => ?_⟩
    simp only [turn, first, second, ends, Option.bind_eq_bind, Option.bind_some, Option.pure_def]
  | some stop =>
    obtain ⟨name, rest, rfl, rfl, free⟩ := of_offsetOf? (List.cons_ne_nil _ _) ends
    have third : cut? (width name) (name ++ ([closing] ++ rest)) = some (name, closing :: rest) :=
      cut?_width name (closing :: rest)
    have fourth : cut? (width name + 1) (name ++ ([closing] ++ rest)) =
        some (name ++ [closing], rest) :=
      cut?_eq_some.2 ⟨(List.append_assoc ..).symm, width_append name [closing]⟩
    cases size : width name with
    | zero =>
      rw [size] at ends fourth
      refine .inr (.inl ⟨rest, by rw [width_eq_zero.1 size]; rfl, fun _ _ => ?_⟩)
      simp only [turn, first, second, ends, fourth, Option.bind_eq_bind, Option.bind_some,
        Option.pure_def]
    | succ stop =>
      have named : name ≠ [] := by
        rintro rfl
        cases size
      refine .inr (.inr ⟨name, rest, rfl, named, absent free, fun _ _ => ?_⟩)
      rw [size] at ends third fourth
      simp only [turn, first, second, ends, third, fourth, Option.bind_eq_bind, Option.bind_some,
        Option.pure_def]

section Turn

variable {value : List Char → List Char} {start : Nat} {e next : Expansion}

/-- A turn never fails. -/
theorem exists_turn (value : List Char → List Char)
    (found : offsetOf? opening e.rest = some start) : ∃ next, e.turn value start = some next := by
  obtain ⟨_, _, -, -, -, ⟨-, turned⟩ | ⟨_, -, turned⟩ | ⟨_, _, -, -, -, turned⟩⟩ :=
    turn_cases found <;> exact ⟨_, turned value e.written⟩

/-- A turn reads at least the opening. -/
theorem turn_shorter (found : offsetOf? opening e.rest = some start)
    (turned : e.turn value start = some next) : next.rest.length + 2 ≤ e.rest.length := by
  obtain ⟨before, after, whole, -, -, outcome⟩ := turn_cases found
  rw [whole]
  obtain ⟨-, same⟩ | ⟨rest, rfl, same⟩ | ⟨name, rest, rfl, -, -, same⟩ := outcome <;>
    · cases turned.symm.trans (same value e.written)
      simp only [opening, List.length_append, List.length_cons, List.length_nil]
      omega

end Turn

/-- Turns until no opening is left. -/
def run (value : List Char → List Char) (e : Expansion) : Option (List Char) :=
  match _found : offsetOf? opening e.rest with
  | none => some (e.written ++ e.rest)
  | some start =>
    match _turned : e.turn value start with
    | none => none
    | some next => next.run value
  termination_by e.rest.length
  decreasing_by
    have := turn_shorter _found _turned
    omega

/-- The last turn is followed by nothing but writing what is left. -/
theorem run_of_none {value : List Char → List Char} {e : Expansion}
    (plain : offsetOf? opening e.rest = none) : e.run value = some (e.written ++ e.rest) := by
  rw [run]
  split
  · rfl
  · next found => cases plain.symm.trans found

theorem run_of_turn {value : List Char → List Char} {start : Nat} {e next : Expansion}
    (found : offsetOf? opening e.rest = some start) (turned : e.turn value start = some next) :
    e.run value = next.run value := by
  rw [run]
  split
  · next plain => cases plain.symm.trans found
  · next start' found' =>
    cases found.symm.trans found'
    split
    · next failed => cases failed.symm.trans turned
    · next next' turned' =>
      cases turned.symm.trans turned'
      rfl

/-- The text is read to its end. -/
theorem run_isSome (value : List Char → List Char) (e : Expansion) : (e.run value).isSome := by
  cases found : offsetOf? opening e.rest with
  | none =>
    rw [run_of_none found]
    rfl
  | some start =>
    obtain ⟨next, turned⟩ := exists_turn value found
    rw [run_of_turn found turned]
    exact run_isSome value next
  termination_by e.rest.length
  decreasing_by
    have := turn_shorter found turned
    omega

end Expansion

end Supervision.Text
