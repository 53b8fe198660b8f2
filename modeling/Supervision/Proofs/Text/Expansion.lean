import Supervision.Text.Expansion
import Mathlib.Data.List.Basic

/-!
# What a text is expanded to

A text falls into pieces in exactly one way: references, braces without a name, what opens and is
never closed, and the plain text between them (`Pieces`). Expanding a text writes the meanings of
its pieces one after the other (`run_of_pieces`). What is left to read is at every turn an end of
the text itself, the same whatever the values are (`Reaches.rest`), and every offset at which a turn
cuts lies between two characters (`bounded_of_offsetOf?`).

The proofs lean on `turn_of_offsetOf?`, which names the piece that a turn reads.
-/

namespace Supervision.Text.Expansion

/-! ## The grammar -/

/-- A piece of a text. -/
inductive Piece
  /-- Text in which nothing opens. -/
  | plain (text : List Char)
  /-- A name between its braces. -/
  | reference (name : List Char)
  /-- Braces without a name. -/
  | bare
  /-- What follows an opening that nothing closes. -/
  | tail (text : List Char)

/-- The piece that an opening begins, by what follows it, and what is left behind the piece. A name
goes on up to the first closing brace. -/
inductive Opened : List Char → Piece → List Char → Prop
  | reference {name rest : List Char} (named : name ≠ []) (free : closing ∉ name) :
    Opened (name ++ closing :: rest) (.reference name) rest
  | bare {rest : List Char} : Opened (closing :: rest) .bare rest
  | tail {text : List Char} (free : closing ∉ text) : Opened text (.tail text) []

/-- The pieces of a text, from the left. Plain text goes on up to the next opening or to the end. -/
inductive Pieces : List Char → List Piece → Prop
  | nil : Pieces [] []
  | plain {text rest : List Char} {ps : List Piece} (nonempty : text ≠ [])
    (free : ¬opening <:+: text) (next : rest = [] ∨ opening <+: rest) (pieces : Pieces rest ps) :
    Pieces (text ++ rest) (.plain text :: ps)
  | opened {after rest : List Char} {p : Piece} {ps : List Piece} (opens : Opened after p rest)
    (pieces : Pieces rest ps) : Pieces (opening ++ after) (p :: ps)

/-- A name ends at the first closing brace. -/
theorem name_unique {name name' rest rest' : List Char} (free : closing ∉ name)
    (free' : closing ∉ name') (same : name ++ closing :: rest = name' ++ closing :: rest') :
    name = name' ∧ rest = rest' := by
  induction name generalizing name' with
  | nil =>
    cases name' with
    | nil => exact ⟨rfl, (List.cons.inj same).2⟩
    | cons c name' =>
      cases same
      exact absurd List.mem_cons_self free'
  | cons c name ih =>
    cases name' with
    | nil =>
      cases same
      exact absurd List.mem_cons_self free
    | cons d name' =>
      obtain ⟨rfl, later⟩ := List.cons.inj same
      obtain ⟨rfl, rfl⟩ := ih (fun mem => free (List.mem_cons_of_mem c mem))
        (fun mem => free' (List.mem_cons_of_mem c mem)) later
      exact ⟨rfl, rfl⟩

theorem Opened.unique {after rest rest' : List Char} {p q : Piece} (first : Opened after p rest)
    (second : Opened after q rest') : p = q ∧ rest = rest' := by
  generalize same : after = after' at second
  cases first with
  | @reference name rest named free =>
    cases second with
    | reference _ free' =>
      obtain ⟨rfl, rfl⟩ := name_unique free free' same
      exact ⟨rfl, rfl⟩
    | bare => exact absurd (name_unique free List.not_mem_nil same).1 named
    | tail free' => exact absurd (same ▸ List.mem_append_right name List.mem_cons_self) free'
  | bare =>
    cases second with
    | reference named' free' => exact absurd (name_unique List.not_mem_nil free' same).1.symm named'
    | bare => exact ⟨rfl, (List.cons.inj same).2⟩
    | tail free' => exact absurd (same ▸ List.mem_cons_self) free'
  | tail free =>
    cases second with
    | @reference name => exact absurd (same ▸ List.mem_append_right name List.mem_cons_self) free
    | bare => exact absurd (same ▸ List.mem_cons_self) free
    | tail => exact ⟨congrArg Piece.tail same, rfl⟩

/-- No opening begins in plain text and ends behind it. -/
theorem not_prefix_of_free {text rest : List Char} (nonempty : text ≠ [])
    (free : ¬opening <:+: text) (next : rest = [] ∨ opening <+: rest) :
    ¬opening <+: text ++ rest := by
  intro opens
  match text with
  | [] => exact nonempty rfl
  | [c] =>
    obtain ⟨-, brace⟩ := List.cons_prefix_cons.1 opens
    rcases next with rfl | ⟨after, rfl⟩
    · exact absurd brace (by decide)
    · exact absurd (List.cons_prefix_cons.1 brace).1 (by decide)
  | c :: d :: text =>
    obtain ⟨first, brace⟩ := List.cons_prefix_cons.1 opens
    obtain ⟨second, -⟩ := List.cons_prefix_cons.1 brace
    exact free ⟨[], text, by rw [← first, ← second]; rfl⟩

/-- Of two plain texts at the front of a text, the longer is not longer. -/
theorem plain_unique {text text' more rest rest' : List Char} (free' : ¬opening <:+: text')
    (next : rest = [] ∨ opening <+: rest) (next' : rest' = [] ∨ opening <+: rest')
    (longer : text' = text ++ more) (left : rest = more ++ rest') : more = [] := by
  by_contra nonempty
  have free : ¬opening <:+: more := fun inside =>
    free' (longer ▸ inside.trans (List.suffix_append text more).isInfix)
  rcases next with rfl | opens
  · exact nonempty (List.append_eq_nil_iff.1 left.symm).1
  · exact not_prefix_of_free nonempty free next' (left ▸ opens)

/-- A text has its pieces in one way only. -/
theorem Pieces.unique {cs : List Char} {ps qs : List Piece} (first : Pieces cs ps)
    (second : Pieces cs qs) : ps = qs := by
  induction first generalizing qs with
  | nil =>
    generalize same : [] = cs at second
    cases second with
    | nil => rfl
    | plain nonempty' => exact absurd (List.append_eq_nil_iff.1 same.symm).1 nonempty'
    | opened => cases same
  | @plain text rest _ nonempty free next _ ih =>
    generalize same : text ++ rest = cs at second
    cases second with
    | nil => exact absurd (List.append_eq_nil_iff.1 same).1 nonempty
    | @plain text' rest' _ _ free' next' pieces' =>
      -- Whichever of the two is longer, what it has more is plain and begins with an opening.
      obtain ⟨rfl, rfl⟩ : text = text' ∧ rest = rest' := by
        rcases List.append_eq_append_iff.1 same with ⟨more, longer, left⟩ | ⟨more, longer, left⟩
        · obtain rfl := plain_unique free' next next' longer left
          exact ⟨(longer.trans (List.append_nil text)).symm, left⟩
        · obtain rfl := plain_unique free next' next longer left
          exact ⟨longer.trans (List.append_nil text'), left.symm⟩
      rw [ih pieces']
    | opened => exact absurd ⟨_, same.symm⟩ (not_prefix_of_free nonempty free next)
  | @opened after _ _ _ opens _ ih =>
    generalize same : opening ++ after = cs at second
    cases second with
    | nil => cases same
    | plain nonempty' free' next' =>
      exact absurd ⟨_, same⟩ (not_prefix_of_free nonempty' free' next')
    | opened opens' pieces' =>
      obtain rfl := List.append_cancel_left same
      obtain ⟨rfl, rfl⟩ := opens.unique opens'
      rw [ih pieces']

/-! ## One turn -/

/-- What a piece means, if names have the given values. -/
def Piece.meaning (value : List Char → List Char) : Piece → List Char
  | plain text => text
  | reference name => value name
  | bare => opening ++ [closing]
  | tail text => opening ++ text

/-- A turn writes the plain text before an opening and the meaning of the piece that it begins. -/
theorem turn_of_offsetOf? {start : Nat} {text : List Char}
    (found : offsetOf? opening text = some start) :
    ∃ before after p rest, text = before ++ (opening ++ after) ∧ ¬opening <:+: before ∧
      Opened after p rest ∧ ∀ value written,
        turn value start ⟨written, text⟩ = some ⟨written ++ before ++ p.meaning value, rest⟩ := by
  obtain ⟨before, after, whole, -, plain, outcome⟩ := turn_cases found
  refine ⟨before, after, ?_⟩
  rcases outcome with ⟨free, turned⟩ | ⟨rest, rfl, turned⟩ | ⟨name, rest, rfl, named, free, turned⟩
  · exact ⟨.tail after, [], whole, plain, .tail free, turned⟩
  · exact ⟨.bare, rest, whole, plain, .bare, turned⟩
  · exact ⟨.reference name, rest, whole, plain, .reference named free, turned⟩

theorem Opened.suffix {after rest : List Char} {p : Piece} (opens : Opened after p rest) :
    rest <:+ after := by
  cases opens with
  | @reference name rest => exact (List.suffix_cons closing rest).trans (List.suffix_append name _)
  | @bare rest => exact List.suffix_cons closing rest
  | tail => exact List.nil_suffix

/-! ## The whole text -/

/-- Plain text, unless it is empty, before other pieces. -/
theorem Pieces.exists_plain {text rest : List Char} {ps : List Piece} (free : ¬opening <:+: text)
    (next : rest = [] ∨ opening <+: rest) (pieces : Pieces rest ps)
    (value : List Char → List Char) :
    ∃ qs, Pieces (text ++ rest) qs ∧
      qs.flatMap (Piece.meaning value) = text ++ ps.flatMap (Piece.meaning value) := by
  by_cases empty : text = []
  · subst empty
    exact ⟨ps, pieces, rfl⟩
  · exact ⟨.plain text :: ps, .plain empty free next pieces, rfl⟩

/-- Every text has pieces, and running writes their meanings in order. -/
theorem exists_pieces (value : List Char → List Char) (e : Expansion) :
    ∃ ps, Pieces e.rest ps ∧
      e.run value = some (e.written ++ ps.flatMap (Piece.meaning value)) := by
  -- By induction on what is left to read, which every turn shortens.
  cases found : offsetOf? opening e.rest with
  | none =>
    have free := not_infix_of_offsetOf? (List.cons_ne_nil _ _) found
    obtain ⟨ps, pieces, meaning⟩ := Pieces.exists_plain free (.inl rfl) .nil value
    rw [List.append_nil] at pieces
    refine ⟨ps, pieces, ?_⟩
    rw [run_of_none found, meaning, List.flatMap_nil, List.append_nil]
  | some start =>
    obtain ⟨before, after, p, rest, whole, free, opens, turned⟩ := turn_of_offsetOf? found
    have turned := turned value e.written
    obtain ⟨ps, pieces, ran⟩ := exists_pieces value ⟨e.written ++ before ++ p.meaning value, rest⟩
    obtain ⟨qs, pieces, meaning⟩ :=
      Pieces.exists_plain free (.inr ⟨after, rfl⟩) (.opened opens pieces) value
    refine ⟨qs, whole ▸ pieces, ?_⟩
    rw [run_of_turn found turned, ran, meaning, List.flatMap_cons]
    simp only [List.append_assoc]
  termination_by e.rest.length
  decreasing_by
    have shorter : rest.length + 2 ≤ e.rest.length := turn_shorter found turned
    exact Nat.lt_of_lt_of_le (Nat.lt_add_of_pos_right (by decide)) shorter

/-- **Running a text writes the meanings of its pieces in order.** -/
theorem run_of_pieces {e : Expansion} {ps : List Piece} (pieces : Pieces e.rest ps)
    (value : List Char → List Char) :
    e.run value = some (e.written ++ ps.flatMap (Piece.meaning value)) := by
  obtain ⟨qs, pieces', ran⟩ := exists_pieces value e
  rw [pieces.unique pieces', ran]

/-! ## The turns -/

/-- What the turns of a text come to, and after how many of them. -/
inductive Reaches (value : List Char → List Char) (text : List Char) : Nat → Expansion → Prop
  | start : Reaches value text 0 ⟨[], text⟩
  | turn {turns start : Nat} {e next : Expansion} (reached : Reaches value text turns e)
    (found : offsetOf? opening e.rest = some start) (turned : e.turn value start = some next) :
    Reaches value text (turns + 1) next

section Reaches

variable {value : List Char → List Char} {text : List Char} {turns : Nat} {e : Expansion}

/-- Turns do not change what the text is expanded to. -/
theorem Reaches.run (reached : Reaches value text turns e) :
    e.run value = Expansion.run value ⟨[], text⟩ := by
  induction reached with
  | start => rfl
  | turn _ found turned ih => rw [← ih, run_of_turn found turned]

/-- Every turn reads two characters of the text, or more. -/
theorem Reaches.shorter (reached : Reaches value text turns e) :
    2 * turns + e.rest.length ≤ text.length := by
  induction reached with
  | start => exact Nat.le_of_eq (Nat.zero_add text.length)
  | turn _ found turned ih =>
    have := turn_shorter found turned
    omega

/-- What is left to read is an end of the text, and would be the same with other values. -/
theorem Reaches.rest (reached : Reaches value text turns e) :
    e.rest <:+ text ∧ ∀ other, ∃ e', Reaches other text turns e' ∧ e'.rest = e.rest := by
  induction reached with
  | start => exact ⟨List.suffix_rfl, fun other => ⟨_, .start, rfl⟩⟩
  | @turn _ start e next _ found turned ih =>
    obtain ⟨suffix, others⟩ := ih
    obtain ⟨before, after, p, rest, whole, -, opens, same⟩ := turn_of_offsetOf? found
    obtain rfl := Option.some.inj (turned.symm.trans (same value e.written))
    refine ⟨(opens.suffix.trans ?_).trans suffix, fun other => ?_⟩
    · rw [whole, ← List.append_assoc]
      exact List.suffix_append _ after
    · obtain ⟨e', reached', left⟩ := others other
      rw [← left] at found same
      exact ⟨_, reached'.turn found (same other e'.written), rfl⟩

end Reaches

/-- The turns come to an end: as long as an opening is left there is a next one. -/
theorem Reaches.exists_last {value : List Char → List Char} {text : List Char} {turns : Nat}
    {e : Expansion} (reached : Reaches value text turns e) :
    ∃ more last, Reaches value text more last ∧ offsetOf? opening last.rest = none := by
  cases found : offsetOf? opening e.rest with
  | none => exact ⟨turns, e, reached, found⟩
  | some start =>
    obtain ⟨next, turned⟩ := exists_turn value found
    exact (reached.turn found turned).exists_last
  termination_by e.rest.length
  decreasing_by
    have := turn_shorter found turned
    omega

/-- Where a pattern is found it begins and ends between characters. -/
theorem isValid_of_offsetOf? {pattern text : List Char} {offset : Nat} (nonempty : pattern ≠ [])
    (found : offsetOf? pattern text = some offset) :
    String.Pos.Raw.IsValid (String.ofList text) ⟨offset⟩ ∧
      String.Pos.Raw.IsValid (String.ofList text) ⟨offset + width pattern⟩ := by
  obtain ⟨front, back, whole, rfl, -⟩ := of_offsetOf? nonempty found
  refine ⟨isValid_iff_cut?.2 ⟨front, pattern ++ back, cut?_eq_some.2 ⟨whole, rfl⟩⟩,
    isValid_iff_cut?.2 ⟨front ++ pattern, back, cut?_eq_some.2 ⟨?_, width_append front pattern⟩⟩⟩
  rw [whole, List.append_assoc]

/-- The offsets of a turn are boundaries: in what is left of the text, where the opening begins and
where it ends, and in what follows the opening, where the closing brace begins and where it ends. -/
structure Bounded (text : List Char) (start : Nat) : Prop where
  atOpening : String.Pos.Raw.IsValid (String.ofList text) ⟨start⟩ ∧
    String.Pos.Raw.IsValid (String.ofList text) ⟨start + 2⟩
  atClosing : ∀ before after stop, cut? (start + 2) text = some (before, after) →
    offsetOf? [closing] after = some stop → String.Pos.Raw.IsValid (String.ofList after) ⟨stop⟩ ∧
      String.Pos.Raw.IsValid (String.ofList after) ⟨stop + 1⟩

theorem bounded_of_offsetOf? {text : List Char} {start : Nat}
    (found : offsetOf? opening text = some start) : Bounded text start :=
  ⟨isValid_of_offsetOf? (List.cons_ne_nil _ _) found, fun _ _ _ _ found =>
    isValid_of_offsetOf? (List.cons_ne_nil _ _) found⟩

end Supervision.Text.Expansion
