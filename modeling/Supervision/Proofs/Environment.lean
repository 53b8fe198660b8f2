import Supervision.Environment
import Supervision.Proofs.Text.Expansion
import Supervision.Proofs.Text.Recognition
import Mathlib.Data.List.Forall2

/-!
# Texts with variables

What comes of a text in the environment of a process: the pieces of the text, each with what it
stands for there, in one pass (`expanded_of_text`).

Nothing is said of the names that a variable can have: a name that no variable has stands for
nothing, as does one whose value is no text.
-/

namespace Supervision.Environment

open Text Text.Expansion

/-- What a piece stands for in an environment. -/
inductive Reads (env : Environment) : Piece → List Char → Prop
  | plain (text : List Char) : Reads env (.plain text) text
  /-- The value of a variable, if it is a text. -/
  | value {name : List Char} {v : String}
    (set : env.get? (String.ofList name) = some (Utf8.encode v)) :
    Reads env (.reference name) v.toList
  /-- A value that is the encoding of no text counts as empty. -/
  | illFormed {name : List Char} {bytes : List UInt8}
    (set : env.get? (String.ofList name) = some bytes) (illFormed : ∀ v, bytes ≠ Utf8.encode v) :
    Reads env (.reference name) []
  | unset {name : List Char} (unset : env.get? (String.ofList name) = none) :
    Reads env (.reference name) []
  | bare : Reads env .bare ['$', '\x7b', '\x7d']
  | tail (text : List Char) : Reads env (.tail text) ('$' :: '\x7b' :: text)

/-- What the environment puts for a piece is what the piece stands for. -/
theorem reads_meaning (env : Environment) (p : Piece) : Reads env p (p.meaning env.text) := by
  cases p with
  | plain text => exact .plain text
  | bare => exact .bare
  | tail text => exact .tail text
  | reference name =>
    show Reads env (.reference name) (env.text name)
    rw [text]
    cases set : env.get? (String.ofList name) with
    | none => exact .unset set
    | some bytes =>
      cases read : Utf8.decode bytes with
      | error fault =>
        rw [Option.bind_some, Utf8.decode?, read]
        refine .illFormed set fun v encoded => ?_
        rw [Utf8.decode_eq_ok.2 encoded] at read
        cases read
      | ok v =>
        rw [Option.bind_some, Utf8.decode?, read]
        exact .value (set.trans (congrArg some (Utf8.decode_eq_ok.1 read)))

theorem toList_expand (env : Environment) (s : String) :
    Expansion.run env.text ⟨[], s.toList⟩ = some (env.expand s).toList := by
  rw [expand, String.toList_ofList, Option.some_get]

/-- What comes of a text in an environment. -/
structure Expanded (env : Environment) (s : String) : Prop where
  /-- There is one way to take the text to pieces. -/
  pieces : ∃! ps, Pieces s.toList ps
  /-- What comes of it is what the pieces stand for, one after the other. -/
  meaning : ∀ ps, Pieces s.toList ps →
    ∃ vs, List.Forall₂ (Reads env) ps vs ∧ (env.expand s).toList = vs.flatten
  /-- What is left to read is an end of the text itself, and the same in every environment; what is
  written stays. -/
  once : ∀ turns e, Reaches env.text s.toList turns e →
    e.rest <:+ s.toList ∧ e.written <+: (env.expand s).toList ∧
      ∀ other : Environment, ∃ e', Reaches other.text s.toList turns e' ∧ e'.rest = e.rest
  /-- No turn cuts inside a character or beyond the end, and so none fails. -/
  boundary : ∀ turns e start, Reaches env.text s.toList turns e →
    offsetOf? opening e.rest = some start →
      Bounded e.rest start ∧ ∃ next, e.turn env.text start = some next
  /-- There are no more turns than the text has pairs of characters. -/
  bounded : ∀ turns e, Reaches env.text s.toList turns e → 2 * turns ≤ s.length
  /-- After the last turn only what is left is written. -/
  ends : ∃ turns last, Reaches env.text s.toList turns last ∧
    offsetOf? opening last.rest = none ∧ (env.expand s).toList = last.written ++ last.rest
  /-- A text in which nothing opens stays as it is. -/
  plain : ¬['$', '\x7b'] <:+: s.toList → env.expand s = s

/-- **A text is expanded by its grammar, in one pass.** -/
theorem expanded_of_text (env : Environment) (s : String) : Expanded env s := by
  have ran := toList_expand env s
  obtain ⟨ps, pieces, -⟩ := exists_pieces env.text ⟨[], s.toList⟩
  refine ⟨⟨ps, pieces, fun qs pieces' => pieces'.unique pieces⟩, fun qs pieces' => ?_,
    fun turns e reached => ?_, fun turns e start reached found => ?_, fun turns e reached => ?_, ?_,
    fun free => ?_⟩
  · have written := Option.some.inj (ran.symm.trans (run_of_pieces pieces' env.text))
    refine ⟨qs.map (Piece.meaning env.text), ?_, ?_⟩
    · rw [List.forall₂_map_right_iff, List.forall₂_same]
      exact fun p _ => reads_meaning env p
    · rw [written, List.nil_append, List.flatMap_def]
  · obtain ⟨suffix, others⟩ := reached.rest
    obtain ⟨qs, -, goes⟩ := exists_pieces env.text e
    have whole := Option.some.inj (ran.symm.trans (reached.run.symm.trans goes))
    exact ⟨suffix, ⟨_, whole.symm⟩, fun other => others other.text⟩
  · exact ⟨bounded_of_offsetOf? found, exists_turn env.text found⟩
  · have shorter := reached.shorter
    rw [String.length_toList] at shorter
    omega
  · have first : Reaches env.text s.toList 0 ⟨[], s.toList⟩ := .start
    obtain ⟨turns, last, reached, none⟩ := first.exists_last
    refine ⟨turns, last, reached, none, ?_⟩
    exact Option.some.inj (ran.symm.trans (reached.run.symm.trans (run_of_none none)))
  · have none : offsetOf? opening s.toList = none := by
      cases found : offsetOf? opening s.toList with
      | none => rfl
      | some start =>
        obtain ⟨front, back, whole, -, -⟩ := of_offsetOf? (List.cons_ne_nil _ _) found
        exact absurd ⟨front, back, by rw [whole, List.append_assoc]⟩ free
    exact String.toList_inj.1 (Option.some.inj (ran.symm.trans (run_of_none none)))

/-- A value that looks like a reference stays as it is, and so does what is never closed. -/
example : (⟨[("A", Utf8.encode "$\x7bB\x7d"), ("B", Utf8.encode "b")], none⟩ : Environment).expand
    "é$$\x7bA\x7d$\x7b\x7d$\x7bC\x7d$\x7bB" = "é$$\x7bB\x7d$\x7b\x7d$\x7bB" := by
  cbv

end Supervision.Environment
