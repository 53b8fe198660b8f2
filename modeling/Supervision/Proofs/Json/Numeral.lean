import Supervision.Json.Printer
import Supervision.Json.Reader
import Supervision.Proofs.Text.RoundTrip

/-!
# Numbers are read alone

A number in a text ends where no byte goes on with it, so what is read from its bytes alone is read
from them before any such rest. Whole numbers of 64 bits are read back from their digits. Whether a
double is read back from its own text is not said here: its value is made from the digits by one
multiplication or division, which rounds.
-/

namespace Supervision.Json

open Text (le_ofDigitChars isDigit_of_mem_toDigits range_of_isDigit)
open Text.Utf8 (ofChars ofChars_cons_of_ascii)

/-! ## Where a number ends -/

/-- No byte that goes on with a number comes next. -/
def Apart (rest : List UInt8) : Prop :=
  ∀ b, rest.head? = some b → digit? b = none ∧ b ≠ 0x2E ∧ b ≠ 0x65 ∧ b ≠ 0x45

theorem apart_nil : Apart [] := by
  intro b first
  cases first

theorem apart_cons {b : UInt8} (other : digit? b = none ∧ b ≠ 0x2E ∧ b ≠ 0x65 ∧ b ≠ 0x45)
    (rest : List UInt8) : Apart (b :: rest) := by
  intro c first
  cases first
  exact other

variable {rest : List UInt8}

/-- No digit comes next. -/
def Ends (rest : List UInt8) : Prop :=
  ∀ b, rest.head? = some b → digit? b = none

theorem Apart.ends (apart : Apart rest) : Ends rest :=
  fun b first => (apart b first).1

theorem takeDigits_append (ends : Ends rest) (bytes : List UInt8) :
    takeDigits (bytes ++ rest) = ((takeDigits bytes).1, (takeDigits bytes).2 ++ rest) := by
  induction bytes with
  | nil =>
    cases rest with
    | nil => rfl
    | cons b rest => simp only [List.nil_append, takeDigits, ends b rfl]
  | cons b bytes ih =>
    simp only [List.cons_append, takeDigits]
    cases digit? b with
    | none => rfl
    | some d => simp only [ih]

theorem readWhole_append (ends : Ends rest) {bytes left : List UInt8} {ds : List Nat}
    (read : readWhole bytes = .ok (ds, left)) :
    readWhole (bytes ++ rest) = .ok (ds, left ++ rest) := by
  cases bytes with
  | nil => cases read
  | cons b bytes =>
    simp only [List.cons_append, readWhole] at read ⊢
    cases digit : digit? b with
    | none => simp only [digit] at read; cases read
    | some d =>
      rw [digit] at read
      cases d with
      | zero =>
        cases bytes with
        | nil =>
          cases read
          cases rest with
          | nil => rfl
          | cons c rest => simp [ends c rfl]
        | cons c bytes =>
          simp only [List.cons_append] at read ⊢
          split at read
          · cases read
          · next other =>
            cases read
            rw [if_neg other]
            rfl
      | succ d =>
        cases read
        simp only [takeDigits_append ends]

/-- One digit at least, as a fraction and an exponent need. -/
def someDigits (bytes : List UInt8) : Reading (List Nat) :=
  match takeDigits bytes with
  | ([], []) => .error .truncated
  | ([], _ :: _) => .error .malformed
  | (d :: ds, rest) => .ok (d :: ds, rest)

theorem someDigits_append (ends : Ends rest) {bytes left : List UInt8} {ds : List Nat}
    (read : someDigits bytes = .ok (ds, left)) :
    someDigits (bytes ++ rest) = .ok (ds, left ++ rest) := by
  unfold someDigits at read ⊢
  rw [takeDigits_append ends]
  cases taken : takeDigits bytes with
  | mk ds' left' =>
    rw [taken] at read
    cases ds' with
    | nil => cases left' <;> cases read
    | cons d ds' =>
      cases read
      rfl

theorem readFraction_point (bytes : List UInt8) :
    readFraction (0x2E :: bytes) = (someDigits bytes).map (fun r => (some r.1, r.2)) := by
  simp only [readFraction, someDigits]
  cases taken : takeDigits bytes with
  | mk ds left => cases ds <;> cases left <;> rfl

theorem readFraction_none {bytes : List UInt8} (other : bytes.head? ≠ some 0x2E) :
    readFraction bytes = .ok (none, bytes) := by
  unfold readFraction
  split
  · exact absurd rfl other
  · rfl

theorem readFraction_append (apart : Apart rest) {bytes left : List UInt8} {ds : Option (List Nat)}
    (read : readFraction bytes = .ok (ds, left)) :
    readFraction (bytes ++ rest) = .ok (ds, left ++ rest) := by
  by_cases point : bytes.head? = some 0x2E
  · obtain ⟨bytes, rfl⟩ := List.head?_eq_some_iff.1 point
    rw [readFraction_point] at read
    cases some : someDigits bytes with
    | error e =>
      rw [some] at read
      cases read
    | ok r =>
      rw [some] at read
      cases read
      rw [List.cons_append, readFraction_point, someDigits_append apart.ends some]
      rfl
  · rw [readFraction_none point] at read
    cases read
    refine readFraction_none fun first => ?_
    cases bytes with
    | nil => exact (apart 0x2E first).2.1 rfl
    | cons b bytes => exact point first

/-- The sign of an exponent, if it has one, and the bytes after it. -/
def takeSign : List UInt8 → Bool × List UInt8
  | 0x2B :: rest => (false, rest)
  | 0x2D :: rest => (true, rest)
  | rest => (false, rest)

/-- An exponent after its letter and its sign. -/
def readScale (negative : Bool) (bytes : List UInt8) : Reading (Option Int) :=
  match takeDigits bytes with
  | ([], []) => .error .truncated
  | ([], _ :: _) => .error .malformed
  | (ds, rest) => .ok (some (if negative then -(ofDigits ds : Int) else ofDigits ds), rest)

theorem readExponent_letter {b : UInt8} (letter : b = 0x65 ∨ b = 0x45) (bytes : List UInt8) :
    readExponent (b :: bytes) = (someDigits (takeSign bytes).2).map (fun r =>
      (some (if (takeSign bytes).1 then -(ofDigits r.1 : Int) else ofDigits r.1), r.2)) := by
  have scaled : readExponent (b :: bytes) = readScale (takeSign bytes).1 (takeSign bytes).2 := by
    simp only [readExponent, if_pos letter]
    rfl
  rw [scaled]
  unfold readScale someDigits
  cases takeDigits (takeSign bytes).2 with
  | mk ds left => cases ds <;> cases left <;> rfl

theorem takeSign_append {bytes : List UInt8} (some : bytes ≠ []) :
    takeSign (bytes ++ rest) = ((takeSign bytes).1, (takeSign bytes).2 ++ rest) := by
  cases bytes with
  | nil => exact absurd rfl some
  | cons b bytes =>
    rw [List.cons_append]
    unfold takeSign
    split
    · next equal =>
      cases equal
      rfl
    · next equal =>
      cases equal
      rfl
    · next other other' =>
      split
      · next equal =>
        cases equal
        exact (other _ rfl).elim
      · next equal =>
        cases equal
        exact (other' _ rfl).elim
      · rfl

theorem readExponent_append (apart : Apart rest) {bytes left : List UInt8} {e : Option Int}
    (read : readExponent bytes = .ok (e, left)) :
    readExponent (bytes ++ rest) = .ok (e, left ++ rest) := by
  cases bytes with
  | nil =>
    cases read
    cases rest with
    | nil => rfl
    | cons b rest =>
      have other : ¬(b = 0x65 ∨ b = 0x45) := by
        rintro (letter | letter)
        · exact (apart b rfl).2.2.1 letter
        · exact (apart b rfl).2.2.2 letter
      simp only [List.nil_append, readExponent, if_neg other]
  | cons b bytes =>
    by_cases letter : b = 0x65 ∨ b = 0x45
    · have some : bytes ≠ [] := by
        rintro rfl
        simp only [readExponent, if_pos letter] at read
        cases read
      rw [readExponent_letter letter] at read
      cases digits : someDigits (takeSign bytes).2 with
      | error e =>
        rw [digits] at read
        cases read
      | ok r =>
        rw [digits] at read
        cases read
        rw [List.cons_append, readExponent_letter letter, takeSign_append some,
          someDigits_append apart.ends digits]
        rfl
    · simp only [readExponent, if_neg letter] at read
      cases read
      simp only [List.cons_append, readExponent, if_neg letter]

/-- The sign of a number, if it has one, and the bytes after it. -/
def takeMinus : List UInt8 → Bool × List UInt8
  | 0x2D :: rest => (true, rest)
  | rest => (false, rest)

theorem takeMinus_append {bytes : List UInt8} (some : bytes ≠ []) :
    takeMinus (bytes ++ rest) = ((takeMinus bytes).1, (takeMinus bytes).2 ++ rest) := by
  cases bytes with
  | nil => exact absurd rfl some
  | cons b bytes =>
    rw [List.cons_append]
    unfold takeMinus
    split
    · next equal =>
      cases equal
      rfl
    · next other =>
      split
      · next equal =>
        cases equal
        exact (other _ rfl).elim
      · rfl

theorem bind_eq_ok {ε α β : Type} {x : Except ε α} {f : α → Except ε β} {r : β} :
    x.bind f = .ok r ↔ ∃ a, x = .ok a ∧ f a = .ok r := by
  cases x with
  | error e =>
    constructor
    · intro read
      cases read
    · rintro ⟨a, read, -⟩
      cases read
  | ok a =>
    constructor
    · intro read
      exact ⟨a, rfl, read⟩
    · rintro ⟨a, read, rest⟩
      cases read
      exact rest

/-- The number that a numeral denotes, with the bytes after it. -/
def worth (n : Numeral) (left : List UInt8) : Reading Json :=
  match n.value? with
  | some v => .ok (v, left)
  | none => .error .malformed

/-- The steps in which a number is read. -/
theorem readNumber_eq_ok {bytes left : List UInt8} {v : Json} :
    readNumber bytes = .ok (v, left) ↔
      ∃ whole fraction exponent left₁ left₂,
        readWhole (takeMinus bytes).2 = .ok (whole, left₁) ∧
        readFraction left₁ = .ok (fraction, left₂) ∧
        readExponent left₂ = .ok (exponent, left) ∧
        Numeral.value? ⟨(takeMinus bytes).1, whole, fraction, exponent⟩ = some v := by
  have steps : readNumber bytes =
      Except.bind (readWhole (takeMinus bytes).2) fun w =>
        Except.bind (readFraction w.2) fun f => Except.bind (readExponent f.2) fun e =>
          worth ⟨(takeMinus bytes).1, w.1, f.1, e.1⟩ e.2 := by
    simp only [readNumber, readNumeral, bind_assoc, pure_bind]
    rfl
  simp only [steps, bind_eq_ok, Prod.exists]
  constructor
  · rintro ⟨whole, left₁, first, fraction, left₂, second, exponent, left', third, value⟩
    unfold worth at value
    split at value
    · next v' same =>
      cases value
      exact ⟨whole, fraction, exponent, left₁, left₂, first, second, third, same⟩
    · cases value
  · rintro ⟨whole, fraction, exponent, left₁, left₂, first, second, third, value⟩
    exact ⟨whole, left₁, first, fraction, left₂, second, exponent, left, third, by
      rw [worth, value]⟩

/-- **A number is read from its bytes alone.** -/
theorem readNumber_append (apart : Apart rest) {bytes left : List UInt8} {v : Json}
    (read : readNumber bytes = .ok (v, left)) :
    readNumber (bytes ++ rest) = .ok (v, left ++ rest) := by
  rw [readNumber_eq_ok] at read ⊢
  obtain ⟨whole, fraction, exponent, left₁, left₂, first, second, third, value⟩ := read
  have some : bytes ≠ [] := by
    rintro rfl
    cases first
  rw [takeMinus_append some]
  exact ⟨whole, fraction, exponent, left₁ ++ rest, left₂ ++ rest, readWhole_append apart.ends first,
    readFraction_append apart second, readExponent_append apart third, value⟩

/-- A number starts with a digit or a minus. -/
theorem starts_of_readNumber {bytes left : List UInt8} {v : Json}
    (read : readNumber bytes = .ok (v, left)) :
    ∃ b more, bytes = b :: more ∧ (b = 0x2D ∨ (digit? b).isSome) := by
  obtain ⟨whole, _, _, left₁, _, first, -⟩ := readNumber_eq_ok.1 read
  cases bytes with
  | nil => cases first
  | cons b more =>
    refine ⟨b, more, rfl, ?_⟩
    by_cases minus : b = 0x2D
    · exact .inl minus
    · refine .inr ?_
      have unsigned : takeMinus (b :: more) = (false, b :: more) := by
        unfold takeMinus
        split
        · next equal => exact absurd (List.cons.inj equal).1 minus
        · rfl
      rw [unsigned] at first
      cases digit : digit? b with
      | none =>
        simp only [readWhole, digit] at first
        cases first
      | some d => rfl

/-! ## Whole numbers -/

/-- The digit that a character is. -/
def digitOf (c : Char) : Nat :=
  c.toNat - '0'.toNat

/-- A digit as a byte. -/
theorem ofChars_cons_digit {c : Char} (digit : c.isDigit = true) (cs : List Char) :
    ∃ b, ofChars (c :: cs) = b :: ofChars cs ∧ digit? b = some (digitOf c) := by
  have range := range_of_isDigit digit
  refine ⟨UInt8.ofNat c.toNat, ofChars_cons_of_ascii (by omega) cs, ?_⟩
  have small : c.toNat < 256 := by omega
  have value : (UInt8.ofNat c.toNat).toNat = c.toNat := UInt8.toNat_ofNat_of_lt' small
  have digit : 0x30 ≤ UInt8.ofNat c.toNat ∧ UInt8.ofNat c.toNat ≤ 0x39 := by
    rw [UInt8.le_iff_toNat_le, UInt8.le_iff_toNat_le, value]
    exact range
  rw [digit?, if_pos digit, value]
  rfl

variable {cs : List Char}

theorem takeDigits_ofChars (digits : ∀ c ∈ cs, c.isDigit = true) :
    takeDigits (ofChars cs) = (cs.map digitOf, []) := by
  induction cs with
  | nil => rfl
  | cons c cs ih =>
    obtain ⟨b, bytes, digit⟩ := ofChars_cons_digit (digits c List.mem_cons_self) cs
    rw [bytes]
    simp only [takeDigits, digit, ih fun d mem => digits d (List.mem_cons_of_mem c mem),
      List.map_cons]

/-- Digits that denote a number of 64 bits all count. -/
theorem appendDigits_of_lt {n : Nat} (below : Nat.ofDigitChars 10 cs n < significandLimit) :
    appendDigits n (cs.map digitOf) = (Nat.ofDigitChars 10 cs n, []) := by
  induction cs generalizing n with
  | nil => rfl
  | cons c cs ih =>
    rw [Nat.ofDigitChars_cons, Nat.mul_comm 10 n] at below ⊢
    have fits : n * 10 + digitOf c < significandLimit :=
      Nat.lt_of_le_of_lt (le_ofDigitChars _ cs) below
    rw [List.map_cons, appendDigits, if_pos fits]
    exact ih below

/-- The decimal of a number that is not zero does not start with a zero. -/
theorem toDigits_ne_zero_cons {n : Nat} (pos : 0 < n) (cs : List Char) :
    Nat.toDigits 10 n ≠ '0' :: cs := by
  induction n using Nat.strong_induction_on generalizing cs with
  | _ n ih =>
    by_cases small : n < 10
    · rw [Nat.toDigits_of_lt_base small]
      have nonzero : ∀ n < 10, 0 < n → n.digitChar ≠ '0' := by decide
      intro equal
      exact nonzero n small pos (List.cons.inj equal).1
    · rw [Nat.toDigits_of_base_le (by omega) (by omega)]
      intro equal
      cases shape : Nat.toDigits 10 (n / 10) with
      | nil => exact Nat.toDigits_ne_nil shape
      | cons d ds =>
        rw [shape] at equal
        refine ih (n / 10) (by omega) (by omega) ds ?_
        rw [shape, (List.cons.inj equal).1]

theorem eq_zero_of_digitOf {c : Char} (digit : c.isDigit = true) (zero : digitOf c = 0) :
    c = '0' := by
  have range := range_of_isDigit digit
  have first : '0'.toNat = 48 := rfl
  have difference : c.toNat - '0'.toNat = 0 := zero
  rw [← Char.toNat_inj]
  omega

/-- Digits before a point are read all, a zero only alone. -/
theorem readWhole_ofChars {c : Char} (digits : ∀ d ∈ c :: cs, d.isDigit = true)
    (lead : c ≠ '0' ∨ cs = []) :
    readWhole (ofChars (c :: cs)) = .ok ((c :: cs).map digitOf, []) := by
  have digit := digits c List.mem_cons_self
  obtain ⟨b, bytes, value⟩ := ofChars_cons_digit digit cs
  rw [bytes]
  cases zero : digitOf c with
  | zero =>
    obtain rfl : cs = [] := lead.resolve_left fun other => other (eq_zero_of_digitOf digit zero)
    rw [zero] at value
    simp only [readWhole, value, List.map_cons, zero]
    rfl
  | succ d =>
    have others : ∀ d ∈ cs, d.isDigit = true := fun d mem => digits d (List.mem_cons_of_mem c mem)
    rw [zero] at value
    simp only [readWhole, value, takeDigits_ofChars others, List.map_cons, zero]

theorem readWhole_toDigits (n : Nat) :
    readWhole (ofChars (Nat.toDigits 10 n)) = .ok ((Nat.toDigits 10 n).map digitOf, []) := by
  have digits : ∀ c ∈ Nat.toDigits 10 n, c.isDigit = true := fun c mem =>
    isDigit_of_mem_toDigits mem
  by_cases zero : n = 0
  · subst zero
    rfl
  · cases shape : Nat.toDigits 10 n with
    | nil => exact absurd shape Nat.toDigits_ne_nil
    | cons c cs =>
      rw [shape] at digits
      refine readWhole_ofChars digits (.inl ?_)
      rintro rfl
      exact toDigits_ne_zero_cons (Nat.pos_of_ne_zero zero) cs shape

/-- **A whole number of 64 bits is read back from its digits.** -/
theorem readNumber_renderInt {i : Int} (low : -(2 ^ 63) ≤ i) (high : i < 2 ^ 64) :
    readNumber (ofChars (renderInt i)) = .ok (.int i, []) := by
  rw [readNumber_eq_ok]
  have value : Nat.ofDigitChars 10 (Nat.toDigits 10 i.natAbs) 0 = i.natAbs :=
    Nat.ofDigitChars_ten_toDigits
  have limit : significandLimit = 2 ^ 64 := rfl
  have counted : appendDigits 0 ((Nat.toDigits 10 i.natAbs).map digitOf) =
      (Nat.ofDigitChars 10 (Nat.toDigits 10 i.natAbs) 0, []) :=
    appendDigits_of_lt (by rw [value, limit]; omega)
  rw [value] at counted
  by_cases negative : i < 0
  · have bytes : ofChars (renderInt i) = 0x2D :: ofChars (Nat.toDigits 10 i.natAbs) := by
      rw [renderInt, if_pos negative]
      rfl
    rw [bytes]
    refine ⟨_, none, none, _, _, readWhole_toDigits i.natAbs, rfl, rfl, ?_⟩
    have half : Number.twoTo 63 = 2 ^ 63 := rfl
    have range : 0 < i.natAbs ∧ i.natAbs ≤ Number.twoTo 63 := by omega
    have back : -(i.natAbs : Int) = i := by omega
    simp only [Numeral.value?, counted, takeMinus, Bool.not_true, Bool.false_eq_true, if_false,
      if_pos range, back]
  · have bytes : ofChars (renderInt i) = ofChars (Nat.toDigits 10 i.natAbs) := by
      rw [renderInt, if_neg negative]
    have unsigned : takeMinus (ofChars (Nat.toDigits 10 i.natAbs)) =
        (false, ofChars (Nat.toDigits 10 i.natAbs)) := by
      unfold takeMinus
      split
      · next equal =>
        have read := readWhole_toDigits i.natAbs
        rw [equal] at read
        cases read
      · rfl
    rw [bytes, unsigned]
    refine ⟨_, none, none, _, _, readWhole_toDigits i.natAbs, rfl, rfl, ?_⟩
    have back : (i.natAbs : Int) = i := by omega
    simp only [Numeral.value?, counted, Bool.not_false, if_true, back]

end Supervision.Json
