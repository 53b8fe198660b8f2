import Supervision.Proofs.Json.RoundTrip
import Supervision.Proofs.Number.Shortest

/-!
# The text of a double is the text of a double

Whatever finite double is written, what is read from its text is a double again, perhaps another
one. The text has a point or an exponent, so it stands for no whole number; what could fail is that
the digits, taken as a significand and a power of ten, come to more than the greatest double. They
do not: the shortest decimal is within half a unit of the double, which leaves room for the
roundings, but for the two greatest doubles, whose texts are read here one by one.
-/

namespace Supervision.Json

open Number
open Text (isDigit_of_mem_toDigits range_of_isDigit)
open Text.Utf8 (ofChars ofChars_append ofChars_cons_of_ascii ofChars_nil)

/-! ## Digits as a significand -/

variable {cs w f : List Char} {c : Char}

/-- Digits count while they fit, the others are left. -/
theorem appendDigits_ofChars {n : Nat} (fits : n < significandLimit) (cs : List Char) :
    ∃ taken unread, cs = taken ++ unread ∧
      appendDigits n (cs.map digitOf) = (Nat.ofDigitChars 10 taken n, unread.map digitOf) ∧
      Nat.ofDigitChars 10 taken n < significandLimit := by
  induction cs generalizing n with
  | nil => exact ⟨[], [], rfl, rfl, fits⟩
  | cons c cs ih =>
    by_cases more : n * 10 + digitOf c < significandLimit
    · obtain ⟨taken, unread, rfl, counted, below⟩ := ih more
      have value : Nat.ofDigitChars 10 (c :: taken) n =
          Nat.ofDigitChars 10 taken (n * 10 + digitOf c) := by
        rw [Nat.ofDigitChars_cons, Nat.mul_comm 10 n]
        rfl
      refine ⟨c :: taken, unread, rfl, ?_, by rwa [value]⟩
      rw [List.map_cons, appendDigits, if_pos more, value, counted]
    · refine ⟨[], c :: cs, rfl, ?_, fits⟩
      rw [List.map_cons, appendDigits, if_neg more]
      rfl

/-- A numeral is a double if no digit before its point is left, and the significand and the power
of ten that are made of it stay within reach. -/
theorem exists_toFloat? {fraction : Option (List Nat)} {exponent : Option Int}
    (short : Nat.ofDigitChars 10 w 0 < significandLimit) (same : fraction.getD [] = f.map digitOf)
    (within : ∀ taken unread, f = taken ++ unread → 0 ≤ exponent.getD 0 - taken.length →
      (Nat.ofDigitChars 10 (w ++ taken) 0 : ℚ) * 10 ^ (exponent.getD 0 - taken.length).toNat ≤
        Binary64.reach)
    (negative : Bool) :
    ∃ x, Numeral.toFloat? ⟨negative, w.map digitOf, fraction, exponent⟩ = some x := by
  obtain ⟨taken, unread, rfl, counted, fits⟩ := appendDigits_ofChars short f
  have whole := appendDigits_of_lt short
  have shift : ((0 : Nat) : Int) - ((taken ++ unread).length - unread.length : Nat) +
      exponent.getD 0 = exponent.getD 0 - taken.length := by
    rw [List.length_append]
    omega
  have within := within taken unread rfl
  rw [Nat.ofDigitChars_append] at within
  simp only [Numeral.toFloat?, whole, same, counted, List.length_map, List.length_nil, shift]
  exact Binary64.exists_ofDecimal fits within negative

/-! ## Reading the text -/

/-- A point before digits, if there are any. -/
def pointed : List Char → List Char
  | [] => []
  | c :: cs => '.' :: c :: cs

theorem takeDigits_ofChars_append (digits : ∀ c ∈ cs, c.isDigit = true) {rest : List UInt8}
    (ends : Ends rest) : takeDigits (ofChars cs ++ rest) = (cs.map digitOf, rest) := by
  rw [takeDigits_append ends, takeDigits_ofChars digits]
  rfl

theorem readFraction_pointed (digits : ∀ c ∈ f, c.isDigit = true) {rest : List UInt8}
    (ends : Ends rest) (other : rest.head? ≠ some 0x2E) :
    ∃ fraction, readFraction (ofChars (pointed f) ++ rest) = .ok (fraction, rest) ∧
      fraction.getD [] = f.map digitOf ∧ (fraction = none → f = []) := by
  cases f with
  | nil => exact ⟨none, readFraction_none other, rfl, fun _ => rfl⟩
  | cons c f =>
    refine ⟨some ((c :: f).map digitOf), ?_, rfl, nofun⟩
    have bytes : ofChars (pointed (c :: f)) = 0x2E :: ofChars (c :: f) :=
      ofChars_cons_of_ascii (by decide) _
    have read : someDigits (ofChars (c :: f) ++ rest) = .ok ((c :: f).map digitOf, rest) := by
      rw [someDigits, takeDigits_ofChars_append digits ends]
      rfl
    rw [bytes, List.cons_append, readFraction_point, read]
    rfl

/-- The exponent as it is written. -/
def scaled (e : Int) : List Char :=
  'e' :: (if e < 0 then ['-'] else ['+']) ++ Nat.toDigits 10 e.natAbs

theorem ofDigits_map_digitOf (cs : List Char) :
    ofDigits (cs.map digitOf) = Nat.ofDigitChars 10 cs 0 := by
  have from_any (n : Nat) : (cs.map digitOf).foldl (fun n d => n * 10 + d) n =
      Nat.ofDigitChars 10 cs n := by
    induction cs generalizing n with
    | nil => rfl
    | cons c cs ih =>
      rw [Nat.ofDigitChars_cons, Nat.mul_comm 10 n]
      exact ih _
  exact from_any 0

theorem readExponent_scaled (e : Int) : readExponent (ofChars (scaled e)) = .ok (some e, []) := by
  have digits : ∀ c ∈ Nat.toDigits 10 e.natAbs, c.isDigit = true := fun c mem =>
    isDigit_of_mem_toDigits mem
  have read : someDigits (ofChars (Nat.toDigits 10 e.natAbs)) =
      .ok ((Nat.toDigits 10 e.natAbs).map digitOf, []) := by
    rw [someDigits, takeDigits_ofChars digits]
    cases shape : Nat.toDigits 10 e.natAbs with
    | nil => exact absurd shape Nat.toDigits_ne_nil
    | cons c cs => rfl
  have value : ofDigits ((Nat.toDigits 10 e.natAbs).map digitOf) = e.natAbs :=
    (ofDigits_map_digitOf _).trans Nat.ofDigitChars_ten_toDigits
  by_cases down : e < 0
  · have bytes : ofChars (scaled e) = 0x65 :: 0x2D :: ofChars (Nat.toDigits 10 e.natAbs) := by
      rw [scaled, if_pos down]
      rfl
    rw [bytes, readExponent_letter (.inl rfl)]
    simp only [takeSign, read, Except.map, value, if_true]
    congr
    omega
  · have bytes : ofChars (scaled e) = 0x65 :: 0x2B :: ofChars (Nat.toDigits 10 e.natAbs) := by
      rw [scaled, if_neg down]
      rfl
    rw [bytes, readExponent_letter (.inl rfl)]
    simp only [takeSign, read, Except.map, value, Bool.false_eq_true, if_false]
    congr
    omega

/-- A minus before a negative number. -/
def signed (negative : Bool) : List Char :=
  if negative then ['-'] else []

theorem takeMinus_signed {negative : Bool} (digit : c.isDigit = true) (cs : List Char) :
    takeMinus (ofChars (signed negative ++ c :: cs)) = (negative, ofChars (c :: cs)) := by
  cases negative with
  | true => rfl
  | false =>
    obtain ⟨b, bytes, value⟩ := ofChars_cons_digit digit cs
    show takeMinus (ofChars (c :: cs)) = _
    rw [bytes, takeMinus]
    rintro rest equal
    cases equal
    cases value

/-- A numeral with a point or an exponent stands for no whole number. -/
theorem value?_of_toFloat? {n : Numeral} {x : Binary64}
    (part : n.fraction = none → n.exponent ≠ none) (read : n.toFloat? = some x) :
    n.value? = some (.float x) := by
  unfold Numeral.value?
  split
  · next whole alone _ => exact absurd alone (part whole)
  · rw [read]
    rfl

/-- A number with a point or an exponent is read as a double if what its digits and its exponent
come to is within reach. -/
theorem exists_readNumber {exponent : Option Int} (negative : Bool) (tail : List Char)
    (digits : ∀ d ∈ c :: w, d.isDigit = true) (lead : c ≠ '0' ∨ w = [])
    (decimals : ∀ d ∈ f, d.isDigit = true) (ends : Ends (ofChars tail))
    (other : (ofChars tail).head? ≠ some 0x2E)
    (scale : readExponent (ofChars tail) = .ok (exponent, [])) (part : f = [] → exponent ≠ none)
    (short : Nat.ofDigitChars 10 (c :: w) 0 < significandLimit)
    (within : ∀ taken unread, f = taken ++ unread → 0 ≤ exponent.getD 0 - taken.length →
      (Nat.ofDigitChars 10 (c :: w ++ taken) 0 : ℚ) * 10 ^ (exponent.getD 0 - taken.length).toNat ≤
        Binary64.reach) :
    ∃ x, readNumber (ofChars (signed negative ++ (c :: w ++ (pointed f ++ tail)))) =
      .ok (.float x, []) := by
  obtain ⟨fraction, point, same, none⟩ := readFraction_pointed decimals ends other
  obtain ⟨x, value⟩ := exists_toFloat? short same within negative
  have rest : Ends (ofChars (pointed f) ++ ofChars tail) := by
    cases f with
    | nil => exact ends
    | cons d f =>
      intro b first
      cases first
      rfl
  have whole := readWhole_append rest (readWhole_ofChars digits lead)
  rw [List.nil_append, ← ofChars_append, ← ofChars_append] at whole
  rw [← ofChars_append] at point
  refine ⟨x, ?_⟩
  rw [readNumber_eq_ok, List.cons_append, takeMinus_signed (digits c List.mem_cons_self)]
  exact ⟨_, fraction, exponent, _, _, whole, point, scale,
    value?_of_toFloat? (fun absent => part (none absent)) value⟩

/-! ## Where the digits are put -/

variable {ds : List Char} {e : Int} {negative : Bool}

theorem ofDigitChars_lt (digits : ∀ c ∈ cs, c.isDigit = true) :
    Nat.ofDigitChars 10 cs 0 < 10 ^ cs.length := by
  have from_any (n : Nat) : Nat.ofDigitChars 10 cs n < 10 ^ cs.length * (n + 1) := by
    induction cs generalizing n with
    | nil => simp
    | cons c cs ih =>
      have small : c.toNat - '0'.toNat < 10 := by
        have range := range_of_isDigit (digits c List.mem_cons_self)
        have first : '0'.toNat = 48 := rfl
        omega
      rw [Nat.ofDigitChars_cons]
      refine (ih (fun d mem => digits d (List.mem_cons_of_mem c mem)) _).trans_le ?_
      rw [List.length_cons, pow_succ, Nat.mul_assoc]
      exact Nat.mul_le_mul_left _ (by omega)
  simpa using from_any 0

theorem isDigit_zeros (n : Nat) : ∀ c ∈ Layout.zeros n, c.isDigit = true := by
  intro c mem
  rw [List.eq_of_mem_replicate mem]
  rfl

/-- Up to sixteen digits before a point, and some after it. -/
theorem exists_readNumber_point (digits : ∀ d ∈ c :: w, d.isDigit = true) (lead : c ≠ '0' ∨ w = [])
    (decimals : ∀ d ∈ f, d.isDigit = true) (some : f ≠ []) (few : (c :: w).length ≤ 16)
    (negative : Bool) :
    ∃ x, readNumber (ofChars (signed negative ++ (c :: w ++ pointed f))) = .ok (.float x, []) := by
  have short : Nat.ofDigitChars 10 (c :: w) 0 < significandLimit :=
    calc Nat.ofDigitChars 10 (c :: w) 0
      _ < 10 ^ (c :: w).length := ofDigitChars_lt digits
      _ ≤ 10 ^ 16 := Nat.pow_le_pow_right (by decide) few
      _ < significandLimit := by decide
  have read := exists_readNumber negative [] digits lead decimals nofun nofun rfl
    (fun none => absurd none some) short ?_
  · rwa [List.append_nil] at read
  · intro taken unread _ up
    obtain rfl : taken = [] := by
      rw [Option.getD_none] at up
      exact List.eq_nil_of_length_eq_zero (by omega)
    simpa using Binary64.le_reach short

theorem pointed_of_ne_nil (some : f ≠ []) : pointed f = '.' :: f := by
  cases f with
  | nil => exact absurd rfl some
  | cons c f => rfl

theorem isDigit_append {ds : List Char} (first : ∀ c ∈ cs, c.isDigit = true)
    (second : ∀ c ∈ ds, c.isDigit = true) : ∀ c ∈ cs ++ ds, c.isDigit = true := by
  intro c mem
  rcases List.mem_append.1 mem with mem | mem
  · exact first c mem
  · exact second c mem

/-- All digits after the point. -/
theorem exists_readNumber_below (digits : ∀ c ∈ ds, c.isDigit = true) (some : ds ≠ []) (down : e < 0)
    (negative : Bool) :
    ∃ x, readNumber (ofChars (signed negative ++ floatLayout.positional ds e)) =
      .ok (.float x, []) := by
  have decimals := isDigit_append (isDigit_zeros (-e - 1).toNat) digits
  have part : Layout.zeros (-e - 1).toNat ++ ds ≠ [] := List.append_ne_nil_of_right_ne_nil _ some
  have shape : floatLayout.positional ds e =
      ['0'] ++ pointed (Layout.zeros (-e - 1).toNat ++ ds) := by
    rw [pointed_of_ne_nil part]
    simp only [Layout.positional, if_pos down]
    rfl
  rw [shape]
  exact exists_readNumber_point (isDigit_zeros 1) (.inr rfl) decimals part (by decide) negative

/-- All digits before the point, and zeros where there are none. -/
theorem exists_readNumber_whole (digits : ∀ c ∈ ds, c.isDigit = true) (lead : ds.head? ≠ some '0')
    (alone : ds = [] → e = 0) (up : ¬e < 0) (high : e < 16) (few : ds.length ≤ e.toNat + 1)
    (negative : Bool) :
    ∃ x, readNumber (ofChars (signed negative ++ floatLayout.positional ds e)) =
      .ok (.float x, []) := by
  have shape : floatLayout.positional ds e =
      ds ++ Layout.zeros (e.toNat + 1 - ds.length) ++ pointed ['0'] := by
    simp only [Layout.positional, if_neg up, if_pos few]
    rfl
  have filled : (ds ++ Layout.zeros (e.toNat + 1 - ds.length)).length = e.toNat + 1 := by
    simp only [List.length_append, Layout.zeros, List.length_replicate]
    omega
  have whole := isDigit_append digits (isDigit_zeros (e.toNat + 1 - ds.length))
  rw [shape]
  cases ds with
  | nil =>
    obtain rfl := alone rfl
    exact exists_readNumber_point whole (.inr rfl) (isDigit_zeros 1) (by decide) (by decide)
      negative
  | cons c ds =>
    have first : c ≠ '0' := fun same => lead (congrArg some same)
    exact exists_readNumber_point whole (.inl first) (isDigit_zeros 1) (by decide)
      (filled.trans_le (by omega)) negative

/-- Digits on both sides of the point. -/
theorem exists_readNumber_within (digits : ∀ d ∈ c :: cs, d.isDigit = true) (lead : c ≠ '0')
    (up : ¬e < 0) (high : e < 16) (many : ¬(c :: cs).length ≤ e.toNat + 1) (negative : Bool) :
    ∃ x, readNumber (ofChars (signed negative ++ floatLayout.positional (c :: cs) e)) =
      .ok (.float x, []) := by
  have part : cs.drop e.toNat ≠ [] := by
    rw [List.length_cons] at many
    rw [Ne, List.drop_eq_nil_iff]
    omega
  have shape : floatLayout.positional (c :: cs) e =
      c :: cs.take e.toNat ++ pointed (cs.drop e.toNat) := by
    rw [pointed_of_ne_nil part]
    simp only [Layout.positional, if_neg up, if_neg many]
    rfl
  have whole : ∀ d ∈ c :: cs.take e.toNat, d.isDigit = true := fun d mem =>
    digits d (List.mem_of_mem_take (i := e.toNat + 1) mem)
  have decimals : ∀ d ∈ cs.drop e.toNat, d.isDigit = true := fun d mem =>
    digits d (List.mem_cons_of_mem c (List.mem_of_mem_drop mem))
  have few : (c :: cs.take e.toNat).length ≤ 16 := by
    rw [List.length_cons, List.length_take]
    omega
  rw [shape]
  exact exists_readNumber_point whole (.inl lead) decimals part few negative

theorem exists_readNumber_positional (digits : ∀ c ∈ ds, c.isDigit = true)
    (lead : ds.head? ≠ some '0') (alone : ds = [] → e = 0) (high : e < 16) (negative : Bool) :
    ∃ x, readNumber (ofChars (signed negative ++ floatLayout.positional ds e)) =
      .ok (.float x, []) := by
  by_cases down : e < 0
  · have some : ds ≠ [] := fun none => absurd (alone none) (by omega)
    exact exists_readNumber_below digits some down negative
  · by_cases few : ds.length ≤ e.toNat + 1
    · exact exists_readNumber_whole digits lead alone down high few negative
    · cases ds with
      | nil => exact absurd (Nat.zero_le _) few
      | cons c cs =>
        have first : c ≠ '0' := fun same => lead (congrArg some same)
        exact exists_readNumber_within digits first down high few negative

/-- One digit before the point, if there is one, and an exponent. -/
theorem exists_readNumber_scientific (digits : ∀ d ∈ c :: cs, d.isDigit = true)
    (within : ∀ taken unread, cs = taken ++ unread → 0 ≤ e - taken.length →
      (Nat.ofDigitChars 10 (c :: taken) 0 : ℚ) * 10 ^ (e - taken.length).toNat ≤ Binary64.reach)
    (negative : Bool) :
    ∃ x, readNumber (ofChars (signed negative ++ floatLayout.scientific (c :: cs) e)) =
      .ok (.float x, []) := by
  have shape : floatLayout.scientific (c :: cs) e = c :: [] ++ (pointed cs ++ scaled e) := by
    cases cs <;> simp [Layout.scientific, pointed, scaled, floatLayout]
  have alone : ∀ d ∈ [c], d.isDigit = true := by
    intro d mem
    rw [List.mem_singleton.1 mem]
    exact digits c List.mem_cons_self
  have short : Nat.ofDigitChars 10 [c] 0 < significandLimit :=
    (ofDigitChars_lt alone).trans (by rw [List.length_singleton]; decide)
  have letter : ofChars (scaled e) =
      0x65 :: ofChars ((if e < 0 then ['-'] else ['+']) ++ Nat.toDigits 10 e.natAbs) := rfl
  rw [shape]
  refine exists_readNumber negative (scaled e) alone (.inr rfl)
    (fun d mem => digits d (List.mem_cons_of_mem c mem)) ?_ ?_ (readExponent_scaled e) nofun short
    within
  · intro b first
    rw [letter] at first
    cases first
    rfl
  · rw [letter, List.head?_cons]
    decide

/-! ## The digits of a decimal -/

/-- Zeros at the end of digits. -/
theorem exists_zeros (all : List Char) :
    ∃ t, all = (all.reverse.dropWhile (· == '0')).reverse ++ Layout.zeros t := by
  refine ⟨(all.reverse.takeWhile (· == '0')).length, ?_⟩
  have zeros : (all.reverse.takeWhile (· == '0')).reverse =
      Layout.zeros (all.reverse.takeWhile (· == '0')).length := by
    refine List.eq_replicate_iff.2 ⟨List.length_reverse, fun c mem => ?_⟩
    exact beq_iff_eq.1 (List.all_eq_true.1 List.all_takeWhile c (List.mem_reverse.1 mem))
  rw [← zeros, ← List.reverse_append, List.takeWhile_append_dropWhile, List.reverse_reverse]

section Decimal

variable (d : Decimal)

/-- The digits of a decimal end before its last zeros. -/
theorem significant_zeros :
    ∃ t, Nat.toDigits 10 d.digits = (Layout.significant d).1 ++ Layout.zeros t ∧
      (Layout.significant d).2 = d.exponent + ((Layout.significant d).1.length + t : Nat) - 1 := by
  obtain ⟨t, shape⟩ := exists_zeros (Nat.toDigits 10 d.digits)
  refine ⟨t, shape, ?_⟩
  have length := congrArg List.length shape
  rw [List.length_append, Layout.zeros, List.length_replicate] at length
  show d.exponent + (Nat.toDigits 10 d.digits).length - 1 = _
  rw [length]
  rfl

variable {d}

/-- A decimal that is not zero has digits, and the first is not zero. -/
theorem significant_lead (nonzero : d.digits ≠ 0) :
    ∃ c cs, (Layout.significant d).1 = c :: cs ∧ c ≠ '0' := by
  obtain ⟨t, shape, -⟩ := significant_zeros d
  have lead := toDigits_ne_zero_cons (Nat.pos_of_ne_zero nonzero)
  cases digits : (Layout.significant d).1 with
  | nil =>
    rw [digits, List.nil_append] at shape
    cases t with
    | zero => exact absurd shape Nat.toDigits_ne_nil
    | succ t => exact absurd shape (lead _)
  | cons c cs =>
    refine ⟨c, cs, rfl, ?_⟩
    rintro rfl
    rw [digits] at shape
    exact lead _ shape

theorem isDigit_of_mem_significant (mem : c ∈ (Layout.significant d).1) : c.isDigit = true := by
  obtain ⟨t, shape, -⟩ := significant_zeros d
  refine isDigit_of_mem_toDigits (n := d.digits) ?_
  rw [shape]
  exact List.mem_append_left _ mem

/-- The first digits of a decimal come to no more than the whole. -/
theorem first_digits_le {taken unread : List Char}
    (shape : (Layout.significant d).1 = c :: (taken ++ unread))
    (up : 0 ≤ (Layout.significant d).2 - taken.length) :
    (Nat.ofDigitChars 10 (c :: taken) 0 : ℚ) *
      10 ^ ((Layout.significant d).2 - taken.length).toNat ≤ d.value := by
  obtain ⟨t, digits, exponent⟩ := significant_zeros d
  rw [shape, List.length_cons, List.length_append] at exponent
  have whole : Nat.ofDigitChars 10 (c :: taken) 0 * 10 ^ (unread.length + t) ≤ d.digits := by
    have value : Nat.ofDigitChars 10 (Nat.toDigits 10 d.digits) 0 = d.digits :=
      Nat.ofDigitChars_ten_toDigits
    rw [digits, shape, ← List.cons_append, List.append_assoc, Nat.ofDigitChars_append,
      Nat.ofDigitChars_eq_ofDigitChars_zero, List.length_append] at value
    have filled : (Layout.zeros t).length = t := List.length_replicate
    rw [filled, Nat.mul_comm] at value
    omega
  have power : (10 : ℚ) ^ ((Layout.significant d).2 - taken.length).toNat =
      10 ^ (unread.length + t) * 10 ^ d.exponent := by
    rw [← zpow_natCast, ← zpow_natCast, ← zpow_add₀ (by norm_num)]
    congr 1
    omega
  have cast : (Nat.ofDigitChars 10 (c :: taken) 0 : ℚ) * 10 ^ (unread.length + t) ≤ d.digits := by
    exact_mod_cast whole
  rw [power, ← mul_assoc, Decimal.value]
  exact mul_le_mul_of_nonneg_right cast (zpow_nonneg (by norm_num) _)

end Decimal

/-! ## Doubles -/

theorem exists_readNumber_zero (negative : Bool) :
    ∃ y, readNumber (ofChars (signed negative ++ ['0', '.', '0'])) = .ok (.float y, []) :=
  exists_readNumber_point (c := '0') (w := []) (f := ['0']) (isDigit_zeros 1) (.inr rfl)
    (isDigit_zeros 1) (by decide) (by decide) negative

/-- The text of a double that is not one of the two greatest is read as a double. -/
theorem exists_readNumber_render {x : Binary64}
    (small : (x.mantissa + 1 / 2) * 2 ^ x.exponent ≤ Binary64.reach) :
    ∃ y, readNumber (ofChars (floatLayout.render x).toList) = .ok (.float y, []) := by
  simp only [Layout.render, String.toList_ofList]
  by_cases zero : x.isZero = true
  · rw [if_pos zero]
    exact exists_readNumber_zero x.negative
  · rw [if_neg zero]
    have nonzero : x.mantissa ≠ 0 := fun none => zero (beq_iff_eq.2 none)
    rcases Decimal.shortest_cases x with none | inside
    · rw [none]
      exact exists_readNumber_zero x.negative
    · obtain ⟨some, above⟩ := Decimal.bounds_of_contains nonzero inside
      generalize Decimal.shortest x = d at some above
      obtain ⟨c, cs, digits, lead⟩ := significant_lead some
      have all : ∀ d ∈ c :: cs, d.isDigit = true := by
        rw [← digits]
        exact fun _ => isDigit_of_mem_significant
      rw [digits]
      by_cases near : floatLayout.positionalFrom ≤ (Layout.significant d).2 ∧
          (Layout.significant d).2 < floatLayout.positionalBelow
      · rw [if_pos near]
        exact exists_readNumber_positional all (fun first => lead (Option.some.inj first)) nofun
          near.2 x.negative
      · rw [if_neg near]
        refine exists_readNumber_scientific all (fun taken unread shape up => ?_) x.negative
        subst shape
        exact (first_digits_le digits up).trans (above.trans small)

/-- A value that is a double. -/
def float? : Json → Option Binary64
  | .float x => some x
  | _ => none

theorem float?_eq_some {v : Json} {x : Binary64} : v.float? = some x ↔ v = .float x := by
  cases v <;> simp [float?]

/-- The texts of the two greatest doubles. -/
theorem settle_greatest : ∀ m ∈ [2 ^ 53 - 2, 2 ^ 53 - 1], ∀ negative,
    ((Json.float ⟨negative, m, Binary64.maxExponent⟩).settle.bind float?).isSome = true := by
  decide +kernel

/-- **What is written of a double is read as a double.** -/
theorem exists_settle_float {x : Binary64} (finite : x.Finite) :
    ∃ y, (Json.float x).settle = some (.float y) := by
  by_cases small : x.exponent = Binary64.maxExponent → x.mantissa ≤ 2 ^ 53 - 3
  · obtain ⟨y, read⟩ := exists_readNumber_render (finite.le_reach small)
    refine ⟨y, ?_⟩
    rw [settle, settleNumber_eq_some, encode_eq_ofChars]
    exact read
  · obtain ⟨greatest, great⟩ := Classical.not_imp.1 small
    have below := finite.mantissa
    have one_of_two : x.mantissa ∈ [2 ^ 53 - 2, 2 ^ 53 - 1] := by
      simp only [List.mem_cons, List.not_mem_nil, or_false]
      omega
    obtain ⟨negative, m, e⟩ := x
    obtain rfl : e = Binary64.maxExponent := greatest
    obtain ⟨y, read⟩ := Option.isSome_iff_exists.1 (settle_greatest m one_of_two negative)
    obtain ⟨v, settled, double⟩ := Option.bind_eq_some_iff.1 read
    exact ⟨y, settled.trans (congrArg some (float?_eq_some.1 double))⟩

end Supervision.Json
