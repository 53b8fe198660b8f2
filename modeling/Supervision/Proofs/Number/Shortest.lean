import Supervision.Number.Shortest
import Supervision.Proofs.Number.Rounding

/-!
# Where the shortest decimal lies

The shortest decimal of a double is no further above it than half a unit of its last place, and not
zero; what is written when there is none is zero. That there always is one is not needed here.
-/

namespace Supervision.Number

namespace Decimal

/-- The value of a decimal. -/
def value (d : Decimal) : ℚ :=
  d.digits * 10 ^ d.exponent

section Comparison

variable {a : Nat} {p : Int} {d : Decimal}

theorem le_cross {A B : Nat} {α β half : ℚ} (pos : 0 < half) (left : (A : ℚ) = α * half)
    (right : (B : ℚ) = β * half) : A ≤ B ↔ α ≤ β := by
  rw [← Nat.cast_le (α := ℚ), left, right, mul_le_mul_iff_left₀ pos]

variable (p d) in
theorem halves_pos : (0 : ℚ) < twoTo (-p).toNat * tenTo (-d.exponent).toNat := by
  exact_mod_cast Nat.mul_pos (Nat.two_pow_pos _) (Nat.pow_pos (by decide))

variable (a p d) in
theorem binary_halves : ((a * twoTo p.toNat * tenTo (-d.exponent).toNat : Nat) : ℚ) =
    a * 2 ^ p * (twoTo (-p).toNat * tenTo (-d.exponent).toNat) := by
  push_cast
  rw [twoTo_toNat]
  ring

variable (p d) in
theorem decimal_halves : ((d.digits * tenTo d.exponent.toNat * twoTo (-p).toNat : Nat) : ℚ) =
    d.value * (twoTo (-p).toNat * tenTo (-d.exponent).toNat) := by
  push_cast
  rw [tenTo_toNat, value]
  ring

theorem binaryLeDecimal_iff :
    binaryLeDecimal a p d.digits d.exponent = true ↔ a * 2 ^ p ≤ d.value := by
  rw [binaryLeDecimal, decide_eq_true_iff]
  exact le_cross (halves_pos p d) (binary_halves a p d) (decimal_halves p d)

theorem decimalLeBinary_iff :
    decimalLeBinary d.digits d.exponent a p = true ↔ d.value ≤ a * 2 ^ p := by
  rw [decimalLeBinary, decide_eq_true_iff]
  exact le_cross (halves_pos p d) (decimal_halves p d) (binary_halves a p d)

end Comparison

variable {x : Binary64} {d : Decimal}

/-- What reads back as a double is not zero, and no more than half a unit above it. -/
theorem bounds_of_contains (nonzero : x.mantissa ≠ 0)
    (inside : (Interval.of x).contains d = true) :
    d.digits ≠ 0 ∧ d.value ≤ (x.mantissa + 1 / 2) * 2 ^ x.exponent := by
  have low : (0 : ℚ) < (Interval.of x).low * 2 ^ (Interval.of x).exponent := by
    refine mul_pos (Nat.cast_pos.2 ?_) (two_zpow_pos _)
    simp only [Interval.of]
    split <;> omega
  have high : ((Interval.of x).high : ℚ) * 2 ^ (Interval.of x).exponent =
      (x.mantissa + 1 / 2) * 2 ^ x.exponent := by
    have unit : (2 : ℚ) ^ x.exponent = 2 ^ (x.exponent - 2) * 4 := by
      have sum := two_zpow_add (x.exponent - 2) 2
      rw [sub_add_cancel] at sum
      rw [sum, zpow_ofNat]
      norm_num
    simp only [Interval.of]
    push_cast
    rw [unit]
    ring
  have above : 0 < d.value ∧ d.value ≤ (x.mantissa + 1 / 2) * 2 ^ x.exponent := by
    unfold Interval.contains at inside
    split at inside
    · rw [Bool.and_eq_true, binaryLeDecimal_iff, decimalLeBinary_iff] at inside
      exact ⟨low.trans_le inside.1, inside.2.trans_eq high⟩
    · rw [Bool.and_eq_true, Bool.not_eq_true', Bool.not_eq_true', ← Bool.not_eq_true,
        ← Bool.not_eq_true, decimalLeBinary_iff, binaryLeDecimal_iff] at inside
      exact ⟨low.trans (not_le.1 inside.1), (not_le.1 inside.2).le.trans_eq high⟩
  refine ⟨fun none => ?_, above.2⟩
  have zero : d.value = 0 := by rw [value, none, Nat.cast_zero, zero_mul]
  exact above.1.ne' zero

theorem contains_of_withDigits? {i : Interval} {k : Int} {n : Nat}
    (found : withDigits? x i k n = some d) : i.contains d = true := by
  simp only [withDigits?] at found
  split at found
  · next lower upper =>
    cases found
    split
    · exact upper
    · exact lower
  · next lower _ =>
    cases found
    exact lower
  · next _ upper =>
    cases found
    exact upper
  · cases found

/-- The shortest decimal reads back, or is zero for want of one. -/
theorem shortest_cases (x : Binary64) :
    shortest x = ⟨0, 0⟩ ∨ (Interval.of x).contains (shortest x) = true := by
  simp only [shortest]
  split
  · next d found =>
    obtain ⟨n, -, found⟩ := List.exists_of_findSome?_eq_some found
    exact .inr (contains_of_withDigits? found)
  · exact .inl rfl

end Decimal

end Supervision.Number
