import Mathlib.Algebra.Order.Field.Power
import Mathlib.Data.Rat.Cast.Order
import Mathlib.Tactic.FieldSimp
import Mathlib.Tactic.GCongr
import Mathlib.Tactic.Linarith
import Mathlib.Tactic.LinearCombination
import Mathlib.Tactic.NormNum
import Mathlib.Tactic.Positivity
import Mathlib.Tactic.Ring
import Supervision.Number.Binary64

/-!
# How far rounding goes

The magnitude of a double as a rational number, and what `ofRatio` makes of a quotient: within half
a unit of the last place (`Rounds`), never beyond a power of two that the quotient does not pass,
and none only from half a unit above the greatest double on.
-/

namespace Supervision.Number

variable {num den : Nat} {e k : Int}

/-! ## Powers -/

theorem twoTo_eq (n : Nat) : twoTo n = 2 ^ n :=
  rfl

theorem tenTo_eq (n : Nat) : tenTo n = 10 ^ n :=
  rfl

theorem two_zpow_pos (e : Int) : (0 : ℚ) < 2 ^ e :=
  zpow_pos (by norm_num) e

theorem two_zpow_add (e k : Int) : (2 : ℚ) ^ (e + k) = 2 ^ e * 2 ^ k :=
  zpow_add₀ (by norm_num) e k

theorem two_zpow_le : (2 : ℚ) ^ e ≤ 2 ^ k ↔ e ≤ k :=
  zpow_le_zpow_iff_right₀ (by norm_num)

theorem two_zpow_lt : (2 : ℚ) ^ e < 2 ^ k ↔ e < k :=
  zpow_lt_zpow_iff_right₀ (by norm_num)

theorem tenTo_cast (n : Nat) : (tenTo n : ℚ) = 10 ^ (n : Int) := by
  rw [tenTo_eq, zpow_natCast, Nat.cast_pow, Nat.cast_ofNat]

theorem twoTo_cast (n : Nat) : (twoTo n : ℚ) = 2 ^ (n : Int) := by
  rw [twoTo_eq, zpow_natCast, Nat.cast_pow, Nat.cast_ofNat]

/-- The two halves in which a power is kept in natural numbers. -/
theorem twoTo_toNat (e : Int) : (twoTo e.toNat : ℚ) = 2 ^ e * twoTo (-e).toNat := by
  rw [twoTo_cast, twoTo_cast, ← two_zpow_add]
  congr 1
  omega

theorem tenTo_toNat (e : Int) : (tenTo e.toNat : ℚ) = 10 ^ e * tenTo (-e).toNat := by
  rw [tenTo_cast, tenTo_cast, ← zpow_add₀ (by norm_num)]
  congr 1
  omega

/-! ## Quotients -/

/-- Rounding goes half the way at most. -/
theorem roundDiv_half (num : Nat) (pos : 0 < den) :
    2 * num ≤ 2 * (roundDiv num den * den) + den ∧
      2 * (roundDiv num den * den) ≤ 2 * num + den := by
  have whole : num / den * den + num % den = num := Nat.div_add_mod' num den
  have below : num % den < den := Nat.mod_lt num pos
  simp only [roundDiv]
  split
  · rw [Nat.add_mul, Nat.one_mul]
    omega
  · omega

theorem roundDiv_near (num : Nat) (pos : 0 < den) :
    |(roundDiv num den : ℚ) - num / den| ≤ 1 / 2 := by
  obtain ⟨low, high⟩ := roundDiv_half num pos
  have positive : (0 : ℚ) < den := by exact_mod_cast pos
  have low : 2 * (num : ℚ) ≤ 2 * (roundDiv num den * den) + den := by exact_mod_cast low
  have high : 2 * (roundDiv num den * den : ℚ) ≤ 2 * num + den := by exact_mod_cast high
  have above : (num : ℚ) / den ≤ roundDiv num den + 1 / 2 := by
    rw [div_le_iff₀ positive]
    linarith
  have below : (roundDiv num den : ℚ) - 1 / 2 ≤ num / den := by
    rw [le_div_iff₀ positive]
    linarith
  rw [abs_le]
  constructor <;> linarith

theorem overPowerOfTwo_pos (num : Nat) (pos : 0 < den) (e : Int) :
    0 < (Binary64.overPowerOfTwo num den e).2 := by
  unfold Binary64.overPowerOfTwo
  split
  · exact Nat.mul_pos pos (Nat.two_pow_pos _)
  · exact pos

/-- A quotient over a power of two, times that power. -/
theorem overPowerOfTwo_mul (num : Nat) (pos : 0 < den) (e : Int) :
    ((Binary64.overPowerOfTwo num den e).1 : ℚ) * 2 ^ e =
      num / den * (Binary64.overPowerOfTwo num den e).2 := by
  have positive : (0 : ℚ) < den := by exact_mod_cast pos
  have power := twoTo_toNat e
  unfold Binary64.overPowerOfTwo
  split
  · next up =>
    have none : (-e).toNat = 0 := by omega
    rw [none, twoTo_eq 0] at power
    push_cast at power ⊢
    rw [power]
    field_simp
  · next down =>
    have none : e.toNat = 0 := by omega
    rw [none, twoTo_eq 0] at power
    push_cast at power ⊢
    field_simp
    linear_combination (-(num : ℚ)) * power

/-- The two powers of two between which a quotient lies. -/
theorem between_powers (part : 0 < num) (pos : 0 < den) :
    (2 : ℚ) ^ ((num.log2 : Int) - den.log2 - 1) ≤ num / den ∧
      (num : ℚ) / den < 2 ^ ((num.log2 : Int) - den.log2 + 1) := by
  have positive : (0 : ℚ) < den := by exact_mod_cast pos
  have atLeast {n : Nat} (part : 0 < n) : (2 : ℚ) ^ (n.log2 : Int) ≤ n := by
    rw [zpow_natCast]
    exact_mod_cast Nat.log2_self_le part.ne'
  have less (n : Nat) : (n : ℚ) < 2 ^ ((n.log2 : Int) + 1) := by
    rw [two_zpow_add, zpow_natCast, zpow_one, ← pow_succ]
    exact_mod_cast Nat.lt_log2_self
  constructor
  · rw [le_div_iff₀ positive]
    calc (2 : ℚ) ^ ((num.log2 : Int) - den.log2 - 1) * den
      _ ≤ 2 ^ ((num.log2 : Int) - den.log2 - 1) * 2 ^ ((den.log2 : Int) + 1) :=
        mul_le_mul_of_nonneg_left (less den).le (two_zpow_pos _).le
      _ = 2 ^ (num.log2 : Int) := by rw [← two_zpow_add]; congr 1; omega
      _ ≤ num := atLeast part
  · rw [div_lt_iff₀ positive]
    calc (num : ℚ)
      _ < 2 ^ ((num.log2 : Int) + 1) := less num
      _ = 2 ^ ((num.log2 : Int) - den.log2 + 1) * 2 ^ (den.log2 : Int) := by
        rw [← two_zpow_add]; congr 1; omega
      _ ≤ 2 ^ ((num.log2 : Int) - den.log2 + 1) * den :=
        mul_le_mul_of_nonneg_left (atLeast pos) (two_zpow_pos _).le

namespace Binary64

/-- At this exponent a quotient has 53 bits, or fewer if the exponent is the least. -/
theorem exponentFor_bounds (part : 0 < num) (pos : 0 < den) :
    (num : ℚ) / den < 2 ^ (53 + exponentFor num den) ∧ minExponent ≤ exponentFor num den ∧
      (minExponent < exponentFor num den → (2 : ℚ) ^ (52 + exponentFor num den) ≤ num / den) := by
  obtain ⟨low, high⟩ := between_powers part pos
  have raised {e : Int} (below : (num : ℚ) / den < 2 ^ (53 + e))
      (full : (2 : ℚ) ^ (52 + e) ≤ num / den) :
      (num : ℚ) / den < 2 ^ (53 + max e minExponent) ∧ minExponent ≤ max e minExponent ∧
        (minExponent < max e minExponent → (2 : ℚ) ^ (52 + max e minExponent) ≤ num / den) := by
    refine ⟨below.trans_le (two_zpow_le.2 (by omega)), by omega, fun more => ?_⟩
    rwa [max_eq_left (by omega)]
  simp only [exponentFor]
  generalize estimated : (num.log2 : Int) - den.log2 - 52 = estimate
  have scaled := overPowerOfTwo_mul num pos estimate
  have positive := overPowerOfTwo_pos num pos estimate
  generalize overPowerOfTwo num den estimate = n at scaled positive
  have few : n.1 / n.2 < twoTo 52 ↔ (num : ℚ) / den < 2 ^ (52 + estimate) := by
    have cast : (0 : ℚ) < n.2 := by exact_mod_cast positive
    rw [Nat.div_lt_iff_lt_mul positive, twoTo_eq, ← Nat.cast_lt (α := ℚ),
      ← mul_lt_mul_iff_left₀ (two_zpow_pos estimate), scaled, two_zpow_add]
    push_cast
    rw [mul_right_comm, mul_lt_mul_iff_left₀ cast]
  split
  · next less =>
    refine raised ((few.1 less).trans_le (two_zpow_le.2 (by omega))) (le_trans ?_ low)
    exact two_zpow_le.2 (by omega)
  · next more =>
    refine raised (high.trans_le (two_zpow_le.2 (by omega))) ?_
    exact not_lt.1 fun less => more (few.2 less)

/-- What `m * 2 ^ e` has to do with the number `r` that was rounded to it. -/
structure Rounds (r : ℚ) (m : Nat) (e : Int) : Prop where
  near : |m * 2 ^ e - r| ≤ 2 ^ e / 2
  below : r < 2 ^ (53 + e)
  least : minExponent ≤ e
  full : minExponent < e → 2 ^ (52 + e) ≤ r

theorem rounds_roundDiv (part : 0 < num) (pos : 0 < den) :
    Rounds (num / den)
      (roundDiv (overPowerOfTwo num den (exponentFor num den)).1
        (overPowerOfTwo num den (exponentFor num den)).2) (exponentFor num den) := by
  obtain ⟨below, least, full⟩ := exponentFor_bounds part pos
  refine ⟨?_, below, least, full⟩
  generalize exponentFor num den = e
  have scaled := overPowerOfTwo_mul num pos e
  have positive := overPowerOfTwo_pos num pos e
  generalize overPowerOfTwo num den e = n at scaled positive
  have cast : (n.2 : ℚ) ≠ 0 := by exact_mod_cast positive.ne'
  have quotient : (num : ℚ) / den = n.1 / n.2 * 2 ^ e := by
    rw [div_mul_eq_mul_div, eq_div_iff cast, scaled]
  have unit := two_zpow_pos e
  rw [quotient, ← sub_mul, abs_mul, abs_of_pos unit]
  calc |(roundDiv n.1 n.2 : ℚ) - n.1 / n.2| * 2 ^ e
    _ ≤ 1 / 2 * 2 ^ e := mul_le_mul_of_nonneg_right (roundDiv_near n.1 positive) unit.le
    _ = 2 ^ e / 2 := by ring

variable {r : ℚ} {m n : Nat}

/-- Rounding does not pass a whole number of units upwards. -/
theorem Rounds.le_of_le (h : Rounds r m e) (most : r ≤ n * 2 ^ e) : m ≤ n := by
  have near := (abs_le.1 h.near).2
  have power := two_zpow_pos e
  have less : (m : ℚ) * 2 ^ e < (n + 1 : Nat) * 2 ^ e := by
    push_cast
    linarith
  exact Nat.lt_succ_iff.1 (Nat.cast_lt.1 (lt_of_mul_lt_mul_right less power.le))

/-- Rounding does not pass a whole number of units downwards. -/
theorem Rounds.le_of_ge (h : Rounds r m e) (least : n * 2 ^ e ≤ r) : n ≤ m := by
  have near := (abs_le.1 h.near).1
  have power := two_zpow_pos e
  have less : (n : ℚ) * 2 ^ e < (m + 1 : Nat) * 2 ^ e := by
    push_cast
    linarith
  exact Nat.lt_succ_iff.1 (Nat.cast_lt.1 (lt_of_mul_lt_mul_right less power.le))

/-- A power of two is a whole number of units if the unit is no greater. -/
theorem two_zpow_units (h : e ≤ k) : (2 : ℚ) ^ k = (2 ^ (k - e).toNat : Nat) * 2 ^ e := by
  push_cast
  rw [← zpow_natCast, ← two_zpow_add]
  congr 1
  omega

/-- Rounding does not pass a power of two upwards. -/
theorem Rounds.le_pow (h : Rounds r m e) (most : r ≤ 2 ^ k) (normal : minExponent ≤ k) :
    m * 2 ^ e ≤ (2 : ℚ) ^ k := by
  have unit : e ≤ k := by
    rcases h.least.eq_or_lt with same | more
    · omega
    · have := two_zpow_le.1 ((h.full more).trans most)
      omega
  rw [two_zpow_units unit] at most ⊢
  exact mul_le_mul_of_nonneg_right (Nat.cast_le.2 (h.le_of_le most)) (two_zpow_pos e).le

/-- Rounding does not pass a power of two downwards. -/
theorem Rounds.pow_le (h : Rounds r m e) (least : 2 ^ k ≤ r) (normal : minExponent ≤ k) :
    (2 : ℚ) ^ k ≤ m * 2 ^ e := by
  have whole {j : Int} (unit : e ≤ j) (least : (2 : ℚ) ^ j ≤ r) : (2 : ℚ) ^ j ≤ m * 2 ^ e := by
    rw [two_zpow_units unit] at least ⊢
    exact mul_le_mul_of_nonneg_right (Nat.cast_le.2 (h.le_of_ge least)) (two_zpow_pos e).le
  by_cases unit : e ≤ k
  · exact whole unit least
  · have full := whole (j := 52 + e) (by omega) (h.full (by omega))
    exact (two_zpow_le.2 (by omega)).trans full

/-- How much more a number from one on may become by rounding. -/
theorem Rounds.le_mul (h : Rounds r m e) (one : 1 ≤ r) : m * 2 ^ e ≤ r * (1 + 1 / 2 ^ 53) := by
  have normal : minExponent < e := by
    have more : (2 : ℚ) ^ (0 : Int) < 2 ^ (53 + e) := one.trans_lt h.below
    have := two_zpow_lt.1 more
    simp only [minExponent]
    omega
  have full := h.full normal
  have near := (abs_le.1 h.near).2
  have unit : (2 : ℚ) ^ (52 + e) = 2 ^ 52 * 2 ^ e := two_zpow_add 52 e
  rw [unit] at full
  linarith

/-! ## Doubles -/

/-- The magnitude of a double. -/
def magnitude (x : Binary64) : ℚ :=
  x.mantissa * 2 ^ x.exponent

/-- From here on the nearest double would be one above the greatest. -/
def limit : ℚ :=
  (2 ^ 53 - 1 / 2) * 2 ^ maxExponent

/-- The limit in natural numbers. -/
theorem lt_limit {n : Nat} (below : n < (twoTo 54 - 1) * twoTo 970) : (n : ℚ) < limit := by
  have unit : (2 : ℚ) ^ maxExponent = 2 * twoTo 970 := by
    rw [twoTo_cast]
    exact two_zpow_add 1 970
  have cast : (n : ℚ) < ((twoTo 54 - 1) * twoTo 970 : Nat) := Nat.cast_lt.2 below
  have top : ((twoTo 54 - 1 : Nat) : ℚ) = 2 ^ 54 - 1 := by norm_num [twoTo_eq]
  rw [Nat.cast_mul, top] at cast
  rw [limit, unit]
  linarith

variable {negative : Bool} {x y : Binary64}

/-- A mantissa of 54 bits carries over into the exponent. -/
def carry (m : Nat) (e : Int) : Nat × Int :=
  if m = twoTo 53 then (twoTo 52, e + 1) else (m, e)

theorem carry_value (m : Nat) (e : Int) : ((carry m e).1 : ℚ) * 2 ^ (carry m e).2 = m * 2 ^ e := by
  unfold carry
  split
  · next carried =>
    rw [carried, two_zpow_add, twoTo_eq, twoTo_eq]
    push_cast
    ring
  · rfl

/-- What goes beyond the greatest exponent was rounded from beyond the limit. -/
theorem Rounds.limit_le (h : Rounds r m e) (great : maxExponent < (carry m e).2) : limit ≤ r := by
  have power := two_zpow_pos maxExponent
  have beyond (more : maxExponent < e) : limit ≤ r := by
    have full := h.full (lt_trans (by decide) more)
    calc limit
      _ ≤ 2 ^ (53 : Int) * 2 ^ maxExponent := by
        rw [limit, zpow_ofNat]
        linarith
      _ = 2 ^ (53 + maxExponent) := (two_zpow_add 53 maxExponent).symm
      _ ≤ 2 ^ (52 + e) := two_zpow_le.2 (by omega)
      _ ≤ r := full
  unfold carry at great
  split at great
  · next carried =>
    rcases (Int.lt_add_one_iff.1 great).eq_or_lt with rfl | more
    · have near := (abs_le.1 h.near).2
      rw [carried, twoTo_eq] at near
      push_cast at near
      rw [limit]
      linarith
    · exact beyond more
  · exact beyond great

theorem ofRatio_eq (part : 0 < num) (pos : 0 < den) (negative : Bool) :
    ∃ m e, Rounds (num / den) m e ∧ ofRatio negative num den =
      if maxExponent < (carry m e).2 then none
      else some ⟨negative, (carry m e).1, (carry m e).2⟩ := by
  refine ⟨_, _, rounds_roundDiv part pos, ?_⟩
  simp only [ofRatio, if_neg part.ne']
  rfl

/-- A quotient below the limit has a nearest double. -/
theorem exists_ofRatio (pos : 0 < den) (below : (num : ℚ) / den < limit) (negative : Bool) :
    ∃ x, ofRatio negative num den = some x := by
  rcases num.eq_zero_or_pos with rfl | part
  · exact ⟨zero negative, rfl⟩
  · obtain ⟨m, e, rounds, read⟩ := ofRatio_eq part pos negative
    refine ⟨_, read.trans (if_neg fun great => ?_)⟩
    exact absurd (rounds.limit_le great) (not_le.2 below)

/-- The nearest double was rounded, unless it is zero. -/
theorem magnitude_of_ofRatio (part : 0 < num) (pos : 0 < den)
    (read : ofRatio negative num den = some x) :
    ∃ m e, Rounds (num / den) m e ∧ x.magnitude = m * 2 ^ e := by
  obtain ⟨m, e, rounds, same⟩ := ofRatio_eq part pos negative
  rw [same] at read
  split at read
  · cases read
  · cases read
    exact ⟨m, e, rounds, carry_value m e⟩

/-- A double as the format of 64 bits has them: a mantissa of 53 bits, and no greater exponent. -/
structure Finite (x : Binary64) : Prop where
  mantissa : x.mantissa < 2 ^ 53
  exponent : x.exponent ≤ maxExponent

theorem magnitude_zero (negative : Bool) : (zero negative).magnitude = 0 := by
  simp [magnitude, zero]

/-- The nearest double is not beyond a power of two. -/
theorem magnitude_le_pow (pos : 0 < den) (read : ofRatio negative num den = some x)
    (most : (num : ℚ) / den ≤ 2 ^ k) (normal : minExponent ≤ k) : x.magnitude ≤ 2 ^ k := by
  rcases num.eq_zero_or_pos with rfl | part
  · cases read
    rw [magnitude_zero]
    exact (two_zpow_pos k).le
  · obtain ⟨m, e, rounds, same⟩ := magnitude_of_ofRatio part pos read
    exact same.trans_le (rounds.le_pow most normal)

/-! ## Products, quotients and powers of ten -/

theorem toRatio_pos (x : Binary64) : 0 < x.toRatio.2 := by
  unfold toRatio
  split
  · exact Nat.one_pos
  · exact Nat.two_pow_pos _

theorem toRatio_eq (x : Binary64) : (x.toRatio.1 : ℚ) / x.toRatio.2 = x.magnitude := by
  have power := twoTo_toNat x.exponent
  unfold toRatio
  split
  · have none : (-x.exponent).toNat = 0 := by omega
    rw [none, twoTo_eq 0] at power
    push_cast at power ⊢
    rw [power, magnitude]
    ring
  · have none : x.exponent.toNat = 0 := by omega
    have positive : (0 : ℚ) < twoTo (-x.exponent).toNat := by
      exact_mod_cast Nat.two_pow_pos _
    rw [none, twoTo_eq 0] at power
    push_cast at power ⊢
    rw [div_eq_iff positive.ne', magnitude, mul_assoc, ← power]
    ring

theorem exists_mul (below : x.magnitude * y.magnitude < limit) : ∃ z, x.mul y = some z := by
  have product : ((x.toRatio.1 * y.toRatio.1 : Nat) : ℚ) / (x.toRatio.2 * y.toRatio.2 : Nat) =
      x.magnitude * y.magnitude := by
    push_cast
    rw [← toRatio_eq x, ← toRatio_eq y, mul_div_mul_comm]
  rw [← product] at below
  exact exists_ofRatio (Nat.mul_pos x.toRatio_pos y.toRatio_pos) below _

/-- A quotient by a number from one on is not beyond a power of two that the dividend is not
beyond. -/
theorem exists_div (one : 1 ≤ y.magnitude) (most : x.magnitude ≤ 2 ^ k) (normal : minExponent ≤ k)
    (small : (2 : ℚ) ^ k < limit) : ∃ z, x.div y = some z ∧ z.magnitude ≤ 2 ^ k := by
  have part : 0 < y.toRatio.1 := by
    refine Nat.pos_of_ne_zero fun none => ?_
    rw [← toRatio_eq, none, Nat.cast_zero, zero_div] at one
    linarith
  have pos : 0 < x.toRatio.2 * y.toRatio.1 := Nat.mul_pos x.toRatio_pos part
  have quotient : ((x.toRatio.1 * y.toRatio.2 : Nat) : ℚ) / (x.toRatio.2 * y.toRatio.1 : Nat) =
      x.magnitude / y.magnitude := by
    push_cast
    rw [← toRatio_eq x, ← toRatio_eq y, div_div_div_eq]
  have smaller : x.magnitude / y.magnitude ≤ 2 ^ k := by
    refine (div_le_of_le_mul₀ (by linarith) (two_zpow_pos k).le ?_)
    exact most.trans (le_mul_of_one_le_right (two_zpow_pos k).le one)
  rw [← quotient] at smaller
  obtain ⟨z, read⟩ := exists_ofRatio pos (smaller.trans_lt small) (x.negative != y.negative)
  exact ⟨z, read, magnitude_le_pow pos read smaller normal⟩

/-- A whole number that is rounded stays from one on and gains little. -/
theorem magnitude_of_whole (part : 0 < num) (read : ofRatio negative num 1 = some x) :
    1 ≤ x.magnitude ∧ x.magnitude ≤ num * (1 + 1 / 2 ^ 53) := by
  have whole : (num : ℚ) / (1 : Nat) = num := by simp
  have one : (1 : ℚ) ≤ num := by exact_mod_cast part
  obtain ⟨m, e, rounds, same⟩ := magnitude_of_ofRatio part Nat.one_pos read
  rw [whole] at rounds
  rw [same]
  refine ⟨?_, rounds.le_mul one⟩
  have kept := rounds.pow_le (k := 0) (by simpa using one) (by decide)
  simpa using kept

theorem exists_powerOfTen {n : Nat} (most : n ≤ maxPowerOfTen) :
    ∃ p, powerOfTen n = some p ∧ 1 ≤ p.magnitude ∧ p.magnitude ≤ 10 ^ n * (1 + 1 / 2 ^ 53) := by
  have small : ((tenTo n : Nat) : ℚ) / (1 : Nat) < limit := by
    calc ((tenTo n : Nat) : ℚ) / (1 : Nat)
      _ = (10 ^ n : Nat) := by rw [tenTo_eq, Nat.cast_one, div_one]
      _ ≤ (10 ^ maxPowerOfTen : Nat) := Nat.cast_le.2 (Nat.pow_le_pow_right (by decide) most)
      _ < limit := lt_limit (by decide +kernel)
  obtain ⟨p, read⟩ := exists_ofRatio Nat.one_pos small false
  have bounds := magnitude_of_whole (Nat.pos_of_ne_zero (by simp [tenTo_eq])) read
  rw [tenTo_eq] at bounds
  push_cast at bounds
  exact ⟨p, read, bounds⟩

theorem sixty_four_lt_limit : (2 : ℚ) ^ (64 : Int) < limit := by
  have below : ((2 ^ 64 : Nat) : ℚ) < limit := lt_limit (by decide +kernel)
  rw [zpow_ofNat]
  exact_mod_cast below

/-- Dividing by powers of ten ends in a double. -/
theorem exists_scaleDown (most : x.magnitude ≤ 2 ^ (64 : Int)) (exponent : Int) :
    ∃ z, x.scaleDown exponent = some z := by
  induction x, exponent using scaleDown.induct with
  | case1 x exponent isZero =>
    rw [scaleDown, if_pos isZero]
    exact ⟨x, rfl⟩
  | case2 x exponent nonzero far ih =>
    obtain ⟨p, power, one, -⟩ := exists_powerOfTen (le_refl maxPowerOfTen)
    obtain ⟨y, quotient, kept⟩ := exists_div one most (by decide) sixty_four_lt_limit
    rw [scaleDown, if_neg nonzero, dif_pos far, power]
    simp only [Option.bind_eq_bind, Option.bind_some, quotient]
    exact ih y kept
  | case3 x exponent nonzero near =>
    have few : (-exponent).toNat ≤ maxPowerOfTen := by omega
    obtain ⟨p, power, one, -⟩ := exists_powerOfTen few
    obtain ⟨y, quotient, -⟩ := exists_div one most (by decide) sixty_four_lt_limit
    rw [scaleDown, if_neg nonzero, dif_neg near, power]
    exact ⟨y, quotient⟩

/-- The greatest numbers that stay below the limit when they are made from a significand and a
power of ten: three roundings may add two units of the last place and a half. -/
def reach : ℚ :=
  (2 ^ 53 - 5 / 2) * 2 ^ maxExponent

theorem reach_lt_limit : reach * (1 + 1 / 2 ^ 53) * (1 + 1 / 2 ^ 53) < limit := by
  have room : ((2 : ℚ) ^ 53 - 5 / 2) * (1 + 1 / 2 ^ 53) * (1 + 1 / 2 ^ 53) < 2 ^ 53 - 1 / 2 := by
    norm_num
  calc reach * (1 + 1 / 2 ^ 53) * (1 + 1 / 2 ^ 53)
    _ = (2 ^ 53 - 5 / 2) * (1 + 1 / 2 ^ 53) * (1 + 1 / 2 ^ 53) * 2 ^ maxExponent := by
      rw [reach]
      ring
    _ < limit := mul_lt_mul_of_pos_right room (two_zpow_pos maxExponent)

theorem le_reach {n : Nat} (fits : n < 2 ^ 64) : (n : ℚ) ≤ reach := by
  have unit : (2 : ℚ) ^ (64 : Int) ≤ 2 ^ maxExponent := two_zpow_le.2 (by decide)
  have cast : (n : ℚ) ≤ 2 ^ (64 : Int) := by
    rw [zpow_ofNat]
    exact_mod_cast fits.le
  rw [reach]
  linarith

/-- All doubles but the two greatest are within reach, with half a unit to spare. -/
theorem Finite.le_reach (finite : x.Finite)
    (other : x.exponent = maxExponent → x.mantissa ≤ 2 ^ 53 - 3) :
    (x.mantissa + 1 / 2) * 2 ^ x.exponent ≤ reach := by
  have top := two_zpow_pos maxExponent
  rcases finite.exponent.eq_or_lt with greatest | less
  · have small : (x.mantissa : ℚ) ≤ 2 ^ 53 - 3 := by
      have cast : (x.mantissa : ℚ) ≤ (2 ^ 53 - 3 : Nat) := Nat.cast_le.2 (other greatest)
      norm_num at cast ⊢
      exact cast
    rw [greatest, reach]
    exact mul_le_mul_of_nonneg_right (by linarith) top.le
  · have half : (2 : ℚ) ^ x.exponent * 2 ≤ 2 ^ maxExponent := by
      rw [← zpow_add_one₀ (by norm_num), two_zpow_le]
      omega
    have small : (x.mantissa : ℚ) < 2 ^ 53 := by exact_mod_cast finite.mantissa
    have unit := two_zpow_pos x.exponent
    calc ((x.mantissa : ℚ) + 1 / 2) * 2 ^ x.exponent
      _ ≤ (2 ^ 53 + 1 / 2) * 2 ^ x.exponent :=
        mul_le_mul_of_nonneg_right (by linarith) unit.le
      _ ≤ (2 ^ 53 - 5 / 2) * (2 ^ x.exponent * 2) := by linarith
      _ ≤ reach := mul_le_mul_of_nonneg_left half (by norm_num)

theorem reach_lt_tenTo : reach < (10 ^ (maxPowerOfTen + 1) : Nat) := by
  have power := two_zpow_pos maxExponent
  calc reach
    _ ≤ 2 ^ (53 : Int) * 2 ^ maxExponent := by
      rw [reach, zpow_ofNat]
      linarith
    _ = (twoTo 1024 : Nat) := by
      rw [twoTo_cast]
      exact (two_zpow_add 53 maxExponent).symm
    _ < (10 ^ (maxPowerOfTen + 1) : Nat) := Nat.cast_lt.2 (by decide +kernel)

/-- What is within reach is made with a power of ten that is a double. -/
theorem le_maxPowerOfTen {significand n : Nat} (part : 0 < significand)
    (within : (significand : ℚ) * 10 ^ n ≤ reach) : n ≤ maxPowerOfTen := by
  by_contra many
  have least : (1 : ℚ) ≤ significand := by exact_mod_cast part
  have scaled : ((10 ^ (maxPowerOfTen + 1) : Nat) : ℚ) ≤ 10 ^ n := by
    rw [Nat.cast_pow, Nat.cast_ofNat]
    exact pow_le_pow_right₀ (by norm_num) (by omega)
  have more := le_mul_of_one_le_left (by positivity : (0 : ℚ) ≤ 10 ^ n) least
  exact absurd reach_lt_tenTo (not_lt.2 (scaled.trans (more.trans within)))

/-- A significand times a power of ten is a double, each of the two rounded before, if their exact
product is within reach. -/
theorem exists_product {significand n : Nat} (part : 0 < significand)
    (read : ofRatio negative significand 1 = some x)
    (within : (significand : ℚ) * 10 ^ n ≤ reach) :
    ∃ p, powerOfTen n = some p ∧ ∃ z, x.mul p = some z := by
  obtain ⟨p, power, unit, scale⟩ := exists_powerOfTen (le_maxPowerOfTen part within)
  obtain ⟨-, gained⟩ := magnitude_of_whole part read
  refine ⟨p, power, exists_mul (lt_of_le_of_lt ?_ reach_lt_limit)⟩
  calc x.magnitude * p.magnitude
    _ ≤ significand * (1 + 1 / 2 ^ 53) * (10 ^ n * (1 + 1 / 2 ^ 53)) :=
      mul_le_mul gained scale (by linarith) (by positivity)
    _ = significand * 10 ^ n * (1 + 1 / 2 ^ 53) * (1 + 1 / 2 ^ 53) := by ring
    _ ≤ reach * (1 + 1 / 2 ^ 53) * (1 + 1 / 2 ^ 53) := by gcongr

/-- A significand of 64 bits and an exponent make a double if they stay within reach. -/
theorem exists_ofDecimal {significand : Nat} {exponent : Int} (fits : significand < 2 ^ 64)
    (within : 0 ≤ exponent → (significand : ℚ) * 10 ^ exponent.toNat ≤ reach) (negative : Bool) :
    ∃ x, ofDecimal negative significand exponent = some x := by
  have whole : (significand : ℚ) / (1 : Nat) = significand := by simp
  have most : (significand : ℚ) / (1 : Nat) ≤ 2 ^ (64 : Int) := by
    rw [whole, zpow_ofNat]
    exact_mod_cast fits.le
  obtain ⟨x, read⟩ := exists_ofRatio Nat.one_pos (most.trans_lt sixty_four_lt_limit) negative
  have kept := magnitude_le_pow Nat.one_pos read most (by decide)
  simp only [ofDecimal, read, Option.bind_eq_bind, Option.bind_some]
  split
  · exact ⟨x, rfl⟩
  · next nonzero =>
    split
    · exact exists_scaleDown kept exponent
    · next up =>
      have within := within (by omega)
      have part : 0 < significand := by
        refine Nat.pos_of_ne_zero fun none => ?_
        subst none
        cases read
        exact nonzero rfl
      have few := le_maxPowerOfTen part within
      obtain ⟨p, power, z, product⟩ := exists_product part read within
      rw [if_neg (by omega), power]
      exact ⟨z, product⟩

end Binary64

end Supervision.Number
