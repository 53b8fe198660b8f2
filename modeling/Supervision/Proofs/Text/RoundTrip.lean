import Supervision.Text.Character
import Supervision.Text.Numeral
import Supervision.Text.Utf8
import Mathlib.Data.UInt

/-!
# Texts are read back

Two writings and the readers that undo them. The machine that reads UTF-8 is followed through the
bytes of one character, one first byte for each length, and then through a text; it reads every text
back (`decode_encode`). A count in decimal is read back if it lies below the bound of its reader, and
trimming takes the blanks around a text and leaves the text.

Nothing is said here of bytes that are no text, nor of digits that no count is written with.
-/

namespace Supervision.Text

namespace Utf8

/-! ## One character -/

private theorem byte_toNat {n : Nat} (small : n < 256) : (UInt8.ofNat n).toNat = n :=
  UInt8.toNat_ofNat_of_lt' small

/-- A byte that is a character of its own. -/
theorem decodeFrom_one {n : Nat} (small : n < 0x80) (index : Nat) (rest : List UInt8) :
    decodeFrom .between index (UInt8.ofNat n :: rest) =
      (decodeFrom .between (index + 1) rest).map (Char.ofNat n :: ·) := by
  have value := byte_toNat (n := n) (by omega)
  have first : State.first (UInt8.ofNat n) = ([.char (Char.ofNat n)], .between) := by
    simp only [State.first, UInt8.lt_iff_toNat_lt, value, UInt8.reduceToNat]
    rw [if_pos small]
  simp only [decodeFrom, State.step, first]

/-- A byte that opens a longer character. -/
theorem decodeFrom_first {b : UInt8} {next : State} (opens : State.first b = ([], next))
    (index : Nat) (rest : List UInt8) :
    decodeFrom .between index (b :: rest) = decodeFrom next (index + 1) rest := by
  simp only [decodeFrom, State.step, opens]

/-- The first byte of a character of two. -/
theorem first_two {n : Nat} (low : 0xC2 ≤ n) (high : n < 0xE0) :
    State.first (UInt8.ofNat n) = ([], .within 0 0x80 0xBF (n - 0xC0) 1) := by
  have value := byte_toNat (n := n) (by omega)
  simp only [State.first, UInt8.lt_iff_toNat_lt, value, UInt8.reduceToNat]
  rw [if_neg (by omega), if_neg (by omega), if_pos high]

/-- The first byte of a character of three. -/
theorem first_three {n : Nat} (low : 0xE0 ≤ n) (high : n < 0xF0) :
    State.first (UInt8.ofNat n) = ([], .within 1 (if n = 0xE0 then 0xA0 else 0x80)
      (if n = 0xED then 0x9F else 0xBF) (n - 0xE0) 1) := by
  have value := byte_toNat (n := n) (by omega)
  simp only [State.first, UInt8.lt_iff_toNat_lt, ← UInt8.toNat_inj, value, UInt8.reduceToNat]
  rw [if_neg (by omega), if_neg (by omega), if_neg (by omega)]
  by_cases first : n = 0xE0
  · subst first
    rfl
  · rw [if_neg first]
    by_cases thirteenth : n = 0xED
    · subst thirteenth
      rfl
    · rw [if_neg thirteenth, if_pos high, if_neg first, if_neg thirteenth]

/-- The first byte of a character of four. -/
theorem first_four {n : Nat} (low : 0xF0 ≤ n) (high : n ≤ 0xF4) :
    State.first (UInt8.ofNat n) = ([], .within 2 (if n = 0xF0 then 0x90 else 0x80)
      (if n = 0xF4 then 0x8F else 0xBF) (n - 0xF0) 1) := by
  have value := byte_toNat (n := n) (by omega)
  simp only [State.first, UInt8.lt_iff_toNat_lt, ← UInt8.toNat_inj, value, UInt8.reduceToNat]
  rw [if_neg (by omega), if_neg (by omega), if_neg (by omega), if_neg (by omega), if_neg (by omega),
    if_neg (by omega)]
  by_cases first : n = 0xF0
  · subst first
    rfl
  · rw [if_neg first]
    by_cases last : n = 0xF4
    · subst last
      rfl
    · rw [if_pos (by omega), if_neg first, if_neg last]

section Within

variable {low high : UInt8} {bits width n : Nat} (small : n < 256)
  (fits : low.toNat ≤ n ∧ n ≤ high.toNat) (index : Nat) (rest : List UInt8)

include small fits

/-- The last byte of a longer character. -/
theorem decodeFrom_last :
    decodeFrom (.within 0 low high bits width) index (UInt8.ofNat n :: rest) =
      (decodeFrom .between (index + 1) rest).map (Char.ofNat (bits * 64 + (n - 0x80)) :: ·) := by
  have within : low ≤ UInt8.ofNat n ∧ UInt8.ofNat n ≤ high := by
    simpa only [UInt8.le_iff_toNat_le, byte_toNat small] using fits
  simp only [decodeFrom, State.step, if_pos within, byte_toNat small]

/-- A byte inside a longer character, and not the last. -/
theorem decodeFrom_next (owed : Nat) :
    decodeFrom (.within (owed + 1) low high bits width) index (UInt8.ofNat n :: rest) =
      decodeFrom (.within owed 0x80 0xBF (bits * 64 + (n - 0x80)) (width + 1)) (index + 1) rest := by
  have within : low ≤ UInt8.ofNat n ∧ UInt8.ofNat n ≤ high := by
    simpa only [UInt8.le_iff_toNat_le, byte_toNat small] using fits
  simp only [decodeFrom, State.step, if_pos within, byte_toNat small]

end Within

/-- **One character is read back**, and the reader stands between characters again. -/
theorem decodeFrom_encodeChar (c : Char) (index : Nat) (rest : List UInt8) :
    decodeFrom .between index (String.utf8EncodeChar c ++ rest) =
      (decodeFrom .between (index + (String.utf8EncodeChar c).length) rest).map (c :: ·) := by
  have range : c.toNat < 0xD800 ∨ 0xDFFF < c.toNat ∧ c.toNat < 0x110000 := c.valid
  have same : ∀ n, n = c.toNat → Char.ofNat n = c := by
    rintro n rfl
    exact Char.ofNat_toNat c
  have value : c.val.toNat = c.toNat := rfl
  unfold String.utf8EncodeChar
  simp only [value]
  split
  · rw [List.singleton_append, decodeFrom_one (by omega), same _ rfl]
    rfl
  split
  · rw [List.cons_append, List.singleton_append, decodeFrom_first (first_two (by omega) (by omega)),
      decodeFrom_last (by omega) (by simp only [UInt8.reduceToNat]; omega), same _ (by omega)]
    rfl
  split
  · rw [List.cons_append, List.cons_append, List.singleton_append,
      decodeFrom_first (first_three (by omega) (by omega)),
      decodeFrom_next (by omega) (by split <;> split <;> simp only [UInt8.reduceToNat] <;> omega),
      decodeFrom_last (by omega) (by simp only [UInt8.reduceToNat]; omega), same _ (by omega)]
    rfl
  · rw [List.cons_append, List.cons_append, List.cons_append, List.singleton_append,
      decodeFrom_first (first_four (by omega) (by omega)),
      decodeFrom_next (by omega) (by split <;> split <;> simp only [UInt8.reduceToNat] <;> omega),
      decodeFrom_next (by omega) (by simp only [UInt8.reduceToNat]; omega),
      decodeFrom_last (by omega) (by simp only [UInt8.reduceToNat]; omega), same _ (by omega)]
    rfl

/-! ## Texts -/

/-- The bytes of some characters. -/
def ofChars (cs : List Char) : List UInt8 :=
  cs.flatMap String.utf8EncodeChar

theorem decodeFrom_ofChars (cs : List Char) (index : Nat) :
    decodeFrom .between index (ofChars cs) = .ok cs := by
  induction cs generalizing index with
  | nil => rfl
  | cons c cs ih =>
    rw [ofChars, List.flatMap_cons, decodeFrom_encodeChar, ← ofChars, ih]
    rfl

/-- **What was written is read back.** -/
theorem decode_encode (s : String) : decode (encode s) = .ok s := by
  have read : decodeFrom .between 0 (encode s) = .ok s.toList := decodeFrom_ofChars s.toList 0
  simp only [decode, read, Except.map, String.ofList_toList]

@[simp] theorem ofChars_nil : ofChars [] = [] := rfl

@[simp] theorem ofChars_append (cs ds : List Char) : ofChars (cs ++ ds) = ofChars cs ++ ofChars ds :=
  List.flatMap_append

/-- A character of ASCII is one byte. -/
theorem ofChars_cons_of_ascii {c : Char} (ascii : c.toNat < 0x80) (cs : List Char) :
    ofChars (c :: cs) = UInt8.ofNat c.toNat :: ofChars cs := by
  have small : c.val.toNat ≤ 0x7F := by
    show c.toNat ≤ 0x7F
    omega
  simp only [ofChars, List.flatMap_cons, String.utf8EncodeChar, if_pos small]
  rfl

/-- Every byte of a character beyond ASCII has its highest bit set. -/
theorem high_of_mem_encodeChar {c : Char} (beyond : 0x80 ≤ c.toNat) {b : UInt8}
    (mem : b ∈ String.utf8EncodeChar c) : 0x80 ≤ b.toNat := by
  have range : c.toNat < 0x110000 := by
    have valid : c.toNat < 0xD800 ∨ 0xDFFF < c.toNat ∧ c.toNat < 0x110000 := c.valid
    omega
  have value : c.val.toNat = c.toNat := rfl
  have high : ∀ n, 0x80 ≤ n → n < 256 → 0x80 ≤ (UInt8.ofNat n).toNat := by
    intro n low small
    rw [byte_toNat small]
    exact low
  unfold String.utf8EncodeChar at mem
  simp only [value] at mem
  rw [if_neg (by omega)] at mem
  split at mem
  · rcases List.mem_pair.1 mem with rfl | rfl <;> exact high _ (by omega) (by omega)
  · split at mem
    · simp only [List.mem_cons, List.not_mem_nil, or_false] at mem
      rcases mem with rfl | rfl | rfl <;> exact high _ (by omega) (by omega)
    · simp only [List.mem_cons, List.not_mem_nil, or_false] at mem
      rcases mem with rfl | rfl | rfl | rfl <;> exact high _ (by omega) (by omega)

/-- A text without newlines has no such byte. -/
theorem newline_not_mem_ofChars {cs : List Char} (none : '\n' ∉ cs) : (0x0A : UInt8) ∉ ofChars cs := by
  intro mem
  obtain ⟨c, here, byte⟩ := List.mem_flatMap.1 mem
  by_cases ascii : c.toNat < 0x80
  · have one : String.utf8EncodeChar c = [UInt8.ofNat c.toNat] := by
      have bytes := ofChars_cons_of_ascii ascii []
      rwa [ofChars, List.flatMap_cons, List.flatMap_nil, List.append_nil] at bytes
    rw [one] at byte
    have value : c.toNat = 0x0A := by
      have number := congrArg UInt8.toNat (List.mem_singleton.1 byte)
      rw [byte_toNat (by omega)] at number
      exact number.symm
    have newline : c = '\n' := by rw [← Char.ofNat_toNat c, value]
    rw [newline] at here
    exact none here
  · have high := high_of_mem_encodeChar (by omega) byte
    exact absurd high (by decide)

end Utf8

/-! ## Blanks -/

/-- Blanks at the ends are dropped, and nothing between them. -/
theorem trimBlanks_of_solid {front cs back : List Char}
    (first : ∀ c, cs.head? = some c → isBlank c = false)
    (last : ∀ c, cs.getLast? = some c → isBlank c = false) (before : ∀ c ∈ front, isBlank c = true)
    (after : ∀ c ∈ back, isBlank c = true) : trimBlanks (front ++ cs ++ back) = cs := by
  rw [trimBlanks, List.append_assoc, List.dropWhile_append_of_pos before]
  cases cs with
  | nil =>
    have dropped : (back ++ []).dropWhile isBlank = [].dropWhile isBlank :=
      List.dropWhile_append_of_pos after
    rw [List.append_nil] at dropped
    rw [List.nil_append, dropped]
    rfl
  | cons c cs =>
    have solid := first c rfl
    rw [List.cons_append, List.dropWhile_cons_of_neg (by rw [solid]; exact Bool.false_ne_true),
      ← List.cons_append, List.reverse_append,
      List.dropWhile_append_of_pos fun d mem => after d (List.mem_reverse.1 mem)]
    have front_kept : (c :: cs).reverse.dropWhile isBlank = (c :: cs).reverse := by
      rw [← List.head?_reverse] at last
      cases shape : (c :: cs).reverse with
      | nil => rfl
      | cons d ds =>
        rw [shape] at last
        rw [List.dropWhile_cons_of_neg (by rw [last d rfl]; exact Bool.false_ne_true)]
    rw [front_kept, List.reverse_reverse]

/-! ## Counts -/

theorem range_of_isDigit {c : Char} (digit : c.isDigit = true) : 48 ≤ c.toNat ∧ c.toNat ≤ 57 := by
  simp only [Char.isDigit, Bool.and_eq_true, decide_eq_true_eq] at digit
  exact digit

theorem isBlank_of_isDigit {c : Char} (digit : c.isDigit = true) : isBlank c = false := by
  have range := range_of_isDigit digit
  simp only [isBlank, Bool.or_eq_false_iff, Bool.and_eq_false_iff, beq_eq_false_iff_ne,
    decide_eq_false_iff_not, ne_eq]
  omega

/-- Digits only make a number greater. -/
theorem le_ofDigitChars (n : Nat) (cs : List Char) : n ≤ Nat.ofDigitChars 10 cs n := by
  rw [Nat.ofDigitChars_eq_ofDigitChars_zero]
  have grows : n ≤ 10 ^ cs.length * n := Nat.le_mul_of_pos_left n (Nat.pow_pos (by omega))
  omega

theorem digitValue?_of_isDigit {c : Char} (digit : c.isDigit = true) :
    digitValue? c = some (c.toNat - '0'.toNat) := by
  have range : '0' ≤ c ∧ c ≤ '9' := range_of_isDigit digit
  rw [digitValue?, if_pos range]

/-- Digits are read to the number they denote, if that is below the bound. -/
theorem readDigits_of_lt {limit : Nat} {cs : List Char} (digits : ∀ c ∈ cs, c.isDigit = true)
    {n : Nat} (below : Nat.ofDigitChars 10 cs n < limit) :
    readDigits limit n cs = .ok (Nat.ofDigitChars 10 cs n) := by
  induction cs generalizing n with
  | nil => rfl
  | cons c cs ih =>
    have digit := digits c List.mem_cons_self
    rw [Nat.ofDigitChars_cons, Nat.mul_comm 10 n] at below ⊢
    have fits : n * 10 + (c.toNat - '0'.toNat) < limit :=
      Nat.lt_of_le_of_lt (le_ofDigitChars _ cs) below
    simp only [readDigits, digitValue?_of_isDigit digit]
    rw [if_pos fits]
    exact ih (fun d mem => digits d (List.mem_cons_of_mem c mem)) below

theorem isDigit_of_mem_toDigits {n : Nat} {c : Char} (mem : c ∈ Nat.toDigits 10 n) :
    c.isDigit = true :=
  Nat.isDigit_of_mem_toDigits (by omega) (by omega) mem

/-- A count without a sign is read as its digits are. -/
theorem readCount_of_digit {limit : Nat} {c : Char} (unsigned : c ≠ '+') (cs : List Char) :
    readCount limit (c :: cs) = readDigits limit 0 (c :: cs) := by
  rw [readCount]
  · exact List.cons_ne_nil c cs
  · intro equal
    exact unsigned (List.cons.inj equal).1
  · intro rest equal
    exact unsigned (List.cons.inj equal).1

/-- **A count in decimal is read back.** -/
theorem readCount_toDigits {limit n : Nat} (below : n < limit) :
    readCount limit (Nat.toDigits 10 n) = .ok n := by
  have value : Nat.ofDigitChars 10 (Nat.toDigits 10 n) 0 = n := Nat.ofDigitChars_ten_toDigits
  have read : readDigits limit 0 (Nat.toDigits 10 n) = .ok n := by
    rw [readDigits_of_lt (fun c mem => isDigit_of_mem_toDigits mem) (by rw [value]; exact below),
      value]
  cases shape : Nat.toDigits 10 n with
  | nil => exact absurd shape Nat.toDigits_ne_nil
  | cons c cs =>
    have unsigned : c ≠ '+' := by
      rintro rfl
      have digit : '+'.isDigit = true :=
        isDigit_of_mem_toDigits (n := n) (by rw [shape]; exact List.mem_cons_self)
      exact absurd digit (by decide)
    rw [readCount_of_digit unsigned, ← shape]
    exact read

end Supervision.Text
