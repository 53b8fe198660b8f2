import Supervision.Proofs.Text.RoundTrip

/-!
# What the readers of texts accept

The readers of `Supervision.Text` take nothing but what is written in the form that they read. Bytes
that the machine for UTF-8 takes for a text are the encoding of that text: no character has a second
encoding, and no other bytes pass (`decode_eq_ok`). A count is a run of digits that may have a plus
sign before it, and its value lies below the bound of its reader (`readCount_eq_ok`).

Which fault is named for anything else is not said.
-/

namespace Supervision.Text

namespace Utf8

/-! ## One character -/

theorem toNat_ofNat {n : Nat} (valid : n < 0xD800 ∨ 0xDFFF < n ∧ n < 0x110000) :
    (Char.ofNat n).val.toNat = n := by
  have isValid : n.isValidChar := valid
  rw [Char.ofNat, dif_pos isValid]
  rfl

private theorem ofNat_eq {n : Nat} {b : UInt8} (same : n = b.toNat) : UInt8.ofNat n = b := by
  rw [same, UInt8.ofNat_toNat]

/-- A byte below the highest bit is a character of its own. -/
theorem encodeChar_one {a : UInt8} (range : a.toNat < 0x80) :
    String.utf8EncodeChar (Char.ofNat a.toNat) = [a] := by
  unfold String.utf8EncodeChar
  simp only [toNat_ofNat (n := a.toNat) (by omega)]
  rw [if_pos (by omega), UInt8.ofNat_toNat]

theorem encodeChar_two {a b : UInt8} (first : 0xC2 ≤ a.toNat ∧ a.toNat < 0xE0)
    (second : 0x80 ≤ b.toNat ∧ b.toNat ≤ 0xBF) :
    String.utf8EncodeChar (Char.ofNat ((a.toNat - 0xC0) * 64 + (b.toNat - 0x80))) = [a, b] := by
  unfold String.utf8EncodeChar
  simp only [toNat_ofNat (n := (a.toNat - 0xC0) * 64 + (b.toNat - 0x80)) (by omega)]
  rw [if_neg (by omega), if_pos (by omega), ofNat_eq (b := a) (by omega),
    ofNat_eq (b := b) (by omega)]

/-- The second byte of a character of three is bounded from below so that no shorter encoding
exists, and from above so that no surrogate is written. -/
theorem encodeChar_three {a b c : UInt8} (first : 0xE0 ≤ a.toNat ∧ a.toNat < 0xF0)
    (second : (if a.toNat = 0xE0 then 0xA0 else 0x80) ≤ b.toNat ∧
      b.toNat ≤ (if a.toNat = 0xED then 0x9F else 0xBF))
    (third : 0x80 ≤ c.toNat ∧ c.toNat ≤ 0xBF) :
    String.utf8EncodeChar (Char.ofNat
      (((a.toNat - 0xE0) * 64 + (b.toNat - 0x80)) * 64 + (c.toNat - 0x80))) = [a, b, c] := by
  have low : 0x80 ≤ b.toNat ∧ b.toNat ≤ 0xBF ∧ (a.toNat = 0xE0 → 0xA0 ≤ b.toNat) ∧
      (a.toNat = 0xED → b.toNat ≤ 0x9F) := by
    split at second <;> split at second <;> omega
  clear second
  unfold String.utf8EncodeChar
  simp only [toNat_ofNat
    (n := ((a.toNat - 0xE0) * 64 + (b.toNat - 0x80)) * 64 + (c.toNat - 0x80)) (by omega)]
  rw [if_neg (by omega), if_neg (by omega), if_pos (by omega), ofNat_eq (b := a) (by omega),
    ofNat_eq (b := b) (by omega), ofNat_eq (b := c) (by omega)]

/-- The second byte of a character of four is bounded from below so that no shorter encoding
exists, and from above by the last character there is. -/
theorem encodeChar_four {a b c d : UInt8} (first : 0xF0 ≤ a.toNat ∧ a.toNat ≤ 0xF4)
    (second : (if a.toNat = 0xF0 then 0x90 else 0x80) ≤ b.toNat ∧
      b.toNat ≤ (if a.toNat = 0xF4 then 0x8F else 0xBF))
    (third : 0x80 ≤ c.toNat ∧ c.toNat ≤ 0xBF) (fourth : 0x80 ≤ d.toNat ∧ d.toNat ≤ 0xBF) :
    String.utf8EncodeChar (Char.ofNat
      ((((a.toNat - 0xF0) * 64 + (b.toNat - 0x80)) * 64 + (c.toNat - 0x80)) * 64
        + (d.toNat - 0x80))) = [a, b, c, d] := by
  have low : 0x80 ≤ b.toNat ∧ b.toNat ≤ 0xBF ∧ (a.toNat = 0xF0 → 0x90 ≤ b.toNat) ∧
      (a.toNat = 0xF4 → b.toNat ≤ 0x8F) := by
    split at second <;> split at second <;> omega
  clear second
  unfold String.utf8EncodeChar
  simp only [toNat_ofNat
    (n := (((a.toNat - 0xF0) * 64 + (b.toNat - 0x80)) * 64 + (c.toNat - 0x80)) * 64
      + (d.toNat - 0x80)) (by omega)]
  rw [if_neg (by omega), if_neg (by omega), if_neg (by omega), ofNat_eq (b := a) (by omega),
    ofNat_eq (b := b) (by omega), ofNat_eq (b := c) (by omega), ofNat_eq (b := d) (by omega)]

/-! ## The machine -/

section Machine

variable {index bits width : Nat} {low high : UInt8} {bytes : List UInt8} {cs : List Char}

/-- The last byte of an open character closes it. -/
theorem of_decodeFrom_last
    (read : decodeFrom (.within 0 low high bits width) index bytes = .ok cs) :
    ∃ b rest more, bytes = b :: rest ∧ (low.toNat ≤ b.toNat ∧ b.toNat ≤ high.toNat) ∧
      cs = Char.ofNat (bits * 64 + (b.toNat - 0x80)) :: more ∧
      decodeFrom .between (index + 1) rest = .ok more := by
  cases bytes with
  | nil => cases read
  | cons b rest =>
    by_cases fits : low ≤ b ∧ b ≤ high
    · simp only [decodeFrom, State.step, if_pos fits] at read
      cases later : decodeFrom .between (index + 1) rest with
      | error e =>
        rw [later] at read
        cases read
      | ok more =>
        rw [later] at read
        exact ⟨b, rest, more, rfl, fits, (Except.ok.inj read).symm, later⟩
    · simp only [decodeFrom, State.step, if_neg fits] at read
      cases read

/-- Any other byte of an open character leaves it open. -/
theorem of_decodeFrom_next {owed : Nat}
    (read : decodeFrom (.within (owed + 1) low high bits width) index bytes = .ok cs) :
    ∃ b rest, bytes = b :: rest ∧ (low.toNat ≤ b.toNat ∧ b.toNat ≤ high.toNat) ∧
      decodeFrom (.within owed 0x80 0xBF (bits * 64 + (b.toNat - 0x80)) (width + 1)) (index + 1)
        rest = .ok cs := by
  cases bytes with
  | nil => cases read
  | cons b rest =>
    by_cases fits : low ≤ b ∧ b ≤ high
    · simp only [decodeFrom, State.step, if_pos fits] at read
      exact ⟨b, rest, rfl, fits, read⟩
    · simp only [decodeFrom, State.step, if_neg fits] at read
      cases read

/-- A byte between characters that opens none and is none is a fault. -/
theorem first_fault {b : UInt8} (none : 0x80 ≤ b.toNat ∧ b.toNat < 0xC2 ∨ 0xF4 < b.toNat) :
    State.first b = ([.fault 1], .between) := by
  simp only [State.first, UInt8.lt_iff_toNat_lt, ← UInt8.toNat_inj, UInt8.reduceToNat]
  rcases none with middle | beyond
  · rw [if_neg (by omega), if_pos (by omega)]
  · rw [if_neg (by omega), if_neg (by omega), if_neg (by omega), if_neg (by omega),
      if_neg (by omega), if_neg (by omega), if_neg (by omega), if_neg (by omega),
      if_neg (by omega)]

/-- What is read between characters, if anything is left, starts with one character. -/
theorem of_decodeFrom_between {b : UInt8} (read : decodeFrom .between index (b :: bytes) = .ok cs) :
    ∃ c rest more index', b :: bytes = String.utf8EncodeChar c ++ rest ∧ cs = c :: more ∧
      rest.length < (b :: bytes).length ∧ decodeFrom .between index' rest = .ok more := by
  have fault : ¬(0x80 ≤ b.toNat ∧ b.toNat < 0xC2 ∨ 0xF4 < b.toNat) := by
    intro none
    simp only [decodeFrom, State.step, first_fault none] at read
    cases read
  have same := UInt8.ofNat_toNat (x := b)
  by_cases one : b.toNat < 0x80
  · rw [← same, decodeFrom_one one] at read
    cases later : decodeFrom .between (index + 1) bytes with
    | error e =>
      rw [later] at read
      cases read
    | ok more =>
      rw [later] at read
      refine ⟨_, bytes, more, _, ?_, (Except.ok.inj read).symm, Nat.lt_succ_self _, later⟩
      rw [encodeChar_one one]
      rfl
  by_cases two : b.toNat < 0xE0
  · have opens := first_two (n := b.toNat) (by omega) two
    rw [same] at opens
    rw [decodeFrom_first opens] at read
    obtain ⟨c, rest, more, rfl, second, rfl, later⟩ := of_decodeFrom_last read
    refine ⟨_, rest, more, _, ?_, rfl, by simp only [List.length_cons]; omega, later⟩
    rw [encodeChar_two ⟨by omega, two⟩ second]
    rfl
  by_cases three : b.toNat < 0xF0
  · have opens := first_three (n := b.toNat) (by omega) three
    rw [same] at opens
    rw [decodeFrom_first opens] at read
    obtain ⟨c, rest, rfl, second, read⟩ := of_decodeFrom_next read
    obtain ⟨d, rest, more, rfl, third, rfl, later⟩ := of_decodeFrom_last read
    rw [apply_ite UInt8.toNat, apply_ite UInt8.toNat] at second
    refine ⟨_, rest, more, _, ?_, rfl, by simp only [List.length_cons]; omega, later⟩
    rw [encodeChar_three ⟨by omega, three⟩ second third]
    rfl
  · have opens := first_four (n := b.toNat) (by omega) (by omega)
    rw [same] at opens
    rw [decodeFrom_first opens] at read
    obtain ⟨c, rest, rfl, second, read⟩ := of_decodeFrom_next read
    obtain ⟨d, rest, rfl, third, read⟩ := of_decodeFrom_next read
    obtain ⟨e, rest, more, rfl, fourth, rfl, later⟩ := of_decodeFrom_last read
    rw [apply_ite UInt8.toNat, apply_ite UInt8.toNat] at second
    refine ⟨_, rest, more, _, ?_, rfl, by simp only [List.length_cons]; omega, later⟩
    rw [encodeChar_four ⟨by omega, by omega⟩ second third fourth]
    rfl

end Machine

/-! ## Texts -/

/-- Bytes that are read between characters encode what is read, character by character. -/
theorem of_decodeFrom {bytes : List UInt8} {index : Nat} {cs : List Char}
    (read : decodeFrom .between index bytes = .ok cs) : bytes = ofChars cs := by
  match bytes with
  | [] =>
    cases read
    rfl
  | b :: bytes =>
    obtain ⟨c, rest, more, index', encoded, rfl, shorter, later⟩ := of_decodeFrom_between read
    rw [encoded, of_decodeFrom later]
    rfl
  termination_by bytes.length
  decreasing_by exact shorter

/-- **Bytes are a text exactly if they are its encoding.** -/
theorem decode_eq_ok {bytes : List UInt8} {s : String} :
    decode bytes = .ok s ↔ bytes = encode s := by
  refine ⟨fun read => ?_, fun written => written ▸ decode_encode s⟩
  cases chars : decodeFrom .between 0 bytes with
  | error fault =>
    rw [decode, chars] at read
    cases read
  | ok cs =>
    rw [decode, chars] at read
    obtain rfl := Except.ok.inj read
    rw [of_decodeFrom chars, encode, String.toList_ofList]
    rfl

/-- Bytes of a text end in a newline only where the text does. -/
theorem of_ofChars_newline {ds : List Char} {line : List UInt8}
    (bytes : ofChars ds = line ++ [0x0A]) : ∃ cs, ds = cs ++ ['\n'] ∧ ofChars cs = line := by
  rcases List.eq_nil_or_concat ds with rfl | ⟨cs, c, rfl⟩
  · exact absurd bytes.symm (List.append_ne_nil_of_right_ne_nil line (List.cons_ne_nil _ _))
  rw [List.concat_eq_append, ofChars_append] at *
  have whole : ofChars [c] = String.utf8EncodeChar c := List.append_nil _
  by_cases ascii : c.toNat < 0x80
  · rw [ofChars_cons_of_ascii ascii, ofChars_nil] at bytes
    obtain ⟨front, last⟩ := List.append_inj' bytes rfl
    have value : c.toNat = 0x0A := by
      have number := congrArg UInt8.toNat (List.cons.inj last).1
      rw [UInt8.toNat_ofNat_of_lt' (Nat.lt_trans ascii (by decide))] at number
      exact number
    have newline : c = '\n' := by rw [← Char.ofNat_toNat c, value]
    exact ⟨cs, by rw [newline], front⟩
  · have last : (0x0A : UInt8) ∈ String.utf8EncodeChar c := by
      have same := congrArg List.getLast? bytes
      rw [whole, List.getLast?_append_of_ne_nil _ String.utf8EncodeChar_ne_nil,
        List.getLast?_concat] at same
      exact List.mem_of_getLast? same
    exact absurd (high_of_mem_encodeChar (by omega) last) (by decide)

/-- A newline is a byte of the text that has it. -/
theorem newline_mem_ofChars {cs : List Char} (mem : '\n' ∈ cs) : (0x0A : UInt8) ∈ ofChars cs :=
  List.mem_flatMap.2 ⟨'\n', mem, List.mem_singleton.2 rfl⟩

end Utf8

/-! ## Blanks -/

/-- A newline at the end of a text is a blank like others. -/
theorem trimBlanks_newline (cs : List Char) : trimBlanks (cs ++ ['\n']) = trimBlanks cs := by
  have blank : isBlank '\n' = true := by decide
  rw [trimBlanks, trimBlanks, List.dropWhile_append]
  by_cases none : (cs.dropWhile isBlank).isEmpty = true
  · rw [if_pos none, List.isEmpty_iff.1 none, List.dropWhile_cons_of_pos blank]
    rfl
  · rw [if_neg none, List.reverse_append, List.reverse_singleton, List.singleton_append,
      List.dropWhile_cons_of_pos blank]

/-! ## Counts -/

/-- A count in decimal: digits, at least one, and before them a plus sign or nothing. -/
inductive Denotes : List Char → Nat → Prop
  | plain {digits : List Char} (some : digits ≠ []) (all : ∀ c ∈ digits, c.isDigit = true) :
    Denotes digits (Nat.ofDigitChars 10 digits 0)
  | signed {digits : List Char} (some : digits ≠ []) (all : ∀ c ∈ digits, c.isDigit = true) :
    Denotes ('+' :: digits) (Nat.ofDigitChars 10 digits 0)

theorem isDigit_of_digitValue? {c : Char} {d : Nat} (value : digitValue? c = some d) :
    c.isDigit = true := by
  rw [digitValue?] at value
  split at value
  · next range =>
    simp only [Char.isDigit, Bool.and_eq_true, decide_eq_true_eq]
    exact range
  · cases value

/-- Digits that are read are all digits, and what they denote lies below the bound. -/
theorem of_readDigits {limit n m : Nat} {cs : List Char} (below : n < limit)
    (read : readDigits limit n cs = .ok m) :
    (∀ c ∈ cs, c.isDigit = true) ∧ m = Nat.ofDigitChars 10 cs n ∧ m < limit := by
  induction cs generalizing n with
  | nil =>
    cases read
    exact ⟨nofun, rfl, below⟩
  | cons c cs ih =>
    rw [readDigits] at read
    split at read
    · cases read
    · next d value =>
      split at read
      · next fits =>
        obtain ⟨digits, same, bounded⟩ := ih fits read
        have digit := isDigit_of_digitValue? value
        rw [digitValue?_of_isDigit digit] at value
        refine ⟨List.forall_mem_cons.2 ⟨digit, digits⟩, ?_, bounded⟩
        rw [Nat.ofDigitChars_cons, Nat.mul_comm 10 n, same, Option.some.inj value]
      · cases read

theorem readCount_of_sign {limit : Nat} {digits : List Char} (some : digits ≠ []) :
    readCount limit ('+' :: digits) = readDigits limit 0 digits := by
  rw [readCount]
  exact some

/-- **A text is read as a count exactly if it denotes it and it lies below the bound.** -/
theorem readCount_eq_ok {limit n : Nat} (bound : 0 < limit) {cs : List Char} :
    readCount limit cs = .ok n ↔ Denotes cs n ∧ n < limit := by
  constructor
  · intro read
    match cs with
    | [] => cases read
    | c :: cs =>
      by_cases sign : c = '+'
      · subst sign
        by_cases some : cs = []
        · subst some
          cases read
        · rw [readCount_of_sign some] at read
          obtain ⟨all, rfl, below⟩ := of_readDigits bound read
          exact ⟨.signed some all, below⟩
      · rw [readCount_of_digit sign] at read
        obtain ⟨all, rfl, below⟩ := of_readDigits bound read
        exact ⟨.plain (List.cons_ne_nil c cs) all, below⟩
  · rintro ⟨denotes, below⟩
    cases denotes with
    | plain some all =>
      obtain ⟨c, digits, rfl⟩ := List.exists_cons_of_ne_nil some
      have unsigned : c ≠ '+' := by
        rintro rfl
        exact absurd (all '+' List.mem_cons_self) (by decide)
      rw [readCount_of_digit unsigned, readDigits_of_lt all below]
    | signed some all => rw [readCount_of_sign some, readDigits_of_lt all below]

end Supervision.Text
