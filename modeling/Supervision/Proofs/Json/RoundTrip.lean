import Supervision.Proofs.Json.Numeral

/-!
# Values are read back

What `read` makes of the text of a value is the value itself up to two things (`settle`): a number
is what its own text is read as, which for a double need not be the same double, and the members of
an object come in the order of their names, the later of two with one name. On a value that a text
can stand for (`Writable`) nothing of that shows, and `read` undoes `encode`: whole numbers of 64
bits, objects with their members in order, and doubles that are read back from their own text. Which
doubles are is not settled here.

The reader is followed through the text of a value before any rest that does not go on with a number
(`Apart`); for arrays and objects that rest is the text of what follows inside them.
-/

namespace Supervision.Json

open Text.Utf8 (ofChars ofChars_append ofChars_cons_of_ascii ofChars_nil high_of_mem_encodeChar)

/-- A value that a text can stand for. -/
inductive Writable : Json → Prop
  | null : Writable .null
  | bool (b : Bool) : Writable (.bool b)
  | int {i : Int} (low : -(2 ^ 63) ≤ i) (high : i < 2 ^ 64) : Writable (.int i)
  | float {x : Number.Binary64} (back : readNumber (encode (.float x)) = .ok (.float x, [])) :
    Writable (.float x)
  | str (s : String) : Writable (.str s)
  | arr {xs : List Json} (items : ∀ v ∈ xs, Writable v) : Writable (.arr xs)
  | obj {ms : Members} (ordered : ms.Pairwise (fun m n => m.1 < n.1))
    (values : ∀ m ∈ ms, Writable m.2) : Writable (.obj ms)

/-- What the text of a number is read as. -/
def settleNumber (v : Json) : Option Json :=
  match readNumber v.encode with
  | .ok (w, []) => some w
  | _ => none

mutual

/-- What the text of a value is read as; `none` when a number in it is not read as one. -/
def settle : Json → Option Json
  | .int i => settleNumber (.int i)
  | .float x => settleNumber (.float x)
  | .arr xs => (settleItems xs).map .arr
  | .obj ms => (settleMembers ms).map object
  | v => some v

def settleItems : List Json → Option (List Json)
  | [] => some []
  | v :: rest => v.settle.bind fun w => (settleItems rest).map (w :: ·)

def settleMembers : List (String × Json) → Option (List (String × Json))
  | [] => some []
  | (k, v) :: rest => v.settle.bind fun w => (settleMembers rest).map ((k, w) :: ·)

end

theorem settleNumber_eq_some {v w : Json} :
    settleNumber v = some w ↔ readNumber v.encode = .ok (w, []) := by
  unfold settleNumber
  split
  next u read =>
    rw [read]
    simp only [Option.some.injEq, Except.ok.injEq, Prod.mk.injEq, and_true]
  next other => exact ⟨nofun, fun read => absurd read (other w)⟩

/-- Items settle one by one. -/
theorem settleItems_eq_some {xs ys : List Json} :
    settleItems xs = some ys ↔ List.Forall₂ (fun v w => v.settle = some w) xs ys := by
  induction xs generalizing ys with
  | nil =>
    rw [settleItems, List.forall₂_nil_left_iff, Option.some.injEq]
    exact eq_comm
  | cons v xs ih =>
    rw [settleItems, List.forall₂_cons_left_iff]
    simp only [Option.bind_eq_some_iff, Option.map_eq_some_iff, ih, eq_comm (b := ys)]
    constructor
    · rintro ⟨w, settled, rest, items, same⟩
      exact ⟨w, rest, settled, items, same⟩
    · rintro ⟨w, rest, settled, items, same⟩
      exact ⟨w, settled, rest, items, same⟩

/-- Members settle one by one and keep their names. -/
theorem settleMembers_eq_some {ms ns : List (String × Json)} :
    settleMembers ms = some ns ↔
      List.Forall₂ (fun m n => m.1 = n.1 ∧ m.2.settle = some n.2) ms ns := by
  induction ms generalizing ns with
  | nil =>
    rw [settleMembers, List.forall₂_nil_left_iff, Option.some.injEq]
    exact eq_comm
  | cons m ms ih =>
    rw [settleMembers, List.forall₂_cons_left_iff]
    simp only [Option.bind_eq_some_iff, Option.map_eq_some_iff, ih]
    constructor
    · rintro ⟨w, settled, rest, members, rfl⟩
      exact ⟨(m.1, w), rest, ⟨rfl, settled⟩, members, rfl⟩
    · rintro ⟨⟨key, w⟩, rest, ⟨rfl, settled⟩, members, rfl⟩
      exact ⟨w, settled, rest, members, rfl⟩

/-! ## Strings -/

section Bytes

variable (acc rest : List UInt8)

theorem readStringBytes_quote : readStringBytes acc (0x22 :: rest) = .ok (acc.reverse, rest) := by
  rw [readStringBytes.eq_def]
  rfl

/-- An escape by one letter. -/
theorem readStringBytes_letter {e c : UInt8} (letter : shortEscape? e = some c) (other : e ≠ 0x75) :
    readStringBytes acc (0x5C :: e :: rest) = readStringBytes (c :: acc) rest := by
  rw [readStringBytes.eq_def]
  show (if e ≠ 0x75 then _ else _) = _
  rw [if_pos other]
  simp only [letter]

/-- An escape by a number that is no half of a pair. -/
theorem readStringBytes_unit {a b c d : UInt8} {n : Nat} (unit : hexUnit? a b c d = some n)
    (small : n < 0xD800) :
    readStringBytes acc (0x5C :: 0x75 :: a :: b :: c :: d :: rest) =
      readStringBytes ((String.utf8EncodeChar (Char.ofNat n)).reverse ++ acc) rest := by
  have low : isLowSurrogate n = false := by
    simp only [isLowSurrogate, Bool.and_eq_false_iff, decide_eq_false_iff_not]
    omega
  have high : isHighSurrogate n = false := by
    simp only [isHighSurrogate, Bool.and_eq_false_iff, decide_eq_false_iff_not]
    omega
  rw [readStringBytes.eq_def]
  simp only [unit, low, high]
  rfl

/-- A byte that stands for itself inside a string. -/
def Plain (b : UInt8) : Prop :=
  b ≠ 0x22 ∧ ¬b < 0x20 ∧ b ≠ 0x5C

theorem readStringBytes_plain {bytes : List UInt8} (plain : ∀ b ∈ bytes, Plain b) :
    readStringBytes acc (bytes ++ rest) = readStringBytes (bytes.reverse ++ acc) rest := by
  induction bytes generalizing acc with
  | nil => rfl
  | cons b bytes ih =>
    obtain ⟨quote, control, backslash⟩ := plain b List.mem_cons_self
    have others : ∀ c ∈ bytes, Plain c := fun c mem => plain c (List.mem_cons_of_mem b mem)
    rw [List.cons_append, readStringBytes.eq_def]
    simp only [if_neg quote, if_neg control, if_pos backslash]
    rw [ih _ others, List.reverse_cons, List.append_assoc]
    rfl

end Bytes

/-- A control that has no letter is escaped by its number, which two digits hold. -/
theorem hexUnit?_control : ∀ n < 0x20, hexUnit? 0x30 0x30 (UInt8.ofNat (hexDigit (n / 16)).toNat)
    (UInt8.ofNat (hexDigit n).toNat) = some n := by
  decide

theorem hexDigit_ascii (n : Nat) : (hexDigit n).toNat < 0x80 := by
  have all : ∀ n < 16, (Nat.digitChar n).toNat < 0x80 := by decide
  exact all (n % 16) (Nat.mod_lt n (by omega))

/-- One character inside a string is read back. -/
theorem readStringBytes_escape (c : Char) (acc rest : List UInt8) :
    readStringBytes acc (ofChars (escape c) ++ rest) =
      readStringBytes ((String.utf8EncodeChar c).reverse ++ acc) rest := by
  -- The letters of the short escapes, each with the control or mark it stands for.
  have letter : ∀ {e b : UInt8}, shortEscape? e = some b → e ≠ 0x75 → ∀ {d : Char},
      String.utf8EncodeChar d = [b] → readStringBytes acc (0x5C :: e :: rest) =
        readStringBytes ((String.utf8EncodeChar d).reverse ++ acc) rest := by
    intro e b short other d one
    rw [readStringBytes_letter acc rest short other, one]
    rfl
  have named : ∀ {n : Nat}, c.toNat = n → c = Char.ofNat n := by
    rintro n rfl
    exact (Char.ofNat_toNat c).symm
  unfold escape
  split
  · next same => subst same; exact letter (e := 0x22) rfl (by decide) rfl
  split
  · next same => subst same; exact letter (e := 0x5C) rfl (by decide) rfl
  split
  · next same => subst same; exact letter (e := 0x6E) rfl (by decide) rfl
  split
  · next same => subst same; exact letter (e := 0x72) rfl (by decide) rfl
  split
  · next same => subst same; exact letter (e := 0x74) rfl (by decide) rfl
  split
  · next same => rw [named same]; exact letter (e := 0x62) rfl (by decide) rfl
  split
  · next same => rw [named same]; exact letter (e := 0x66) rfl (by decide) rfl
  split
  · next control =>
    have bytes : ofChars ['\\', 'u', '0', '0', hexDigit (c.toNat / 16), hexDigit c.toNat] =
        [0x5C, 0x75, 0x30, 0x30, UInt8.ofNat (hexDigit (c.toNat / 16)).toNat,
          UInt8.ofNat (hexDigit c.toNat).toNat] := by
      simp only [ofChars_cons_of_ascii (hexDigit_ascii _), ofChars_cons_of_ascii (c := '\\') (by decide),
        ofChars_cons_of_ascii (c := 'u') (by decide), ofChars_cons_of_ascii (c := '0') (by decide)]
      rfl
    rw [bytes]
    have read := readStringBytes_unit acc rest (hexUnit?_control c.toNat control) (by omega)
    rw [← named rfl] at read
    exact read
  · next quote backslash _ _ _ _ _ control =>
    have one : ofChars [c] = String.utf8EncodeChar c := List.append_nil _
    rw [one]
    refine readStringBytes_plain acc rest fun b mem => ?_
    by_cases ascii : c.toNat < 0x80
    · have byte : b = UInt8.ofNat c.toNat := by
        rw [← one, ofChars_cons_of_ascii ascii] at mem
        exact List.mem_singleton.1 mem
      have small : c.toNat < 256 := by omega
      have value : b.toNat = c.toNat := by rw [byte, UInt8.toNat_ofNat_of_lt' small]
      refine ⟨?_, ?_, ?_⟩
      · rintro rfl
        exact quote (named value.symm)
      · rw [UInt8.lt_iff_toNat_lt, value]
        exact control
      · rintro rfl
        exact backslash (named value.symm)
    · have high := high_of_mem_encodeChar (by omega) mem
      refine ⟨?_, ?_, ?_⟩
      · rintro rfl
        exact absurd high (by decide)
      · rw [UInt8.lt_iff_toNat_lt]
        show ¬b.toNat < 0x20
        omega
      · rintro rfl
        exact absurd high (by decide)

/-- **A string is read back** up to its closing quote. -/
theorem readString_renderString (s : String) (rest : List UInt8) :
    readString (ofChars (s.toList.flatMap escape) ++ 0x22 :: rest) = .ok (s, rest) := by
  have bytes : ∀ (cs : List Char) (acc : List UInt8),
      readStringBytes acc (ofChars (cs.flatMap escape) ++ 0x22 :: rest) =
        .ok (acc.reverse ++ ofChars cs, rest) := by
    intro cs
    induction cs with
    | nil =>
      intro acc
      rw [List.flatMap_nil, ofChars_nil, List.nil_append, readStringBytes_quote, List.append_nil]
    | cons c cs ih =>
      intro acc
      rw [List.flatMap_cons, ofChars_append, List.append_assoc, readStringBytes_escape, ih,
        List.reverse_append, List.reverse_reverse, List.append_assoc]
      rfl
  have decoded : Text.Utf8.decode? (ofChars s.toList) = some s := by
    rw [Text.Utf8.decode?]
    show (Text.Utf8.decode (Text.Utf8.encode s)).toOption = some s
    rw [Text.Utf8.decode_encode]
    rfl
  simp only [readString, bytes, List.reverse_nil, List.nil_append, bind, Except.bind, decoded]

/-! ## Arrays and objects -/

/-- The items after the first, each after its comma. -/
def renderMore (xs : List Json) : List Char :=
  xs.flatMap fun v => ',' :: renderChars v

theorem renderItems_cons (v : Json) (xs : List Json) :
    renderItems (v :: xs) = renderChars v ++ renderMore xs := by
  induction xs generalizing v with
  | nil => simp only [renderItems, renderMore, List.flatMap_nil, List.append_nil]
  | cons w xs ih =>
    rw [renderItems, ih w]
    · rfl
    · exact List.cons_ne_nil w xs

/-- A member with its name. -/
def renderMember (m : String × Json) : List Char :=
  renderString m.1 ++ ':' :: renderChars m.2

/-- The members after the first, each after its comma. -/
def renderMoreMembers (ms : Members) : List Char :=
  ms.flatMap fun m => ',' :: renderMember m

theorem renderMembers_cons (m : String × Json) (ms : Members) :
    renderMembers (m :: ms) = renderMember m ++ renderMoreMembers ms := by
  induction ms generalizing m with
  | nil => simp only [renderMembers, renderMoreMembers, renderMember, List.flatMap_nil, List.append_nil]
  | cons n ms ih =>
    rw [renderMembers, ih n]
    · simp only [renderMember, renderMoreMembers, List.flatMap_cons, List.append_assoc,
        List.cons_append]
    · exact List.cons_ne_nil n ms

/-- A member with the greatest name comes last. -/
theorem insert_greatest {key : String} {v : Json} {ms : Members} (last : ∀ m ∈ ms, m.1 < key) :
    Members.insert key v ms = ms ++ [(key, v)] := by
  induction ms with
  | nil => rfl
  | cons m ms ih =>
    have less := last m List.mem_cons_self
    have later : ¬key < m.1 := fun greater => String.lt_asymm less greater
    have other : m.1 ≠ key := by
      intro same
      rw [same] at less
      exact String.lt_irrefl key less
    rw [Members.insert, if_neg later, if_neg other,
      ih fun n mem => last n (List.mem_cons_of_mem m mem)]
    rfl

/-- Members in order stay as they are when they are taken up one after the other. -/
theorem foldl_insert_of_ordered {acc ms : Members}
    (ordered : (acc ++ ms).Pairwise (fun m n => m.1 < n.1)) :
    ms.foldl (fun ms m => Members.insert m.1 m.2 ms) acc = acc ++ ms := by
  induction ms generalizing acc with
  | nil => exact (List.append_nil acc).symm
  | cons m ms ih =>
    have greatest : ∀ n ∈ acc, n.1 < m.1 := fun n mem =>
      (List.pairwise_append.1 ordered).2.2 n mem m List.mem_cons_self
    have same : acc ++ m :: ms = acc ++ [(m.1, m.2)] ++ ms := by
      rw [List.append_assoc]
      rfl
    rw [same] at ordered ⊢
    rw [List.foldl_cons, insert_greatest greatest, ih ordered]

/-- Setting a member keeps the members in order. -/
theorem ordered_insert {key : String} {v : Json} {ms : Members}
    (ordered : ms.Pairwise (fun m n => m.1 < n.1)) :
    (Members.insert key v ms).Pairwise (fun m n => m.1 < n.1) ∧
      ∀ m ∈ Members.insert key v ms, m = (key, v) ∨ m ∈ ms := by
  induction ms with
  | nil => exact ⟨List.pairwise_singleton _ _, fun m mem => .inl (List.mem_singleton.1 mem)⟩
  | cons n ms ih =>
    obtain ⟨first, others⟩ := List.pairwise_cons.1 ordered
    unfold Members.insert
    split
    next less =>
      refine ⟨List.pairwise_cons.2 ⟨fun m mem => ?_, ordered⟩, fun m mem => List.mem_cons.1 mem⟩
      rcases List.mem_cons.1 mem with rfl | mem
      · exact less
      · exact String.lt_trans less (first m mem)
    next notLess =>
      split
      next same =>
        subst same
        refine ⟨List.pairwise_cons.2 ⟨first, others⟩, fun m mem => ?_⟩
        rcases List.mem_cons.1 mem with rfl | mem
        · exact .inl rfl
        · exact .inr (List.mem_cons_of_mem n mem)
      next other =>
        obtain ⟨kept, members⟩ := ih others
        have less : n.1 < key := by
          by_contra greater
          exact other (String.le_antisymm (String.not_lt.1 notLess) (String.not_lt.1 greater))
        refine ⟨List.pairwise_cons.2 ⟨fun m mem => ?_, kept⟩, fun m mem => ?_⟩
        · rcases members m mem with rfl | mem
          · exact less
          · exact first m mem
        · rcases List.mem_cons.1 mem with rfl | mem
          · exact .inr List.mem_cons_self
          · exact (members m mem).imp id (List.mem_cons_of_mem n)

/-- Members that are taken up one after the other are in order, and none is made up. -/
theorem ordered_ofList (pairs : List (String × Json)) :
    (Members.ofList pairs).Pairwise (fun m n => m.1 < n.1) ∧
      ∀ m ∈ Members.ofList pairs, m ∈ pairs := by
  have from_acc (pairs : List (String × Json)) {acc : List (String × Json)}
      (ordered : acc.Pairwise (fun m n => m.1 < n.1)) :
      (pairs.foldl (fun ms p => Members.insert p.1 p.2 ms) acc).Pairwise (fun m n => m.1 < n.1) ∧
        ∀ m ∈ pairs.foldl (fun ms p => Members.insert p.1 p.2 ms) acc, m ∈ acc ∨ m ∈ pairs := by
    induction pairs generalizing acc with
    | nil => exact ⟨ordered, fun m mem => .inl mem⟩
    | cons p pairs ih =>
      obtain ⟨kept, members⟩ := ordered_insert (v := p.2) ordered
      obtain ⟨last, mem⟩ := ih kept
      refine ⟨last, fun m taken => ?_⟩
      rcases mem m taken with taken | taken
      · rcases members m taken with rfl | old
        · exact .inr List.mem_cons_self
        · exact .inl old
      · exact .inr (List.mem_cons_of_mem p taken)
  obtain ⟨ordered, members⟩ := from_acc pairs List.Pairwise.nil
  exact ⟨ordered, fun m mem => (members m mem).resolve_left List.not_mem_nil⟩

theorem ofList_of_ordered {ms : Members} (ordered : ms.Pairwise (fun m n => m.1 < n.1)) :
    Members.ofList ms = ms := by
  have ordered : (([] : Members) ++ ms).Pairwise (fun m n => m.1 < n.1) := ordered
  exact foldl_insert_of_ordered ordered

theorem skipSpace_cons {b : UInt8} (solid : isSpace b = false) (rest : List UInt8) :
    skipSpace (b :: rest) = b :: rest := by
  rw [skipSpace, List.dropWhile_cons_of_neg (by rw [solid]; exact Bool.false_ne_true)]

section Steps

variable {fuel depth : Nat} {acc : List Json} {ms : Members} {v : Json} {b : UInt8}
  {more rest : List UInt8}

theorem readItems_close :
    readItems (fuel + 1) depth acc (0x5D :: rest) = .ok (.arr acc.reverse, rest) := by
  rw [readItems, skipSpace_cons (by decide)]
  rfl

theorem readItems_first (solid : isSpace b = false) (other : b ≠ 0x5D)
    (read : readValue fuel depth (b :: more) = .ok (v, rest)) :
    readItems (fuel + 1) depth [] (b :: more) = readItems fuel depth [v] rest := by
  rw [readItems, skipSpace_cons solid]
  simp only [if_neg other, List.isEmpty_nil, if_true, read]

theorem readItems_comma (some : acc ≠ []) (solid : isSpace b = false) (other : b ≠ 0x5D)
    (read : readValue fuel depth (b :: more) = .ok (v, rest)) :
    readItems (fuel + 1) depth acc (0x2C :: b :: more) = readItems fuel depth (v :: acc) rest := by
  have begun : acc.isEmpty = false := List.isEmpty_eq_false_iff.2 some
  have comma : ¬(0x2C : UInt8) = 0x5D := by decide
  rw [readItems, skipSpace_cons (by decide)]
  simp only [if_neg comma, begun, Bool.false_eq_true, if_false, ne_eq, not_true_eq_false,
    skipSpace_cons solid, if_neg other, read]

theorem readMembers_close {first : Bool} :
    readMembers (fuel + 1) depth ms first (0x7D :: rest) = .ok (.obj ms, rest) := by
  rw [readMembers, skipSpace_cons (by decide)]
  rfl

/-- The bytes of a member: its name in quotes, a colon, and its value. -/
theorem ofChars_renderMember (m : String × Json) :
    ofChars (renderMember m) ++ rest =
      0x22 :: (ofChars (m.1.toList.flatMap escape) ++
        0x22 :: 0x3A :: (ofChars (renderChars m.2) ++ rest)) := by
  simp only [renderMember, renderString, List.cons_append, List.append_assoc,
    ofChars_cons_of_ascii (c := '"') (by decide), ofChars_cons_of_ascii (c := ':') (by decide),
    ofChars_append, List.nil_append]
  rfl

theorem readMembers_first {m : String × Json}
    (read : readValue fuel depth (ofChars (renderChars m.2) ++ rest) = .ok (v, rest)) :
    readMembers (fuel + 1) depth ms true (ofChars (renderMember m) ++ rest) =
      readMembers fuel depth (Members.insert m.1 v ms) false rest := by
  have quote : ¬(0x22 : UInt8) = 0x7D := by decide
  rw [ofChars_renderMember, readMembers, skipSpace_cons (by decide)]
  simp only [if_neg quote, if_true, readString_renderString, skipSpace_cons (b := 0x3A) (by decide),
    ne_eq, not_true_eq_false, if_false, read]

theorem readMembers_comma {m : String × Json}
    (read : readValue fuel depth (ofChars (renderChars m.2) ++ rest) = .ok (v, rest)) :
    readMembers (fuel + 1) depth ms false (0x2C :: (ofChars (renderMember m) ++ rest)) =
      readMembers fuel depth (Members.insert m.1 v ms) false rest := by
  have comma : ¬(0x2C : UInt8) = 0x7D := by decide
  rw [ofChars_renderMember, readMembers, skipSpace_cons (by decide)]
  simp only [if_neg comma, Bool.false_eq_true, if_false, ne_eq, not_true_eq_false,
    skipSpace_cons (b := 0x22) (by decide), if_true, readString_renderString,
    skipSpace_cons (b := 0x3A) (by decide), read]

end Steps

/-- The bytes that numbers start with are none of those that other values start with. -/
theorem range_of_starts {b : UInt8} (starts : b = 0x2D ∨ (digit? b).isSome) :
    0x2D ≤ b.toNat ∧ b.toNat ≤ 0x39 := by
  rcases starts with rfl | digit
  · decide
  · by_cases within : 0x30 ≤ b ∧ b ≤ 0x39
    · rw [UInt8.le_iff_toNat_le, UInt8.le_iff_toNat_le] at within
      have low : 0x30 ≤ b.toNat := within.1
      have high : b.toNat ≤ 0x39 := within.2
      omega
    · rw [digit?, if_neg within] at digit
      cases digit

theorem solid_of_starts {b : UInt8} (starts : b = 0x2D ∨ (digit? b).isSome) :
    isSpace b = false := by
  have range := range_of_starts starts
  simp only [isSpace, Bool.or_eq_false_iff, beq_eq_false_iff_ne, ne_eq, ← UInt8.toNat_inj]
  refine ⟨⟨⟨?_, ?_⟩, ?_⟩, ?_⟩ <;> (intro same; rw [same] at range; exact absurd range (by decide))

theorem readValue_number {fuel depth : Nat} {b : UInt8} {more : List UInt8}
    (starts : b = 0x2D ∨ (digit? b).isSome) :
    readValue (fuel + 1) depth (b :: more) = readNumber (b :: more) := by
  have range := range_of_starts starts
  have other : ∀ c : UInt8, 0x39 < c.toNat ∨ c.toNat < 0x2D → b ≠ c := by
    rintro c beyond rfl
    omega
  rw [readValue, skipSpace_cons (solid_of_starts starts)]
  simp only [if_neg (other 0x6E (by decide)), if_neg (other 0x74 (by decide)),
    if_neg (other 0x66 (by decide)), if_neg (other 0x22 (by decide)),
    if_neg (other 0x5B (by decide)), if_neg (other 0x7B (by decide)), if_pos starts]

theorem encode_eq_ofChars (v : Json) : v.encode = ofChars (renderChars v) := by
  rw [encode, render, Text.Utf8.encode, String.toList_ofList]
  rfl

/-- A value that settles starts with a byte that no reader skips or takes for the end of an
array. -/
theorem first_of_settle {v w : Json} (settled : v.settle = some w) :
    ∃ b more, ofChars (renderChars v) = b :: more ∧ isSpace b = false ∧ b ≠ 0x5D := by
  have numbers {v : Json} (settled : settleNumber v = some w) :
      ∃ b more, ofChars (renderChars v) = b :: more ∧ isSpace b = false ∧ b ≠ 0x5D := by
    rw [settleNumber_eq_some, encode_eq_ofChars] at settled
    obtain ⟨b, more, bytes, starts⟩ := starts_of_readNumber settled
    refine ⟨b, more, bytes, solid_of_starts starts, ?_⟩
    rintro rfl
    exact absurd (range_of_starts starts) (by decide)
  cases v with
  | null => exact ⟨0x6E, _, rfl, by decide, by decide⟩
  | bool b => cases b <;> exact ⟨_, _, rfl, by decide, by decide⟩
  | int i => exact numbers (by rwa [settle] at settled)
  | float x => exact numbers (by rwa [settle] at settled)
  | str s => exact ⟨0x22, _, rfl, by decide, by decide⟩
  | arr xs => exact ⟨0x5B, _, by rw [renderChars]; rfl, by decide, by decide⟩
  | obj ms => exact ⟨0x7B, _, by rw [renderChars]; rfl, by decide, by decide⟩

/-! ## Values -/

/-- What the reader makes of the text of a value before a rest that does not go on with a number.
The text's length is fuel enough. -/
def ReadsAs (v w : Json) : Prop :=
  ∀ fuel depth rest, (ofChars (renderChars v)).length ≤ fuel → v.depth ≤ depth → Apart rest →
    readValue fuel depth (ofChars (renderChars v) ++ rest) = .ok (w, rest)

theorem depth_le_of_mem_items {v : Json} {xs : List Json} (mem : v ∈ xs) :
    v.depth ≤ depthItems xs := by
  induction xs with
  | nil => cases mem
  | cons w xs ih =>
    rw [depthItems]
    rcases List.mem_cons.1 mem with rfl | mem
    · exact Nat.le_max_left _ _
    · exact Nat.le_trans (ih mem) (Nat.le_max_right _ _)

theorem depth_le_of_mem_members {m : String × Json} {ms : Members} (mem : m ∈ ms) :
    m.2.depth ≤ depthMembers ms := by
  induction ms with
  | nil => cases mem
  | cons n ms ih =>
    obtain ⟨key, w⟩ := n
    rw [depthMembers]
    rcases List.mem_cons.1 mem with rfl | mem
    · exact Nat.le_max_left _ _
    · exact Nat.le_trans (ih mem) (Nat.le_max_right _ _)

/-- The value of a member is shorter than the member. -/
theorem length_renderChars_le (m : String × Json) :
    (ofChars (renderChars m.2)).length < (ofChars (renderMember m)).length := by
  have bytes : ofChars (renderMember m) ++ [] =
      0x22 :: (ofChars (m.1.toList.flatMap escape) ++
        0x22 :: 0x3A :: (ofChars (renderChars m.2) ++ [])) := ofChars_renderMember m
  rw [List.append_nil, List.append_nil] at bytes
  rw [bytes, List.length_cons, List.length_append, List.length_cons, List.length_cons]
  omega

section Containers

variable {depth : Nat} {rest : List UInt8}

/-- What follows the items of an array, and what follows the members of an object, does not go on
with a number. -/
theorem apart_more (xs : List Json) (rest : List UInt8) :
    Apart (ofChars (renderMore xs) ++ 0x5D :: rest) := by
  cases xs with
  | nil => exact apart_cons (by decide) _
  | cons v xs => exact apart_cons (b := 0x2C) (by decide) _

theorem apart_moreMembers (ms : Members) (rest : List UInt8) :
    Apart (ofChars (renderMoreMembers ms) ++ 0x7D :: rest) := by
  cases ms with
  | nil => exact apart_cons (by decide) _
  | cons m ms => exact apart_cons (b := 0x2C) (by decide) _

/-- The items after the first are read up to the closing bracket. -/
theorem readItems_more {xs ys : List Json}
    (settled : List.Forall₂ (fun v w => v.settle = some w) xs ys)
    (back : ∀ v ∈ xs, ∀ w, v.settle = some w → ReadsAs v w) (fits : ∀ v ∈ xs, v.depth ≤ depth)
    {fuel : Nat} (enough : (ofChars (renderMore xs)).length < fuel) {acc : List Json}
    (some : acc ≠ []) :
    readItems fuel depth acc (ofChars (renderMore xs) ++ 0x5D :: rest) =
      .ok (.arr (acc.reverse ++ ys), rest) := by
  induction settled generalizing fuel acc with
  | nil =>
    cases fuel with
    | zero => cases enough
    | succ fuel =>
      rw [List.append_nil]
      exact readItems_close
  | @cons v w xs ys settled _ ih =>
    have bytes : ofChars (renderMore (v :: xs)) =
        0x2C :: (ofChars (renderChars v) ++ ofChars (renderMore xs)) := by
      rw [renderMore, List.flatMap_cons, ← renderMore, ofChars_append,
        ofChars_cons_of_ascii (by decide)]
      rfl
    rw [bytes] at enough ⊢
    rw [List.length_cons, List.length_append] at enough
    cases fuel with
    | zero => cases enough
    | succ fuel =>
      have read := back v List.mem_cons_self w settled fuel depth _ (by omega)
        (fits v List.mem_cons_self) (apart_more xs rest)
      obtain ⟨b, more, first, solid, other⟩ := first_of_settle settled
      have size : 0 < (ofChars (renderChars v)).length := by
        rw [first]
        exact Nat.succ_pos _
      rw [List.cons_append, List.append_assoc]
      rw [first, List.cons_append] at read ⊢
      rw [readItems_comma some solid other read,
        ih (fun u mem => back u (List.mem_cons_of_mem v mem))
          (fun u mem => fits u (List.mem_cons_of_mem v mem)) (by omega) (List.cons_ne_nil w acc),
        List.reverse_cons, List.append_assoc]
      rfl

/-- The members after the first are read up to the closing brace and taken up one after the
other. -/
theorem readMembers_more {ms ns : Members}
    (settled : List.Forall₂ (fun m n => m.1 = n.1 ∧ m.2.settle = some n.2) ms ns)
    (back : ∀ m ∈ ms, ∀ w, m.2.settle = some w → ReadsAs m.2 w)
    (fits : ∀ m ∈ ms, m.2.depth ≤ depth) {fuel : Nat}
    (enough : (ofChars (renderMoreMembers ms)).length < fuel) {acc : Members} :
    readMembers fuel depth acc false (ofChars (renderMoreMembers ms) ++ 0x7D :: rest) =
      .ok (.obj (ns.foldl (fun ms n => Members.insert n.1 n.2 ms) acc), rest) := by
  induction settled generalizing fuel acc with
  | nil =>
    cases fuel with
    | zero => cases enough
    | succ fuel => exact readMembers_close
  | @cons m n ms ns settled _ ih =>
    obtain ⟨named, settled⟩ := settled
    have bytes : ofChars (renderMoreMembers (m :: ms)) =
        0x2C :: (ofChars (renderMember m) ++ ofChars (renderMoreMembers ms)) := by
      rw [renderMoreMembers, List.flatMap_cons, ← renderMoreMembers, ofChars_append,
        ofChars_cons_of_ascii (by decide)]
      rfl
    rw [bytes] at enough ⊢
    rw [List.length_cons, List.length_append] at enough
    have size := length_renderChars_le m
    cases fuel with
    | zero => cases enough
    | succ fuel =>
      have read := back m List.mem_cons_self n.2 settled fuel depth _ (by omega)
        (fits m List.mem_cons_self) (apart_moreMembers ms rest)
      rw [List.cons_append, List.append_assoc, readMembers_comma read,
        ih (fun k mem => back k (List.mem_cons_of_mem m mem))
          (fun k mem => fits k (List.mem_cons_of_mem m mem)) (by omega), named]
      rfl

/-- An array is read item by item. -/
theorem readsAs_arr {xs ys : List Json}
    (settled : List.Forall₂ (fun v w => v.settle = some w) xs ys)
    (back : ∀ v ∈ xs, ∀ w, v.settle = some w → ReadsAs v w) : ReadsAs (.arr xs) (.arr ys) := by
  intro fuel depth rest enough fits _
  rw [Json.depth] at fits
  obtain ⟨depth, rfl⟩ : ∃ n, depth = n + 1 := ⟨depth - 1, by omega⟩
  have items : ∀ v ∈ xs, v.depth ≤ depth := by
    intro v mem
    have below := depth_le_of_mem_items mem
    omega
  have bytes : ofChars (renderChars (.arr xs)) = 0x5B :: (ofChars (renderItems xs) ++ [0x5D]) := by
    rw [renderChars, List.cons_append, ofChars_cons_of_ascii (by decide), ofChars_append]
    rfl
  rw [bytes] at enough ⊢
  rw [List.length_cons, List.length_append, List.length_singleton] at enough
  rw [List.cons_append, List.append_assoc]
  obtain ⟨fuel, rfl⟩ : ∃ n, fuel = n + 2 := ⟨fuel - 2, by omega⟩
  rw [readValue, skipSpace_cons (by decide)]
  show readItems (fuel + 1) depth [] (ofChars (renderItems xs) ++ 0x5D :: rest) = _
  cases settled with
  | nil => exact readItems_close
  | @cons v w xs ys settled more =>
    rw [renderItems_cons, ofChars_append] at enough ⊢
    rw [List.length_append] at enough
    have read := back v List.mem_cons_self w settled fuel depth _ (by omega)
      (items v List.mem_cons_self) (apart_more xs rest)
    obtain ⟨b, bytes, first, solid, other⟩ := first_of_settle settled
    have size : 0 < (ofChars (renderChars v)).length := by
      rw [first]
      exact Nat.succ_pos _
    rw [List.append_assoc]
    rw [first, List.cons_append] at read ⊢
    rw [readItems_first solid other read,
      readItems_more more (fun u mem => back u (List.mem_cons_of_mem v mem))
        (fun u mem => items u (List.mem_cons_of_mem v mem)) (by omega) (List.cons_ne_nil w [])]
    rfl

/-- An object is read member by member. -/
theorem readsAs_obj {ms ns : Members}
    (settled : List.Forall₂ (fun m n => m.1 = n.1 ∧ m.2.settle = some n.2) ms ns)
    (back : ∀ m ∈ ms, ∀ w, m.2.settle = some w → ReadsAs m.2 w) :
    ReadsAs (.obj ms) (object ns) := by
  intro fuel depth rest enough fits _
  rw [Json.depth] at fits
  obtain ⟨depth, rfl⟩ : ∃ n, depth = n + 1 := ⟨depth - 1, by omega⟩
  have values : ∀ m ∈ ms, m.2.depth ≤ depth := by
    intro m mem
    have below := depth_le_of_mem_members mem
    omega
  have bytes : ofChars (renderChars (.obj ms)) = 0x7B :: (ofChars (renderMembers ms) ++ [0x7D]) := by
    rw [renderChars, List.cons_append, ofChars_cons_of_ascii (by decide), ofChars_append]
    rfl
  rw [bytes] at enough ⊢
  rw [List.length_cons, List.length_append, List.length_singleton] at enough
  rw [List.cons_append, List.append_assoc]
  obtain ⟨fuel, rfl⟩ : ∃ n, fuel = n + 2 := ⟨fuel - 2, by omega⟩
  rw [readValue, skipSpace_cons (by decide)]
  show readMembers (fuel + 1) depth [] true (ofChars (renderMembers ms) ++ 0x7D :: rest) = _
  cases settled with
  | nil => exact readMembers_close
  | @cons m n ms ns settled more =>
    obtain ⟨named, settled⟩ := settled
    rw [renderMembers_cons, ofChars_append] at enough ⊢
    rw [List.length_append] at enough
    have size := length_renderChars_le m
    have read := back m List.mem_cons_self n.2 settled fuel depth _ (by omega)
      (values m List.mem_cons_self) (apart_moreMembers ms rest)
    rw [List.append_assoc, readMembers_first read,
      readMembers_more more (fun k mem => back k (List.mem_cons_of_mem m mem))
        (fun k mem => values k (List.mem_cons_of_mem m mem)) (by omega), named]
    rfl

end Containers

/-- A value without items or members. Its text is not empty, so there is fuel. -/
theorem readsAs_leaf {v w : Json}
    (read : ∀ fuel depth rest, Apart rest →
      readValue (fuel + 1) depth (ofChars (renderChars v) ++ rest) = .ok (w, rest))
    (some : ofChars (renderChars v) ≠ []) : ReadsAs v w := by
  intro fuel depth rest enough _ apart
  have size := List.length_pos_iff.2 some
  obtain ⟨fuel, rfl⟩ : ∃ n, fuel = n + 1 := ⟨fuel - 1, by omega⟩
  exact read fuel depth rest apart

theorem readsAs_number {v w : Json} (settled : settleNumber v = some w) : ReadsAs v w := by
  rw [settleNumber_eq_some, encode_eq_ofChars] at settled
  obtain ⟨b, more, bytes, starts⟩ := starts_of_readNumber settled
  refine readsAs_leaf (fun fuel depth rest apart => ?_) (bytes ▸ List.cons_ne_nil b more)
  have number := readNumber_append apart settled
  rw [bytes, List.cons_append] at number ⊢
  rw [readValue_number starts]
  exact number

/-- **The text of a value is read as what the value settles to**, before any rest that does not go
on with a number. -/
theorem readsAs_of_settle {v w : Json} (settled : v.settle = some w) : ReadsAs v w := by
  induction deep : v.depth using Nat.strong_induction_on generalizing v w with
  | _ n ih =>
    cases v with
    | null =>
      cases settled
      refine readsAs_leaf (fun fuel depth rest _ => ?_) (List.cons_ne_nil 0x6E [0x75, 0x6C, 0x6C])
      show readValue (fuel + 1) depth (0x6E :: 0x75 :: 0x6C :: 0x6C :: rest) = _
      rw [readValue, skipSpace_cons (by decide)]
      rfl
    | bool b =>
      cases settled
      cases b with
      | false =>
        refine readsAs_leaf (fun fuel depth rest _ => ?_)
          (List.cons_ne_nil 0x66 [0x61, 0x6C, 0x73, 0x65])
        show readValue (fuel + 1) depth (0x66 :: 0x61 :: 0x6C :: 0x73 :: 0x65 :: rest) = _
        rw [readValue, skipSpace_cons (by decide)]
        rfl
      | true =>
        refine readsAs_leaf (fun fuel depth rest _ => ?_)
          (List.cons_ne_nil 0x74 [0x72, 0x75, 0x65])
        show readValue (fuel + 1) depth (0x74 :: 0x72 :: 0x75 :: 0x65 :: rest) = _
        rw [readValue, skipSpace_cons (by decide)]
        rfl
    | int i =>
      rw [settle] at settled
      exact readsAs_number settled
    | float x =>
      rw [settle] at settled
      exact readsAs_number settled
    | str s =>
      cases settled
      have bytes : ∀ rest, ofChars (renderChars (.str s)) ++ rest =
          0x22 :: (ofChars (s.toList.flatMap escape) ++ 0x22 :: rest) := by
        intro rest
        show ofChars ('"' :: (s.toList.flatMap escape ++ ['"'])) ++ rest = _
        rw [ofChars_cons_of_ascii (by decide), ofChars_append, List.cons_append, List.append_assoc]
        rfl
      refine readsAs_leaf (fun fuel depth rest _ => ?_) ?_
      · rw [bytes, readValue, skipSpace_cons (by decide)]
        show Except.map _ (readString (ofChars (s.toList.flatMap escape) ++ 0x22 :: rest)) = _
        rw [readString_renderString]
        rfl
      · have shape := bytes []
        rw [List.append_nil] at shape
        rw [shape]
        exact List.cons_ne_nil _ _
    | arr xs =>
      obtain ⟨ys, items, rfl⟩ := Option.map_eq_some_iff.1 (by rwa [settle] at settled)
      refine readsAs_arr (settleItems_eq_some.1 items) fun v mem w settled => ?_
      have below := depth_le_of_mem_items mem
      exact ih v.depth (by rw [← deep, Json.depth]; omega) settled rfl
    | obj ms =>
      obtain ⟨ns, members, rfl⟩ := Option.map_eq_some_iff.1 (by rwa [settle] at settled)
      refine readsAs_obj (settleMembers_eq_some.1 members) fun m mem w settled => ?_
      have below := depth_le_of_mem_members mem
      exact ih m.2.depth (by rw [← deep, Json.depth]; omega) settled rfl

/-- **What was encoded is read as what it settles to** if it is not too deep. -/
theorem read_encode_of_settle {v w : Json} (settled : v.settle = some w)
    (shallow : v.depth ≤ maxDepth) : read v.encode = .ok w := by
  have value := readsAs_of_settle settled (2 * v.encode.length + 2) maxDepth []
    (by rw [encode_eq_ofChars]; omega) shallow apart_nil
  rw [List.append_nil, ← encode_eq_ofChars] at value
  rw [read, value]
  rfl

theorem settle_int {i : Int} (low : -(2 ^ 63) ≤ i) (high : i < 2 ^ 64) :
    (Json.int i).settle = some (.int i) := by
  rw [settle, settleNumber_eq_some, encode_eq_ofChars]
  exact readNumber_renderInt low high

/-! ## Values that a text can stand for -/

/-- Nothing changes about a value that a text can stand for. -/
theorem settle_of_writable {v : Json} (writable : Writable v) : v.settle = some v := by
  induction writable with
  | null | bool | str => rfl
  | int low high => exact settle_int low high
  | float back => rw [settle, settleNumber_eq_some, back]
  | arr _ settled =>
    rw [settle, settleItems_eq_some.2 (List.forall₂_same.2 settled)]
    rfl
  | @obj ms ordered _ settled =>
    have members : settleMembers ms = some ms :=
      settleMembers_eq_some.2 (List.forall₂_same.2 fun m mem => ⟨rfl, settled m mem⟩)
    rw [settle, members, Option.map_some, object, ofList_of_ordered ordered]

theorem first_of_writable {v : Json} (writable : Writable v) :
    ∃ b more, ofChars (renderChars v) = b :: more ∧ isSpace b = false ∧ b ≠ 0x5D :=
  first_of_settle (settle_of_writable writable)

/-- **What was encoded is read back** if it is not too deep. -/
theorem read_encode {v : Json} (writable : Writable v) (shallow : v.depth ≤ maxDepth) :
    read v.encode = .ok v :=
  read_encode_of_settle (settle_of_writable writable) shallow

end Supervision.Json
