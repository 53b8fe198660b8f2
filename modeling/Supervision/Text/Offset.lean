/-!
# Offsets in a text

A place in a text is given by its offset, the number of bytes that the characters before it take in
UTF-8. Not every number is the offset of a place: inside a character, and beyond the end, a text
cannot be cut. `cut?` refuses exactly such numbers (`isValid_iff_cut?`).
-/

namespace Supervision.Text

/-- How many bytes characters take. -/
def width : List Char → Nat
  | [] => 0
  | c :: cs => c.utf8Size + width cs

@[simp] theorem width_nil : width [] = 0 := rfl

@[simp] theorem width_cons (c : Char) (cs : List Char) :
    width (c :: cs) = c.utf8Size + width cs := rfl

@[simp] theorem width_append (cs ds : List Char) : width (cs ++ ds) = width cs + width ds := by
  induction cs with
  | nil => rw [List.nil_append, width_nil, Nat.zero_add]
  | cons c cs ih => rw [List.cons_append, width_cons, width_cons, ih, Nat.add_assoc]

/-- Every character takes a byte. -/
theorem width_eq_zero {cs : List Char} : width cs = 0 ↔ cs = [] := by
  cases cs with
  | nil => exact iff_of_true rfl rfl
  | cons c cs =>
    have positive := c.utf8Size_pos
    rw [width_cons]
    exact iff_of_false (by omega) (List.cons_ne_nil c cs)

/-- Cuts a text in two at an offset. -/
def cut? : Nat → List Char → Option (List Char × List Char)
  | 0, cs => some ([], cs)
  | _ + 1, [] => none
  | offset + 1, c :: cs =>
    if c.utf8Size ≤ offset + 1 then
      (cut? (offset + 1 - c.utf8Size) cs).map (fun p => (c :: p.1, p.2))
    else none

/-- The offset at which a pattern stands first. -/
def offsetOf? (pattern cs : List Char) : Option Nat :=
  if pattern.isPrefixOf cs then some 0
  else
    match cs with
    | [] => none
    | c :: cs => (offsetOf? pattern cs).map (c.utf8Size + ·)

/-! ## Cutting -/

theorem cut?_width (front back : List Char) :
    cut? (width front) (front ++ back) = some (front, back) := by
  induction front with
  | nil => rw [width_nil, List.nil_append, cut?]
  | cons c front ih =>
    obtain ⟨size, positive⟩ := Nat.exists_eq_succ_of_ne_zero (Nat.ne_of_gt c.utf8Size_pos)
    have offset : width (c :: front) = size + width front + 1 := by
      rw [width_cons, positive, Nat.succ_add]
    have fits : c.utf8Size ≤ size + width front + 1 := by omega
    have left : size + width front + 1 - c.utf8Size = width front := by omega
    rw [offset, List.cons_append, cut?, if_pos fits, left, ih]
    rfl

/-- A cut loses nothing, and what is before it takes as many bytes as its offset says. -/
theorem cut?_eq_some {offset : Nat} {cs front back : List Char} :
    cut? offset cs = some (front, back) ↔ cs = front ++ back ∧ width front = offset := by
  refine ⟨fun cut => ?_, ?_⟩
  · induction cs generalizing offset front with
    | nil =>
      cases offset with
      | zero =>
        cases cut
        exact ⟨rfl, rfl⟩
      | succ offset => cases cut
    | cons c cs ih =>
      cases offset with
      | zero =>
        rw [cut?] at cut
        cases cut
        exact ⟨rfl, rfl⟩
      | succ offset =>
        rw [cut?] at cut
        split at cut
        · next fits =>
          obtain ⟨⟨front, back⟩, later, same⟩ := Option.map_eq_some_iff.1 cut
          cases same
          obtain ⟨rfl, left⟩ := ih later
          refine ⟨rfl, ?_⟩
          rw [width_cons, left]
          omega
        · cases cut
  · rintro ⟨rfl, rfl⟩
    exact cut?_width front back

theorem width_eq_utf8ByteSize (cs : List Char) : width cs = (String.ofList cs).utf8ByteSize := by
  induction cs with
  | nil => rfl
  | cons c cs ih =>
    have one : String.ofList [c] = String.singleton c := String.singleton_eq_ofList.symm
    rw [← List.singleton_append, String.ofList_append, String.utf8ByteSize_append, one,
      String.utf8ByteSize_singleton, ← ih, width_append, width_cons, width_nil, Nat.add_zero]

/-- A text is cut at the boundaries of its characters and nowhere else. -/
theorem isValid_iff_cut? {offset : Nat} {cs : List Char} :
    String.Pos.Raw.IsValid (String.ofList cs) ⟨offset⟩ ↔
      ∃ front back, cut? offset cs = some (front, back) := by
  rw [String.Pos.Raw.isValid_iff_exists_append]
  constructor
  · rintro ⟨front, back, whole, place⟩
    refine ⟨front.toList, back.toList, cut?_eq_some.2 ⟨?_, ?_⟩⟩
    · rw [← String.toList_append, ← whole, String.toList_ofList]
    · rw [width_eq_utf8ByteSize, String.ofList_toList]
      exact (congrArg String.Pos.Raw.byteIdx place).symm
  · rintro ⟨front, back, cut⟩
    obtain ⟨rfl, rfl⟩ := cut?_eq_some.1 cut
    refine ⟨String.ofList front, String.ofList back, String.ofList_append, ?_⟩
    rw [width_eq_utf8ByteSize]
    rfl

/-! ## Finding -/

section Find

variable {pattern cs : List Char}

theorem not_infix_of_offsetOf? (nonempty : pattern ≠ []) (missing : offsetOf? pattern cs = none) :
    ¬pattern <:+: cs := by
  induction cs with
  | nil => exact fun inside => nonempty (List.infix_nil.1 inside)
  | cons c cs ih =>
    rw [offsetOf?] at missing
    split at missing
    · cases missing
    · next elsewhere =>
      intro inside
      rcases List.infix_cons_iff.1 inside with first | later
      · exact elsewhere (List.isPrefixOf_iff_prefix.2 first)
      · exact ih (Option.map_eq_none_iff.1 missing) later

/-- What is found is the first place of the pattern: it does not stand in what is before. -/
theorem of_offsetOf? {offset : Nat} (nonempty : pattern ≠ [])
    (found : offsetOf? pattern cs = some offset) :
    ∃ front back, cs = front ++ (pattern ++ back) ∧ width front = offset ∧
      ¬pattern <:+: front := by
  induction cs generalizing offset with
  | nil =>
    rw [offsetOf?] at found
    split at found
    · next first => exact absurd (List.prefix_nil.1 (List.isPrefixOf_iff_prefix.1 first)) nonempty
    · cases found
  | cons c cs ih =>
    rw [offsetOf?] at found
    split at found
    · next first =>
      cases found
      obtain ⟨back, whole⟩ := List.isPrefixOf_iff_prefix.1 first
      exact ⟨[], back, whole.symm, rfl, fun inside => nonempty (List.infix_nil.1 inside)⟩
    · next elsewhere =>
      obtain ⟨later, further, rfl⟩ := Option.map_eq_some_iff.1 found
      obtain ⟨front, back, rfl, rfl, absent⟩ := ih further
      refine ⟨c :: front, back, rfl, width_cons c front, fun inside => ?_⟩
      rcases List.infix_cons_iff.1 inside with first | later
      · refine elsewhere (List.isPrefixOf_iff_prefix.2 ?_)
        exact first.trans (List.prefix_append (c :: front) (pattern ++ back))
      · exact absent later

end Find

end Supervision.Text
