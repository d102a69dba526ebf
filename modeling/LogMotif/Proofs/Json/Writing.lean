import LogMotif.Proofs.Json.ReplayLiteral
import LogMotif.Proofs.Json.Separated

/-! # Scalars that are read back

A truth value, a text, and a natural number that fits a word are read back from their written form.
A number is read up to the comma, the bracket or the blank behind it.
-/

namespace LogMotif.Json

namespace Read

variable {rest : List Char}

/-! ### Numbers -/

private theorem le_ofDigitChars (digits : List Char) (value : Nat) :
    value ≤ Nat.ofDigitChars 10 digits value := by
  induction digits generalizing value with
  | nil => exact Nat.le_refl value
  | cons c digits ih =>
    rw [Nat.ofDigitChars_cons]
    exact Nat.le_trans (by omega) (ih _)

/-- Digits of a number within the limit are appended without any left over. -/
private theorem appendDigits_of_le {limit : Nat} {digits : List Char} {value : Nat}
    (le : Nat.ofDigitChars 10 digits value ≤ limit) :
    appendDigits limit value (digits.map fun c => c.toNat - '0'.toNat) =
      (Nat.ofDigitChars 10 digits value, []) := by
  induction digits generalizing value with
  | nil => rfl
  | cons c digits ih =>
    rw [Nat.ofDigitChars_cons, Nat.mul_comm] at le ⊢
    have here := Nat.le_trans (le_ofDigitChars digits _) le
    rw [List.map_cons, appendDigits, if_pos here]
    exact ih le

/-- Only zero is written with a zero in front. -/
private theorem head?_toDigits_ne_zero {n : Nat} (positive : 0 < n) :
    (Nat.toDigits 10 n).head? ≠ some '0' := by
  induction n using Nat.strongRecOn with
  | ind n ih =>
    by_cases small : n < 10
    · have all : ∀ n < 10, 0 < n → [Nat.digitChar n].head? ≠ some '0' := by decide
      rw [Nat.toDigits_of_lt_base small]
      exact all n small positive
    · have shorter := ih (n / 10) (by omega) (by omega)
      rw [Nat.toDigits_of_base_le (by decide) (by omega), List.head?_append]
      obtain ⟨c, rest, front⟩ := List.exists_cons_of_length_pos
        (Nat.length_toDigits_pos : 0 < (Nat.toDigits 10 (n / 10)).length)
      rw [front] at shorter ⊢
      exact shorter

private theorem isDigit_eq_false_of_mem {c : Char} (ends : c ∈ bounds) : isDigit c = false := by
  have all : bounds.all (!isDigit ·) := by decide
  simpa using List.all_eq_true.mp all c ends

private theorem isDigit_of_mem_toDigits {n : Nat} {c : Char} (member : c ∈ Nat.toDigits 10 n) :
    isDigit c := by
  have digit := Nat.isDigit_of_mem_toDigits (by decide) (by decide) member
  simpa [Char.isDigit, isDigit, Char.le_def] using digit

/-- A number is written with a digit at least. -/
theorem exists_toDigits_eq_cons (n : Nat) :
    ∃ first more, Nat.toDigits 10 n = first :: more ∧ isDigit first := by
  obtain ⟨first, more, same⟩ :=
    List.exists_cons_of_length_pos (Nat.length_toDigits_pos : 0 < (Nat.toDigits 10 n).length)
  have member : first ∈ Nat.toDigits 10 n := by
    rw [same]
    exact List.mem_cons_self
  exact ⟨first, more, same, isDigit_of_mem_toDigits member⟩

theorem isSpace_eq_false_of_isDigit {c : Char} (digit : isDigit c) : isSpace c = false := by
  rw [Bool.eq_false_iff]
  intro space
  simp only [isSpace, Bool.or_eq_true, beq_iff_eq] at space
  revert digit
  rcases space with ((rfl | rfl) | rfl) | rfl <;> decide

private theorem takes_numberRest (n : Nat) (bounded : Bounded rest) :
    (numberRest .strict false n 0).Takes [] rest (.integer n) := by
  have other {mark : Char} (noBound : mark ∉ bounds) : rest.head? ≠ some mark :=
    fun ahead => noBound (bounded mark ahead)
  refine takes_peek_bind ?_
  rw [List.nil_append]
  split
  next same => exact absurd same (other (by decide))
  next same => exact absurd same (other (by decide))
  next same => exact absurd same (other (by decide))
  next => exact takes_pure (Number.integer n) rest

/-- A number that fits a word is read from its digits. -/
private theorem takes_number {n : Nat} (le : n ≤ greatestSignificand) (bounded : Bounded rest) :
    (number .strict false).Takes (Nat.toDigits 10 n) rest (.integer n) := by
  have noDigit : ∀ c ∈ rest.head?, isDigit c = false :=
    fun c ahead => isDigit_eq_false_of_mem (bounded c ahead)
  rcases Nat.eq_zero_or_pos n with rfl | positive
  · have noMore : rest.head?.any isDigit = false := by
      cases ahead : rest.head? with
      | none => rfl
      | some c => exact noDigit c ahead
    refine takes_peek_bind (takes_advance_bind (takes_peek_bind ?_))
    simp only [List.nil_append, noMore, Bool.false_eq_true, if_false]
    exact takes_numberRest 0 bounded
  · have run : digits.Takes (Nat.toDigits 10 n) rest
        ((Nat.toDigits 10 n).map fun c => c.toNat - '0'.toNat) :=
      fun position => digits_append (fun c => isDigit_of_mem_toDigits) noDigit position
    have folded : Nat.ofDigitChars 10 (Nat.toDigits 10 n) 0 = n :=
      Nat.ofDigitChars_toDigits (by decide) (by decide)
    have appended : appendDigits greatestSignificand 0
        ((Nat.toDigits 10 n).map fun c => c.toNat - '0'.toNat) = (n, []) := by
      rw [appendDigits_of_le (by rwa [folded]), folded]
    obtain ⟨first, more, digits_eq, isFirst⟩ := exists_toDigits_eq_cons n
    have notZero : first ≠ '0' := by
      rintro rfl
      exact head?_toDigits_ne_zero positive (by simp [digits_eq])
    have ahead : (Nat.toDigits 10 n ++ rest).head? = some first := by rw [digits_eq]; rfl
    refine takes_peek_bind ?_
    rw [ahead]
    split
    next none => cases none
    next zero => exact absurd (Option.some.inj zero) notZero
    next _ _ same =>
      obtain rfl := Option.some.inj same
      simp only [isFirst, Bool.not_true, Bool.false_eq_true, if_false]
      refine run.bind_nil ?_
      simp only [appended]
      exact takes_numberRest n bounded

end Read

namespace Value

/-- The characters of the written form of a value. -/
def chars (value : Value) : List Char := value.compact.toList

theorem chars_ofNat (n : Nat) : (ofNat n).chars = Nat.toDigits 10 n := by
  rw [chars, ofNat, compact, Number.text]
  exact String.toList_ofList

theorem chars_string (text : String) :
    (string text).chars = '"' :: (Json.escape text.toList ++ ['"']) := toList_quote text

end Value

namespace Read

variable {rest : List Char}

/-! ### Scalars -/

private theorem takes_word (text rest : List Char) : (word text).Takes text rest () := by
  induction text with
  | nil => exact takes_pure () rest
  | cons c text ih =>
    refine takes_peek_bind ?_
    simp only [List.cons_append, List.head?_cons, if_true]
    exact takes_advance_bind ih

private theorem takes_scalar_bool (flag : Bool) (rest : List Char) :
    (scalar .strict).Takes (Value.bool flag).chars rest (.bool flag) := by
  cases flag with
  | false =>
    exact takes_peek_bind (takes_advance_bind ((takes_word "alse".toList rest).bind_nil
      (takes_pure _ rest)))
  | true =>
    exact takes_peek_bind (takes_advance_bind ((takes_word "rue".toList rest).bind_nil
      (takes_pure _ rest)))

private theorem takes_scalar_ofNat {n : Nat} (le : n ≤ greatestSignificand)
    (bounded : Bounded rest) :
    (scalar .strict).Takes (Nat.toDigits 10 n) rest (.ofNat n) := by
  have named : (number .strict false >>= fun found => pure (Value.number found)).Takes
      (Nat.toDigits 10 n) rest (.ofNat n) :=
    (takes_number le bounded).bind_nil (takes_pure (Value.ofNat n) rest)
  obtain ⟨first, more, same, digit⟩ := exists_toDigits_eq_cons n
  have ahead : (Nat.toDigits 10 n ++ rest).head? = some first := by rw [same]; rfl
  have notMark (mark : Char) (other : isDigit mark = false) : some first ≠ some mark := by
    rintro ⟨⟩
    simp [digit] at other
  refine takes_peek_bind ?_
  rw [ahead]
  split
  case h_1 none => cases none
  case h_2 same | h_3 same | h_4 same | h_5 same | h_6 same => exact absurd same (notMark _ rfl)
  case h_7 same =>
    obtain rfl := Option.some.inj same
    rw [if_pos digit]
    exact named

private theorem takes_scalar_string (text : String) (rest : List Char) :
    (scalar .strict).Takes (Value.string text).chars rest (.string text) := by
  rw [Value.chars_string]
  refine takes_peek_bind (takes_advance_bind ?_)
  exact (takes_string text rest).bind_nil (takes_pure (Value.string text) rest)

private theorem takes_value_of_scalar (depth : Nat) {text rest : List Char} {c : Char}
    {more : List Char} {found : Value} (text_eq : text = c :: more) (visible : isSpace c = false)
    (noList : c ≠ '[') (noObject : c ≠ '{') (takes : (scalar .strict).Takes text rest found) :
    (value .strict depth).Takes text rest found := by
  subst text_eq
  have ahead : ∀ d ∈ (c :: more ++ rest).head?, isSpace d = false := by
    rintro _ ⟨⟩
    exact visible
  have either (inner? : Option (Read Value)) :
      (valueWith .strict inner?).Takes (c :: more) rest found := by
    refine takes_skipBlanks_bind ahead (takes_peek_bind ?_)
    simp only [List.cons_append, List.head?_cons]
    split <;> simp_all
  cases depth with
  | zero => exact either none
  | succ depth => exact either _

theorem takes_value_bool (depth : Nat) (flag : Bool) (rest : List Char) :
    (value .strict depth).Takes (Value.bool flag).chars rest (.bool flag) := by
  cases flag <;>
    exact takes_value_of_scalar depth rfl (by decide) (by decide) (by decide)
      (takes_scalar_bool _ _)

theorem takes_value_ofNat (depth : Nat) {n : Nat} (le : n ≤ greatestSignificand)
    (bounded : Bounded rest) :
    (value .strict depth).Takes (Value.ofNat n).chars rest (.ofNat n) := by
  obtain ⟨first, more, same, digit⟩ := exists_toDigits_eq_cons n
  rw [Value.chars_ofNat]
  refine takes_value_of_scalar depth same (isSpace_eq_false_of_isDigit digit) ?_ ?_
    (takes_scalar_ofNat le bounded)
  all_goals
    rintro rfl
    exact absurd digit (by decide)

theorem takes_value_string (depth : Nat) (text : String) (rest : List Char) :
    (value .strict depth).Takes (Value.string text).chars rest (.string text) :=
  takes_value_of_scalar depth (Value.chars_string text) (by decide) (by decide) (by decide)
    (takes_scalar_string text rest)

end Read

end LogMotif.Json
