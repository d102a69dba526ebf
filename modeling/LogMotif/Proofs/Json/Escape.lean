import LogMotif.Json.Quote
import LogMotif.Proofs.Pattern.Content

/-! # What texts are written as

A text is written inside a JSON string character by character. What is written is string content on
one line, it is empty for the empty text only, and it can be read back in one way only. Most
characters are written as one unit of string content; some control characters, which are written in
hexadecimal digits, take five.
-/

namespace LogMotif.Json

open LineItem (IsContent IsStretch isPlain)

/-- Whether a character is written in hexadecimal digits: the control characters that have no letter
of their own. -/
def WrittenInHex (c : Char) : Prop :=
  c.toNat < 0x20 ∧ c ∉ ['\n', '\r', '\t', '\x08', '\x0c']

instance (c : Char) : Decidable (WrittenInHex c) := inferInstanceAs (Decidable (_ ∧ _))

@[simp]
theorem escape_nil : escape [] = [] := rfl

@[simp]
theorem escape_cons (c : Char) (text : List Char) :
    escape (c :: text) = escapeChar c ++ escape text := rfl

@[simp]
theorem escape_append (left right : List Char) :
    escape (left ++ right) = escape left ++ escape right := List.flatMap_append

/-- The characters that are written by a letter behind a backslash, each with its letter. -/
def letters : List (Char × Char) :=
  [('"', '"'), ('\\', '\\'), ('\n', 'n'), ('\r', 'r'), ('\t', 't'), ('\x08', 'b'), ('\x0c', 'f')]

private theorem letter_inj {c d letter : Char} (left : (c, letter) ∈ letters)
    (right : (d, letter) ∈ letters) : c = d := by
  have inj : ∀ p ∈ letters, ∀ q ∈ letters, p.2 = q.2 → p.1 = q.1 := by decide
  exact inj _ left _ right rfl

private theorem letter_ne {c letter : Char} (member : (c, letter) ∈ letters) :
    letter ≠ '\n' ∧ letter ≠ 'u' ∧ ¬ WrittenInHex c := by
  have all : ∀ p ∈ letters, p.2 ≠ '\n' ∧ p.2 ≠ 'u' ∧ ¬ WrittenInHex p.1 := by decide
  exact all _ member

private theorem escapeChar_of_not_lettered {c : Char} (others : ∀ pair ∈ letters, c ≠ pair.1) :
    escapeChar c = if c.toNat < 0x20 then
      ['\\', 'u', '0', '0', hexDigit (c.toNat / 16), hexDigit (c.toNat % 16)] else [c] := by
  simp only [letters, List.forall_mem_cons] at others
  obtain ⟨quote, backslash, feed, carriage, tab, back, form, -⟩ := others
  rw [escapeChar, if_neg quote, if_neg backslash, if_neg feed, if_neg carriage, if_neg tab,
    if_neg back, if_neg form]

theorem escapeChar_of_writtenInHex {c : Char} (inHex : WrittenInHex c) :
    escapeChar c = ['\\', 'u', '0', '0', hexDigit (c.toNat / 16), hexDigit (c.toNat % 16)] := by
  have others : ∀ pair ∈ letters, c ≠ pair.1 := by
    rintro ⟨d, letter⟩ member rfl
    exact (letter_ne member).2.2 inHex
  rw [escapeChar_of_not_lettered others, if_pos inHex.1]

/-- A character is written by its letter, in hexadecimal digits, or as it is. -/
theorem escapeChar_cases (c : Char) :
    (∃ letter, (c, letter) ∈ letters ∧ escapeChar c = ['\\', letter]) ∨
      (WrittenInHex c ∧ escapeChar c =
        ['\\', 'u', '0', '0', hexDigit (c.toNat / 16), hexDigit (c.toNat % 16)]) ∨
      (isPlain c = true ∧ escapeChar c = [c]) := by
  by_cases lettered : ∃ letter, (c, letter) ∈ letters
  · obtain ⟨letter, member⟩ := lettered
    refine .inl ⟨letter, member, ?_⟩
    have written : ∀ pair ∈ letters, escapeChar pair.1 = ['\\', pair.2] := by decide
    exact written (c, letter) member
  · have others : ∀ pair ∈ letters, c ≠ pair.1 := by
      rintro ⟨d, letter⟩ member rfl
      exact lettered ⟨letter, member⟩
    have written := escapeChar_of_not_lettered others
    simp only [letters, List.forall_mem_cons] at others
    obtain ⟨quote, backslash, feed, carriage, tab, back, form, -⟩ := others
    by_cases control : c.toNat < 0x20
    · rw [if_pos control] at written
      exact .inr (.inl ⟨⟨control, by simp [feed, carriage, tab, back, form]⟩, written⟩)
    · rw [if_neg control] at written
      exact .inr (.inr ⟨by simp [isPlain, quote, backslash, feed], written⟩)

theorem isPlain_hexDigit {n : Nat} (small : n < 16) : isPlain (hexDigit n) = true := by
  revert n
  decide

private theorem hexDigit_inj {m n : Nat} (left : m < 16) (right : n < 16)
    (same : hexDigit m = hexDigit n) : m = n := by
  have inj : ∀ m < 16, ∀ n < 16, hexDigit m = hexDigit n → m = n := by decide
  exact inj m left n right same

theorem isContent_escapeChar (c : Char) : IsContent (escapeChar c) := by
  rcases escapeChar_cases c with ⟨letter, member, written⟩ | ⟨⟨control, -⟩, written⟩ | ⟨plain, written⟩
  · rw [written]
    exact .escaped (letter_ne member).1 .nil
  · rw [written]
    refine .escaped (by decide) (.plain (by decide) (.plain (by decide) ?_))
    exact .plain (isPlain_hexDigit (by omega)) (.plain (isPlain_hexDigit (by omega)) .nil)
  · rw [written]
    exact .plain plain .nil

theorem escapeChar_ne_nil (c : Char) : escapeChar c ≠ [] := by
  rcases escapeChar_cases c with ⟨_, -, written⟩ | ⟨-, written⟩ | ⟨-, written⟩ <;> simp [written]

/-- What characters are written as can be told apart at the front of a text. -/
private theorem escapeChar_append_inj {c d : Char} {left right : List Char}
    (same : escapeChar c ++ left = escapeChar d ++ right) : c = d ∧ left = right := by
  rcases escapeChar_cases c with ⟨letter, member, written⟩ | ⟨⟨control, -⟩, written⟩ | ⟨plain, written⟩
  all_goals rcases escapeChar_cases d with
    ⟨other, isOther, writes⟩ | ⟨⟨controls, -⟩, writes⟩ | ⟨plains, writes⟩
  all_goals
    simp only [written, writes, List.cons_append, List.nil_append, List.cons.injEq, true_and] at same
  · obtain ⟨rfl, rest⟩ := same
    exact ⟨letter_inj member isOther, rest⟩
  · exact absurd same.1 (letter_ne member).2.1
  · exact absurd same.1.symm (LineItem.ne_of_isPlain plains).2.1
  · exact absurd same.1.symm (letter_ne isOther).2.1
  · have high := hexDigit_inj (by omega) (by omega) same.1
    have low := hexDigit_inj (by omega) (by omega) same.2.1
    exact ⟨Char.toNat_inj.mp (by omega), same.2.2⟩
  · exact absurd same.1.symm (LineItem.ne_of_isPlain plains).2.1
  · exact absurd same.1 (LineItem.ne_of_isPlain plain).2.1
  · exact absurd same.1 (LineItem.ne_of_isPlain plain).2.1
  · exact same

theorem isContent_escape (text : List Char) : IsContent (escape text) := by
  induction text with
  | nil => exact .nil
  | cons c text ih => exact (isContent_escapeChar c).append ih

theorem escape_eq_nil_iff {text : List Char} : escape text = [] ↔ text = [] := by
  cases text with
  | nil => simp
  | cons c text => simp [escapeChar_ne_nil]

theorem isStretch_escape {text : List Char} (filled : text ≠ []) : IsStretch (escape text) :=
  ⟨mt escape_eq_nil_iff.mp filled, isContent_escape text⟩

theorem toList_quote (text : String) :
    (quote text).toList = '"' :: (escape text.toList ++ ['"']) := by
  simp [quote, escapeText]

theorem isContent_escapeText (text : String) : IsContent (escapeText text).toList := by
  rw [escapeText, String.toList_ofList]
  exact isContent_escape text.toList

theorem isStretch_escapeText {text : String} (filled : text ≠ "") :
    IsStretch (escapeText text).toList := by
  rw [escapeText, String.toList_ofList]
  exact isStretch_escape (mt String.toList_eq_nil_iff.mp filled)

theorem escape_injective : Function.Injective escape := by
  intro left right same
  induction left generalizing right with
  | nil => exact (escape_eq_nil_iff.mp same.symm).symm
  | cons c left ih =>
    cases right with
    | nil => exact escape_eq_nil_iff.mp same
    | cons d right =>
      obtain ⟨rfl, rest⟩ := escapeChar_append_inj same
      rw [ih rest]

/-- A text whose characters are each written as one unit is cut wherever what is written is cut
between units. -/
theorem exists_escape_of_append {text : List Char} (units : ∀ c ∈ text, ¬ WrittenInHex c)
    {left right : List Char} (content : IsContent left) (same : escape text = left ++ right) :
    ∃ front back, text = front ++ back ∧ escape front = left ∧ escape back = right := by
  induction text generalizing left with
  | nil =>
    obtain ⟨rfl, rfl⟩ := List.append_eq_nil_iff.mp same.symm
    exact ⟨[], [], rfl, rfl, rfl⟩
  | cons c text ih =>
    have others : ∀ d ∈ text, ¬ WrittenInHex d := fun d member =>
      units d (List.mem_cons_of_mem c member)
    rw [escape_cons] at same
    rcases escapeChar_cases c with ⟨letter, -, written⟩ | ⟨inHex, -⟩ | ⟨unit, written⟩
    · rw [written] at same
      cases content with
      | nil => exact ⟨[], c :: text, rfl, rfl, by rw [escape_cons, written, same, List.nil_append]⟩
      | plain plain _ =>
        exact absurd (List.cons.inj same).1.symm (LineItem.ne_of_isPlain plain).2.1
      | escaped _ content =>
        simp only [List.cons_append, List.nil_append, List.cons.injEq, true_and] at same
        obtain ⟨rfl, rest⟩ := same
        obtain ⟨front, back, rfl, rfl, behind⟩ := ih others content rest
        exact ⟨c :: front, back, rfl, by rw [escape_cons, written]; rfl, behind⟩
    · exact absurd inHex (units c List.mem_cons_self)
    · rw [written] at same
      cases content with
      | nil => exact ⟨[], c :: text, rfl, rfl, by rw [escape_cons, written, same, List.nil_append]⟩
      | plain _ content =>
        simp only [List.cons_append, List.nil_append, List.cons.injEq] at same
        obtain ⟨rfl, rest⟩ := same
        obtain ⟨front, back, rfl, rfl, behind⟩ := ih others content rest
        exact ⟨c :: front, back, rfl, by rw [escape_cons, written]; rfl, behind⟩
      | escaped => exact absurd (List.cons.inj same).1 (LineItem.ne_of_isPlain unit).2.1

end LogMotif.Json
