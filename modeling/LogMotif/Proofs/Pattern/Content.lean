import LogMotif.Pattern.Threads

/-! # The content of JSON strings in line patterns

A stretch of string content is a sequence of units: a character that stands for itself, or a
backslash with the character behind it. The functions that cut stretches off the front of a text are
described here by the texts they cut off, so that what follows need not look at how they scan.
-/

namespace LogMotif

namespace LineItem

/-- The content of a JSON string on one line, as a sequence of units. -/
inductive IsContent : List Char → Prop
  | nil : IsContent []
  | plain {c : Char} {rest : List Char} (unit : isPlain c = true) (content : IsContent rest) :
      IsContent (c :: rest)
  | escaped {c : Char} {rest : List Char} (unit : c ≠ '\n') (content : IsContent rest) :
      IsContent ('\\' :: c :: rest)

/-- String content that is not empty. -/
def IsStretch (text : List Char) : Prop := text ≠ [] ∧ IsContent text

theorem ne_of_isPlain {c : Char} (plain : isPlain c = true) : c ≠ '"' ∧ c ≠ '\\' ∧ c ≠ '\n' := by
  simpa [isPlain, and_assoc] using plain

namespace IsContent

theorem append {front back : List Char} (first : IsContent front) (second : IsContent back) :
    IsContent (front ++ back) := by
  induction first with
  | nil => exact second
  | plain unit _ ih => exact .plain unit ih
  | escaped unit _ ih => exact .escaped unit ih

/-- Content does not reach across a quote, so the quote behind it is found in one place only. -/
theorem eq_of_append_quote {left right leftRest rightRest : List Char} (first : IsContent left)
    (second : IsContent right) (same : left ++ '"' :: leftRest = right ++ '"' :: rightRest) :
    left = right ∧ leftRest = rightRest := by
  induction first generalizing right with
  | nil =>
    cases second with
    | nil => simpa using same
    | plain unit _ => exact absurd (List.cons.inj same).1.symm (ne_of_isPlain unit).1
    | escaped => simp at same
  | plain unit _ ih =>
    cases second with
    | nil => exact absurd (List.cons.inj same).1 (ne_of_isPlain unit).1
    | plain _ content =>
      simp only [List.cons_append, List.cons.injEq] at same
      obtain ⟨rfl, rests⟩ := ih content same.2
      exact ⟨by rw [same.1], rests⟩
    | escaped => exact absurd (List.cons.inj same).1 (ne_of_isPlain unit).2.1
  | escaped _ _ ih =>
    cases second with
    | nil => simp at same
    | plain unit _ => exact absurd (List.cons.inj same).1.symm (ne_of_isPlain unit).2.1
    | escaped _ content =>
      simp only [List.cons_append, List.cons.injEq, true_and] at same
      obtain ⟨rfl, rests⟩ := ih content same.2
      exact ⟨by rw [same.1], rests⟩

end IsContent

theorem IsStretch.of_plain {c : Char} (plain : isPlain c = true) {rest : List Char}
    (content : IsContent rest) : IsStretch (c :: rest) :=
  ⟨List.cons_ne_nil _ _, .plain plain content⟩

theorem IsStretch.of_escaped {c : Char} (inLine : c ≠ '\n') {rest : List Char}
    (content : IsContent rest) : IsStretch ('\\' :: c :: rest) :=
  ⟨List.cons_ne_nil _ _, .escaped inLine content⟩

/-- A stretch in front of which stands a backslash begins with that escape. -/
theorem IsStretch.eq_escaped {stretch rest text : List Char} {c : Char} (isStretch : IsStretch stretch)
    (same : '\\' :: c :: text = stretch ++ rest) :
    c ≠ '\n' ∧ ∃ more, IsContent more ∧ stretch = '\\' :: c :: more ∧ text = more ++ rest := by
  obtain ⟨notEmpty, content⟩ := isStretch
  cases content with
  | nil => exact absurd rfl notEmpty
  | plain unit _ => exact absurd (List.cons.inj same).1.symm (ne_of_isPlain unit).2.1
  | @escaped d more unit content =>
    simp only [List.cons_append, List.cons.injEq, true_and] at same
    obtain ⟨rfl, rfl⟩ := same
    exact ⟨unit, more, content, rfl, rfl⟩

/-- A stretch that begins with no escape begins with a plain character. -/
theorem IsStretch.eq_plain {stretch rest text : List Char} {c : Char} (isStretch : IsStretch stretch)
    (notEscape : ∀ d more, c = '\\' → text = d :: more → False)
    (same : c :: text = stretch ++ rest) :
    isPlain c = true ∧ ∃ more, IsContent more ∧ stretch = c :: more ∧ text = more ++ rest := by
  obtain ⟨notEmpty, content⟩ := isStretch
  cases content with
  | nil => exact absurd rfl notEmpty
  | @plain d more unit content =>
    simp only [List.cons_append, List.cons.injEq] at same
    obtain ⟨rfl, rfl⟩ := same
    exact ⟨unit, more, content, rfl, rfl⟩
  | @escaped d more _ _ =>
    simp only [List.cons_append, List.cons.injEq] at same
    exact (notEscape d _ same.1 same.2).elim

theorem IsStretch.append_ne_quote {stretch rest left : List Char} (isStretch : IsStretch stretch) :
    stretch ++ rest ≠ '"' :: left := by
  intro same
  exact absurd (isStretch.eq_plain (by simp) same.symm).1 (by decide)

/-! ### What the scanning functions cut off -/

theorem behind?_eq_some_iff {expected text rest : List Char} :
    behind? expected text = some rest ↔ text = expected ++ rest := by
  fun_induction behind? expected text with
  | case1 text => simp [eq_comm]
  | case2 => simp
  | case3 expected c text ih => simpa using ih
  | case4 c expected d text different => simp [Ne.symm different]

/-- The ends of stretches at the front of a text are the places behind its stretches. -/
theorem mem_stretchEnds_iff {taken reached : Nat} {text rest : List Char} :
    (reached, rest) ∈ stretchEnds taken text ↔
      ∃ stretch, IsStretch stretch ∧ text = stretch ++ rest ∧
        reached = taken + stretch.length := by
  fun_induction stretchEnds taken text with
  | case1 taken text =>
    constructor
    · simp
    · rintro ⟨stretch, isStretch, same, -⟩
      exact absurd rfl (isStretch.eq_escaped same).1
  | case2 taken c text inLine ih =>
    rw [List.mem_cons, ih]
    constructor
    · rintro (here | ⟨stretch, ⟨_, content⟩, rfl, rfl⟩)
      · obtain ⟨rfl, rfl⟩ := Prod.mk.inj here
        exact ⟨['\\', c], .of_escaped inLine .nil, rfl, rfl⟩
      · exact ⟨'\\' :: c :: stretch, .of_escaped inLine content, rfl, by simp; omega⟩
    · rintro ⟨stretch, isStretch, same, rfl⟩
      obtain ⟨-, more, content, rfl, rfl⟩ := isStretch.eq_escaped same
      cases more with
      | nil => exact .inl rfl
      | cons d more => exact .inr ⟨d :: more, ⟨List.cons_ne_nil _ _, content⟩, rfl, by simp; omega⟩
  | case3 taken c text notEscape plain ih =>
    rw [List.mem_cons, ih]
    constructor
    · rintro (here | ⟨stretch, ⟨_, content⟩, rfl, rfl⟩)
      · obtain ⟨rfl, rfl⟩ := Prod.mk.inj here
        exact ⟨[c], .of_plain plain .nil, rfl, rfl⟩
      · exact ⟨c :: stretch, .of_plain plain content, rfl, by simp; omega⟩
    · rintro ⟨stretch, isStretch, same, rfl⟩
      obtain ⟨-, more, content, rfl, rfl⟩ := isStretch.eq_plain notEscape same
      cases more with
      | nil => exact .inl rfl
      | cons d more => exact .inr ⟨d :: more, ⟨List.cons_ne_nil _ _, content⟩, rfl, by simp; omega⟩
  | case4 taken c text notEscape notPlain =>
    constructor
    · simp
    · rintro ⟨stretch, isStretch, same, -⟩
      exact absurd (isStretch.eq_plain notEscape same).1 notPlain
  | case5 taken =>
    constructor
    · simp
    · rintro ⟨stretch, ⟨notEmpty, -⟩, same, -⟩
      exact absurd (List.append_eq_nil_iff.mp same.symm).1 notEmpty

/-- Skipping as much content as possible stops in front of a text that starts with no unit. -/
private theorem exists_content_append_skipContent (text : List Char) :
    ∃ content, IsContent content ∧ text = content ++ skipContent text := by
  fun_induction skipContent text with
  | case1 text => exact ⟨[], .nil, rfl⟩
  | case2 c text inLine ih =>
    obtain ⟨content, isContent, same⟩ := ih
    exact ⟨'\\' :: c :: content, .escaped inLine isContent, by rw [List.cons_append,
      List.cons_append, ← same]⟩
  | case3 c text _ plain ih =>
    obtain ⟨content, isContent, same⟩ := ih
    exact ⟨c :: content, .plain plain isContent, by rw [List.cons_append, ← same]⟩
  | case4 => exact ⟨[], .nil, rfl⟩
  | case5 => exact ⟨[], .nil, rfl⟩

/-- Content in front of a quote is skipped as a whole. -/
private theorem skipContent_append_quote {content : List Char} (isContent : IsContent content)
    (rest : List Char) : skipContent (content ++ '"' :: rest) = '"' :: rest := by
  induction isContent with
  | nil => simp [skipContent, isPlain]
  | @plain c more unit _ ih =>
    have notEscape := (ne_of_isPlain unit).2.1
    rw [List.cons_append, skipContent.eq_2 _ _ (by simp_all), if_pos unit, ih]
  | escaped unit _ ih => simpa [skipContent, unit] using ih

theorem behindString?_eq_some_iff {text rest : List Char} :
    behindString? text = some rest ↔
      ∃ content, IsContent content ∧ text = '"' :: (content ++ '"' :: rest) := by
  constructor
  · intro found
    unfold behindString? at found
    split at found
    · rename_i inside
      split at found
      · rename_i left quote
        obtain ⟨content, isContent, same⟩ := exists_content_append_skipContent inside
        obtain rfl := Option.some.inj found
        exact ⟨content, isContent, by rw [← quote, ← same]⟩
      · simp at found
    · simp at found
  · rintro ⟨content, isContent, rfl⟩
    simp [behindString?, skipContent_append_quote isContent]

end LineItem

end LogMotif
