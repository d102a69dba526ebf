import LogMotif.Json.Reader
import LogMotif.Proofs.Json.Escape

/-! # Reading what was written

A reader takes a text when it passes over the text, up to what stands behind, and gives a value. How
far it looks ahead depends on what stands behind, so that is a part of the statement; the place of
the text is not. What is taken one behind the other is taken together, so a string is taken character
by character.
-/

namespace LogMotif.Json

namespace Read

variable {α β : Type} {text front back rest : List Char}

/-- Whether a reader takes a text with `rest` behind it, at any place, and gives a value. -/
def Takes (read : Read α) (text rest : List Char) (value : α) : Prop :=
  ∀ position, ∃ stop, read ⟨text ++ rest, position⟩ = .ok (value, ⟨rest, stop⟩)

theorem takes_pure (value : α) (rest : List Char) : (pure value : Read α).Takes [] rest value :=
  fun position => ⟨position, rfl⟩

/-- What two readers give, one behind the other. -/
theorem bind_eq_ok_iff {first : Read α} {next : α → Read β} {source left : Source} {result : β} :
    (first >>= next) source = .ok (result, left) ↔
      ∃ value middle, first source = .ok (value, middle) ∧
        next value middle = .ok (result, left) := by
  cases taken : first source with
  | error => simp [Bind.bind, StateT.bind, Except.bind, taken]
  | ok pair =>
    simp only [Bind.bind, StateT.bind, Except.bind, taken, Except.ok.injEq]
    exact ⟨fun done => ⟨_, _, rfl, done⟩, fun ⟨_, _, same, done⟩ => same ▸ done⟩

/-- What is taken by two readers, one behind the other. -/
theorem Takes.bind {first : Read α} {next : α → Read β} {value : α} {result : β}
    (one : first.Takes front (back ++ rest) value) (other : (next value).Takes back rest result) :
    (first >>= next).Takes (front ++ back) rest result := by
  intro position
  obtain ⟨middle, taken⟩ := one position
  obtain ⟨stop, done⟩ := other middle
  refine ⟨stop, ?_⟩
  rw [List.append_assoc]
  simp only [Bind.bind, StateT.bind, Except.bind, taken]
  exact done

/-- Behind what has been taken, nothing more is taken. -/
theorem Takes.bind_nil {first : Read α} {next : α → Read β} {value : α} {result : β}
    (one : first.Takes text rest value) (other : (next value).Takes [] rest result) :
    (first >>= next).Takes text rest result := by
  have both : (first >>= next).Takes (text ++ []) rest result := one.bind other
  rwa [List.append_nil] at both

theorem takes_peek_bind {next : Option Char → Read α} {value : α}
    (takes : (next (text ++ rest).head?).Takes text rest value) :
    (peek >>= next).Takes text rest value := takes

theorem takes_advance_bind {c : Char} {next : Unit → Read α} {value : α}
    (takes : (next ()).Takes text rest value) : (advance >>= next).Takes (c :: text) rest value := by
  have first : advance.Takes [c] (text ++ rest) () := fun position => ⟨position.after c, rfl⟩
  exact first.bind takes

/-- Blanks are skipped up to what is none. -/
theorem skipBlanks_append {blanks rest : List Char} (spaces : ∀ c ∈ blanks, isSpace c)
    (ahead : ∀ c ∈ rest.head?, isSpace c = false) (position : Position) :
    ∃ stop, Source.skipBlanks ⟨blanks ++ rest, position⟩ = ⟨rest, stop⟩ := by
  induction blanks generalizing position with
  | nil =>
    refine ⟨position, ?_⟩
    cases rest with
    | nil => rfl
    | cons c rest =>
      rw [List.nil_append, Source.skipBlanks, Source.skipBlanks.go, if_neg (by simp [ahead c rfl])]
  | cons c blanks ih =>
    obtain ⟨space, spaces⟩ := List.forall_mem_cons.mp spaces
    rw [List.cons_append, Source.skipBlanks, Source.skipBlanks.go, if_pos space]
    exact ih spaces (position.after c)

theorem takes_skipBlanks {blanks rest : List Char} (spaces : ∀ c ∈ blanks, isSpace c)
    (ahead : ∀ c ∈ rest.head?, isSpace c = false) : skipBlanks.Takes blanks rest () := by
  intro position
  obtain ⟨stop, skipped⟩ := skipBlanks_append spaces ahead position
  exact ⟨stop, congrArg (fun source => Except.ok ((), source)) skipped⟩

/-- Where no blank is next, none is skipped. -/
theorem takes_skipBlanks_bind {next : Unit → Read α} {value : α}
    (ahead : ∀ c ∈ (text ++ rest).head?, isSpace c = false)
    (takes : (next ()).Takes text rest value) : (skipBlanks >>= next).Takes text rest value := by
  have none : skipBlanks.Takes [] (text ++ rest) () := takes_skipBlanks nofun ahead
  exact none.bind takes

theorem locatedBy_eq_ok {close : Source → Source} {read : Read α} {source left : Source} {value : α}
    (taken : locatedBy close read source = .ok (value, left)) :
    read source = .ok (value, left) := by
  unfold locatedBy at taken
  split at taken
  next => cases taken
  next => exact taken

theorem Takes.locatedBy {read : Read α} {value : α} (takes : read.Takes text rest value)
    (close : Source → Source) : (locatedBy close read).Takes text rest value := by
  intro position
  obtain ⟨stop, taken⟩ := takes position
  exact ⟨stop, by rw [Read.locatedBy, taken]⟩

private theorem rest_skipBlanks_eq_nil_iff {source : Source} :
    source.skipBlanks.rest = [] ↔ ∀ c ∈ source.rest, isSpace c := by
  obtain ⟨text, position⟩ := source
  induction text generalizing position with
  | nil => simp [Source.skipBlanks, Source.skipBlanks.go]
  | cons c text ih =>
    by_cases space : isSpace c
    · rw [Source.skipBlanks, Source.skipBlanks.go, if_pos space, List.forall_mem_cons]
      exact (ih (position.after c)).trans (and_iff_right space).symm
    · simp [Source.skipBlanks, Source.skipBlanks.go, space]

/-- When a whole text is read: up to blanks at its end. -/
theorem run_eq_ok_iff {read : Read α} {text : String} {value : α} :
    read.run text = .ok value ↔
      ∃ left, read (.ofText text) = .ok (value, left) ∧ ∀ c ∈ left.rest, isSpace c := by
  unfold Read.run
  split
  next taken => simp [taken]
  next taken => simp [taken]
  next found left taken =>
    simp only [taken, List.isEmpty_iff, rest_skipBlanks_eq_nil_iff, Except.ok.injEq, Prod.mk.injEq]
    constructor
    · intro done
      split at done
      next spaces => exact ⟨left, ⟨Except.ok.inj done, rfl⟩, spaces⟩
      next => cases done
    · rintro ⟨_, ⟨rfl, rfl⟩, spaces⟩
      exact if_pos spaces

/-- A text that is taken up to blanks at its end is read. -/
theorem Takes.run_of_blanks {read : Read α} {text : String} {value : α} {blanks : List Char}
    (takes : read.Takes front blanks value) (text_eq : text.toList = front ++ blanks)
    (spaces : ∀ c ∈ blanks, isSpace c) : read.run text = .ok value := by
  obtain ⟨stop, taken⟩ := takes ⟨1, 0⟩
  rw [← text_eq] at taken
  exact run_eq_ok_iff.mpr ⟨_, taken, spaces⟩

/-- A text that is taken as a whole is read. -/
theorem Takes.run {read : Read α} {text : String} {value : α}
    (takes : read.Takes text.toList [] value) : read.run text = .ok value :=
  takes.run_of_blanks (List.append_nil _).symm nofun

/-! ### Brackets -/

/-- Read what is inside brackets, with the brackets. -/
def enclosed (close : Source → Source) (body : Read α) : Read α := do
  advance
  let content ← locatedBy close body
  skipBlanks
  advance
  return content

theorem takes_enclosed {body : Read α} {value : α} (close : Source → Source)
    (opening : Char) {closing : Char} (visible : isSpace closing = false)
    (takes : body.Takes text (closing :: rest) value) :
    (enclosed close body).Takes (opening :: (text ++ [closing])) rest value := by
  refine takes_advance_bind ((takes.locatedBy close).bind ?_)
  refine takes_skipBlanks_bind ?_ (takes_advance_bind (takes_pure value rest))
  rintro _ ⟨⟩
  exact visible

theorem takes_objectOf {body : Read α} {value : α}
    (takes : body.Takes text ('}' :: rest) value) :
    (objectOf body).Takes ('{' :: (text ++ ['}'])) rest value :=
  takes_enclosed Source.closeObject '{' rfl takes

/-! ### Strings -/

private theorem hexValue?_hexDigit {n : Nat} (small : n < 16) :
    hexValue? (hexDigit n) = some n := by
  revert n
  decide

private theorem utf8Size_hexDigit {n : Nat} (small : n < 16) : (hexDigit n).utf8Size = 1 := by
  revert n
  decide

private theorem hexDigits_hexDigit_cons {left digit : Nat} (small : digit < 16) (value : Nat)
    (rest : List Char) (position : Position) :
    hexDigits (left + 1) (some value) (hexDigit digit :: rest) position =
      hexDigits left (some (value * 16 + digit)) rest (position.after (hexDigit digit)) := by
  rw [hexDigits, if_neg (Nat.succ_ne_zero left), utf8Size_hexDigit small, if_neg (by omega),
    Nat.add_sub_cancel, hexValue?_hexDigit small]
  rfl

theorem hexDigits_zero (value : Nat) (rest : List Char) (position : Position) :
    hexDigits 0 (some value) rest position = .ok (value, ⟨rest, position⟩) := by
  cases rest <;> rw [hexDigits, if_pos rfl]

/-- The code unit of a control character is read from its hexadecimal digits. -/
private theorem takes_codeUnit {unit : Nat} (small : unit < 256) (rest : List Char) :
    codeUnit.Takes ['0', '0', hexDigit (unit / 16), hexDigit (unit % 16)] rest unit := by
  intro position
  have zero : '0' = hexDigit 0 := rfl
  have unit_eq : ((0 * 16 + 0) * 16 + unit / 16) * 16 + unit % 16 = unit := by omega
  refine ⟨(((position.after '0').after '0').after (hexDigit (unit / 16))).after
    (hexDigit (unit % 16)), ?_⟩
  change hexDigits 4 (some 0) ('0' :: '0' :: hexDigit (unit / 16) :: hexDigit (unit % 16) :: rest)
    position = _
  rw [zero, hexDigits_hexDigit_cons (by decide), hexDigits_hexDigit_cons (by decide),
    hexDigits_hexDigit_cons (by omega), hexDigits_hexDigit_cons (by omega), unit_eq, hexDigits_zero]

private theorem takes_numericEscape {c : Char} (control : c.toNat < 0x20) (rest : List Char) :
    (numericEscape .strict).Takes ['0', '0', hexDigit (c.toNat / 16), hexDigit (c.toNat % 16)] rest
      c := by
  have notLead : isLeadSurrogate c.toNat = false := by
    simp only [isLeadSurrogate, decide_eq_false_iff_not]
    omega
  have notTrail : isTrailSurrogate c.toNat = false := by
    simp only [isTrailSurrogate, decide_eq_false_iff_not]
    omega
  refine (takes_codeUnit (by omega) rest).bind_nil ?_
  simp only [notLead, notTrail, Bool.or_false, Bool.false_eq_true, if_false, Char.ofNat_toNat]
  exact takes_pure c rest

/-- An escape is read as the character that it stands for. -/
private theorem takes_escape {c : Char} {written : List Char}
    (escaped : escapeChar c = '\\' :: written) (rest : List Char) :
    (escape .strict).Takes written rest c := by
  rcases escapeChar_cases c with ⟨letter, member, same⟩ | ⟨⟨control, -⟩, same⟩ | ⟨plain, same⟩
  · obtain rfl := (List.cons.inj (same.symm.trans escaped)).2
    have all : ∀ pair ∈ letters, pair.2 ≠ 'u' ∧ letterEscape? pair.2 = some pair.1 := by decide
    obtain ⟨notHex, meant⟩ := all _ member
    refine takes_peek_bind ?_
    simp only [List.cons_append, List.head?_cons, meant]
    exact takes_advance_bind (takes_pure c rest)
  · obtain rfl := (List.cons.inj (same.symm.trans escaped)).2
    exact takes_peek_bind (takes_advance_bind (takes_numericEscape control rest))
  · exact absurd (List.cons.inj (same.symm.trans escaped)).1 (LineItem.ne_of_isPlain plain).2.1

/-- A character is written behind a backslash, or it stands for itself and may do so. -/
private theorem escapeChar_eq_cons_or (c : Char) :
    (∃ written, escapeChar c = '\\' :: written) ∨
      (c ≠ '"' ∧ c ≠ '\\' ∧ ¬ c.toNat < 0x20 ∧ escapeChar c = [c]) := by
  rcases escapeChar_cases c with ⟨_, -, written⟩ | ⟨-, written⟩ | ⟨plain, written⟩
  · exact .inl ⟨_, written⟩
  · exact .inl ⟨_, written⟩
  · obtain ⟨notQuote, notBackslash, -⟩ := LineItem.ne_of_isPlain plain
    refine .inr ⟨notQuote, notBackslash, fun control => ?_, written⟩
    unfold escapeChar at written
    grind

private theorem length_le_length_escape (text : List Char) :
    text.length ≤ (Json.escape text).length := by
  induction text with
  | nil => exact Nat.le_refl 0
  | cons c text ih =>
    have filled := List.length_pos_iff.mpr (escapeChar_ne_nil c)
    rw [escape_cons, List.length_append, List.length_cons]
    omega

/-- The rest of a string is read character by character. -/
private theorem takes_stringRest (text rest : List Char) {rounds : List Char}
    (enough : text.length < rounds.length) (reversed : List Char) :
    (stringRest .strict rounds reversed).Takes (Json.escape text ++ ['"']) rest
      (String.ofList (reversed.reverse ++ text)) := by
  induction text generalizing rounds reversed with
  | nil =>
    obtain ⟨_, rounds, rfl⟩ := List.exists_cons_of_length_pos enough
    rw [List.append_nil]
    exact takes_peek_bind (takes_advance_bind (takes_pure _ rest))
  | cons c text ih =>
    obtain ⟨_, rounds, rfl⟩ := List.exists_cons_of_length_pos (Nat.zero_lt_of_lt enough)
    have behind := ih (by simpa using enough) (c :: reversed)
    rw [List.reverse_cons, List.append_assoc, List.singleton_append] at behind
    rw [escape_cons, List.append_assoc]
    rcases escapeChar_eq_cons_or c with ⟨written, escaped⟩ | ⟨notQuote, notBackslash, visible, plain⟩
    · rw [escaped]
      exact takes_peek_bind (takes_advance_bind ((takes_escape escaped _).bind behind))
    · rw [plain]
      refine takes_peek_bind ?_
      simp only [List.cons_append, List.head?_cons, if_neg visible]
      exact takes_advance_bind behind

/-- A text is read from its JSON string behind the opening quote. -/
theorem takes_string (text : String) (rest : List Char) :
    (string .strict).Takes (Json.escape text.toList ++ ['"']) rest text := by
  have enough : text.toList.length < (Json.escape text.toList ++ ['"'] ++ rest).length := by
    have := length_le_length_escape text.toList
    simp only [List.length_append, List.length_singleton]
    omega
  have takes := takes_stringRest text.toList rest enough []
  rwa [List.reverse_nil, List.nil_append, String.ofList_toList] at takes

end Read

end LogMotif.Json
