import LogMotif.Proofs.Json.Replay

/-! # Reading literals again

A string ends at its closing quote, so nothing behind it matters. A number ends where its next
character is no digit, nor anything else that may stand in a number.
-/

namespace LogMotif.Json

namespace Read

variable {limit : Nat} {firm : Bool}

/-! ### Strings -/

private theorem hexDigits_zero_eq_ok {unit : Nat} {value? : Option Nat} {rest : List Char}
    {position : Position} {source : Source}
    (taken : hexDigits 0 value? rest position = .ok (unit, source)) :
    value? = some unit ∧ source = ⟨rest, position⟩ := by
  cases rest <;> cases value? <;> cases taken <;> exact ⟨rfl, rfl⟩

private theorem hexDigits_cons {left : Nat} {c : Char} (more : left ≠ 0)
    (fits : ¬ left < c.utf8Size) (value? : Option Nat) (rest : List Char) (position : Position) :
    hexDigits left value? (c :: rest) position = hexDigits (left - c.utf8Size)
      (do return (← value?) * 16 + (← hexValue? c)) rest (position.after c) := by
  rw [hexDigits.eq_def]
  dsimp only
  rw [if_neg more, if_neg fits]

/-- Hexadecimal digits that have been read are read again, whatever stands behind them. -/
private theorem exists_text_of_hexDigits {left unit : Nat} {value? : Option Nat} {rest : List Char}
    {position : Position} {source : Source}
    (taken : hexDigits left value? rest position = .ok (unit, source)) :
    ∃ text, rest = text ++ source.rest ∧ value?.isSome ∧ (∀ c ∈ text, (hexValue? c).isSome) ∧
      ∀ more position, ∃ stop,
        hexDigits left value? (text ++ more) position = .ok (unit, ⟨more, stop⟩) := by
  induction rest generalizing left value? position with
  | nil =>
    by_cases done : left = 0
    · subst done
      obtain ⟨rfl, rfl⟩ := hexDigits_zero_eq_ok taken
      exact ⟨[], rfl, rfl, by simp,
        fun more position => ⟨position, hexDigits_zero unit more position⟩⟩
    · unfold hexDigits at taken
      rw [if_neg done] at taken
      cases taken
  | cons c rest ih =>
    by_cases done : left = 0
    · subst done
      obtain ⟨rfl, rfl⟩ := hexDigits_zero_eq_ok taken
      exact ⟨[], rfl, rfl, by simp,
        fun more position => ⟨position, hexDigits_zero unit more position⟩⟩
    · unfold hexDigits at taken
      rw [if_neg done] at taken
      split at taken
      next => cases taken
      next fits =>
        obtain ⟨text, rfl, isSome, digits, again⟩ := ih taken
        have digit : value?.isSome ∧ (hexValue? c).isSome := by
          cases value? <;> cases digit : hexValue? c <;> simp [digit] at isSome ⊢
        refine ⟨c :: text, rfl, digit.1, List.forall_mem_cons.mpr ⟨digit.2, digits⟩,
          fun more position => ?_⟩
        rw [List.cons_append, hexDigits_cons done fits]
        exact again more (position.after c)

private theorem passes_of_hexDigit {c : Char} (digit : (hexValue? c).isSome) :
    Passes .inString c .inString := by
  refine passes_inString ?_ ?_
  · rintro rfl
    revert digit
    decide
  · rintro rfl
    revert digit
    decide

private theorem replays_codeUnit : Replays limit (.any .inString) (fun _ => codeUnit)
    (fun _ => .any .inString) false := by
  intro source unit left _ taken
  obtain ⟨text, sourceEq, -, digits, again⟩ := exists_text_of_hexDigits taken
  exact ⟨trivial, text, 0, sourceEq, by simp, Nat.zero_le _,
    opens_of_passes fun c member => passes_of_hexDigit (digits c member),
    fun _ _ rest _ position => again rest position⟩

private theorem replays_surrogateMark {mark : Char} {enter leave : ScanMode}
    (passes : Passes enter mark leave) :
    Replays limit (.any enter) (fun _ => surrogateMark mark) (fun _ => .any leave) false := by
  refine replays_peek_bind fun c? => ?_
  cases c? with
  | none => exact replays_failHere _
  | some c =>
    by_cases same : c = mark
    · subst same
      simp only [if_true]
      exact replays_advance passes
    · simp only [if_neg same]
      exact replays_failAhead _

private theorem replays_numericEscape (rigor : Rigor) : Replays limit (.any .inString)
    (fun _ => numericEscape rigor) (fun _ => .any .inString) false := by
  refine replays_codeUnit.bind fun unit => ?_
  split
  next =>
    split
    next => exact replays_pure rfl fun _ => id
    next =>
      split
      next => exact replays_failHere_bind _
      next =>
        have backslash : Passes .inString '\\' .escaped := fun _ _ => rfl
        have mark : Passes .escaped 'u' .inString := fun _ _ => rfl
        refine (replays_surrogateMark backslash).bind fun _ => ?_
        refine (replays_surrogateMark mark).bind fun _ => ?_
        refine replays_codeUnit.bind fun trail => ?_
        split
        next => exact replays_pure rfl fun _ => id
        next => exact replays_failHere _
  next => exact replays_pure rfl fun _ => id

private theorem replays_escape (rigor : Rigor) : Replays limit (.any .escaped)
    (fun _ => Read.escape rigor) (fun _ => .any .inString) false := by
  refine replays_peek_bind fun c? => ?_
  split
  next => exact replays_failHere _
  next => exact replays_advance_bind (fun _ _ => rfl) (replays_numericEscape rigor)
  next c _ =>
    split
    next => exact replays_advance_bind (fun _ _ => rfl) (replays_pure rfl fun _ => id)
    next => exact replays_failAhead _

private theorem stringRest_of_escape (rigor : Rigor) (round : Char)
    (rounds reversed rest : List Char) (position : Position) :
    stringRest rigor (round :: rounds) reversed ⟨'\\' :: rest, position⟩ =
      (Read.escape rigor >>= fun c => stringRest rigor rounds (c :: reversed))
        ⟨rest, position.after '\\'⟩ := rfl

private theorem stringRest_of_plain (rigor : Rigor) {c : Char} (notQuote : c ≠ '"')
    (notBackslash : c ≠ '\\') (round : Char) (rounds reversed rest : List Char) (position : Position) :
    stringRest rigor (round :: rounds) reversed ⟨c :: rest, position⟩ =
      if c.toNat < 0x20 then failAhead .controlCharacter ⟨c :: rest, position⟩
      else stringRest rigor rounds (c :: reversed) ⟨rest, position.after c⟩ := by
  rw [stringRest]
  simp only [Bind.bind, StateT.bind, Except.bind, peek, List.head?_cons]
  split <;> rfl

/-- The rest of a string that has been read is read again in any number of rounds that the text
allows. Every round takes a character. -/
private theorem exists_text_of_stringRest {rigor : Rigor} {rounds reversed : List Char}
    {source left : Source} {content : String}
    (taken : stringRest rigor rounds reversed source = .ok (content, left)) :
    ∃ text, source.rest = text ++ left.rest ∧ text ≠ [] ∧ Opens .inString .outside 0 text ∧
      ∀ more : List Char, text.length ≤ more.length → ∀ rest,
        (stringRest rigor more reversed).Takes text rest content := by
  induction rounds generalizing reversed source with
  | nil => cases taken
  | cons _ rounds ih =>
    obtain ⟨_ | ⟨c, ahead⟩, position⟩ := source
    · cases taken
    by_cases isQuote : c = '"'
    · subst isQuote
      cases taken
      have passes : Passes .inString '"' .outside := fun _ _ => rfl
      refine ⟨['"'], rfl, by simp, passes.opens, fun more enough rest => ?_⟩
      obtain ⟨_, more, rfl⟩ := List.exists_cons_of_length_pos enough
      exact takes_peek_bind (takes_advance_bind (takes_pure _ rest))
    by_cases isBackslash : c = '\\'
    · subst isBackslash
      rw [stringRest_of_escape] at taken
      obtain ⟨meant, middle, escaped, taken⟩ := bind_eq_ok_iff.mp taken
      have replays : Replays 0 (.any .escaped) (fun _ => Read.escape rigor) _ _ :=
        replays_escape rigor
      obtain ⟨-, front, depth, front_eq, -, few, replay⟩ := replays _ _ _ trivial escaped
      obtain ⟨back, back_eq, filled, opens, again⟩ := ih taken
      obtain rfl := Nat.le_zero.mp few
      have passes : Passes .inString '\\' .escaped := fun _ _ => rfl
      refine ⟨'\\' :: (front ++ back), ?_, by simp, passes.opens.append (replay.opens.append opens),
        fun more enough rest => ?_⟩
      · rw [List.cons_append, List.append_assoc, ← back_eq]
        exact congrArg _ front_eq
      · obtain ⟨_, more, rfl⟩ := List.exists_cons_of_length_pos (Nat.zero_lt_of_lt enough)
        have begins : (back ++ rest).head? = middle.rest.head? := by
          obtain ⟨_, _, rfl⟩ := List.exists_cons_of_ne_nil filled
          rw [back_eq]
          rfl
        have behind := again more (by simp at enough; omega) rest
        have escaped := replay.takes 0 (Nat.le_refl 0) _ begins
        exact takes_peek_bind (takes_advance_bind (escaped.bind behind))
    · rw [stringRest_of_plain rigor isQuote isBackslash] at taken
      split at taken
      next => cases taken
      next visible =>
        obtain ⟨back, back_eq, -, opens, again⟩ := ih taken
        refine ⟨c :: back, congrArg _ back_eq, by simp,
          (passes_inString isQuote isBackslash).opens.append opens, fun more enough rest => ?_⟩
        obtain ⟨_, more, rfl⟩ := List.exists_cons_of_length_pos (Nat.zero_lt_of_lt enough)
        intro position
        rw [List.cons_append, stringRest_of_plain rigor isQuote isBackslash, if_neg visible]
        exact again more (Nat.le_of_succ_le_succ enough) rest _

theorem replays_string (rigor : Rigor) : Replays limit (.any .inString)
    (fun _ => string rigor) (fun _ => .any .outside) false := by
  intro source content left _ taken
  obtain ⟨text, source_eq, -, opens, again⟩ := exists_text_of_stringRest taken
  refine ⟨trivial, text, 0, source_eq, by simp, Nat.zero_le _, opens, fun _ _ rest _ position => ?_⟩
  exact again (text ++ rest) (by simp) rest position

/-! ### Numbers -/

private theorem passes_of_isDigit {c : Char} (digit : isDigit c) : Passes .outside c .outside := by
  refine passes_outside fun bracket => ?_
  revert digit
  simp only [List.mem_cons, List.not_mem_nil, or_false] at bracket
  rcases bracket with rfl | rfl | rfl | rfl | rfl <;> decide

theorem digits_append {run rest : List Char} (isRun : ∀ c ∈ run, isDigit c)
    (ahead : ∀ c ∈ rest.head?, isDigit c = false) (position : Position) :
    ∃ stop, digits ⟨run ++ rest, position⟩ =
      .ok (run.map fun c => c.toNat - '0'.toNat, ⟨rest, stop⟩) := by
  have taken : (run ++ rest).takeWhile isDigit = run := by
    have ends : rest.takeWhile isDigit = [] := by
      cases rest with
      | nil => rfl
      | cons c rest => rw [List.takeWhile_cons, if_neg (by simp [ahead c rfl])]
    rw [List.takeWhile_append_of_pos isRun, ends, List.append_nil]
  refine ⟨⟨position.line, position.column + run.length⟩, ?_⟩
  rw [digits]
  simp only [taken, List.drop_left]

private theorem replays_digits_of_filled {next : Option Char → Prop}
    (filled : firm → ∀ c?, next c? → ∃ c, c? = some c ∧ isDigit c) :
    Replays limit ⟨.outside, next⟩ (fun _ => digits) (fun _ => .any .outside) firm := by
  rintro ⟨text, position⟩ value left ahead taken
  obtain ⟨run, rest, rfl, isRun, ends⟩ := exists_run isDigit text
  obtain ⟨stop, read⟩ := digits_append isRun ends position
  cases read.symm.trans taken
  refine ⟨trivial, run, 0, rfl, ?_, Nat.zero_le _,
    opens_of_passes fun c member => passes_of_isDigit (isRun c member),
    fun _ _ more begins position => digits_append isRun (begins ▸ ends) position⟩
  rintro isFirm rfl
  obtain ⟨c, isNext, digit⟩ := filled isFirm _ ahead
  exact absurd digit (by simp [ends c isNext])

private theorem replays_digits {next : Option Char → Prop} :
    Replays limit ⟨.outside, next⟩ (fun _ => digits) (fun _ => .any .outside) false :=
  replays_digits_of_filled nofun

/-- Where a digit is next, digits are taken. -/
private theorem replays_digits_of_isDigit {c : Char} (digit : isDigit c) :
    Replays limit (.at .outside (some c)) (fun _ => digits) (fun _ => .any .outside) firm :=
  replays_digits_of_filled fun _ _ isNext => ⟨c, isNext, digit⟩

private theorem replays_scaled (rigor : Rigor) (negative : Bool) (significand : Nat) (power : Int) :
    Replays limit (.any .outside) (fun _ => scaled rigor negative significand power)
      (fun _ => .any .outside) false := by
  unfold scaled
  split
  next => exact replays_pure rfl fun _ => id
  next =>
    split
    next => exact replays_pure rfl fun _ => id
    next => exact replays_failHere _

private theorem replays_sign_bind {α : Type} {sign : Option Char} {next : Unit → Nat → Read α}
    {leave : α → Edge} (behind : Replays limit (.any .outside) (next ()) leave false) :
    Replays limit (.at .outside sign) (fun limit =>
      if (decide (sign = some '+') || decide (sign = some '-')) = true then
        advance >>= fun value => next value limit
      else next () limit) leave false := by
  split
  next isSign =>
    rw [Bool.or_eq_true, decide_eq_true_eq, decide_eq_true_eq] at isSign
    rcases isSign with rfl | rfl
    · exact replays_advance_bind (fun _ _ => rfl) behind
    · exact replays_advance_bind (fun _ _ => rfl) behind
  next => exact behind.from_any

private theorem replays_exponent (rigor : Rigor) (negative : Bool) (significand : Nat)
    (power : Int) :
    Replays limit (.any .outside) (fun _ => exponent rigor negative significand power)
      (fun _ => .any .outside) false := by
  unfold exponent
  refine replays_peek_bind fun sign => replays_sign_bind (replays_peek_bind fun c? => ?_)
  cases c? with
  | none => exact replays_failHere _
  | some c =>
    dsimp only
    split
    next => exact replays_failAhead_bind _
    next =>
      refine (replays_get_bind (fun start => ?_) ?_).from_any
      · refine replays_digits.bind fun taken => ?_
        split
        next => exact replays_scaled _ _ _ _
        next =>
          split
          next => exact replays_of_fails fun _ _ => nofun
          next => exact replays_pure rfl fun _ => id
      · intro start other _ source result done
        obtain ⟨taken, middle, digits, done⟩ := bind_eq_ok_iff.mp done
        refine bind_eq_ok_iff.mpr ⟨taken, middle, digits, ?_⟩
        split at done
        next whole => rwa [if_pos whole]
        next cut =>
          rw [if_neg cut]
          split at done
          next => cases done
          next small => rwa [if_neg small]

private theorem replays_decimals (rigor : Rigor) (negative : Bool) (significand : Nat)
    (power : Int) :
    Replays limit (.any .outside) (fun _ => decimals rigor negative significand power)
      (fun _ => .any .outside) false := by
  unfold decimals
  refine replays_peek_bind fun c? => ?_
  cases c? with
  | none => exact replays_failHere _
  | some c =>
    dsimp only
    split
    next => exact replays_failAhead_bind _
    next =>
      refine replays_digits.bind fun taken => replays_peek_bind fun mark => ?_
      split
      next => exact replays_advance_bind (fun _ _ => rfl) (replays_exponent _ _ _ _)
      next => exact replays_advance_bind (fun _ _ => rfl) (replays_exponent _ _ _ _)
      next => exact (replays_scaled _ _ _ _).from_any

private theorem replays_numberRest (rigor : Rigor) (negative : Bool) (significand dropped : Nat) :
    Replays limit (.any .outside) (fun _ => numberRest rigor negative significand dropped)
      (fun _ => .any .outside) false := by
  unfold numberRest
  refine replays_peek_bind fun mark => ?_
  split
  next => exact replays_advance_bind (fun _ _ => rfl) (replays_decimals _ _ _ _)
  next => exact replays_advance_bind (fun _ _ => rfl) (replays_exponent _ _ _ _)
  next => exact replays_advance_bind (fun _ _ => rfl) (replays_exponent _ _ _ _)
  next =>
    split
    next => exact replays_pure rfl fun _ _ => trivial
    next => exact (replays_scaled _ _ _ _).from_any

/-- A number takes a digit at least. -/
theorem replays_number (rigor : Rigor) (negative : Bool) :
    Replays limit (.any .outside) (fun _ => number rigor negative) (fun _ => .any .outside)
      firm := by
  unfold number
  refine replays_peek_bind fun c? => ?_
  split
  next => exact replays_failHere _
  next =>
    refine replays_advance_bind (fun _ _ => rfl) (replays_peek_bind fun c? => ?_)
    split
    next => exact replays_failAhead_bind _
    next => exact (replays_numberRest _ _ _ _).from_any
  next c _ =>
    dsimp only
    split
    next => exact replays_failAhead_bind _
    next digit =>
      have digit : isDigit c := by simpa using digit
      exact (replays_digits_of_isDigit digit).bind_firm fun _ => replays_numberRest _ _ _ _

end Read

end LogMotif.Json
