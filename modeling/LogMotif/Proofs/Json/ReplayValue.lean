import LogMotif.Proofs.Json.ReplayLiteral

/-! # Reading values again

A list or an object ends at its closing bracket, and is deeper by one than what is inside. So values
are read again under any limit that their depth does not exceed.
-/

namespace LogMotif.Json

namespace Read

variable {α σ : Type} {limit : Nat} {firm : Bool}

/-! ### Lists -/

private theorem replays_nextItem (isFirst : Bool) : Replays limit (.any .outside)
    (fun _ => nextItem isFirst) (fun more => ⟨.outside, fun c? => more = false → c? = some ']'⟩)
    false := by
  refine replays_skipBlanks_bind (replays_peek_bind fun c? => ?_)
  split
  next => exact replays_failAhead _
  next => exact replays_pure rfl fun _ isNext _ => isNext
  next c _ =>
    split
    next => exact replays_pure rfl fun _ _ => nofun
    next =>
      dsimp only
      split
      next => exact replays_failAhead_bind _
      next isComma =>
        obtain rfl := Decidable.not_not.mp isComma
        refine replays_advance_bind (fun _ _ => rfl)
          (replays_skipBlanks_bind (replays_peek_bind fun c? => ?_))
        split
        next => exact replays_failAhead _
        next => exact replays_failAhead _
        next => exact replays_pure rfl fun _ _ => nofun

/-- The items of a list that have been read are read again, in any number of rounds that the text
allows. Every round but the last takes a character. -/
private theorem exists_text_of_items {item : Nat → Read α}
    (each : Replays limit (.any .outside) item (fun _ => .any .outside) true)
    {rounds : List Char} {isFirst : Bool} {source left : Source} {values : List α}
    (taken : items (item limit) rounds isFirst source = .ok (values, left)) :
    left.rest.head? = some ']' ∧ ∃ text depth, source.rest = text ++ left.rest ∧ depth ≤ limit ∧
      Opens .outside .outside depth text ∧ ∀ other, depth ≤ other → ∀ rest : List Char,
        rest.head? = some ']' → ∀ more : List Char, text.length < more.length →
          (items (item other) more isFirst).Takes text rest values := by
  induction rounds generalizing isFirst source values with
  | nil => cases taken
  | cons _ rounds ih =>
    obtain ⟨goesOn, middle, next, taken⟩ := bind_eq_ok_iff.mp taken
    have replays : Replays 0 _ (fun _ => nextItem isFirst) _ _ := replays_nextItem isFirst
    obtain ⟨ends, front, depth, front_eq, -, few, replay⟩ := replays _ _ _ trivial next
    obtain rfl := Nat.le_zero.mp few
    cases goesOn with
    | false =>
      cases taken
      refine ⟨ends rfl, front, 0, front_eq, Nat.zero_le _, replay.opens,
        fun other _ rest isNext more enough => ?_⟩
      obtain ⟨_, more, rfl⟩ := List.exists_cons_of_length_pos (Nat.zero_lt_of_lt enough)
      exact (replay.takes 0 (Nat.le_refl 0) rest (isNext.trans (ends rfl).symm)).bind_nil
        (takes_pure [] rest)
    | true =>
      obtain ⟨value, behind, takenItem, taken⟩ := bind_eq_ok_iff.mp taken
      obtain ⟨others, _, takenItems, made⟩ := bind_eq_ok_iff.mp taken
      cases made
      obtain ⟨-, text, deep, text_eq, filled, fewItem, replayItem⟩ := each _ _ _ trivial takenItem
      obtain ⟨closes, back, deeper, back_eq, fewItems, opens, again⟩ := ih takenItems
      rw [back_eq] at text_eq replayItem
      rw [text_eq, ← List.append_assoc] at replay
      refine ⟨closes, front ++ (text ++ back), max deep deeper, ?_,
        Nat.max_le.mpr ⟨fewItem, fewItems⟩, ?_, fun other enough rest isNext more rounds => ?_⟩
      · rw [front_eq, text_eq, List.append_assoc, List.append_assoc]
      · have both := replay.opens.append (replayItem.opens.append opens)
        rwa [Nat.zero_max] at both
      · obtain ⟨_, more, rfl⟩ := List.exists_cons_of_length_pos (Nat.zero_lt_of_lt rounds)
        obtain ⟨enoughItem, enoughItems⟩ := Nat.max_le.mp enough
        have text_pos := List.length_pos_iff.mpr (filled rfl)
        have roundsBehind : back.length < more.length := by
          simp only [List.length_append, List.length_cons] at rounds
          omega
        have begins := isNext.trans closes.symm
        have behind : (items (item other) more false >>= fun others => pure (value :: others)).Takes
            back rest (value :: others) :=
          (again other enoughItems rest isNext more roundsBehind).bind_nil (takes_pure _ rest)
        exact replay.takes_bind (Nat.le_refl 0) begins
          (replayItem.takes_bind enoughItem begins behind)

theorem replays_itemsToEnd {item : Nat → Read α}
    (each : Replays limit (.any .outside) item (fun _ => .any .outside) true) (isFirst : Bool) :
    Replays limit (.any .outside) (fun limit => itemsToEnd (item limit) isFirst)
      (fun _ => .at .outside (some ']')) false := by
  intro source values left _ taken
  obtain ⟨closes, text, depth, source_eq, few, opens, again⟩ := exists_text_of_items each taken
  refine ⟨closes, text, depth, source_eq, nofun, few, opens, fun other enough rest begins => ?_⟩
  have isNext := begins.trans closes
  obtain ⟨rest, rfl⟩ := List.head?_eq_some_iff.mp isNext
  exact again other enough _ isNext _ (by simp)

/-! ### Objects -/

/-- Read the key that is next in an object. -/
def keyHere (rigor : Rigor) : Read (Option String) := do
  match ← peek with
  | none => failAhead .endInValue
  | some '"' =>
    advance
    return some (← string rigor)
  | some '}' => failAhead .trailingComma
  | some _ => failAhead .keyNotString

/-- What may be next behind a key, or where there is none. -/
def behindKey (key? : Option String) : Edge := ⟨.outside, fun c? => key? = none → c? = some '}'⟩

private theorem replays_keyHere (rigor : Rigor) :
    Replays limit (.any .outside) (fun _ => keyHere rigor) behindKey false := by
  refine replays_peek_bind fun c? => ?_
  split
  next => exact replays_failAhead _
  next =>
    have named : Replays limit (.any .inString)
        (fun _ => string rigor >>= fun key => pure (some key)) behindKey false :=
      (replays_string rigor).bind fun key => replays_pure rfl fun _ _ => nofun
    exact replays_advance_bind (fun _ _ => rfl) named
  next => exact replays_failAhead _
  next => exact replays_failAhead _

private theorem replays_nextKey (rigor : Rigor) (isFirst : Bool) :
    Replays limit (.any .outside) (fun _ => nextKey rigor isFirst) behindKey false := by
  refine replays_skipBlanks_bind (replays_peek_bind fun c? => ?_)
  split
  next => exact replays_failAhead _
  next => exact replays_pure rfl fun _ isNext _ => isNext
  next c _ =>
    dsimp only
    split
    next =>
      split
      next => exact replays_failAhead_bind _
      next isComma =>
        obtain rfl := Decidable.not_not.mp isComma
        exact replays_advance_bind (fun _ _ => rfl)
          (replays_skipBlanks_bind (replays_keyHere rigor).from_any)
    next => exact (replays_keyHere rigor).from_any

/-- A colon takes a character. -/
private theorem replays_colon :
    Replays limit (.any .outside) (fun _ => colon) (fun _ => .any .outside) true := by
  refine replays_skipBlanks_bind (replays_peek_bind fun c? => ?_)
  split
  next => exact replays_failAhead _
  next => exact replays_advance fun _ _ => rfl
  next => exact replays_failAhead _

/-- The members of an object that have been read are read again, in any number of rounds that the
text allows. Every round but the last takes a character. -/
private theorem exists_text_of_members {rigor : Rigor} {member : Nat → σ → String → Read σ}
    (each : ∀ state key, Replays limit (.any .outside) (fun limit => member limit state key)
      (fun _ => .any .outside) true)
    {rounds : List Char} {isFirst : Bool} {state result : σ} {source left : Source}
    (taken : members rigor (member limit) rounds isFirst state source = .ok (result, left)) :
    left.rest.head? = some '}' ∧ ∃ text depth, source.rest = text ++ left.rest ∧ depth ≤ limit ∧
      Opens .outside .outside depth text ∧ ∀ other, depth ≤ other → ∀ rest : List Char,
        rest.head? = some '}' → ∀ more : List Char, text.length < more.length →
          (members rigor (member other) more isFirst state).Takes text rest result := by
  induction rounds generalizing isFirst state source with
  | nil => cases taken
  | cons _ rounds ih =>
    obtain ⟨key?, middle, next, taken⟩ := bind_eq_ok_iff.mp taken
    have replays : Replays 0 _ (fun _ => nextKey rigor isFirst) _ _ := replays_nextKey rigor isFirst
    obtain ⟨ends, front, depth, front_eq, -, few, replay⟩ := replays _ _ _ trivial next
    obtain rfl := Nat.le_zero.mp few
    cases key? with
    | none =>
      cases taken
      refine ⟨ends rfl, front, 0, front_eq, Nat.zero_le _, replay.opens,
        fun other _ rest isNext more enough => ?_⟩
      obtain ⟨_, more, rfl⟩ := List.exists_cons_of_length_pos (Nat.zero_lt_of_lt enough)
      exact (replay.takes 0 (Nat.le_refl 0) rest (isNext.trans (ends rfl).symm)).bind_nil
        (takes_pure _ rest)
    | some key =>
      obtain ⟨value, behind, takenMember, takenMembers⟩ := bind_eq_ok_iff.mp taken
      obtain ⟨-, text, deep, text_eq, filled, fewMember, replayMember⟩ :=
        each state key _ _ _ trivial takenMember
      obtain ⟨closes, back, deeper, back_eq, fewMembers, opens, again⟩ := ih takenMembers
      rw [back_eq] at text_eq replayMember
      rw [text_eq, ← List.append_assoc] at replay
      refine ⟨closes, front ++ (text ++ back), max deep deeper, ?_,
        Nat.max_le.mpr ⟨fewMember, fewMembers⟩, ?_, fun other enough rest isNext more rounds => ?_⟩
      · rw [front_eq, text_eq, List.append_assoc, List.append_assoc]
      · have both := replay.opens.append (replayMember.opens.append opens)
        rwa [Nat.zero_max] at both
      · obtain ⟨_, more, rfl⟩ := List.exists_cons_of_length_pos (Nat.zero_lt_of_lt rounds)
        obtain ⟨enoughMember, enoughMembers⟩ := Nat.max_le.mp enough
        have text_pos := List.length_pos_iff.mpr (filled rfl)
        have roundsBehind : back.length < more.length := by
          simp only [List.length_append, List.length_cons] at rounds
          omega
        have begins := isNext.trans closes.symm
        exact replay.takes_bind (Nat.le_refl 0) begins (replayMember.takes_bind enoughMember begins
          (again other enoughMembers rest isNext more roundsBehind))

private theorem replays_membersToEnd {rigor : Rigor} {member : Nat → σ → String → Read σ}
    (each : ∀ state key, Replays limit (.any .outside) (fun limit => member limit state key)
      (fun _ => .any .outside) true) (state : σ) :
    Replays limit (.any .outside) (fun limit => membersToEnd rigor (member limit) state)
      (fun _ => .at .outside (some '}')) false := by
  intro source values left _ taken
  obtain ⟨closes, text, depth, source_eq, few, opens, again⟩ := exists_text_of_members each taken
  refine ⟨closes, text, depth, source_eq, nofun, few, opens, fun other enough rest begins => ?_⟩
  have isNext := begins.trans closes
  obtain ⟨rest, rfl⟩ := List.head?_eq_some_iff.mp isNext
  exact again other enough _ isNext _ (by simp)

theorem replays_membersWith {value : Nat → Read α} (rigor : Rigor)
    (each : Replays limit (.any .outside) value (fun _ => .any .outside) true) :
    Replays limit (.any .outside) (fun limit => membersWith rigor (value limit))
      (fun _ => .at .outside (some '}')) false := by
  refine (replays_membersToEnd (fun read key => ?_) []).map List.reverse
  exact replays_colon.bind fun _ => each.map fun value => (key, value) :: read

/-! ### Brackets -/

/-- Brackets that have been read, with what is inside, are read again, whatever stands behind them.
-/
theorem exists_text_of_enclosed {body : Nat → Read α} {opening closing : Char}
    (visible : isSpace closing = false)
    (inside : Replays limit (.any .outside) body (fun _ => .at .outside (some closing)) false)
    {close : Source → Source} {source left : Source} {value : α}
    (ahead : source.rest.head? = some opening)
    (taken : enclosed close (body limit) source = .ok (value, left)) :
    ∃ text depth, source.rest = opening :: (text ++ closing :: left.rest) ∧ depth ≤ limit ∧
      Opens .outside .outside depth text ∧ ∀ other, depth ≤ other → ∀ rest,
        (enclosed close (body other)).Takes (opening :: (text ++ [closing])) rest value := by
  obtain ⟨_ | ⟨opening, within⟩, position⟩ := source
  · cases ahead
  obtain rfl := Option.some.inj ahead
  have behindOpening : (locatedBy close (body limit) >>= fun content => skipBlanks >>= fun _ =>
      advance >>= fun _ => pure content) ⟨within, position.after opening⟩ = .ok (value, left) :=
    taken
  obtain ⟨content, middle, takenInside, takenClose⟩ := bind_eq_ok_iff.mp behindOpening
  obtain ⟨closes, text, depth, within_eq, -, few, replay⟩ :=
    inside _ _ _ trivial (locatedBy_eq_ok takenInside)
  obtain ⟨_ | ⟨closing, behind⟩, stop⟩ := middle
  · cases closes
  obtain rfl := Option.some.inj closes
  -- The content was read up to the closing bracket, so no blank is left to be skipped.
  have stays : Source.skipBlanks ⟨closing :: behind, stop⟩ = ⟨closing :: behind, stop⟩ :=
    if_neg (by simp [visible])
  have done : .ok (content, (Source.skipBlanks ⟨closing :: behind, stop⟩).advance) =
      Except.ok (value, left) := takenClose
  rw [stays] at done
  cases done
  refine ⟨text, depth, congrArg _ within_eq, few, replay.opens, fun other enough rest => ?_⟩
  exact takes_enclosed close opening visible (replay.takes other enough (closing :: rest) rfl)

/-- A reader that reads something in brackets, under a limit that allows for one more of them. -/
theorem replays_of_enclosed {body : Nat → Read α} {opening closing : Char}
    (opens : opening = '[' ∨ opening = '{') (closes : closing = ']' ∨ closing = '}')
    {close : Source → Source} {outer : Nat → Read β} (make : α → β)
    (inside : ∀ depth < limit,
      Replays depth (.any .outside) body (fun _ => .at .outside (some closing)) false)
    (zero : ∀ source result, outer 0 source ≠ .ok result)
    (succ : ∀ depth, outer (depth + 1) =
      enclosed close (body depth) >>= fun content => pure (make content)) :
    Replays limit (.at .outside (some opening)) outer (fun _ => .any .outside) firm := by
  have visible : isSpace closing = false := by
    rcases closes with rfl | rfl <;> decide
  cases limit with
  | zero => exact replays_of_fails zero
  | succ limit =>
    intro source result left ahead taken
    rw [succ] at taken
    obtain ⟨content, middle, taken, made⟩ := bind_eq_ok_iff.mp taken
    cases made
    obtain ⟨text, depth, source_eq, few, replay, again⟩ := exists_text_of_enclosed visible
      (inside limit (Nat.lt_succ_self limit)) ahead taken
    refine ⟨trivial, opening :: (text ++ [closing]), depth + 1, ?_, by simp, Nat.succ_le_succ few,
      replay.enclosed opens closes, fun other enough rest _ => ?_⟩
    · rw [source_eq, List.cons_append, List.append_assoc, List.singleton_append]
    · obtain ⟨other, rfl⟩ := Nat.exists_eq_add_of_lt enough
      rw [succ]
      exact (again _ (by omega) rest).bind_nil (takes_pure _ rest)

/-! ### Values -/

private theorem replays_scalar (rigor : Rigor) :
    Replays limit (.any .outside) (fun _ => scalar rigor) (fun _ => .any .outside) firm := by
  refine replays_peek_bind fun c? => ?_
  split
  next => exact replays_failAhead _
  next =>
    exact replays_advance_bind (fun _ _ => rfl) ((replays_word (by simp)).map fun _ => Value.null)
  next =>
    exact replays_advance_bind (fun _ _ => rfl)
      ((replays_word (by simp)).map fun _ => Value.bool true)
  next =>
    exact replays_advance_bind (fun _ _ => rfl)
      ((replays_word (by simp)).map fun _ => Value.bool false)
  next => exact replays_advance_bind (fun _ _ => rfl) ((replays_string rigor).map Value.string)
  next => exact replays_advance_bind (fun _ _ => rfl) ((replays_number rigor true).map Value.number)
  next c _ =>
    split
    next => exact ((replays_number rigor false).map Value.number).from_any
    next => exact replays_failAhead _

/-- The reader of what is inside a list or object, if the limit allows for one. -/
def inner? (rigor : Rigor) : Nat → Option (Read Value)
  | 0 => none
  | depth + 1 => some (value rigor depth)

private theorem value_eq (rigor : Rigor) (limit : Nat) :
    value rigor limit = valueWith rigor (inner? rigor limit) := by
  cases limit <;> rfl

/-- A value is read again under any limit that its depth does not exceed. -/
theorem replays_value (rigor : Rigor) (limit : Nat) :
    Replays limit (.any .outside) (value rigor) (fun _ => .any .outside) true := by
  -- What is inside brackets is read under a lower limit.
  induction limit using Nat.strongRecOn with
  | ind limit ih =>
    have each : value rigor = fun limit => valueWith rigor (inner? rigor limit) :=
      funext (value_eq rigor)
    rw [each]
    refine replays_skipBlanks_bind (replays_peek_bind fun c? => ?_)
    by_cases isList : c? = some '['
    · subst isList
      refine replays_of_enclosed (.inl rfl) (.inl rfl) Value.array
        (fun depth shallower => replays_itemsToEnd (ih depth shallower) true) nofun fun _ => rfl
    by_cases isObject : c? = some '{'
    · subst isObject
      refine replays_of_enclosed (.inr rfl) (.inr rfl) Value.object
        (fun depth shallower => replays_membersWith rigor (ih depth shallower)) nofun fun _ => rfl
    refine Replays.congr (replays_scalar rigor).from_any fun _ => ?_
    split
    next => exact absurd rfl isList
    next => exact absurd rfl isObject
    next => exact absurd rfl isList
    next => exact absurd rfl isObject
    next => rfl

/-! ### The start of a value -/

/-- The start of a value is the first character that is not blank. -/
theorem exists_lead_of_startOfValue {source middle : Source} {c? : Option Char}
    (started : startOfValue source = .ok (c?, middle)) :
    ∃ lead, source.rest = lead ++ middle.rest ∧ (∀ c ∈ lead, isSpace c) ∧
      middle.rest.head? = c? := by
  obtain ⟨_, skipped, isSkipped, started⟩ := bind_eq_ok_iff.mp started
  cases isSkipped
  obtain ⟨text, position⟩ := source
  obtain ⟨lead, rest, rfl, spaces, ends⟩ := exists_run isSpace text
  obtain ⟨stop, skipped⟩ := skipBlanks_append spaces ends position
  rw [skipped] at started
  cases rest with
  | nil => cases started
  | cons c rest =>
    cases started
    exact ⟨lead, rfl, spaces, rfl⟩

theorem takes_startOfValue {blanks rest : List Char} {c : Char} (spaces : ∀ c ∈ blanks, isSpace c)
    (begins : rest.head? = some c) (visible : isSpace c = false) :
    startOfValue.Takes blanks rest (some c) := by
  obtain ⟨rest, rfl⟩ := List.head?_eq_some_iff.mp begins
  exact (takes_skipBlanks spaces (by rintro _ ⟨⟩; exact visible)).bind_nil
    (takes_peek_bind (takes_pure (some c) _))

/-- Where no blank is next, a value starts with the next character. -/
theorem takes_startOfValue_bind {next : Option Char → Read α} {value : α} {c : Char}
    (visible : isSpace c = false) {text rest : List Char}
    (takes : (next (some c)).Takes (c :: text) rest value) :
    (startOfValue >>= next).Takes (c :: text) rest value := by
  have start : startOfValue.Takes [] (c :: text ++ rest) (some c) :=
    takes_startOfValue nofun rfl visible
  exact start.bind takes

theorem replays_startOfValue : Replays limit (.any .outside) (fun _ => startOfValue)
    (.at .outside) false := by
  refine replays_skipBlanks_bind (replays_peek_bind fun c? => ?_)
  split
  next => exact replays_failAhead _
  next => exact replays_pure rfl fun _ => id

/-! ### Whole texts -/

/-- A text that is read under some limit has that depth at most, and it is read alike under any
limit that its depth does not exceed. -/
theorem opens_of_run {read : Nat → Read α}
    (replays : ∀ limit, Replays limit (.any .outside) read (fun _ => .any .outside) firm)
    {text : String} {value : α} (isRead : (read limit).run text = .ok value) :
    Opens .outside .outside (mostOpen text) text.toList ∧ mostOpen text ≤ limit ∧
      ∀ other, mostOpen text ≤ other → (read other).run text = .ok value := by
  obtain ⟨left, taken, spaces⟩ := run_eq_ok_iff.mp isRead
  obtain ⟨-, front, depth, text_eq, -, few, replay⟩ := replays limit _ _ _ trivial taken
  have text_eq : text.toList = front ++ left.rest := text_eq
  have blanks := opens_of_passes fun c member => passes_of_isSpace (spaces c member)
  have opens : Opens .outside .outside depth text.toList := by
    have both := replay.opens.append blanks
    rwa [← text_eq, Nat.max_zero] at both
  rw [opens.mostOpen_eq]
  exact ⟨opens, few, fun other enough =>
    (replay.takes other enough left.rest rfl).run_of_blanks text_eq spaces⟩

/-- When a text that is read under some limit is read under another one. -/
theorem run_eq_ok_iff_of_run {read : Nat → Read α}
    (replays : ∀ limit, Replays limit (.any .outside) read (fun _ => .any .outside) firm)
    {text : String} {value found : α} (isRead : (read limit).run text = .ok value) {other : Nat} :
    (read other).run text = .ok found ↔ found = value ∧ mostOpen text ≤ other := by
  obtain ⟨-, few, again⟩ := opens_of_run replays isRead
  constructor
  · intro isFound
    obtain ⟨-, enough, -⟩ := opens_of_run replays isFound
    exact ⟨Except.ok.inj (isFound.symm.trans (again other enough)), enough⟩
  · rintro ⟨rfl, enough⟩
    exact again other enough

end Read

end LogMotif.Json
