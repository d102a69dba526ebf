import LogMotif.Proofs.Pattern.Notation

/-! # Reading what has been written

The written form of an expression is read to its end, wherever in an expression it stands, and what
is read is told by the expression alone. A literal text is read character by character, so that none
of its characters acts as an operator; a choice in a sequence is kept together by its brackets.
-/

namespace LogMotif

namespace Regex

/-- Whether each character that a class leaves out has a written form. -/
def isWritable : Regex → Bool
  | noneOf excluded => excluded.all fun c => c = '\n' || c = '\\' || c ∉ classOperators
  | append first second | either first second => first.isWritable && second.isWritable
  | repeated operand .. | capture _ operand => operand.isWritable
  | _ => true

/-- Whether an expression is a choice between alternatives. -/
def isChoice : Regex → Bool
  | either .. => true
  | _ => false

/-- What stands behind a repetition. -/
def appetiteMark : Appetite → List Char
  | .greedy => []
  | .frugal => ['?']

/-- The level behind the written form of an expression. -/
def Level.add (level : Level) : Regex → Level
  | empty => level
  | literal content =>
    content.toList.foldl (fun level c => level.push (.literal (String.singleton c))) level
  | append first second =>
    let level := if first.isChoice then level.push (Level.add {} first).regex else level.add first
    if second.isChoice then level.push (Level.add {} second).regex else level.add second
  | either first second => (level.add first).next.add second
  | repeated operand repetition appetite =>
    level.push (.repeated (Level.add {} operand).regex repetition appetite)
  | capture wildcard operand => level.push (.capture wildcard (Level.add {} operand).regex)
  | piece => level.push piece

private theorem decimal?_toDigits (number : Nat) :
    decimal? (Nat.toDigits 10 number) = some number := by
  simp [decimal?]

private theorem not_mem_toDigits {c : Char} (other : c.isDigit = false) (number : Nat) :
    c ∉ Nat.toDigits 10 number := by
  intro member
  rw [Nat.isDigit_of_mem_toDigits (by decide) (by decide) member] at other
  cases other

private theorem repetitionOf?_toDigits (times : Nat) :
    repetitionOf? (Nat.toDigits 10 times) = some (.exactly times) := by
  unfold repetitionOf?
  split
  next same => exact absurd (same ▸ by simp) (not_mem_toDigits (c := ',') rfl times)
  next => rw [decimal?_toDigits, Option.map_some]

namespace Reader

private theorem run_append (reader : Reader) (front back : List Char) :
    reader.run (front ++ back) = (reader.run front).bind (·.run back) := by
  rw [run, List.foldlM_append]
  rfl

private theorem run_cons (reader : Reader) (c : Char) (text : List Char) :
    reader.run (c :: text) = (reader.step c).bind (·.run text) := by
  rw [run, List.foldlM_cons]
  rfl

/-- Characters that are only collected are read up to the one that ends them. -/
private theorem run_collect (reader : Reader) (collect : List Char → Mode) (stop : Char)
    (collects : ∀ read c, c ≠ stop →
      (reader.inMode (collect read)).step c = some (reader.inMode (collect (c :: read))))
    {word : List Char} (inside : stop ∉ word) (read text : List Char) :
    (reader.inMode (collect read)).run (word ++ text) =
      (reader.inMode (collect (word.reverse ++ read))).run text := by
  induction word generalizing read with
  | nil => rfl
  | cons c word ih =>
    obtain ⟨other, inside⟩ := not_or.mp (mt List.mem_cons.mpr inside)
    rw [List.cons_append, run_cons, collects read c (Ne.symm other), Option.bind_some, ih inside,
      List.reverse_cons, List.append_assoc]
    rfl

/-- The name of a group is read as its wildcard. -/
private theorem run_name (reader : Reader) (opens : Bool) (wildcard : Nat) (text : List Char) :
    (reader.inMode (.name opens [])).run ('w' :: (Nat.toDigits 10 wildcard ++ '>' :: text)) =
      (if opens then reader.enter (.capture wildcard) else reader.push (.recalled wildcard)).run
        text := by
  have inside : '>' ∉ 'w' :: Nat.toDigits 10 wildcard := by simp [not_mem_toDigits]
  rw [← List.cons_append, reader.run_collect (.name opens) '>' (fun _ _ other => if_neg other) inside,
    List.append_nil, run_cons]
  have named : (reader.inMode (.name opens ('w' :: Nat.toDigits 10 wildcard).reverse)).step '>' =
      some (if opens then reader.enter (.capture wildcard)
        else reader.push (.recalled wildcard)) := by
    simp only [step, inMode, if_true, List.reverse_reverse, wildcardNamed?, decimal?_toDigits,
      Option.map_some]
    rfl
  rw [named, Option.bind_some]

/-- A character that repeats nothing is read alike wherever a piece may begin. -/
private theorem step_of_isReady {reader : Reader} (ready : reader.mode.isReady) {c : Char}
    (other : c ∉ ['*', '+', '?', '\x7b']) : reader.step c = reader.stepPiece c := by
  obtain ⟨mode, level, outer⟩ := reader
  cases mode with
  | piece => simp only [step]; split <;> simp_all
  | repeated => simp only [step]; split <;> simp_all
  | closed => rfl
  | _ => cases ready

private theorem run_cons_of_isReady {reader : Reader} (ready : reader.mode.isReady) {c : Char}
    (other : c ∉ ['*', '+', '?', '\x7b']) (text : List Char) :
    reader.run (c :: text) = (reader.stepPiece c).bind (·.run text) := by
  rw [run_cons, step_of_isReady ready other]

/-- Whether a piece may begin behind some characters, which have led to a certain level. -/
def Adds (reader : Reader) (text : List Char) (level : Level) : Prop :=
  ∃ mode : Mode, mode.isReady ∧ reader.run text = some { reader with mode, level }

private theorem adds_push {reader : Reader} {text : List Char} {piece : Regex}
    (reads : reader.run text = some (reader.push piece)) :
    reader.Adds text (reader.level.push piece) := ⟨.piece, rfl, reads⟩

private theorem Adds.append {reader : Reader} {front back : List Char} {middle level : Level}
    (first : reader.Adds front middle)
    (second : ∀ mode : Mode, mode.isReady →
      ({ reader with mode, level := middle } : Reader).Adds back level) :
    reader.Adds (front ++ back) level := by
  obtain ⟨mode, ready, front_eq⟩ := first
  obtain ⟨last, isLast, back_eq⟩ := second mode ready
  refine ⟨last, isLast, ?_⟩
  rw [run_append, front_eq, Option.bind_some, back_eq]

variable {reader : Reader} (ready : reader.mode.isReady)

include ready

private theorem run_operator {c : Char} (operator : c ∈ operators) :
    reader.run ['\\', c] = some (reader.push (.literal (String.singleton c))) := by
  rw [run_cons_of_isReady ready (by decide)]
  have escaped : (reader.inMode .escape).step c =
      some (reader.push (.literal (String.singleton c))) := by
    simp only [operators, List.mem_cons, List.not_mem_nil, or_false] at operator
    rcases operator with rfl | rfl | rfl | rfl | rfl | rfl | rfl | rfl | rfl | rfl | rfl | rfl | rfl |
      rfl | rfl <;> rfl
  rw [show reader.stepPiece '\\' = some (reader.inMode .escape) from rfl, Option.bind_some, run_cons,
    escaped]
  rfl

private theorem run_plain {c : Char} (plain : c ∉ operators) :
    reader.run [c] = some (reader.push (.literal (String.singleton c))) := by
  have other : c ∉ ['*', '+', '?', '\x7b'] := fun member => plain (by
    simp only [List.mem_cons, List.not_mem_nil, or_false] at member
    rcases member with rfl | rfl | rfl | rfl <;> decide)
  have itself : reader.stepPiece c = some (reader.push (.literal (String.singleton c))) := by
    unfold stepPiece
    split
    all_goals first | exact absurd (by decide) plain | rw [if_neg plain]
  rw [run_cons_of_isReady ready other, itself]
  rfl

/-- A text that is written so that it stands for itself is read character by character. -/
private theorem adds_literal (content : List Char) :
    reader.Adds (content.flatMap fun c => if c ∈ operators then ['\\', c] else [c])
      (content.foldl (fun level c => level.push (.literal (String.singleton c))) reader.level) := by
  induction content generalizing reader with
  | nil => exact ⟨reader.mode, ready, rfl⟩
  | cons c content ih =>
    have here : reader.run (if c ∈ operators then ['\\', c] else [c]) =
        some (reader.push (.literal (String.singleton c))) := by
      split
      next operator => exact run_operator ready operator
      next plain => exact run_plain ready plain
    rw [List.flatMap_cons, List.foldl_cons]
    exact (adds_push here).append fun _ isReady => ih isReady

/-- An expression in brackets is read as one piece. -/
private theorem run_bracket {written : List Char} {level : Level}
    (inside : ∀ outer, ({ outer } : Reader).Adds written level) :
    reader.run ('(' :: '?' :: ':' :: (written ++ [')'])) = some (reader.push level.regex) := by
  obtain ⟨mode, isReady, reads⟩ := inside ((.plain, reader.level) :: reader.outer)
  rw [run_cons_of_isReady ready (by decide)]
  change (reader.enter .plain).run (written ++ [')']) = _
  rw [run_append, enter, reads, Option.bind_some, run_cons_of_isReady isReady (by decide)]
  rfl

/-- A group is read as one piece. -/
private theorem run_capture (wildcard : Nat) {written : List Char} {level : Level}
    (inside : ∀ outer, ({ outer } : Reader).Adds written level) :
    reader.run ('(' :: '?' :: 'P' :: '<' :: 'w' ::
        (Nat.toDigits 10 wildcard ++ '>' :: (written ++ [')']))) =
      some (reader.push (.capture wildcard level.regex)) := by
  obtain ⟨mode, isReady, reads⟩ := inside ((.capture wildcard, reader.level) :: reader.outer)
  rw [run_cons_of_isReady ready (by decide)]
  change (reader.inMode (.name true [])).run
    ('w' :: (Nat.toDigits 10 wildcard ++ '>' :: (written ++ [')']))) = _
  rw [run_name, if_pos rfl, run_append, enter, reads, Option.bind_some,
    run_cons_of_isReady isReady (by decide)]
  rfl

private theorem run_recalled (wildcard : Nat) :
    reader.run ('\\' :: 'k' :: '<' :: 'w' :: (Nat.toDigits 10 wildcard ++ ['>'])) =
      some (reader.push (.recalled wildcard)) := by
  rw [run_cons_of_isReady ready (by decide)]
  change (reader.inMode (.name false [])).run ('w' :: (Nat.toDigits 10 wildcard ++ ['>'])) = _
  rw [run_name]
  rfl

omit ready in
/-- A character that a class leaves out is read from its written form. -/
private theorem run_classChar {c : Char} (writable : c = '\n' ∨ c = '\\' ∨ c ∉ classOperators)
    (read : List Char) :
    (reader.inMode (.excluded read)).run (classChar c).toList =
      some (reader.inMode (.excluded (c :: read))) := by
  by_cases feed : c = '\n'
  · subst feed
    rfl
  by_cases backslash : c = '\\'
  · subst backslash
    rfl
  have plain : c ∉ classOperators := (writable.resolve_left feed).resolve_left backslash
  have itself : (reader.inMode (.excluded read)).step c =
      some (reader.inMode (.excluded (c :: read))) := by
    simp only [step, inMode]
    split
    · exact absurd (by decide) plain
    · exact absurd rfl backslash
    · exact if_neg plain
  rw [classChar, if_neg feed, if_neg backslash, String.toList_singleton, run_cons, itself]
  rfl

omit ready in
private theorem run_excluded {characters : List Char} (writable : (noneOf characters).isWritable)
    (read : List Char) :
    (reader.inMode (.excluded read)).run
        (characters.flatMap (fun c => (classChar c).toList) ++ [']']) =
      some (reader.push (.noneOf (read.reverse ++ characters))) := by
  induction characters generalizing read with
  | nil => simp [run, step, inMode, push]
  | cons c characters ih =>
    simp only [isWritable, List.all_cons, Bool.and_eq_true] at writable
    obtain ⟨here, behind⟩ := writable
    have taken := @run_classChar reader c (by simpa [or_assoc] using here) read
    rw [List.flatMap_cons, List.append_assoc, run_append, taken, Option.bind_some, ih behind,
      List.reverse_cons, List.append_assoc, List.singleton_append]

/-- A class is read as one piece. -/
private theorem run_noneOf {characters : List Char} (writable : (noneOf characters).isWritable) :
    reader.run (noneOf characters).source.toList = some (reader.push (.noneOf characters)) := by
  have written : (source (noneOf characters)).toList =
      '[' :: '^' :: (characters.flatMap (fun c => (classChar c).toList) ++ [']']) := by
    simp [source, List.flatMap_map]
  rw [written, run_cons_of_isReady ready (by decide)]
  exact run_excluded writable []

omit ready in
/-- The last piece is repeated as often as the number between braces says. -/
private theorem run_count {piece : Regex} {word : List Char} (inside : '\x7d' ∉ word)
    {repetition : Repetition} (means : repetitionOf? word = some repetition) :
    (reader.push piece).run ('\x7b' :: (word ++ ['\x7d'])) =
      some ⟨.repeated, reader.level.push (.repeated piece repetition .greedy), reader.outer⟩ := by
  have closed : ((reader.push piece).inMode (.count word.reverse)).step '\x7d' =
      some ⟨.repeated, reader.level.push (.repeated piece repetition .greedy), reader.outer⟩ := by
    simp only [step, inMode, if_true, List.reverse_reverse, means, Option.bind_some]
    rfl
  change ((reader.push piece).inMode (.count [])).run (word ++ ['\x7d']) = _
  rw [run_collect _ .count '\x7d' (fun _ _ other => if_neg other) inside, List.append_nil, run_cons,
    closed]
  rfl

omit ready in
/-- The last piece is repeated as the suffix says, also frugally. -/
private theorem adds_repeated {piece : Regex} (repetition : Repetition) (appetite : Appetite) :
    (reader.push piece).Adds ((repetitionSuffix repetition).toList ++ appetiteMark appetite)
      (reader.level.push (.repeated piece repetition appetite)) := by
  have suffix : (reader.push piece).run (repetitionSuffix repetition).toList =
      some ⟨.repeated, reader.level.push (.repeated piece repetition .greedy), reader.outer⟩ := by
    cases repetition with
    | zeroOrMore => rfl
    | oneOrMore => rfl
    | exactly times =>
      have written : (repetitionSuffix (.exactly times)).toList =
          '\x7b' :: (Nat.toDigits 10 times ++ ['\x7d']) := by
        simp [repetitionSuffix]
      rw [written]
      exact run_count (not_mem_toDigits rfl times) (repetitionOf?_toDigits times)
    | upTo times =>
      have written : (repetitionSuffix (.upTo times)).toList =
          '\x7b' :: (('0' :: ',' :: Nat.toDigits 10 times) ++ ['\x7d']) := by
        simp [repetitionSuffix]
      rw [written]
      refine run_count (by simp [not_mem_toDigits]) ?_
      rw [repetitionOf?, decimal?_toDigits, Option.map_some]
  cases appetite with
  | greedy => exact ⟨.repeated, rfl, by rw [appetiteMark, List.append_nil, suffix]; rfl⟩
  | frugal => exact ⟨.closed, rfl, by rw [run_append, suffix]; rfl⟩

end Reader

/-- Whether the written form of an expression is read wherever a piece may begin. -/
def IsRead (regex : Regex) : Prop :=
  ∀ reader : Reader, reader.mode.isReady →
    reader.Adds regex.source.toList (reader.level.add regex)

namespace IsRead

open Reader

variable {regex : Regex}

private theorem inside (isRead : regex.IsRead) (outer : List (Bracket × Level)) :
    ({ outer } : Reader).Adds regex.source.toList (Level.add {} regex) := isRead { outer } rfl

/-- As a part of a sequence, a choice is read in brackets. -/
private theorem adds_part (isRead : regex.IsRead) {reader : Reader} (ready : reader.mode.isReady) :
    reader.Adds (bracketAlternative regex regex.source).toList
      (if regex.isChoice then reader.level.push (Level.add {} regex).regex
        else reader.level.add regex) := by
  cases regex with
  | either first second =>
    exact adds_push (by simpa [bracketAlternative, bracket] using run_bracket ready isRead.inside)
  | _ => exact isRead reader ready

/-- What is repeated is read as one piece. -/
private theorem run_operand (isRead : regex.IsRead) (writable : regex.isWritable) {reader : Reader}
    (ready : reader.mode.isReady) :
    reader.run (bracketOperand regex regex.source).toList =
      some (reader.push (Level.add {} regex).regex) := by
  cases regex with
  | noneOf excluded => exact run_noneOf ready writable
  | _ => simpa [bracketOperand, bracket] using run_bracket ready isRead.inside

end IsRead

open Reader in
/-- Every expression whose classes have a written form is read. -/
theorem isRead {regex : Regex} (writable : regex.isWritable) : regex.IsRead := by
  induction regex with
  | empty => exact fun reader ready => ⟨reader.mode, ready, rfl⟩
  | literal content =>
    intro reader ready
    rw [source, escapeText, String.toList_ofList]
    exact adds_literal ready content.toList
  | lineFeed =>
    exact fun reader ready =>
      adds_push (by rw [source]; exact run_cons_of_isReady ready (by decide) ['n'])
  | noneOf excluded => exact fun reader ready => adds_push (run_noneOf ready writable)
  | append first second ihFirst ihSecond =>
    intro reader ready
    simp only [isWritable, Bool.and_eq_true] at writable
    rw [source, String.toList_append]
    exact ((ihFirst writable.1).adds_part ready).append fun _ isReady =>
      (ihSecond writable.2).adds_part isReady
  | either first second ihFirst ihSecond =>
    intro reader ready
    simp only [isWritable, Bool.and_eq_true] at writable
    rw [source, String.toList_append, String.toList_append]
    refine Adds.append ((ihFirst writable.1 reader ready).append fun mode isReady => ?_)
      fun _ isReady => ihSecond writable.2 _ isReady
    exact ⟨.piece, rfl, run_cons_of_isReady isReady (by decide) []⟩
  | repeated operand repetition appetite ih =>
    intro reader ready
    have written : (source (repeated operand repetition appetite)).toList =
        (bracketOperand operand operand.source).toList ++
          ((repetitionSuffix repetition).toList ++ appetiteMark appetite) := by
      cases appetite <;> simp [source, appetiteMark]
    obtain ⟨mode, isReady, repeats⟩ :=
      @adds_repeated reader (Level.add {} operand).regex repetition appetite
    refine ⟨mode, isReady, ?_⟩
    rw [written, run_append, (ih writable).run_operand writable ready, Option.bind_some, repeats]
    rfl
  | capture wildcard operand ih =>
    exact fun reader ready => adds_push
      (by simpa [source, captureName] using run_capture ready wildcard (ih writable).inside)
  | recalled wildcard =>
    exact fun reader ready =>
      adds_push (by simpa [source, captureName] using run_recalled ready wildcard)
  | anyInLine | lineStart | lineEnd =>
    exact fun reader ready => adds_push (run_cons_of_isReady ready (by decide) [])

/-- What is read from the written form of an expression. -/
theorem ofSource?_source {regex : Regex} (writable : regex.isWritable) :
    ofSource? ("(?m)" ++ regex.source) = some (true, (Level.add {} regex).regex) := by
  obtain ⟨mode, ready, reads⟩ := isRead writable {} rfl
  have flagged : ("(?m)" ++ regex.source).toList = '(' :: '?' :: 'm' :: ')' :: regex.source.toList :=
    String.toList_append ..
  simp only [ofSource?, flagged, reads, Option.bind_eq_bind, Option.bind_some]
  simp [Reader.done?, ready]

end Regex

end LogMotif
