import LogMotif.Proofs.Json.Lists
import LogMotif.Proofs.Json.ReplayValue
import LogMotif.Proofs.Log.Records

/-! # The two forms of a log

A log is a list of records, or it has one record on each line. Records that are read on lines of
their own are read as the items of a list as well, with the same values, if the brackets of the list
around them do not exceed the limit.
-/

namespace LogMotif

open Json

namespace LogRecord

/-! ### Records under a limit

A line and an item of a list are read under limits that differ by one. The readers below take the
limit as a parameter, with the outermost bracket counted, so that both are readers of one family.
-/

/-- Read a record in which so many brackets are open at once at most, its own among them. -/
def readWithin (limit : Nat) : Read LogRecord := do
  match ← Read.startOfValue with
  | some '{' =>
    match limit with
    | 0 => Read.failAhead .tooDeep
    | depth + 1 =>
      return Value.lastWins
        (← Read.objectOf (Read.membersWith .strict (Read.value .strict depth)))
  | _ => Read.unexpected "a map"

/-- Read a list of records in which so many brackets are open at once at most. -/
def readListWithin (limit : Nat) : Read (List LogRecord) := do
  match ← Read.startOfValue with
  | some '[' =>
    match limit with
    | 0 => Read.failAhead .tooDeep
    | depth + 1 => Read.listOf (Read.itemsToEnd (readWithin depth) true)
  | _ => Read.unexpected "a sequence"

private theorem replays_readWithin (limit : Nat) :
    Read.Replays limit (.any .outside) readWithin (fun _ => .any .outside) true := by
  refine Read.replays_startOfValue.bind fun c? => ?_
  split
  next =>
    exact Read.replays_of_enclosed (.inr rfl) (.inr rfl) Value.lastWins
      (fun depth _ => Read.replays_membersWith .strict (Read.replays_value .strict depth)) nofun
      fun _ => rfl
  next => exact Read.replays_of_fails (Read.unexpected_ne_ok _)

private theorem replays_readListWithin (limit : Nat) :
    Read.Replays limit (.any .outside) readListWithin (fun _ => .any .outside) true := by
  refine Read.replays_startOfValue.bind fun c? => ?_
  split
  next =>
    exact Read.replays_of_enclosed (.inl rfl) (.inl rfl) id
      (fun depth _ => Read.replays_itemsToEnd (replays_readWithin depth) true) nofun
      fun _ => (bind_pure _).symm
  next => exact Read.replays_of_fails (Read.unexpected_ne_ok _)

private theorem ofLine_eq_run_readWithin (line : String) :
    ofLine line = (readWithin nestingLimit).run line := rfl

private theorem readList_eq_readListWithin : readList = readListWithin nestingLimit := rfl

/-- The record of a text ends at its closing brace, whatever stands behind it. -/
private theorem exists_spaced_of_readWithin {limit : Nat} {source left : Source}
    {record : LogRecord} (taken : readWithin limit source = .ok (record, left))
    (trails : ∀ c ∈ left.rest, isSpace c) :
    ∃ lead object, source.rest = lead ++ (object ++ left.rest) ∧
      Read.Spaced (readWithin limit) lead object left.rest record := by
  obtain ⟨c?, middle, started, taken⟩ := Read.bind_eq_ok_iff.mp taken
  obtain ⟨lead, source_eq, leads, begins⟩ := Read.exists_lead_of_startOfValue started
  -- `replays_readWithin` is not enough: it speaks of what stood behind the object only.
  split at taken
  next =>
    cases limit with
    | zero => cases taken
    | succ depth =>
      obtain ⟨members, _, taken, made⟩ := Read.bind_eq_ok_iff.mp taken
      cases made
      obtain ⟨text, deep, middle_eq, few, -, again⟩ := Read.exists_text_of_enclosed (by decide)
        (Read.replays_membersWith .strict (Read.replays_value .strict depth)) begins taken
      refine ⟨lead, '{' :: (text ++ ['}']), ?_, leads, trails, rfl, ?_,
        fun blanks rest spaces => ?_⟩
      · rw [source_eq, middle_eq, List.cons_append, List.append_assoc, List.singleton_append]
      · rw [← List.cons_append, List.getLast?_concat]
      · have start : Read.startOfValue.Takes blanks ('{' :: (text ++ ['}']) ++ rest) (some '{') :=
          Read.takes_startOfValue spaces rfl rfl
        have content : (Read.objectOf (Read.membersWith .strict (Read.value .strict depth)) >>=
            fun members => pure (Value.lastWins members)).Takes ('{' :: (text ++ ['}'])) rest
              (Value.lastWins members) := (again depth few rest).bind_nil (Read.takes_pure _ rest)
        exact start.bind content
  next => exact absurd taken (Read.unexpected_ne_ok _ _ _)

private theorem holds_of_ofLine {text : String} {record : LogRecord}
    (isRead : ofLine text = .ok record) :
    (readWithin nestingLimit).Holds text record := by
  rw [ofLine_eq_run_readWithin] at isRead
  obtain ⟨left, taken, trails⟩ := Read.run_eq_ok_iff.mp isRead
  obtain ⟨lead, object, text_eq, spaced⟩ := exists_spaced_of_readWithin taken trails
  exact ⟨lead, object, left.rest, text_eq, spaced⟩

/-- Records that are read under a limit are read as a list under a limit that allows for the
brackets of the list. -/
private theorem run_readListWithin {limit : Nat} {texts : List String} {records : List LogRecord}
    (each : List.Forall₂ (readWithin limit).Holds texts records) :
    (readListWithin (limit + 1)).run ("[" ++ String.intercalate "," texts ++ "]") =
      .ok records := by
  have list := Read.takes_listOf (Read.takes_itemsToEnd_of_holds each [])
  refine Read.Takes.run ?_
  rw [String.toList_append, String.toList_append]
  exact Read.takes_startOfValue_bind rfl list

end LogRecord

namespace Text

private theorem isBlank_of_isSpace {c : Char} (space : isSpace c) : isBlank c := by
  simp only [isSpace, Bool.or_eq_true, beq_iff_eq] at space
  rcases space with ((rfl | rfl) | rfl) | rfl <;> decide

end Text

namespace Log

open LogRecord (readWithin)

/-! ### Records on lines -/

variable {texts : List String} {records : List LogRecord}

private theorem toList_joinLines (text next : String) (texts : List String) :
    (String.intercalate "\n" (text :: next :: texts)).toList =
      text.toList ++ '\n' :: (String.intercalate "\n" (next :: texts)).toList := by
  simp

/-- What a text holds, it holds without a carriage return at its end, which is a blank behind the
object. -/
private theorem holds_dropCarriageReturn {α : Type} {item : Read α} {text : String} {value : α}
    (holds : item.Holds text value) : item.Holds (String.ofList
      (if text.toList.getLast? = some '\r' then text.toList.dropLast else text.toList)) value := by
  split
  next isLast =>
    obtain ⟨lead, object, trail, text_eq, spaced⟩ := holds
    have filled : trail ≠ [] := by
      rintro rfl
      rw [text_eq, List.append_nil, List.getLast?_append, spaced.ends, Option.some_or] at isLast
      exact absurd isLast (by decide)
    refine ⟨lead, object, trail.dropLast, ?_, { spaced with trails := fun c member => ?_ }⟩
    · rw [String.toList_ofList, text_eq, ← List.append_assoc, List.dropLast_append_of_ne_nil filled,
        List.append_assoc]
    · exact spaced.trails c (List.dropLast_subset trail member)
  next => rwa [String.ofList_toList]

private theorem head?_dropBlanks_of_holds {α : Type} {item : Read α} {text : String} {value : α}
    (holds : item.Holds text value) (more : List Char) :
    (Text.dropBlanks (text.toList ++ more)).head? = some '{' := by
  obtain ⟨lead, object, trail, text_eq, spaced⟩ := holds
  have blanks : ∀ c ∈ lead, Text.isBlank c :=
    fun c member => Text.isBlank_of_isSpace (spaced.leads c member)
  have begins : (object ++ trail ++ more).head? = some '{' := by
    rw [List.append_assoc]
    exact spaced.head?_append _
  obtain ⟨behind, ahead⟩ := List.head?_eq_some_iff.mp begins
  rw [text_eq, List.append_assoc, Text.dropBlanks, List.dropWhile_append_of_pos blanks, ahead]
  rfl

/-- The lines of texts that are written one on each line hold what the texts hold. -/
private theorem holds_lines {α : Type} {item : Read α} {values : List α}
    (inLine : ∀ text ∈ texts, '\n' ∉ text.toList) (each : List.Forall₂ item.Holds texts values) :
    List.Forall₂ (fun line value => item.Holds (String.ofList line) value)
      (Text.lines (String.intercalate "\n" texts).toList) values := by
  induction each with
  | nil =>
    rw [String.intercalate_nil]
    exact .nil
  | @cons text value texts values here each ih =>
    obtain ⟨inFirst, inLine⟩ := List.forall_mem_cons.mp inLine
    cases each with
    | nil =>
      have filled := List.ne_nil_of_mem here.brace_mem
      rw [String.intercalate_singleton, Text.lines_of_not_mem inFirst filled]
      exact .cons (by rwa [String.ofList_toList]) .nil
    | @cons next _ texts _ second each =>
      -- A carriage return at the end of a text is taken for a part of the line break.
      rw [toList_joinLines, Text.lines_append_lineFeed inFirst]
      exact .cons (holds_dropCarriageReturn here) (ih inLine)

/-- Lines that hold records are read as these, and no line is left out. -/
private theorem recordsOfLines_of_holds {content : List Char}
    (each : List.Forall₂ (fun line record =>
      (readWithin nestingLimit).Holds (String.ofList line) record) (Text.lines content) records) :
    recordsOfLines content = .ok records := by
  have braces : ∀ line ∈ Text.lines content, '{' ∈ line := by
    have both := each.imp fun line record holds =>
      And.intro (String.toList_ofList (l := line) ▸ holds.brace_mem) holds
    exact ((List.forall₂_and_left _ _).mp both).1
  have visible : ¬ Text.isBlank '{' := by decide
  have filled : ∀ pair ∈ (Text.lines content).zipIdx, ¬ Text.isAllBlank pair.1 :=
    fun pair member blank => visible
      (List.all_eq_true.mp blank _ (braces pair.1 (List.fst_mem_of_mem_zipIdx member)))
  rw [recordsOfLines, List.filter_eq_self.mpr fun pair member => by simp [filled pair member],
    mapM_eq_ok_iff]
  rw [← List.zipIdx_map_fst 0 (Text.lines content), List.forall₂_map_left_iff] at each
  refine each.imp fun pair record holds => ?_
  have isRead : LogRecord.ofLine (String.ofList pair.1) = .ok record := holds.run
  dsimp only
  rw [isRead]
  rfl

private theorem exists_forall₂_of_forall {α β : Type} {relates : α → β → Prop} {list : List α}
    (each : ∀ a ∈ list, ∃ b, relates a b) : ∃ others, List.Forall₂ relates list others := by
  induction list with
  | nil => exact ⟨[], .nil⟩
  | cons first list ih =>
    obtain ⟨⟨other, here⟩, each⟩ := List.forall_mem_cons.mp each
    obtain ⟨others, behind⟩ := ih each
    exact ⟨other :: others, .cons here behind⟩

theorem recordsOfText_lines (inLine : ∀ text ∈ texts, '\n' ∉ text.toList)
    (each : List.Forall₂ (readWithin nestingLimit).Holds texts records) :
    recordsOfText (String.intercalate "\n" texts) = .ok records := by
  have noList : (Text.dropBlanks (String.intercalate "\n" texts).toList).head? ≠ some '[' := by
    cases each with
    | nil =>
      rw [String.intercalate_nil]
      decide
    | @cons text _ texts _ here _ =>
      obtain ⟨more, joined⟩ : ∃ more,
          (String.intercalate "\n" (text :: texts)).toList = text.toList ++ more := by
        cases texts with
        | nil => exact ⟨[], by simp⟩
        | cons next texts => exact ⟨_, toList_joinLines text next texts⟩
      rw [joined, head?_dropBlanks_of_holds here]
      decide
  rw [recordsOfText, if_neg noList]
  exact recordsOfLines_of_holds (holds_lines inLine each)

/-! ### Both forms -/

theorem recordsOfText_list (texts : List String) :
    recordsOfText ("[" ++ String.intercalate "," texts ++ "]") =
      (LogRecord.readList.run ("[" ++ String.intercalate "," texts ++ "]")).mapError
        (LoadError.invalidJson 0) := by
  refine if_pos ?_
  rw [String.toList_append, String.toList_append]
  rfl

/-- When records that are read each on its own are read as a list. -/
private theorem recordsOfText_list_eq_ok_iff
    (each : List.Forall₂ (readWithin nestingLimit).Holds texts records) {found : List LogRecord} :
    recordsOfText ("[" ++ String.intercalate "," texts ++ "]") = .ok found ↔
      found = records ∧ mostOpen ("[" ++ String.intercalate "," texts ++ "]") ≤ nestingLimit := by
  rw [recordsOfText_list, mapError_eq_ok_iff, LogRecord.readList_eq_readListWithin]
  exact Read.run_eq_ok_iff_of_run LogRecord.replays_readListWithin
    (LogRecord.run_readListWithin each)

theorem ofText_eq_ok_iff {content : String} {ruleColumns : List String} {log : Log} :
    ofText content ruleColumns = .ok log ↔
      ∃ records, recordsOfText content = .ok records ∧ log = ofRecords records ruleColumns := by
  unfold ofText
  cases recordsOfText content with
  | error => simp [Except.map]
  | ok records => simp [Except.map, eq_comm]

/-- Texts that are one object each make the same log as a list and as lines. The lines are always
read. The list, which is deeper by one than its deepest text, is read unless it is too deep. -/
theorem ofText_list_eq_ok_iff (inLine : ∀ text ∈ texts, '\n' ∉ text.toList)
    (each : ∀ text ∈ texts, ∃ record, LogRecord.ofLine text = .ok record)
    (ruleColumns : List String) :
    let list := "[" ++ String.intercalate "," texts ++ "]"
    let lines := String.intercalate "\n" texts
    (∃ log, ofText lines ruleColumns = .ok log) ∧
      mostOpen list = (texts.map mostOpen).foldr max 0 + 1 ∧
      ∀ log, ofText list ruleColumns = .ok log ↔
        ofText lines ruleColumns = .ok log ∧ mostOpen list ≤ nestingLimit := by
  intro list lines
  obtain ⟨records, isRead⟩ := exists_forall₂_of_forall each
  have holds := isRead.imp fun _ _ => LogRecord.holds_of_ofLine
  have readLines : recordsOfText lines = .ok records := recordsOfText_lines inLine holds
  refine ⟨⟨_, ofText_eq_ok_iff.mpr ⟨records, readLines, rfl⟩⟩, mostOpen_list ?_, fun log => ?_⟩
  · intro text member
    obtain ⟨record, isRecord⟩ := each text member
    rw [LogRecord.ofLine_eq_run_readWithin] at isRecord
    exact (Read.opens_of_run LogRecord.replays_readWithin isRecord).1
  · rw [ofText_eq_ok_iff, ofText_eq_ok_iff]
    constructor
    · rintro ⟨found, isFound, rfl⟩
      obtain ⟨rfl, shallow⟩ := (recordsOfText_list_eq_ok_iff holds).mp isFound
      exact ⟨⟨found, readLines, rfl⟩, shallow⟩
    · rintro ⟨⟨found, isFound, rfl⟩, shallow⟩
      obtain rfl := Except.ok.inj (readLines.symm.trans isFound)
      exact ⟨records, (recordsOfText_list_eq_ok_iff holds).mpr ⟨rfl, shallow⟩, rfl⟩

/-- Two objects with blanks around them, the first with a carriage return at its end. A string holds
brackets, commas and an escaped quote; there are lists and objects in a list, and a key that is
there twice. -/
theorem ofText_list_of_unlike_texts :
    let texts := ["\x7b\"m\":\"],[\x7b\\\"\",\"n\":[1,\x7b\"k\":[]\x7d],\"m\":\"a\\u0041\"\x7d \r",
      "\t\x7b \"n\" : -2.50 ,\"t\":null\x7d"]
    let log : Log :=
      { headers := [⟨"m", .string⟩, ⟨"n", .string⟩, ⟨"t", .string⟩, ⟨"color", .string⟩]
        rows := [["aA", "[1,\x7b\"k\":[]\x7d]", "", ""], ["", "-2.5", "", ""]]
        ruleColumns := ["color"] }
    ofText (String.intercalate "\n" texts) ["color"] = .ok log ∧
      mostOpen ("[" ++ String.intercalate "," texts ++ "]") = 5 ∧
      ofText ("[" ++ String.intercalate "," texts ++ "]") ["color"] = .ok log := by
  intro texts log
  have inLine : ∀ text ∈ texts, '\n' ∉ text.toList := by decide
  have objects : ∀ text ∈ texts, (LogRecord.ofLine text).toOption.isSome := by decide +kernel
  have each : ∀ text ∈ texts, ∃ record, LogRecord.ofLine text = .ok record := by
    intro text member
    cases isRead : LogRecord.ofLine text with
    | error => simpa [isRead, Except.toOption] using objects text member
    | ok record => exact ⟨record, rfl⟩
  have loaded : ofText (String.intercalate "\n" texts) ["color"] = .ok log := by
    have read : (ofText (String.intercalate "\n" texts) ["color"]).toOption = some log := by
      decide +kernel
    cases result : ofText (String.intercalate "\n" texts) ["color"] with
    | error => simp [result, Except.toOption] at read
    | ok found => simpa [result, Except.toOption] using read
  have depth : mostOpen ("[" ++ String.intercalate "," texts ++ "]") = 5 := by decide +kernel
  obtain ⟨-, -, same⟩ := ofText_list_eq_ok_iff inLine each ["color"]
  exact ⟨loaded, depth, (same log).mpr ⟨loaded, by rw [depth]; decide⟩⟩

end Log

end LogMotif
