import LogMotif.Proofs.Query.Definitions
import LogMotif.Proofs.Query.Parts

/-! # What the patterns of a query consist of

The patterns of a compiled motif are read as the pieces of their parts. So no header, cell or value
opens a group or acts as an operator, and the groups of a pattern are those of its wildcards: each is
introduced once and recalled only behind its end. A line pattern takes what values it is given; a
wildcard that is left without one gets a group of its own.
-/

namespace LogMotif

namespace PatternPart

variable {given other : Nat → String → Prop} {parts : List PatternPart}

/-- A line pattern made from a template introduces the groups of wildcards that were not met before. -/
private theorem introduces_instantiate (value? : Nat → Option String) (seen : List Nat)
    (items : List TemplateItem) :
    GroupMark.Introduces seen
      ((LinePattern.pieces (TemplateItem.instantiate value? seen items).1).flatMap Regex.groupMarks)
      (TemplateItem.instantiate value? seen items).2 := by
  induction items generalizing seen with
  | nil => exact .nil seen
  | cons item items ih =>
    cases item with
    | literal content =>
      rw [TemplateItem.instantiate_literal, LinePattern.pieces_cons, List.flatMap_append,
        LineItem.pieces, Regex.flatMap_groupMarks_characters]
      exact ih seen
    | anyString => exact ih seen
    | wildcard index =>
      cases bound : value? index with
      | some content =>
        rw [TemplateItem.instantiate_bound seen bound, LinePattern.pieces_cons, List.flatMap_append,
          LineItem.pieces, Regex.flatMap_groupMarks_characters]
        exact ih seen
      | none =>
        by_cases known : index ∈ seen
        · rw [TemplateItem.instantiate_recalled bound known]
          exact .recalled known (ih seen)
        · rw [TemplateItem.instantiate_capture bound known]
          exact .group known (ih (index :: seen))

private theorem Assembles.congr (same : ∀ index content, given index content ↔ other index content)
    {written : String} {pieces : List Regex} (assembles : Assembles given parts written pieces) :
    Assembles other parts written pieces := by
  obtain rfl : given = other := funext fun index => funext fun content => propext (same index content)
  exact assembles

/-- What is written as its parts and introduces its groups one after the other consists of them. -/
private theorem Assembles.compose {regex : Regex} {written : String} {pieces : List Regex}
    {after : List Nat} (assembles : Assembles given parts written pieces)
    (isWritten : regex.IsWritten written pieces)
    (introduces : GroupMark.Introduces [] (pieces.flatMap Regex.groupMarks) after)
    (unflagged : written.toList.head? ≠ some '(') (multiLine : Bool) :
    Compose given parts multiLine ((if multiLine then "(?m)" else "") ++ regex.source) := by
  rw [isWritten.source_eq]
  refine ⟨written, pieces, assembles, rfl, ?_, introduces.namesGroups⟩
  cases multiLine with
  | true => exact isWritten.ofSource?_flagged
  | false => simpa using isWritten.ofSource?_eq unflagged

end PatternPart

open PatternPart

/-- Whether a value stands in the place of a bound wildcard in a list of values. -/
def EntryTemplate.Gives (template : EntryTemplate) (values : List String) (index : Nat)
    (content : String) : Prop :=
  ∃ place : Nat, template.bound[place]? = some index ∧ values[place]? = some content

private theorem EntryTemplate.boundValue?_eq_some_iff {template : EntryTemplate}
    (nodup : template.bound.Nodup) {values : List String} {index : Nat} {content : String} :
    template.boundValue? values index = some content ↔ template.Gives values index content := by
  have place_iff (place : Nat) :
      template.bound.idxOf? index = some place ↔ template.bound[place]? = some index := by
    rw [List.idxOf?_eq_some_iff, List.getElem?_eq_some_iff]
    constructor
    · rintro ⟨inside, same, -⟩
      exact ⟨inside, same⟩
    · rintro ⟨inside, same⟩
      refine ⟨inside, same, fun before isBefore again => ?_⟩
      have := (nodup.getElem_inj_iff).mp (again.trans same.symm)
      omega
  simp only [boundValue?, Gives, Option.bind_eq_bind, Option.bind_eq_some_iff, place_iff]

/-- The pattern of a line consists of the parts of its entry. -/
private theorem EntryTemplate.compose_linePattern {template : EntryTemplate}
    {parts : List PatternPart} (make : Make parts template.items) (nodup : template.bound.Nodup)
    (values : List String) :
    Compose (template.Gives values) (.lineStart :: (parts ++ [.lineEnd])) false
      (template.linePattern values).source := by
  let pattern := template.linePattern values
  have lines : (Regex.concat [.lineStart, pattern.regex, .lineEnd]).IsWritten
      ("^" ++ (pattern.written ++ ("$" ++ "")))
      ([.lineStart] ++ (pattern.pieces ++ ([.lineEnd] ++ []))) :=
    .append (Regex.isWritten_piece rfl rfl fun _ => rfl) (.append pattern.isWritten
      (.append (Regex.isWritten_piece rfl rfl fun _ => rfl) Regex.isWritten_empty))
  have assembles : Assembles (template.Gives values) (.lineStart :: (parts ++ [.lineEnd]))
      ("^" ++ (pattern.written ++ ("$" ++ "")))
      ([.lineStart] ++ (pattern.pieces ++ ([.lineEnd] ++ []))) :=
    .cons .lineStart (.append
      (.congr (fun _ _ => boundValue?_eq_some_iff nodup) (make (template.boundValue? values) []))
      (.cons .lineEnd .nil))
  have introduces := introduces_instantiate (template.boundValue? values) [] template.items
  have composed := assembles.compose lines
    (by simpa [Regex.groupMarks, pattern, linePattern] using introduces) (by simp) false
  simpa [LinePattern.source] using composed

namespace Query

/-- The lines between two entries are read as one piece, if there can be any. -/
private theorem isWritten_gap (link : Link) :
    (gap link).IsWritten (gap link).source (if gap link = .empty then [] else [gap link]) := by
  have lines (repetition : Repetition) (appetite : Appetite) :
      (Regex.repeated .anyLine repetition appetite).IsWritten
        (Regex.repeated .anyLine repetition appetite).source
        [.repeated .anyLine repetition appetite] :=
    Regex.isWritten_piece rfl rfl fun _ => rfl
  cases link with
  | any => exact lines _ _
  | exactly rows =>
    rw [gap]
    split
    next => exact lines _ _
    next => exact Regex.isWritten_empty
  | atMost rows =>
    rw [gap]
    split
    next => exact lines _ _
    next => exact Regex.isWritten_empty

private theorem flatMap_groupMarks_gap (link : Link) :
    (if gap link = .empty then [] else [gap link]).flatMap Regex.groupMarks = [] := by
  cases link with
  | any => rfl
  | exactly rows => simp only [gap]; split <;> rfl
  | atMost rows => simp only [gap]; split <;> rfl

/-- The lines of entries, as they are shown, are written from the parts of the entries. -/
private theorem exists_isWritten_linesRegex (headers : List Header) (roles : List ColumnRole)
    (entries : List Entry) (captured met : List Nat) :
    ∃ written pieces after,
      Assembles (fun _ _ => False) (ofEntries headers roles entries) written pieces ∧
      (linesRegex met (templates headers roles captured entries)
        (entries.dropLast.map fun entry => entry.link.getD .any)).IsWritten written pieces ∧
      GroupMark.Introduces met (pieces.flatMap Regex.groupMarks) after := by
  -- the wildcards that were met go on from line to line, while those captured change no part
  induction entries generalizing captured met with
  | nil => exact ⟨"", [], met, .nil, Regex.isWritten_empty, .nil met⟩
  | cons entry entries ih =>
    let items := TemplateItem.ofEntry headers roles entry
    let line := TemplateItem.instantiate (fun _ => none) met items
    let template := EntryTemplate.ofItems captured items
    have here : Assembles (fun _ _ => False) (ofEntry headers roles entry) line.1.written
        line.1.pieces :=
      .congr (by simp) (make_ofEntry headers roles entry (fun _ => none) met)
    have feed : Regex.IsWritten .lineFeed "\\n" [.lineFeed] :=
      Regex.isWritten_piece rfl rfl fun _ => rfl
    have introduces := introduces_instantiate (fun _ => none) met items
    obtain ⟨written, pieces, after, assembles, isWritten, introducesBehind⟩ :=
      ih (captured ++ template.defined) line.2
    cases entries with
    | nil =>
      have nothing := Regex.isWritten_empty.append Regex.isWritten_empty
      have last := feed.append nothing
      simp only [String.append_empty, List.append_nil] at last
      refine ⟨_, _, line.2, here.append (.single .lineFeed), line.1.isWritten.append last, ?_⟩
      simpa [Regex.groupMarks] using introduces
    | cons next entries =>
      have lines := line.1.isWritten.append
        (feed.append ((isWritten_gap (entry.link.getD .any)).append isWritten))
      refine ⟨_, _, after, here.append (.cons .lineFeed (.cons (.gap _) assembles)), lines, ?_⟩
      have behind : GroupMark.Introduces line.2 (List.flatMap Regex.groupMarks
          ([.lineFeed] ++ ((if gap (entry.link.getD .any) = .empty then []
            else [gap (entry.link.getD .any)]) ++ pieces))) after := by
        simpa [flatMap_groupMarks_gap, Regex.groupMarks] using introducesBehind
      rw [List.flatMap_append]
      exact introduces.append behind

variable {headers : List Header} {roles : List ColumnRole} {motif : Motif} {budget : Nat}
  {query : Query}

/-- The patterns of a compiled motif consist of their parts, whatever texts these come from. The
pattern of a line, for any list of values, has the parts of its entry; the pattern that is shown has
those of all entries. What is read of a text in them matches the characters of the text alone. -/
theorem compose_of_compile (compiled : compile headers roles motif budget = .ok query) :
    (∀ i entry, motif.entries[i]? = some entry →
      ∃ template, query.entries[i]? = some template ∧
        ∀ values, ∃ pattern, query.linePattern i values = .ok pattern ∧
          Compose (template.Gives values)
            (.lineStart :: (ofEntry headers roles entry ++ [.lineEnd])) false pattern.source) ∧
    Compose (fun _ _ => False) (.lineStart :: ofEntries headers roles motif.entries) true
      query.source ∧
    ∀ multiLine content, (Regex.sequence (Regex.characters content)).Matches multiLine =
      Regex.Place.Passes content.toList := by
  refine ⟨?_, ?_, Regex.matches_characters⟩
  · intro i entry isEntry
    obtain ⟨template, isTemplate, -, bound⟩ := lists_of_compile compiled isEntry
    refine ⟨template, isTemplate, fun values => ⟨template.linePattern values, ?_, ?_⟩⟩
    · rw [linePattern, isTemplate]
    · refine template.compose_linePattern ?_ bound.nodup values
      obtain ⟨-, -, -, -, rfl⟩ := compile_eq_ok_iff.mp compiled
      obtain ⟨_, known, again, rfl, -⟩ := exists_ofItems_of_getElem?_templates isTemplate
      obtain rfl := Option.some.inj (isEntry.symm.trans again)
      exact make_ofEntry headers roles entry
  · obtain ⟨-, -, -, -, rfl⟩ := compile_eq_ok_iff.mp compiled
    obtain ⟨written, pieces, after, assembles, isWritten, introduces⟩ :=
      exists_isWritten_linesRegex headers roles motif.entries [] []
    have start : Regex.IsWritten .lineStart "^" [.lineStart] :=
      Regex.isWritten_piece rfl rfl fun _ => rfl
    exact Assembles.compose (.cons .lineStart assembles) (start.append isWritten)
      (by simpa [Regex.groupMarks] using introduces) (by simp) true

/-- A column, cells and a value that are full of operators, groups and recalls. The line pattern of the
second entry has the value, or a group of its own where none is given. -/
theorem compose_of_operators :
    ∃ (motif : Motif) (query : Query) (entry : Entry) (template : EntryTemplate)
      (pattern : LinePattern), entry.source = ["x)"] ∧ motif.entries[1]? = some entry ∧
      compile [⟨"(?P<w0>\"", .string⟩] [.content] motif defaultBudget = .ok query ∧
      query.entries[1]? = some template ∧
      query.source =
        "(?m)^\\\x7b\"\\(\\?P<w0>\\\\\"\":\"\\$\\|(?P<w0>(?:[^\"\\\\\\n]|\\\\.)+?)" ++
          "\\\\\\\\k<w0>\\k<w0>\"\\\x7d\\n(?:[^\\n]*\\n)*?" ++
            "\\\x7b\"\\(\\?P<w0>\\\\\"\":\"\\k<w0>\\)\"\\\x7d\\n" ∧
      Compose (fun _ _ => False)
        (.lineStart :: ofEntries [⟨"(?P<w0>\"", .string⟩] [.content] motif.entries) true query.source ∧
      query.linePattern 1 ["(.*"] = .ok pattern ∧
      pattern.source = "^\\\x7b\"\\(\\?P<w0>\\\\\"\":\"\\(\\.\\*\\)\"\\\x7d$" ∧
      ∀ values, ∃ pattern, query.linePattern 1 values = .ok pattern ∧
        Compose (template.Gives values)
          (.lineStart :: (ofEntry [⟨"(?P<w0>\"", .string⟩] [.content] entry ++ [.lineEnd])) false
          pattern.source := by
  let first : Entry := ⟨["$|x\\k<w0>x"],
    [⟨[.text "$|", .wildcard 0 "x", .text "\\k<w0>", .wildcard 0 "x"]⟩], [true], some .any⟩
  let second : Entry := ⟨["x)"], [⟨[.wildcard 0 "x", .text ")"]⟩], [true], none⟩
  let motif : Motif := ⟨[first, second], [⟨[⟨0, 0, 1⟩, ⟨0, 0, 3⟩, ⟨1, 0, 0⟩]⟩]⟩
  obtain ⟨lines, shown, -⟩ :=
    @compose_of_compile [⟨"(?P<w0>\"", .string⟩] [.content] motif defaultBudget _ rfl
  obtain ⟨template, isTemplate, line⟩ := lines 1 second rfl
  exact ⟨motif, _, second, template, _, rfl, rfl, rfl, isTemplate, by decide +kernel, shown, rfl,
    by decide +kernel, line⟩

end Query

end LogMotif
