import LogMotif.Proofs.Log.Admission

/-! # What coloring rules leave behind

The columns of coloring rules are left out of the searchable text. A rule may have the name of a key
of the records, so what stands there is left out as well: the searchable text is that of the records
without such keys. It depends neither on the values there nor on where they stand, nor on which
columns hold times.
-/

namespace LogMotif

/-- A record without the keys that are rule columns. -/
def LogRecord.withoutRules (ruleColumns : List String) (record : LogRecord) : LogRecord :=
  record.filter (·.1 ∉ ruleColumns)

/-- A key that is no rule column has the value it had. -/
theorem LogRecord.lookup_withoutRules {ruleColumns : List String} (record : LogRecord) {key : String}
    (kept : key ∉ ruleColumns) :
    (record.withoutRules ruleColumns).lookup key = record.lookup key := by
  induction record with
  | nil => rfl
  | cons member record ih =>
    obtain ⟨name, value⟩ := member
    rw [withoutRules] at ih ⊢
    rw [List.filter_cons, List.lookup_cons]
    by_cases same : key = name
    · subst same
      simp [kept]
    · have other : (key == name) = false := beq_eq_false_iff_ne.mpr same
      split
      next => rw [List.lookup_cons, other, ih]
      next => rw [ih, other]

/-- A row whose cells are told by the names of their columns has a member for each column that is
written. -/
private theorem Corpus.writeMembers_map {headers : List Header} {roles : List ColumnRole}
    (keep : String → Bool) (cell : String → String)
    (kept : roles.map ColumnRole.inCorpus = headers.map fun header => keep header.name) :
    writeMembers headers roles (headers.map fun header => cell header.name) =
      ((headers.map Header.name).filter keep).map fun name =>
        Json.quote name ++ ":" ++ Json.quote (cell name) := by
  induction headers generalizing roles with
  | nil => rfl
  | cons header headers ih =>
    obtain ⟨role, roles, rfl, here, kept⟩ := List.map_eq_cons_iff.mp kept
    have here : role.inCorpus = keep header.name := here
    have behind := ih kept
    rw [writeMembers] at behind ⊢
    rw [List.map_cons, List.map_cons, List.zip_cons_cons, List.zip_cons_cons, List.filter_cons,
      ← here]
    by_cases written : role.inCorpus
    · rw [if_pos written, List.map_cons, ← behind]
      simp only [List.filterMap_cons, if_pos written]
    · rw [if_neg written, ← behind]
      simp only [List.filterMap_cons, if_neg written]

namespace Log

/-- The columns of a log but for the rule columns are the keys of the records without these. -/
private theorem filter_columns (records : List LogRecord) (ruleColumns : List String) :
    (addNew (keys records) ruleColumns).filter (· ∉ ruleColumns) =
      keys (records.map (LogRecord.withoutRules ruleColumns)) := by
  have rules : ruleColumns.filter (· ∉ ruleColumns) = [] :=
    List.filter_eq_nil_iff.mpr fun name member => by simpa using member
  have keys_eq : (recordKeys records).filter (· ∉ ruleColumns) =
      recordKeys (records.map (LogRecord.withoutRules ruleColumns)) := by
    simp only [recordKeys, List.filter_flatMap, List.flatMap_map, List.filter_map]
    rfl
  have columns : addNew (keys records) ruleColumns = firstPlaces (recordKeys records ++ ruleColumns) :=
    addNew_addNew _ _
  rw [columns, ← firstPlaces_filter, List.filter_append, rules, List.append_nil, keys_eq]
  rfl

/-- The columns that are written are those that are no rule columns, whichever hold times. -/
private theorem map_inCorpus_roles (log : Log) (config : Config) :
    (log.roles config).map ColumnRole.inCorpus =
      log.headers.map fun header => decide (header.name ∉ log.ruleColumns) := by
  have written (header : Header) (column : Nat) :
      (if log.ruleColumns.contains header.name then ColumnRole.rule
        else if log.isTimestampColumn config column header then .timestamp else .content).inCorpus =
      decide (header.name ∉ log.ruleColumns) := by
    by_cases isRule : header.name ∈ log.ruleColumns
    · simp [isRule, ColumnRole.inCorpus]
    · simp only [List.contains_iff_mem, isRule, if_false, not_false_eq_true, decide_true]
      split <;> rfl
  conv_rhs => rw [← List.zipIdx_map_fst 0 log.headers]
  rw [roles, List.map_map, List.map_map]
  exact List.map_congr_left fun pair _ => written pair.1 pair.2

/-- The searchable text of a log is that of its records without the keys that are rule columns. -/
private theorem corpus_ofRecords (records : List LogRecord) (ruleColumns : List String)
    (config : Config) :
    let log := ofRecords records ruleColumns
    let spared := records.map (LogRecord.withoutRules ruleColumns)
    log.corpus (log.roles config) = .ok (.ofText (String.join (spared.map fun record =>
      "\x7b" ++ String.intercalate "," ((keys spared).map fun name =>
        Json.quote name ++ ":" ++ Json.quote (cellText (record.lookup name))) ++ "\x7d\n"))) := by
  intro log spared
  have rectangular : log.IsRectangular := (tabulates_ofRecords records ruleColumns).isRectangular
  have names_eq : log.headers.map Header.name = addNew (keys records) ruleColumns := by
    simp [log, ofRecords, Function.comp_def]
  have rows_eq : log.rows = records.map fun record =>
      log.headers.map fun header => cellText (record.lookup header.name) := by
    simp [log, ofRecords, Function.comp_def]
  have line_eq (record : LogRecord) :
      Corpus.writeRow log.headers (log.roles config)
          (log.headers.map fun header => cellText (record.lookup header.name)) =
        "\x7b" ++ String.intercalate "," ((keys spared).map fun name => Json.quote name ++ ":" ++
          Json.quote (cellText ((record.withoutRules ruleColumns).lookup name))) ++ "\x7d\n" := by
    have members_eq := Corpus.writeMembers_map (fun name => decide (name ∉ ruleColumns))
      (fun name => cellText (record.lookup name)) (log.map_inCorpus_roles config)
    rw [names_eq, filter_columns] at members_eq
    have same : ∀ name ∈ keys spared,
        (record.withoutRules ruleColumns).lookup name = record.lookup name := by
      intro name member
      rw [← filter_columns] at member
      exact record.lookup_withoutRules (by simpa using (List.mem_filter.mp member).2)
    rw [Corpus.writeRow, members_eq, List.map_congr_left fun name member => by rw [← same name member]]
  refine Corpus.ofRows_eq_ok_iff.mpr ⟨log.length_roles config, rectangular, ?_⟩
  rw [rows_eq, List.map_map, List.map_map]
  exact congrArg (fun lines => Corpus.ofText (String.join lines))
    (List.map_congr_left fun record _ => (line_eq record).symm)

/-- Two lists of records that are the same without the keys that are rule columns have the same
searchable text, whatever stands under these keys and wherever they stand. -/
theorem corpus_eq_of_withoutRules_eq {left right : List LogRecord} {ruleColumns : List String}
    (same : left.map (LogRecord.withoutRules ruleColumns) =
      right.map (LogRecord.withoutRules ruleColumns)) (config : Config) :
    ∃ corpus,
      (ofRecords left ruleColumns).corpus ((ofRecords left ruleColumns).roles config) = .ok corpus ∧
      (ofRecords right ruleColumns).corpus ((ofRecords right ruleColumns).roles config) =
        .ok corpus := by
  refine ⟨_, corpus_ofRecords left ruleColumns config, ?_⟩
  rw [same]
  exact corpus_ofRecords right ruleColumns config

/-- A rule column with the name of a key of the records. In the first list it stands in front and
looks like a time; in the second it is missing, or it is a number. -/
theorem corpus_eq_of_recolored_records :
    let left : List LogRecord :=
      [[("level", .string "2024-01-01 10:00:00"), ("m", .string "a")],
        [("n", .bool true), ("m", .string "b"), ("level", .string "2024-01-02 10:00:00")]]
    let right : List LogRecord :=
      [[("m", .string "a"), ("color", .string "red")],
        [("n", .bool true), ("level", .ofNat 7), ("m", .string "b")]]
    let rules := ["color", "level"]
    (ofRecords left rules).headers.map Header.name = ["level", "m", "n", "color"] ∧
    (ofRecords right rules).headers.map Header.name = ["m", "color", "n", "level"] ∧
    left.map (LogRecord.withoutRules rules) = right.map (LogRecord.withoutRules rules) ∧
    ∃ corpus, (ofRecords left rules).corpus ((ofRecords left rules).roles {}) = .ok corpus ∧
      (ofRecords right rules).corpus ((ofRecords right rules).roles {}) = .ok corpus := by
  intro left right rules
  have same : left.map (LogRecord.withoutRules rules) = right.map (LogRecord.withoutRules rules) := by
    rfl
  exact ⟨by decide, by decide, same, corpus_eq_of_withoutRules_eq same {}⟩

end Log

end LogMotif
