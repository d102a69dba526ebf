import LogMotif.Proofs.Corpus.Lines
import LogMotif.Proofs.Log.Records
import LogMotif.Proofs.Log.Table
import LogMotif.Proofs.Session.Reachable

/-! # Loaded logs are admitted

A log that has been loaded is rectangular, and it stays so however its rows are filtered. So its
rows can be written to a corpus, and a session can be opened on any of them: neither meets a row or
a list of roles of the wrong length.
-/

namespace LogMotif

namespace Log

/-- The logs that are left of a log when rows are filtered or picked. -/
inductive Narrows (log : Log) : Log → Prop
  | refl : Narrows log log
  | filtered {middle next : Log} {column : FilterColumn} {text : String}
      (narrows : Narrows log middle) (kept : middle.filtered column text = .ok next) :
      Narrows log next
  | retainRows {middle : Log} (narrows : Narrows log middle) (indices : List Nat) :
      Narrows log (middle.retainRows indices)

/-- Whether every row has one cell for each column. -/
def IsRectangular (log : Log) : Prop := ∀ row ∈ log.rows, row.length = log.headers.length

/-- Whether a log is taken by what comes behind the loader, with the roles that a configuration
gives its columns: its rows can be searched, and a session opens on any of them. -/
structure IsAdmitted (log : Log) (config : Config) : Prop where
  searchable : ∃ corpus, log.corpus (log.roles config) = .ok corpus ∧
    corpus.rowCount = log.rows.length
  opens : ∀ indices ≠ [], (∀ index ∈ indices, index < log.rows.length) →
    ∃ rows, log.selectRows indices = .ok rows ∧ rows.map some = indices.map (log.rows[·]?) ∧
      ∀ options, ∃ session, Session.start log.headers (log.roles config) rows options = .ok session

variable {log next : Log}

theorem Tabulates.isRectangular {records : List LogRecord} {ruleColumns : List String}
    (table : log.Tabulates records ruleColumns) : log.IsRectangular := by
  have each := table.rows.flip.imp fun row record fits => And.intro fits.length_eq.symm fits
  exact ((List.forall₂_and_left _ _).mp each).1

theorem IsRectangular.retainRows (rectangular : log.IsRectangular) (indices : List Nat) :
    (log.retainRows indices).IsRectangular := by
  intro row member
  obtain ⟨index, -, here⟩ := List.mem_filterMap.mp member
  exact rectangular row (List.mem_of_getElem? here)

private theorem exists_retainRows_of_filtered {column : FilterColumn} {text : String}
    (kept : log.filtered column text = .ok next) : ∃ indices, next = log.retainRows indices := by
  unfold Log.filtered at kept
  dsimp only at kept
  split at kept
  next => cases kept
  next => exact ⟨_, (Except.ok.inj kept).symm⟩

/-- Filtering and picking rows leaves a log rectangular. -/
theorem Narrows.isRectangular (narrows : log.Narrows next) (rectangular : log.IsRectangular) :
    next.IsRectangular := by
  induction narrows with
  | refl => exact rectangular
  | filtered _ kept ih =>
    obtain ⟨indices, rfl⟩ := exists_retainRows_of_filtered kept
    exact ih.retainRows indices
  | retainRows _ indices ih => exact ih.retainRows indices

theorem length_roles (log : Log) (config : Config) :
    log.headers.length = (log.roles config).length := by
  simp [roles]

/-- Rows are selected by their numbers, in the order of these. -/
theorem selectRows_eq_ok_iff {indices : List Nat} {rows : List (List String)} :
    log.selectRows indices = .ok rows ↔ rows.map some = indices.map (log.rows[·]?) := by
  have picked_iff : rows.map some = indices.map (log.rows[·]?) ↔
      List.Forall₂ (fun index row => log.rows[index]? = some row) indices rows := by
    rw [eq_comm, ← List.forall₂_eq_eq_eq, List.forall₂_map_left_iff, List.forall₂_map_right_iff]
  rw [selectRows, mapM_eq_ok_iff, picked_iff]
  refine ⟨List.Forall₂.imp fun index row taken => ?_, List.Forall₂.imp fun index row here => ?_⟩
  · split at taken
    next here => rw [here, Except.ok.inj taken]
    next => cases taken
  · rw [here]

/-- A rectangular log is admitted, whatever roles its columns have. -/
private theorem IsRectangular.isAdmitted (rectangular : log.IsRectangular) (config : Config) :
    log.IsAdmitted config where
  searchable := by
    have written := Corpus.ofRows_eq_ok_iff.mpr ⟨log.length_roles config, rectangular, rfl⟩
    exact ⟨_, written, Corpus.rowCount_ofRows written⟩
  opens := by
    intro indices filled inside
    let rows := indices.map fun index => (log.rows[index]?).getD []
    have picked : rows.map some = indices.map (log.rows[·]?) := by
      rw [List.map_map]
      refine List.map_congr_left fun index member => ?_
      simp [inside index member]
    have fits : ∀ row ∈ rows, row.length = log.headers.length := by
      intro row member
      have isRow : some row ∈ indices.map (log.rows[·]?) := picked ▸ List.mem_map_of_mem member
      obtain ⟨index, -, here⟩ := List.mem_map.mp isRow
      exact rectangular row (List.mem_of_getElem? here)
    refine ⟨rows, selectRows_eq_ok_iff.mpr picked, picked, fun options => ?_⟩
    let opened : Session :=
      ⟨log.headers, log.roles config, .ofRows (log.roles config) rows, options, none⟩
    exact ⟨opened, Session.start_eq_ok_iff.mpr
      ⟨log.length_roles config, mt List.map_eq_nil_iff.mp filled, fits, rfl⟩⟩

/-- A log that has been loaded is the table of the records in its text, which have each of their
keys once. Whatever is left of it when rows are filtered or picked is admitted. -/
theorem tabulates_and_isAdmitted_of_ofText {content : String} {ruleColumns : List String}
    (loaded : ofText content ruleColumns = .ok log) :
    (∃ records, recordsOfText content = .ok records ∧
      (∀ record ∈ records, (record.map Prod.fst).Nodup) ∧ log.Tabulates records ruleColumns) ∧
    ∀ next, log.Narrows next → ∀ config, next.IsAdmitted config := by
  unfold ofText at loaded
  cases isRead : recordsOfText content with
  | error => rw [isRead] at loaded; cases loaded
  | ok records =>
    rw [isRead] at loaded
    obtain rfl := Except.ok.inj loaded
    have table := tabulates_ofRecords records ruleColumns
    exact ⟨⟨records, rfl, keysOnce_of_recordsOfText isRead, table⟩,
      fun next narrows config => (narrows.isRectangular table.isRectangular).isAdmitted config⟩

/-- Two records with different keys in different orders, of which one has a key twice; a rule column
is a key of the second. The second row is left behind a filter. -/
theorem isAdmitted_of_unlike_records :
    let text := "\x7b\"m\":\"a\",\"n\":1\x7d\n\x7b\"n\":null,\"t\":\"x\",\"m\":1,\"m\":true\x7d\n"
    let log : Log :=
      { headers := [⟨"m", .string⟩, ⟨"n", .number⟩, ⟨"t", .string⟩, ⟨"color", .string⟩]
        rows := [["a", "1", "", ""], ["true", "", "x", ""]]
        ruleColumns := ["t", "color", "t"] }
    let next : Log := { log with rows := [["true", "", "x", ""]] }
    ofText text ["t", "color", "t"] = .ok log ∧ log.filtered .all "x" = .ok next ∧
      (∃ records, recordsOfText text = .ok records ∧ log.Tabulates records ["t", "color", "t"]) ∧
      ∀ config, next.IsAdmitted config := by
  intro text log next
  have loaded : ofText text ["t", "color", "t"] = .ok log := by
    have read : (ofText text ["t", "color", "t"]).toOption = some log := by decide +kernel
    cases result : ofText text ["t", "color", "t"] with
    | error => simp [result, Except.toOption] at read
    | ok found => simpa [result, Except.toOption] using read
  have kept : log.filtered .all "x" = .ok next := rfl
  obtain ⟨⟨records, isRead, -, table⟩, admitted⟩ := tabulates_and_isAdmitted_of_ofText loaded
  exact ⟨loaded, kept, ⟨records, isRead, table⟩, admitted next (.filtered .refl kept)⟩

end Log

end LogMotif
