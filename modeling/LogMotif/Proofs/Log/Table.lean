import Mathlib.Data.List.Forall2
import LogMotif.Log
import LogMotif.Proofs.FirstPlaces

/-! # The table of some records

The columns of a log are the keys of its records in the order of their first appearance, and behind
them the rule columns that are no keys. Every record has a row with one cell for each column, so the
table is rectangular however the keys of the records differ.
-/

namespace LogMotif

open Json (Value)

/-- Whether names are those that are met in a list: each once, in the order of their first places. -/
structure ListsOnce (names met : List String) : Prop where
  nodup : names.Nodup
  mem_iff : ∀ name, name ∈ names ↔ name ∈ met
  ordered : names.Pairwise fun left right => met.idxOf left < met.idxOf right

/-- The cell of a record for what it has under a key: empty where that is nothing or null, the
content of a string, and the written form of any other value. -/
inductive CellOf : Option Value → String → Prop
  | absent : CellOf none ""
  | null : CellOf (some .null) ""
  | string (content : String) : CellOf (some (.string content)) content
  | other {value : Value} (notNull : value ≠ .null) (notString : ∀ content, value ≠ .string content) :
      CellOf (some value) value.canonical.compact

/-- Whether a key has a number in some record, and in every record a number, null or nothing. -/
def NumericIn (records : List LogRecord) (key : String) : Prop :=
  (∃ record ∈ records, ∃ number, record.lookup key = some (.number number)) ∧
    ∀ record ∈ records, ∀ value, record.lookup key = some value →
      value = .null ∨ ∃ number, value = .number number

/-- The keys of some records, in their order, repetitions included. -/
def recordKeys (records : List LogRecord) : List String :=
  records.flatMap fun record => record.map Prod.fst

namespace Log

/-- Whether a log is the table of some records with rule columns. -/
structure Tabulates (log : Log) (records : List LogRecord) (ruleColumns : List String) : Prop where
  columns : ListsOnce (log.headers.map Header.name) (recordKeys records ++ ruleColumns)
  number_iff : ∀ header ∈ log.headers,
    header.kind = .number ↔ header.name ∈ recordKeys records ∧ NumericIn records header.name
  rows : List.Forall₂ (fun record row => List.Forall₂
    (fun header cell => CellOf (record.lookup header.name) cell) log.headers row) records log.rows

private theorem listsOnce_addNew (names : List String) : ListsOnce (addNew [] names) names where
  nodup := nodup_firstPlaces names
  mem_iff _ := mem_firstPlaces_iff
  ordered := pairwise_idxOf_firstPlaces names

/-- Adding names behind others is adding all of them one by one. -/
theorem addNew_addNew (names more : List String) :
    addNew (addNew [] names) more = addNew [] (names ++ more) := by
  rw [addNew, addNew, addNew, List.foldl_append]

theorem cellOf_cellText (value? : Option Value) : CellOf value? (cellText value?) := by
  unfold cellText
  split
  next => exact .absent
  next => exact .null
  next content => exact .string content
  next value notNull notString => exact .other notNull notString

theorem isNumber_iff {value : Value} : isNumber value ↔ ∃ number, value = .number number := by
  cases value <;> simp [isNumber]

theorem isNumeric_iff {records : List LogRecord} {key : String} :
    isNumeric records key ↔ NumericIn records key := by
  have some_iff (record : LogRecord) : (record.lookup key).any isNumber ↔
      ∃ number, record.lookup key = some (.number number) := by
    cases record.lookup key <;> simp [isNumber_iff]
  simp only [isNumeric, NumericIn, Bool.and_eq_true, List.any_eq_true, List.all_eq_true, some_iff]
  refine and_congr_right fun _ => forall₂_congr fun record _ => ?_
  cases record.lookup key with
  | none => simp
  | some value => cases value <;> simp [isNumber]

/-- The table that is made from some records. -/
theorem tabulates_ofRecords (records : List LogRecord) (ruleColumns : List String) :
    (ofRecords records ruleColumns).Tabulates records ruleColumns where
  columns := by
    have names_eq : (ofRecords records ruleColumns).headers.map Header.name =
        addNew [] (recordKeys records ++ ruleColumns) := by
      rw [← addNew_addNew]
      simp [ofRecords, keys, recordKeys, Function.comp_def]
    rw [names_eq]
    exact listsOnce_addNew _
  number_iff := by
    intro header member
    obtain ⟨name, -, rfl⟩ := List.mem_map.mp member
    have known : name ∈ keys records ↔ name ∈ recordKeys records := mem_firstPlaces_iff
    rw [← isNumeric_iff, ← known]
    by_cases numeric : name ∈ keys records ∧ isNumeric records name <;> simp [numeric]
  rows := by
    simp only [ofRecords, List.forall₂_map_right_iff, List.forall₂_map_left_iff]
    exact List.forall₂_same.mpr fun record _ =>
      List.forall₂_same.mpr fun name _ => cellOf_cellText (record.lookup name)

end Log

end LogMotif
