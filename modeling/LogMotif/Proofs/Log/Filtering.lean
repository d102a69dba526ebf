import Mathlib.Data.List.Infix
import LogMotif.Log
import LogMotif.Proofs.Outcomes

/-! # Filters of rows

A filter keeps the rows that a text occurs in, and fails when it would empty a log. What two filters
keep is what satisfies both, so a log is emptied in one order exactly when it is in the other; and a
filter that asks for less keeps more.
-/

namespace LogMotif

namespace Filter

variable {needle hay : List Char} {text : String} {row : List String} {rows : List (List String)}
  {column : FilterColumn}

theorem occursIn_iff : occursIn needle hay ↔ needle <:+: hay := by
  induction hay with
  | nil => simp [occursIn]
  | cons c hay ih =>
    rw [occursIn, Bool.or_eq_true, List.isPrefixOf_iff_prefix, ih, List.infix_cons_iff]

/-! ### Which rows are kept -/

theorem keeps_all_iff :
    keeps .all text row ↔ text.toList <:+: (String.intercalate " " row).toList := by
  by_cases empty : text = ""
  · simp [keeps, empty]
  · simp [keeps, empty, occursIn_iff]

theorem keeps_index_iff {i : Nat} : keeps (.index i) text row ↔
    text = "" ∨ ∃ cell, row[i]? = some cell ∧ text.toList <:+: cell.toList := by
  by_cases empty : text = ""
  · simp [keeps, empty]
  · simp [keeps, empty, occursIn_iff, Option.any_eq_true]

/-- Each cell of a row occurs in the cells separated by blanks. -/
private theorem infix_intercalate {cell : String} (member : cell ∈ row) :
    cell.toList <:+: (String.intercalate " " row).toList := by
  induction row with
  | nil => cases member
  | cons first row ih =>
    cases row with
    | nil =>
      obtain rfl := List.mem_singleton.mp member
      simp
    | cons second row =>
      have whole : (String.intercalate " " (first :: second :: row)).toList =
          first.toList ++ (' ' :: (String.intercalate " " (second :: row)).toList) := by simp
      rw [whole]
      rcases List.mem_cons.mp member with rfl | behind
      · exact (List.prefix_append _ _).isInfix
      · exact ((ih behind).trans (List.suffix_cons _ _).isInfix).trans
          (List.suffix_append _ _).isInfix

/-- What is found in a column is found in the row. -/
private theorem keeps_all_of_keeps_index {i : Nat} (kept : keeps (.index i) text row) :
    keeps .all text row := by
  rw [keeps_all_iff]
  rcases keeps_index_iff.mp kept with rfl | ⟨cell, here, found⟩
  · exact List.nil_infix
  · exact found.trans (infix_intercalate (List.mem_of_getElem? here))

/-- Where a text is found, each part of it is. -/
private theorem keeps_of_infix {part : String} (inside : part.toList <:+: text.toList)
    (kept : keeps column text row) : keeps column part row := by
  cases column with
  | all => exact keeps_all_iff.mpr (inside.trans (keeps_all_iff.mp kept))
  | index i =>
    rw [keeps_index_iff] at kept ⊢
    rcases kept with rfl | ⟨cell, here, found⟩
    · left
      simpa using inside
    · exact .inr ⟨cell, here, inside.trans found⟩

/-! ### The numbers of the rows that are kept -/

private theorem map_fst_filter_zipIdx (keep : List String → Bool) (rows : List (List String)) :
    (rows.zipIdx.filter fun (row, _) => keep row).map (·.1) = rows.filter keep := by
  conv_rhs => rw [← List.zipIdx_map_fst 0 rows, List.filter_map]
  rfl

theorem mem_keptRows_iff {i : Nat} :
    i ∈ keptRows rows column text ↔ ∃ row, rows[i]? = some row ∧ keeps column text row := by
  simp [keptRows, List.mk_mem_zipIdx_iff_getElem?]

theorem keptRows_eq_nil_iff :
    keptRows rows column text = [] ↔ rows.filter (keeps column text) = [] := by
  rw [keptRows, List.map_eq_nil_iff, ← map_fst_filter_zipIdx, List.map_eq_nil_iff]

/-- The rows of the numbers that a filter keeps are the rows that it keeps. -/
private theorem filterMap_keptRows (rows : List (List String)) (column : FilterColumn)
    (text : String) :
    (keptRows rows column text).filterMap (rows[·]?) = rows.filter (keeps column text) := by
  rw [← map_fst_filter_zipIdx, keptRows, List.filterMap_map, ← List.filterMap_eq_map]
  refine List.filterMap_congr fun (row, i) member => ?_
  exact List.mk_mem_zipIdx_iff_getElem?.mp (List.mem_of_mem_filter member)

end Filter

namespace Log

open LogMotif.Filter (keeps keptRows)

variable {log next result : Log} {column other : FilterColumn} {text more : String}

/-- When a log is filtered, and what is left of it. -/
theorem filtered_eq_ok_iff : log.filtered column text = .ok next ↔
    (log.rows = [] ∨ log.rows.filter (keeps column text) ≠ []) ∧
      next = { log with rows := log.rows.filter (keeps column text) } := by
  have retained : log.retainRows (keptRows log.rows column text) =
      { log with rows := log.rows.filter (keeps column text) } :=
    congrArg (Log.mk log.headers · log.ruleColumns) (Filter.filterMap_keptRows _ _ _)
  unfold filtered
  dsimp only
  simp only [retained, List.isEmpty_iff, Filter.keptRows_eq_nil_iff]
  split
  next emptied => simp [emptied]
  next kept =>
    have filled : log.rows = [] ∨ log.rows.filter (keeps column text) ≠ [] := by
      by_contra neither
      exact kept ⟨not_not.mp (not_or.mp neither).2, (not_or.mp neither).1⟩
    rw [Except.ok.injEq, eq_comm, and_iff_right filled]

/-- What two filters leave of a log satisfies both of them. -/
private theorem filtered_filtered_eq_ok_iff :
    (log.filtered column text >>= fun kept => kept.filtered other more) = .ok result ↔
      (log.rows = [] ∨
        log.rows.filter (fun row => keeps other more row && keeps column text row) ≠ []) ∧
      result = { log with
        rows := log.rows.filter fun row => keeps other more row && keeps column text row } := by
  rw [bind_eq_ok_iff]
  simp only [filtered_eq_ok_iff, ← List.filter_filter]
  constructor
  · rintro ⟨middle, ⟨filled, rfl⟩, filledToo, rfl⟩
    refine ⟨?_, rfl⟩
    rcases filledToo with emptied | filledToo
    · exact .inl (filled.resolve_right (not_not.mpr emptied))
    · exact .inr filledToo
  · rintro ⟨filled, rfl⟩
    refine ⟨_, ⟨?_, rfl⟩, ?_, rfl⟩
    · refine filled.imp_right fun both emptied => both ?_
      rw [emptied, List.filter_nil]
    · refine filled.imp_left fun empty => ?_
      simp [empty]

/-- Two filters do the same to a log in either order. What is kept in a column is kept in the row as a
whole, and what is kept for a text is kept for each part of it. -/
theorem filters_compose :
    (∀ (log result : Log) (column other : FilterColumn) (text more : String),
      (log.filtered column text >>= fun kept => kept.filtered other more) = .ok result ↔
        (log.filtered other more >>= fun kept => kept.filtered column text) = .ok result) ∧
    (∀ rows i text, keptRows rows (.index i) text ⊆ keptRows rows .all text) ∧
    ∀ rows column front part back,
      keptRows rows column (front ++ part ++ back) ⊆ keptRows rows column part := by
  refine ⟨fun log result column other text more => ?_, fun rows i text place kept => ?_,
    fun rows column front part back place kept => ?_⟩
  · simp only [filtered_filtered_eq_ok_iff, Bool.and_comm]
  · obtain ⟨row, here, found⟩ := Filter.mem_keptRows_iff.mp kept
    exact Filter.mem_keptRows_iff.mpr ⟨row, here, Filter.keeps_all_of_keeps_index found⟩
  · obtain ⟨row, here, found⟩ := Filter.mem_keptRows_iff.mp kept
    have inside : part.toList <:+: (front ++ part ++ back).toList := by
      rw [String.toList_append, String.toList_append]
      exact List.infix_append _ _ _
    exact Filter.mem_keptRows_iff.mpr ⟨row, here, Filter.keeps_of_infix inside found⟩

end Log

end LogMotif
