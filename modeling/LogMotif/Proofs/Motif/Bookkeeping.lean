import LogMotif.Proofs.Motif.Consistency

/-! # The bookkeeping of wildcards

A motif is booked when its cells and its list of wildcards agree, no occurrence is listed twice, and
no wildcard is without one. Every edit of a motif keeps it booked.
-/

namespace LogMotif

namespace Cell

/-- Whether a cell is a split of a text that is short enough for its segments to be numbered. -/
def Fits (cell : Cell) : Prop := ∃ text, cell.IsSplitOf text ∧ text.length ≤ Index.greatest

private theorem Fits.length_le {cell : Cell} (fits : cell.Fits) :
    cell.segments.length ≤ Index.greatest := by
  obtain ⟨text, split, small⟩ := fits
  exact Nat.le_trans split.length_le (Nat.max_le.mpr ⟨by decide, small⟩)

/-- Putting a wildcard into a cell splits the same text. -/
theorem Fits.hasRoom {cell : Cell} (fits : cell.Fits) : cell.HasRoom := by
  refine ⟨fits.length_le, fun inserted => ?_⟩
  obtain ⟨text, split, small⟩ := fits
  exact Fits.length_le ⟨text, inserted.isSplitOf split, small⟩

end Cell

namespace Motif

/-- Whether cells and list agree, and the list is tidy. -/
structure Booked (motif : Motif) : Prop extends Agrees motif where
  tidy : ∀ wildcard ∈ motif.wildcards, wildcard.Tidy

variable {motif next : Motif}

/-- A motif stays booked when neither its cells nor its wildcards change. -/
theorem Booked.congr (booked : motif.Booked)
    (cells : next.entries.map Entry.cells = motif.entries.map Entry.cells)
    (wildcards : next.wildcards = motif.wildcards) : next.Booked := by
  refine ⟨⟨?_⟩, wildcards ▸ booked.tidy⟩
  rw [wildcardAt?_congr cells, wildcards]
  exact booked.listed_iff

/-! ### Putting wildcards in -/

theorem Booked.tidy_shift (booked : motif.Booked) {selection : Selection} {index : Nat} {cell : Cell}
    {insertion : CellInsertion}
    (found : cellAt? motif.entries selection.entry selection.cell = some cell) (room : cell.HasRoom)
    (inserted : Cell.Inserted index cell selection.range insertion) :
    ∀ wildcard ∈ shiftOccurrences motif.wildcards selection.entry selection.cell
      selection.range.segment insertion.added, wildcard.Tidy := by
  refine tidy_map booked.tidy fun other left right isLeft isRight same => ?_
  rw [shiftBehind_eq_spread found room inserted (by simp [booked.listed_iff.mpr isLeft]),
    shiftBehind_eq_spread found room inserted (by simp [booked.listed_iff.mpr isRight])] at same
  exact Occurrence.eq_of_mapSegment_eq same fun _ _ => (Cell.spread_injective _ _ ·)

theorem Booked.createWildcard (booked : motif.Booked) {selection : Selection}
    (fits : ∀ cell, cellAt? motif.entries selection.entry selection.cell = some cell → cell.Fits)
    (created : motif.createWildcard selection = .ok (some next)) : next.Booked := by
  refine ⟨booked.toAgrees.createWildcard (fun cell found => (fits cell found).hasRoom) created, ?_⟩
  obtain ⟨cell, insertion, wildcards, found, inserted, recorded, rfl⟩ :=
    insertWildcard_eq_ok_some_iff.mp created
  obtain rfl := Except.ok.inj recorded
  exact tidy_append_single (booked.tidy_shift found (fits cell found).hasRoom inserted) _

theorem Booked.useWildcard (booked : motif.Booked) {index : Nat} {selection : Selection}
    (fits : ∀ cell, cellAt? motif.entries selection.entry selection.cell = some cell → cell.Fits)
    (used : motif.useWildcard index selection = .ok (some next)) : next.Booked := by
  refine ⟨booked.toAgrees.useWildcard (fun cell found => (fits cell found).hasRoom) used, ?_⟩
  obtain ⟨-, cell, insertion, found, inserted, rfl⟩ := useWildcard_eq_ok_some_iff.mp used
  have room := (fits cell found).hasRoom
  exact tidy_modify_append (booked.tidy_shift found room inserted)
    (booked.toAgrees.not_isListed_shift found room inserted index)

/-! ### Taking wildcards out -/

theorem Booked.removeWildcard (booked : motif.Booked) {entry cell segment : Nat}
    (fits : ∀ content, cellAt? motif.entries entry cell = some content → content.Fits)
    (edited : motif.removeWildcard entry cell segment = .ok (some next)) : next.Booked := by
  obtain ⟨content, index, removal, update, found, removed, struck, rfl⟩ :=
    removeWildcard_eq_ok_some_iff.mp edited
  have room := (fits content found).hasRoom
  obtain ⟨wildcard, here, member, -⟩ := removeOccurrence_eq_ok_iff.mp struck
  have listed : isListed motif.wildcards index ⟨entry, cell, segment⟩ :=
    isListed_iff.mpr ⟨wildcard, here, member⟩
  have once : wildcard.occurrences.count ⟨entry, cell, segment⟩ = 1 :=
    List.count_eq_one_of_mem (booked.tidy wildcard (List.mem_of_getElem? here)).nodup member
  refine ⟨booked.removal_of_once found room removed struck here once, ?_⟩
  refine tidy_map (tidy_removeOccurrence struck booked.tidy) ?_
  intro place first second isFirst isSecond same
  obtain ⟨_, firstListed, firstOther, -⟩ :=
    (isListed_removeOccurrence_iff here struck once fun _ => booked.unique listed).mp isFirst
  obtain ⟨_, secondListed, secondOther, -⟩ :=
    (isListed_removeOccurrence_iff here struck once fun _ => booked.unique listed).mp isSecond
  rw [booked.shiftBehind_eq_gather found room _ _ firstListed,
    booked.shiftBehind_eq_gather found room _ _ secondListed] at same
  refine Occurrence.eq_of_mapSegment_eq same fun firstInside secondInside => ?_
  obtain ⟨_, _, first⟩ := first
  obtain ⟨_, _, second⟩ := second
  obtain ⟨rfl, rfl⟩ := Occurrence.isIn_iff.mp firstInside
  obtain ⟨rfl, rfl⟩ := Occurrence.isIn_iff.mp secondInside
  rw [← booked.listed_iff, wildcardAt?_of_cellAt? found] at firstListed secondListed
  exact removed.gather_inj (by simpa using firstOther) (by simpa using secondOther)
    (by simp [firstListed]) (by simp [secondListed])

/-! ### Removing entries -/

theorem Booked.removeEntry (booked : motif.Booked) {entry : Nat}
    (removed : motif.removeEntry entry = .ok (.remaining next)) : next.Booked := by
  refine ⟨booked.toAgrees.removeEntry removed, ?_⟩
  obtain ⟨-, -, rfl⟩ := removeEntry_eq_ok_remaining_iff.mp removed
  exact tidy_clearEntry booked.tidy entry

/-! ### Appending rows -/

/-- Entries behind the others that hold text only bring no occurrences. -/
theorem wildcardAt?_append_of_plain {entries added : List Entry}
    (plain : ∀ entry ∈ added, ∀ cell ∈ entry.cells, ∀ segment, cell.wildcardAt? segment = none) :
    wildcardAt? (entries ++ added) = wildcardAt? entries := by
  funext occurrence
  rw [wildcardAt?_eq_bind, wildcardAt?_eq_bind]
  by_cases inside : occurrence.entry < entries.length
  · simp [cellAt?, List.getElem?_append_left inside]
  · have behind : entries[occurrence.entry]? = none :=
      List.getElem?_eq_none (Nat.le_of_not_lt inside)
    simp only [cellAt?, List.getElem?_append_right (Nat.le_of_not_lt inside), behind,
      Option.bind_none]
    refine Option.bind_eq_none_iff.mpr fun cell here => ?_
    obtain ⟨entry, isEntry, isCell⟩ := Option.bind_eq_some_iff.mp here
    exact plain entry (List.mem_of_getElem? isEntry) cell (List.mem_of_getElem? isCell) _

theorem wildcardAt?_ofText (text : String) (segment : Nat) :
    (Cell.ofText text).wildcardAt? segment = none :=
  Cell.wildcardAt?_eq_none_of_plain (by simp [Segment.wildcard?]) segment

/-- Rows that are lifted into entries bring no occurrences. -/
private theorem wildcardAt?_append_ofRows {entries added : List Entry} {roles : List ColumnRole}
    {rows : List (List String)} (lifted : added ⊆ Entry.ofRows roles rows) :
    wildcardAt? (entries ++ added) = wildcardAt? entries := by
  refine wildcardAt?_append_of_plain fun entry member cell inEntry => ?_
  obtain ⟨row, -, same⟩ := Entry.exists_body_eq_of_mem_ofRows (lifted member)
  have cells_eq : entry.cells = row.map Cell.ofText := congrArg Entry.cells same
  rw [cells_eq] at inEntry
  obtain ⟨text, -, rfl⟩ := List.mem_map.mp inEntry
  exact wildcardAt?_ofText text

theorem Booked.appendRows (booked : motif.Booked) (roles : List ColumnRole)
    (rows : List (List String)) : (motif.appendRows roles rows).Booked := by
  obtain ⟨added, sublist, same⟩ :=
    Entry.exists_map_body_appendAll motif.entries (Entry.ofRows roles rows)
  have kept : wildcardAt? (motif.appendRows roles rows).entries = wildcardAt? motif.entries :=
    (wildcardAt?_congr (Entry.map_cells_of_map_body same)).trans
      (wildcardAt?_append_ofRows sublist.subset)
  refine ⟨⟨?_⟩, booked.tidy⟩
  rw [kept]
  exact booked.listed_iff

theorem booked_ofRows (roles : List ColumnRole) (rows : List (List String)) :
    (ofRows roles rows).Booked := by
  have nowhere : wildcardAt? (Entry.ofRows roles rows) = wildcardAt? [] :=
    @wildcardAt?_append_ofRows [] _ roles rows (List.Subset.refl _)
  refine ⟨⟨?_⟩, by simp [ofRows]⟩
  intro occurrence index
  change wildcardAt? (Entry.ofRows roles rows) occurrence = some index ↔ _
  rw [nowhere]
  simp [ofRows, wildcardAt?, isListed]

/-- A booked motif whose entries have one selection flag per cell is consistent. -/
theorem Booked.inconsistency?_eq_none (booked : motif.Booked)
    (flagged : ∀ entry ∈ motif.entries, entry.selection.length = entry.cells.length) :
    motif.inconsistency? = none :=
  inconsistency?_eq_none_iff.mpr
    ⟨booked.toAgrees, flagged, fun wildcard member => (booked.tidy wildcard member).occurs⟩

end Motif

end LogMotif
