import LogMotif.Proofs.Motif.Edits
import LogMotif.Proofs.Motif.Listing
import LogMotif.Proofs.Motif.Shape

/-! # The cells and the list of wildcards agree

A motif says twice where its wildcards stand: in the cells, and in the list of wildcards. Every edit
moves the occurrences in the list as it moves the segments, and renumbers the wildcards in the cells
as it renumbers those in the list. So the two agree after an edit if they did before, with one
exception: an occurrence that is listed more than once is struck out only once when its wildcard is
taken out of the cell.
-/

namespace LogMotif

namespace Occurrence

theorem shiftBehind_eq (entry cell after : Nat) (delta : Int) (occurrence : Occurrence) :
    occurrence.shiftBehind entry cell after delta = occurrence.mapSegment entry cell fun segment =>
      if after < segment then Index.shift segment delta else segment := by
  unfold shiftBehind mapSegment
  by_cases inside : occurrence.isIn entry cell
  · by_cases behind : after < occurrence.segment <;> simp [inside, behind]
  · simp [inside]

theorem mapSegment_congr {entry cell : Nat} {left right : Nat → Nat} {occurrence : Occurrence}
    (same : occurrence.isIn entry cell → left occurrence.segment = right occurrence.segment) :
    occurrence.mapSegment entry cell left = occurrence.mapSegment entry cell right := by
  unfold mapSegment
  split
  next inside => rw [same inside]
  next => rfl

end Occurrence

namespace Cell

/-- Whether the segments of a cell can be numbered, also once a wildcard has been put into it. -/
structure HasRoom (cell : Cell) : Prop where
  length_le : cell.segments.length ≤ Index.greatest
  inserted_le : ∀ {index : Nat} {range : SegmentRange} {insertion : CellInsertion},
    Inserted index cell range insertion → insertion.cell.segments.length ≤ Index.greatest

private theorem length_textUnlessEmpty_le (text : String) : (textUnlessEmpty text).length ≤ 1 := by
  unfold textUnlessEmpty
  split <;> simp

/-- A wildcard that is put into a cell adds two segments at most. -/
theorem hasRoom_of_length_le {cell : Cell} (small : cell.segments.length + 2 ≤ Index.greatest) :
    cell.HasRoom := by
  refine ⟨by omega, ?_⟩
  rintro index range insertion ⟨front, back, before, inside, after, -⟩
  have left := length_textUnlessEmpty_le before
  have right := length_textUnlessEmpty_le after
  simp only [List.length_append, List.length_cons] at small ⊢
  omega

/-- In a cell with room, the wildcards behind a new one move without reaching the greatest index. -/
private theorem Inserted.shift_eq_spread {index : Nat} {cell : Cell} {range : SegmentRange}
    {insertion : CellInsertion} (inserted : Inserted index cell range insertion)
    (room : cell.HasRoom) {segment : Nat} (occupied : (cell.wildcardAt? segment).isSome) :
    (if range.segment < segment then Index.shift segment insertion.added else segment) =
      spread range.segment insertion.added segment := by
  obtain ⟨wildcard, here⟩ := Option.isSome_iff_exists.mp occupied
  have inside := lt_length_of_wildcardAt? (inserted.wildcardAt?_iff.mpr (.inr ⟨segment, here, rfl⟩))
  have bound := Nat.le_trans (Nat.le_of_lt inside) (room.inserted_le inserted)
  unfold spread at bound ⊢
  split
  next behind =>
    rw [if_pos behind] at bound
    unfold Index.shift
    omega
  next => rfl

/-- In a cell with room, the wildcards behind one that goes move up by what is lost. -/
theorem shift_eq_gather {cell : Cell} (room : cell.HasRoom) (after removed : Nat) {segment : Nat}
    (occupied : (cell.wildcardAt? segment).isSome) :
    (if after < segment then Index.shift segment (-(removed : Int)) else segment) =
      gather after removed segment := by
  obtain ⟨wildcard, here⟩ := Option.isSome_iff_exists.mp occupied
  have inside := lt_length_of_wildcardAt? here
  have bound := Nat.le_trans (Nat.le_of_lt inside) room.length_le
  unfold gather Index.shift
  split <;> omega

end Cell

namespace Motif

/-- Whether the list of wildcards lists the occurrences in the cells, and no others. -/
structure Agrees (motif : Motif) : Prop where
  listed_iff : ∀ {occurrence index}, wildcardAt? motif.entries occurrence = some index ↔
    isListed motif.wildcards index occurrence

variable {motif next : Motif}

/-- No two wildcards list the same occurrence. -/
theorem Agrees.unique (agrees : motif.Agrees) {occurrence : Occurrence} {index other : Nat}
    (listed : isListed motif.wildcards index occurrence)
    (again : isListed motif.wildcards other occurrence) : other = index :=
  Option.some.inj ((agrees.listed_iff.mpr again).symm.trans (agrees.listed_iff.mpr listed))

/-- A wildcard in a cell has a number in the list. -/
theorem Agrees.lt_length (agrees : motif.Agrees) {occurrence : Occurrence} {index : Nat}
    (here : wildcardAt? motif.entries occurrence = some index) : index < motif.wildcards.length := by
  obtain ⟨_, isWildcard, -⟩ := isListed_iff.mp (agrees.listed_iff.mp here)
  exact (List.getElem?_eq_some_iff.mp isWildcard).1

/-! ### Putting wildcards in -/

section

variable {selection : Selection} {index : Nat} {cell : Cell} {insertion : CellInsertion}

/-- The occurrence of a wildcard before one is put into its cell moves as its segment does. -/
theorem shiftBehind_eq_spread
    (found : cellAt? motif.entries selection.entry selection.cell = some cell) (room : cell.HasRoom)
    (inserted : Cell.Inserted index cell selection.range insertion) {occurrence : Occurrence}
    (occupied : (wildcardAt? motif.entries occurrence).isSome) :
    occurrence.shiftBehind selection.entry selection.cell selection.range.segment insertion.added =
      occurrence.mapSegment selection.entry selection.cell
        (Cell.spread selection.range.segment insertion.added) := by
  rw [Occurrence.shiftBehind_eq]
  refine Occurrence.mapSegment_congr fun inside => inserted.shift_eq_spread room ?_
  obtain ⟨i, j, segment⟩ := occurrence
  obtain ⟨rfl, rfl⟩ := Occurrence.isIn_iff.mp inside
  rwa [wildcardAt?_of_cellAt? found] at occupied

private theorem Agrees.isListed_shift_iff (agrees : motif.Agrees)
    (found : cellAt? motif.entries selection.entry selection.cell = some cell) (room : cell.HasRoom)
    (inserted : Cell.Inserted index cell selection.range insertion) {other : Nat}
    {occurrence : Occurrence} :
    isListed (shiftOccurrences motif.wildcards selection.entry selection.cell
        selection.range.segment insertion.added) other occurrence ↔
      ∃ before, wildcardAt? motif.entries before = some other ∧
        occurrence = before.mapSegment selection.entry selection.cell
          (Cell.spread selection.range.segment insertion.added) := by
  rw [shiftOccurrences, isListed_map_iff]
  refine exists_congr fun before => ?_
  rw [← agrees.listed_iff]
  refine and_congr_right fun here => ?_
  rw [shiftBehind_eq_spread found room inserted (by simp [here])]

/-- The place of a new wildcard is not listed before it is entered. -/
theorem Agrees.not_isListed_shift (agrees : motif.Agrees)
    (found : cellAt? motif.entries selection.entry selection.cell = some cell) (room : cell.HasRoom)
    (inserted : Cell.Inserted index cell selection.range insertion) (other : Nat) :
    ¬ isListed (shiftOccurrences motif.wildcards selection.entry selection.cell
      selection.range.segment insertion.added) other
        ⟨selection.entry, selection.cell, insertion.segment⟩ := by
  rw [agrees.isListed_shift_iff found room inserted]
  rintro ⟨before, here, same⟩
  have inside : before.isIn selection.entry selection.cell := by
    rw [← Occurrence.isIn_mapSegment _ _ _ before, ← same]
    simp [Occurrence.isIn]
  obtain ⟨i, j, segment⟩ := before
  obtain ⟨rfl, rfl⟩ := Occurrence.isIn_iff.mp inside
  rw [wildcardAt?_of_cellAt? found] at here
  rw [Occurrence.mapSegment_mk] at same
  exact inserted.spread_ne (by simp [here]) (congrArg Occurrence.segment same).symm

/-- Cells and list agree when a wildcard is put into a cell and entered into the list. -/
private theorem Agrees.setCell_insert (agrees : motif.Agrees)
    (found : cellAt? motif.entries selection.entry selection.cell = some cell) (room : cell.HasRoom)
    (inserted : Cell.Inserted index cell selection.range insertion) {wildcards : List Wildcard}
    (entered : ∀ {other occurrence}, isListed wildcards other occurrence ↔
      isListed (shiftOccurrences motif.wildcards selection.entry selection.cell
        selection.range.segment insertion.added) other occurrence ∨
        (other = index ∧ occurrence = ⟨selection.entry, selection.cell, insertion.segment⟩)) :
    Agrees { motif.setCell selection.entry selection.cell insertion.cell with
      wildcards := wildcards } := by
  refine ⟨?_⟩
  intro occurrence other
  rw [wildcardAt?_setCell_insert found inserted, entered,
    agrees.isListed_shift_iff found room inserted, or_comm, and_comm]

end

theorem Agrees.createWildcard (agrees : motif.Agrees) {selection : Selection}
    (room : ∀ cell, cellAt? motif.entries selection.entry selection.cell = some cell → cell.HasRoom)
    (created : motif.createWildcard selection = .ok (some next)) : next.Agrees := by
  obtain ⟨cell, insertion, wildcards, found, inserted, recorded, rfl⟩ :=
    insertWildcard_eq_ok_some_iff.mp created
  obtain rfl := Except.ok.inj recorded
  refine agrees.setCell_insert found (room cell found) inserted ?_
  intro other occurrence
  rw [isListed_append_single_iff, shiftOccurrences, List.length_map]

theorem useWildcard_eq_ok_some_iff {index : Nat} {selection : Selection} :
    motif.useWildcard index selection = .ok (some next) ↔
      index < motif.wildcards.length ∧ ∃ cell insertion,
        cellAt? motif.entries selection.entry selection.cell = some cell ∧
        Cell.Inserted index cell selection.range insertion ∧
        next = { motif.setCell selection.entry selection.cell insertion.cell with
          wildcards := (shiftOccurrences motif.wildcards selection.entry selection.cell
            selection.range.segment insertion.added).modify index fun wildcard =>
              ⟨wildcard.occurrences ++
                [⟨selection.entry, selection.cell, insertion.segment⟩]⟩ } := by
  unfold useWildcard
  split
  next inside =>
    simp [insertWildcard_eq_ok_some_iff, addOccurrence_eq_ok_iff, shiftOccurrences, inside]
  next outside => simp [outside]

theorem Agrees.useWildcard (agrees : motif.Agrees) {index : Nat} {selection : Selection}
    (room : ∀ cell, cellAt? motif.entries selection.entry selection.cell = some cell → cell.HasRoom)
    (used : motif.useWildcard index selection = .ok (some next)) : next.Agrees := by
  obtain ⟨inside, cell, insertion, found, inserted, rfl⟩ := useWildcard_eq_ok_some_iff.mp used
  refine agrees.setCell_insert found (room cell found) inserted (isListed_modify_append_iff ?_)
  rwa [shiftOccurrences, List.length_map]

/-! ### Taking wildcards out -/

theorem wildcardAt?_renumber (entries : List Entry) (deleted : List Nat) (occurrence : Occurrence) :
    wildcardAt? (renumber entries deleted) occurrence =
      (wildcardAt? entries occurrence).map (closedUp deleted) := by
  unfold wildcardAt? renumber
  cases isEntry : entries[occurrence.entry]? with
  | none => simp [isEntry]
  | some entry =>
    cases isCell : entry.cells[occurrence.cell]? with
    | none => simp [isEntry, isCell]
    | some cell => cases isSegment : cell.segments[occurrence.segment]? <;>
        simp [isEntry, isCell, isSegment]

/-- The occurrences that stay when a wildcard is taken out of a cell move as their segments do. -/
theorem Agrees.shiftBehind_eq_gather (agrees : motif.Agrees) {entry cell : Nat} {content : Cell}
    (found : cellAt? motif.entries entry cell = some content) (room : content.HasRoom)
    (segment removed : Nat) {occurrence : Occurrence} {wildcard : Nat}
    (listed : isListed motif.wildcards wildcard occurrence) :
    occurrence.shiftBehind entry cell segment (-(removed : Int)) =
      occurrence.mapSegment entry cell (Cell.gather segment removed) := by
  rw [Occurrence.shiftBehind_eq]
  refine Occurrence.mapSegment_congr fun inside => Cell.shift_eq_gather room _ _ ?_
  obtain ⟨i, j, place⟩ := occurrence
  obtain ⟨rfl, rfl⟩ := Occurrence.isIn_iff.mp inside
  rw [← agrees.listed_iff, wildcardAt?_of_cellAt? found] at listed
  simp [listed]

section

variable {entry cell segment index : Nat} {content : Cell} {removal : CellRemoval}
  {update : OccurrenceRemoval} {wildcard : Wildcard}

/-- The wildcards of the cells once one has been taken out and, if it is gone, the others have been
renumbered. -/
private theorem wildcardAt?_removal_iff
    (found : cellAt? motif.entries entry cell = some content)
    (removed : Cell.Removed index content segment removal) (deleted : Bool)
    {occurrence : Occurrence} {place : Nat} :
    wildcardAt? (if deleted then renumber (motif.setCell entry cell removal.cell).entries [index]
        else (motif.setCell entry cell removal.cell).entries) occurrence = some place ↔
      ∃ old before, before ≠ ⟨entry, cell, segment⟩ ∧
        wildcardAt? motif.entries before = some old ∧
        occurrence = before.mapSegment entry cell (Cell.gather segment removal.removed) ∧
          place = if deleted then closedUp [index] old else old := by
  have renamed : wildcardAt? (if deleted then
        renumber (motif.setCell entry cell removal.cell).entries [index]
      else (motif.setCell entry cell removal.cell).entries) occurrence =
      (wildcardAt? (motif.setCell entry cell removal.cell).entries occurrence).map fun old =>
        if deleted then closedUp [index] old else old := by
    cases deleted <;> simp [wildcardAt?_renumber]
  rw [renamed, Option.map_eq_some_iff]
  simp only [wildcardAt?_setCell_remove found removed]
  constructor
  · rintro ⟨old, ⟨before, other, here, moved⟩, rfl⟩
    exact ⟨old, before, other, here, moved, rfl⟩
  · rintro ⟨old, before, other, here, moved, rfl⟩
    exact ⟨old, ⟨before, other, here, moved⟩, rfl⟩

/-- The list of wildcards once an occurrence has been struck out and those behind it have moved. -/
private theorem Agrees.isListed_removal_iff (agrees : motif.Agrees)
    (found : cellAt? motif.entries entry cell = some content) (room : content.HasRoom)
    (struck : removeOccurrence motif.wildcards index ⟨entry, cell, segment⟩ = .ok update)
    {occurrence : Occurrence} {place : Nat} :
    isListed (shiftOccurrences update.wildcards entry cell segment (-(removal.removed : Int))) place
        occurrence ↔
      ∃ before, isListed update.wildcards place before ∧
        occurrence = before.mapSegment entry cell (Cell.gather segment removal.removed) := by
  rw [shiftOccurrences, isListed_map_iff]
  refine exists_congr fun before => and_congr_right fun left => ?_
  obtain ⟨old, listed⟩ := exists_isListed_of_removeOccurrence struck left
  rw [agrees.shiftBehind_eq_gather found room segment removal.removed listed]

/-- Cells and list agree when a wildcard is taken out of the cell and its only mention in the list
is struck out. -/
theorem Agrees.removal_of_once (agrees : motif.Agrees)
    (found : cellAt? motif.entries entry cell = some content) (room : content.HasRoom)
    (removed : Cell.Removed index content segment removal)
    (struck : removeOccurrence motif.wildcards index ⟨entry, cell, segment⟩ = .ok update)
    (here : motif.wildcards[index]? = some wildcard)
    (once : wildcard.occurrences.count ⟨entry, cell, segment⟩ = 1) :
    Agrees {
      entries :=
        if update.deleted then renumber (motif.setCell entry cell removal.cell).entries [index]
        else (motif.setCell entry cell removal.cell).entries
      wildcards := shiftOccurrences update.wildcards entry cell segment
        (-(removal.removed : Int)) } := by
  have listed : isListed motif.wildcards index ⟨entry, cell, segment⟩ :=
    isListed_iff.mpr ⟨wildcard, here, List.count_pos_iff.mp (by omega)⟩
  refine ⟨?_⟩
  intro occurrence place
  rw [wildcardAt?_removal_iff found removed, agrees.isListed_removal_iff found room struck]
  simp only [isListed_removeOccurrence_iff here struck once fun _ => agrees.unique listed,
    agrees.listed_iff]
  constructor
  · rintro ⟨old, before, other, isOld, moved, rfl⟩
    exact ⟨before, ⟨old, isOld, other, rfl⟩, moved⟩
  · rintro ⟨before, ⟨old, isOld, other, rfl⟩, moved⟩
    exact ⟨old, before, other, isOld, moved, rfl⟩

/-- When the list mentions the occurrence again, it still does so after the wildcard has been taken
out of the cell. Then cells and list agree only if that place holds the same wildcard again. -/
private theorem Agrees.removal_iff_of_again (agrees : motif.Agrees)
    (found : cellAt? motif.entries entry cell = some content) (room : content.HasRoom)
    (removed : Cell.Removed index content segment removal)
    (struck : removeOccurrence motif.wildcards index ⟨entry, cell, segment⟩ = .ok update)
    (here : motif.wildcards[index]? = some wildcard)
    (again : ⟨entry, cell, segment⟩ ∈ wildcard.occurrences.erase ⟨entry, cell, segment⟩) :
    let entries :=
      if update.deleted then renumber (motif.setCell entry cell removal.cell).entries [index]
      else (motif.setCell entry cell removal.cell).entries
    Agrees {
        entries := entries
        wildcards := shiftOccurrences update.wildcards entry cell segment
          (-(removal.removed : Int)) } ↔
      wildcardAt? entries ⟨entry, cell, segment⟩ = some index := by
  intro entries
  obtain ⟨kept, left⟩ := isListed_removeOccurrence_iff_of_again here struck again
  have inList : ∀ {occurrence place}, isListed (shiftOccurrences update.wildcards entry cell segment
      (-(removal.removed : Int))) place occurrence ↔
      ∃ before, isListed motif.wildcards place before ∧
        occurrence = before.mapSegment entry cell (Cell.gather segment removal.removed) := by
    intro occurrence place
    rw [agrees.isListed_removal_iff found room struck]
    simp only [left]
  have inCells : ∀ {occurrence place}, wildcardAt? entries occurrence = some place ↔
      ∃ before, before ≠ ⟨entry, cell, segment⟩ ∧ isListed motif.wildcards place before ∧
        occurrence = before.mapSegment entry cell (Cell.gather segment removal.removed) := by
    intro occurrence place
    rw [wildcardAt?_removal_iff found removed, kept]
    simp only [Bool.false_eq_true, if_false, agrees.listed_iff]
    constructor
    · rintro ⟨_, before, other, listed, moved, rfl⟩
      exact ⟨before, other, listed, moved⟩
    · rintro ⟨before, other, listed, moved⟩
      exact ⟨place, before, other, listed, moved, rfl⟩
  -- The struck occurrence does not move, as it is not behind itself.
  have still : (⟨entry, cell, segment⟩ : Occurrence).mapSegment entry cell
      (Cell.gather segment removal.removed) = ⟨entry, cell, segment⟩ := by
    rw [Occurrence.mapSegment_mk, Cell.gather, if_neg (Nat.lt_irrefl segment)]
  have listed : isListed motif.wildcards index ⟨entry, cell, segment⟩ :=
    isListed_iff.mpr ⟨wildcard, here, List.mem_of_mem_erase again⟩
  constructor
  · intro agreesToo
    exact agreesToo.listed_iff.mpr (inList.mpr ⟨_, listed, still.symm⟩)
  · intro occupied
    refine ⟨?_⟩
    intro occurrence place
    rw [inList]
    constructor
    · intro holds
      obtain ⟨before, -, isListed, moved⟩ := inCells.mp holds
      exact ⟨before, isListed, moved⟩
    · rintro ⟨before, isListed, rfl⟩
      by_cases isStruck : before = ⟨entry, cell, segment⟩
      · subst isStruck
        rwa [still, agrees.unique listed isListed]
      · exact inCells.mpr ⟨before, isStruck, isListed, rfl⟩

end

/-- Cells and list agree after a wildcard has been taken out of a segment exactly when the list
mentioned that segment once, or the segment holds the same wildcard again. -/
theorem Agrees.exists_of_removeWildcard (agrees : motif.Agrees) {entry cell segment : Nat}
    (room : ∀ content, cellAt? motif.entries entry cell = some content → content.HasRoom)
    (edited : motif.removeWildcard entry cell segment = .ok (some next)) :
    ∃ index wildcard, wildcardAt? motif.entries ⟨entry, cell, segment⟩ = some index ∧
      motif.wildcards[index]? = some wildcard ∧
      (next.Agrees ↔ wildcard.occurrences.count ⟨entry, cell, segment⟩ = 1 ∨
        wildcardAt? next.entries ⟨entry, cell, segment⟩ = some index) := by
  obtain ⟨content, index, removal, update, found, removed, struck, rfl⟩ :=
    removeWildcard_eq_ok_some_iff.mp edited
  obtain ⟨wildcard, here, member, -⟩ := removeOccurrence_eq_ok_iff.mp struck
  have occupied : wildcardAt? motif.entries ⟨entry, cell, segment⟩ = some index :=
    (wildcardAt?_of_cellAt? found segment).trans removed.wildcardAt?_self
  refine ⟨index, wildcard, occupied, here, ?_⟩
  by_cases once : wildcard.occurrences.count ⟨entry, cell, segment⟩ = 1
  · have agreesToo := agrees.removal_of_once found (room content found) removed struck here once
    exact ⟨fun _ => .inl once, fun _ => agreesToo⟩
  · have again : ⟨entry, cell, segment⟩ ∈ wildcard.occurrences.erase ⟨entry, cell, segment⟩ := by
      have mentioned := List.count_pos_iff.mpr member
      rw [← List.count_pos_iff, List.count_erase_self]
      omega
    simp only [once, false_or]
    exact agrees.removal_iff_of_again found (room content found) removed struck here again

/-! ### Removing entries -/

/-- The occurrences that stay when an entry goes are those outside of it, moved up. -/
theorem wildcardAt?_eraseIdx_iff {entries : List Entry} {entry : Nat} {occurrence : Occurrence}
    {wildcard : Nat} :
    wildcardAt? (entries.eraseIdx entry) occurrence = some wildcard ↔
      ∃ before, before.entry ≠ entry ∧ wildcardAt? entries before = some wildcard ∧
        occurrence = before.closeUp entry := by
  obtain ⟨i, cell, segment⟩ := occurrence
  have lookup : wildcardAt? (entries.eraseIdx entry) ⟨i, cell, segment⟩ =
      wildcardAt? entries ⟨if i < entry then i else i + 1, cell, segment⟩ := by
    unfold wildcardAt?
    simp only [List.getElem?_eraseIdx]
    split <;> rfl
  rw [lookup]
  constructor
  · intro here
    refine ⟨_, ?_, here, ?_⟩
    · simp only
      split <;> omega
    · unfold Occurrence.closeUp
      split
      next before => rw [if_neg (by simp only; omega)]
      next behind => rw [if_pos (by simp only; omega)]; rfl
  · rintro ⟨⟨j, _, _⟩, other, here, same⟩
    unfold Occurrence.closeUp at same
    simp only at other same
    split at same
    next behind =>
      obtain ⟨rfl, rfl, rfl⟩ := Occurrence.mk.inj same
      rwa [if_neg (by omega), show j - 1 + 1 = j by omega]
    next before =>
      obtain ⟨rfl, rfl, rfl⟩ := Occurrence.mk.inj same
      rwa [if_pos (by omega)]

theorem Agrees.removeEntry (agrees : motif.Agrees) {entry : Nat}
    (removed : motif.removeEntry entry = .ok (.remaining next)) : next.Agrees := by
  obtain ⟨-, -, rfl⟩ := removeEntry_eq_ok_remaining_iff.mp removed
  refine ⟨?_⟩
  intro occurrence index
  rw [wildcardAt?_congr (Entry.map_cells_of_map_body (Entry.map_body_unlinkLast _)),
    wildcardAt?_renumber, isListed_clearEntry_iff, Option.map_eq_some_iff]
  simp only [wildcardAt?_eraseIdx_iff, agrees.listed_iff]
  constructor
  · rintro ⟨old, ⟨before, other, listed, rfl⟩, rfl⟩
    exact ⟨old, before, listed, other, rfl, rfl⟩
  · rintro ⟨old, before, listed, other, rfl, rfl⟩
    exact ⟨old, ⟨before, other, listed, rfl⟩, rfl⟩

end Motif

end LogMotif
