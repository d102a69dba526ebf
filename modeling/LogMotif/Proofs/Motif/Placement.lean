import LogMotif.Motif
import LogMotif.Proofs.Cell.Positions

/-! # Where the wildcards of a motif stand

The wildcard at an occurrence is read off the cell that holds it. Here is what each edit of the
cells makes of it: edits that leave the segments alone keep it, a wildcard put into a cell adds one
occurrence and moves those behind it, and a wildcard taken out removes one.
-/

namespace LogMotif

namespace Occurrence

/-- The occurrence with its segment changed, if it lies in the given cell. -/
def mapSegment (entry cell : Nat) (change : Nat → Nat) (occurrence : Occurrence) : Occurrence :=
  if occurrence.isIn entry cell then { occurrence with segment := change occurrence.segment }
  else occurrence

theorem isIn_iff {occurrence : Occurrence} {entry cell : Nat} :
    occurrence.isIn entry cell ↔ occurrence.entry = entry ∧ occurrence.cell = cell := by
  simp [isIn]

@[simp]
theorem mapSegment_mk (entry cell : Nat) (change : Nat → Nat) (segment : Nat) :
    mapSegment entry cell change ⟨entry, cell, segment⟩ = ⟨entry, cell, change segment⟩ := by
  simp [mapSegment, isIn]

theorem mapSegment_of_not_isIn {entry cell : Nat} (change : Nat → Nat) {occurrence : Occurrence}
    (outside : ¬ occurrence.isIn entry cell) : mapSegment entry cell change occurrence = occurrence :=
  if_neg outside

@[simp]
theorem isIn_mapSegment (entry cell : Nat) (change : Nat → Nat) (occurrence : Occurrence) :
    (mapSegment entry cell change occurrence).isIn entry cell = occurrence.isIn entry cell := by
  unfold mapSegment
  split <;> simp_all [isIn]

/-- Changed occurrences are told apart when the change tells the segments of the cell apart. -/
theorem eq_of_mapSegment_eq {entry cell : Nat} {change : Nat → Nat} {left right : Occurrence}
    (same : mapSegment entry cell change left = mapSegment entry cell change right)
    (inj : left.isIn entry cell → right.isIn entry cell →
      change left.segment = change right.segment → left.segment = right.segment) :
    left = right := by
  have isIn_eq : left.isIn entry cell = right.isIn entry cell := by
    rw [← isIn_mapSegment entry cell change left, same, isIn_mapSegment]
  by_cases inside : left.isIn entry cell
  · have insideToo : right.isIn entry cell := isIn_eq ▸ inside
    obtain ⟨rfl, rfl⟩ := isIn_iff.mp inside
    obtain ⟨e, c, segment⟩ := right
    obtain ⟨rfl, rfl⟩ := isIn_iff.mp insideToo
    obtain ⟨_, _, other⟩ := left
    simp only [mapSegment_mk, mk.injEq, true_and] at same ⊢
    exact inj inside insideToo same
  · rwa [mapSegment_of_not_isIn change inside,
      mapSegment_of_not_isIn change (isIn_eq ▸ inside)] at same

end Occurrence

namespace Motif

/-- The cell with the given place. -/
def cellAt? (entries : List Entry) (entry cell : Nat) : Option Cell :=
  (entries[entry]?).bind (·.cells[cell]?)

theorem getCell_eq_ok_iff {motif : Motif} {entry cell : Nat} {content : Cell} :
    motif.getCell entry cell = .ok content ↔ cellAt? motif.entries entry cell = some content := by
  unfold getCell cellAt?
  cases motif.entries[entry]? with
  | none => simp
  | some found =>
    simp only [Option.bind_some]
    cases found.cells[cell]? <;> simp

theorem wildcardAt?_eq_bind (entries : List Entry) (occurrence : Occurrence) :
    wildcardAt? entries occurrence =
      (cellAt? entries occurrence.entry occurrence.cell).bind (·.wildcardAt? occurrence.segment) := by
  unfold wildcardAt? cellAt?
  cases entries[occurrence.entry]? with
  | none => rfl
  | some found => cases here : found.cells[occurrence.cell]? <;> simp [here, Cell.wildcardAt?]

/-- Edits that change no cell leave the wildcards where they are. -/
theorem wildcardAt?_congr {left right : List Entry}
    (same : left.map Entry.cells = right.map Entry.cells) :
    wildcardAt? left = wildcardAt? right := by
  funext occurrence
  have cells : ∀ entry : Nat, (left[entry]?).map Entry.cells = (right[entry]?).map Entry.cells := by
    intro entry
    rw [← List.getElem?_map, same, List.getElem?_map]
  rw [wildcardAt?_eq_bind, wildcardAt?_eq_bind]
  congr 1
  unfold cellAt?
  have here := cells occurrence.entry
  cases isLeft : left[occurrence.entry]? <;> cases isRight : right[occurrence.entry]? <;>
    simp_all

theorem cellAt?_setCell (motif : Motif) (entry cell : Nat) (content : Cell) (i j : Nat) :
    cellAt? (motif.setCell entry cell content).entries i j =
      if i = entry ∧ j = cell then (cellAt? motif.entries entry cell).map fun _ => content
      else cellAt? motif.entries i j := by
  unfold cellAt? setCell
  simp only [List.getElem?_modify]
  by_cases isEntry : entry = i
  · subst isEntry
    cases motif.entries[entry]? with
    | none => simp
    | some found =>
      by_cases isCell : cell = j
      · subst isCell
        simp [Entry.modifyCell]
      · have other : ¬ j = cell := fun same => isCell same.symm
        simp [Entry.modifyCell, isCell, other]
  · have other : ¬ i = entry := fun same => isEntry same.symm
    cases motif.entries[i]? <;> simp [isEntry, other]

/-- The wildcards of a motif in which one cell has been replaced. -/
theorem wildcardAt?_setCell {motif : Motif} {entry cell : Nat} {old : Cell}
    (found : cellAt? motif.entries entry cell = some old) (content : Cell)
    (occurrence : Occurrence) :
    wildcardAt? (motif.setCell entry cell content).entries occurrence =
      if occurrence.isIn entry cell then content.wildcardAt? occurrence.segment
      else wildcardAt? motif.entries occurrence := by
  rw [wildcardAt?_eq_bind, wildcardAt?_eq_bind, cellAt?_setCell, found]
  simp only [Occurrence.isIn_iff]
  split <;> rfl

theorem wildcardAt?_of_cellAt? {entries : List Entry} {entry cell : Nat} {content : Cell}
    (found : cellAt? entries entry cell = some content) (segment : Nat) :
    wildcardAt? entries ⟨entry, cell, segment⟩ = content.wildcardAt? segment := by
  rw [wildcardAt?_eq_bind, found]
  rfl

/-- What a change of one cell does to its wildcards, it does to those of the motif: it may keep some
of them, at a place that depends on the segment, and add others. -/
theorem wildcardAt?_setCell_iff {motif : Motif} {entry cell : Nat} {old new : Cell}
    (found : cellAt? motif.entries entry cell = some old) {added : Nat → Nat → Prop}
    {kept : Nat → Prop} {change : Nat → Nat}
    (changed : ∀ segment wildcard, new.wildcardAt? segment = some wildcard ↔ added segment wildcard ∨
      ∃ before, kept before ∧ old.wildcardAt? before = some wildcard ∧ segment = change before)
    {occurrence : Occurrence} {wildcard : Nat} :
    wildcardAt? (motif.setCell entry cell new).entries occurrence = some wildcard ↔
      (occurrence.isIn entry cell ∧ added occurrence.segment wildcard) ∨
        ∃ before : Occurrence, (before.isIn entry cell → kept before.segment) ∧
          wildcardAt? motif.entries before = some wildcard ∧
            occurrence = before.mapSegment entry cell change := by
  rw [wildcardAt?_setCell found]
  split
  next inside =>
    obtain ⟨i, j, segment⟩ := occurrence
    obtain ⟨rfl, rfl⟩ := Occurrence.isIn_iff.mp inside
    rw [changed]
    constructor
    · rintro (isNew | ⟨before, isKept, here, rfl⟩)
      · exact .inl ⟨inside, isNew⟩
      · exact .inr ⟨⟨i, j, before⟩, fun _ => isKept, by rw [wildcardAt?_of_cellAt? found, here],
          (Occurrence.mapSegment_mk ..).symm⟩
    · rintro (⟨-, isNew⟩ | ⟨before, isKept, here, same⟩)
      · exact .inl isNew
      · have beforeInside : before.isIn i j := by
          rw [← Occurrence.isIn_mapSegment i j change, ← same]
          exact inside
        obtain ⟨_, _, place⟩ := before
        obtain ⟨rfl, rfl⟩ := Occurrence.isIn_iff.mp beforeInside
        rw [Occurrence.mapSegment_mk] at same
        rw [wildcardAt?_of_cellAt? found] at here
        exact .inr ⟨place, isKept beforeInside, here, congrArg Occurrence.segment same⟩
  next outside =>
    constructor
    · intro here
      exact .inr ⟨occurrence, fun inside => absurd inside outside, here,
        (Occurrence.mapSegment_of_not_isIn _ outside).symm⟩
    · rintro (⟨inside, -⟩ | ⟨before, -, here, rfl⟩)
      · exact absurd inside outside
      · rw [Occurrence.isIn_mapSegment] at outside
        rwa [Occurrence.mapSegment_of_not_isIn _ outside]

/-- Putting a wildcard into a cell adds its occurrence and moves those behind it. -/
theorem wildcardAt?_setCell_insert {motif : Motif} {entry cell index : Nat} {old : Cell}
    {range : SegmentRange} {insertion : CellInsertion}
    (found : cellAt? motif.entries entry cell = some old)
    (inserted : Cell.Inserted index old range insertion) {occurrence : Occurrence} {wildcard : Nat} :
    wildcardAt? (motif.setCell entry cell insertion.cell).entries occurrence = some wildcard ↔
      (occurrence = ⟨entry, cell, insertion.segment⟩ ∧ wildcard = index) ∨
        ∃ before, wildcardAt? motif.entries before = some wildcard ∧
          occurrence = before.mapSegment entry cell (Cell.spread range.segment insertion.added) := by
  have changed : ∀ segment wildcard, insertion.cell.wildcardAt? segment = some wildcard ↔
      (segment = insertion.segment ∧ wildcard = index) ∨ ∃ before, True ∧
        old.wildcardAt? before = some wildcard ∧
          segment = Cell.spread range.segment insertion.added before := by
    simpa only [true_and] using fun _ _ => inserted.wildcardAt?_iff
  rw [wildcardAt?_setCell_iff found changed]
  obtain ⟨i, j, segment⟩ := occurrence
  simp [Occurrence.isIn_iff, and_assoc]

/-- Taking a wildcard out of a cell removes its occurrence and moves those behind it. -/
theorem wildcardAt?_setCell_remove {motif : Motif} {entry cell segment index : Nat} {old : Cell}
    {removal : CellRemoval} (found : cellAt? motif.entries entry cell = some old)
    (removed : Cell.Removed index old segment removal) {occurrence : Occurrence} {wildcard : Nat} :
    wildcardAt? (motif.setCell entry cell removal.cell).entries occurrence = some wildcard ↔
      ∃ before, before ≠ ⟨entry, cell, segment⟩ ∧ wildcardAt? motif.entries before = some wildcard ∧
        occurrence = before.mapSegment entry cell (Cell.gather segment removal.removed) := by
  let added (_ _ : Nat) : Prop := False
  have changed : ∀ place wildcard, removal.cell.wildcardAt? place = some wildcard ↔
      added place wildcard ∨ ∃ before, before ≠ segment ∧ old.wildcardAt? before = some wildcard ∧
        place = Cell.gather segment removal.removed before := by
    simpa only [added, false_or] using fun _ _ => removed.wildcardAt?_iff
  have other : ∀ before : Occurrence, before ≠ ⟨entry, cell, segment⟩ ↔
      (before.isIn entry cell → before.segment ≠ segment) := by
    rintro ⟨i, j, place⟩
    simp [Occurrence.isIn_iff]
  rw [wildcardAt?_setCell_iff found changed]
  simp only [added, and_false, false_or, other]

end Motif

end LogMotif
