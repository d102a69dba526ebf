import Mathlib.Tactic.MkIffOfInductiveProp
import LogMotif.Proofs.Cell.Rendering
import LogMotif.Proofs.Motif.Bookkeeping
import LogMotif.Proofs.Outcomes

/-! # When edits are refused

For each edit of a motif, the errors it is refused with. An edit of a cell is refused for a cell
that does not exist, an edit of a link for an entry without a successor; a wildcard that is used has
to exist too. A motif whose wildcards are booked refuses nothing else.
-/

namespace LogMotif

namespace Motif

/-- Why a motif with entries of so many cells has no cell at a place. -/
@[mk_iff]
inductive LacksCell (motif : Motif) (width entry cell : Nat) : MotifError → Prop
  | entry (outside : motif.entries.length ≤ entry) :
      LacksCell motif width entry cell (.outOfRange .entry entry motif.entries.length)
  | cell (inside : entry < motif.entries.length) (outside : width ≤ cell) :
      LacksCell motif width entry cell (.outOfRange .cell cell width)

variable {motif : Motif} {width entry cell : Nat} {error : MotifError}

/-! ### Entries and links -/

theorem removeEntry_eq_error_iff : motif.removeEntry entry = .error error ↔
    motif.entries.length ≤ entry ∧ error = .outOfRange .entry entry motif.entries.length := by
  unfold removeEntry
  split
  next inside =>
    have other : ¬ motif.entries.length ≤ entry := Nat.not_le.mpr inside
    simp only [other, false_and, iff_false]
    split <;> simp
  next outside => simp [Nat.le_of_not_lt outside, eq_comm]

/-- Nothing is left without an entry exactly when it is the only one. -/
theorem removeEntry_eq_ok_emptied_iff :
    motif.removeEntry entry = .ok .emptied ↔ entry = 0 ∧ motif.entries.length = 1 := by
  unfold removeEntry
  split
  next inside =>
    have lengths := List.length_eraseIdx_of_lt inside
    by_cases last : motif.entries.eraseIdx entry = []
    · simp [last] at lengths ⊢
      omega
    · have more := List.length_pos_iff.mpr last
      simp [last]
      omega
  next outside =>
    simp only [reduceCtorEq, false_iff]
    omega

/-- One of several entries can be removed, and others are left. -/
theorem exists_removeEntry_eq_ok_remaining (several : 2 ≤ motif.entries.length)
    (inside : entry < motif.entries.length) :
    ∃ next, motif.removeEntry entry = .ok (.remaining next) := by
  have others : motif.entries.eraseIdx entry ≠ [] := by
    rw [← List.length_pos_iff, List.length_eraseIdx_of_lt inside]
    omega
  exact ⟨_, removeEntry_eq_ok_remaining_iff.mpr ⟨inside, others, rfl⟩⟩

theorem checkLink_eq_error_iff : motif.checkLink entry = .error error ↔
    motif.entries.length ≤ entry + 1 ∧
      error = .outOfRange .link entry (motif.entries.length - 1) := by
  unfold checkLink
  simp only
  split
  next inside =>
    simp only [reduceCtorEq, false_iff]
    omega
  next outside =>
    have last : motif.entries.length ≤ entry + 1 := by omega
    simp [last, eq_comm]

theorem toggleLink_eq_error_iff {gap : Nat} : motif.toggleLink entry gap = .error error ↔
    motif.entries.length ≤ entry + 1 ∧
      error = .outOfRange .link entry (motif.entries.length - 1) := by
  rw [← checkLink_eq_error_iff, toggleLink, bind_pure_eq_error_iff]

/-- A link that allows no distance is told of only where there is a link to set. -/
theorem setLink_eq_error_iff {link : Link} : motif.setLink entry link = .error error ↔
    (motif.entries.length ≤ entry + 1 ∧
      error = .outOfRange .link entry (motif.entries.length - 1)) ∨
    (entry + 1 < motif.entries.length ∧ link.isValid = false ∧ error = .invalidLink link) := by
  rw [← checkLink_eq_error_iff, ← checkLink_eq_ok_iff, setLink, bind_eq_error_iff,
    Unique.exists_iff]
  cases link.isValid <;>
    simp [pure, Except.pure, throw, throwThe, MonadExceptOf.throw, @eq_comm _ _ error]

/-! ### Cells -/

section

variable (uniform : ∀ item ∈ motif.entries, item.cells.length = width)
include uniform

theorem getCell_eq_error_iff :
    motif.getCell entry cell = .error error ↔ motif.LacksCell width entry cell error := by
  rw [lacksCell_iff]
  unfold getCell
  cases here : motif.entries[entry]? with
  | none =>
    have outside := List.getElem?_eq_none_iff.mp here
    simp [outside, Nat.not_lt.mpr outside, eq_comm]
  | some found =>
    have inside := (List.getElem?_eq_some_iff.mp here).1
    have cells := uniform found (List.mem_of_getElem? here)
    cases content : found.cells[cell]? with
    | none =>
      have outside := List.getElem?_eq_none_iff.mp content
      simp [inside, Nat.not_le.mpr inside, ← cells, outside, eq_comm]
    | some content =>
      have within := (List.getElem?_eq_some_iff.mp content).1
      simp [inside, Nat.not_le.mpr inside, ← cells, within, eq_comm]

theorem toggleCell_eq_error_iff {roles : List ColumnRole} {exclusive : Bool} :
    motif.toggleCell roles entry cell exclusive = .error error ↔
      motif.LacksCell width entry cell error := by
  rw [← getCell_eq_error_iff uniform, toggleCell, bind_eq_error_iff]
  refine or_iff_left ?_
  rintro ⟨content, -, refused⟩
  simp only at refused
  split at refused <;> cases refused

/-- A wildcard that can be entered into the list is refused only where there is no cell. -/
theorem insertWildcard_eq_error_iff {index : Nat} {selection : Selection}
    {record : List Wildcard → Occurrence → Except MotifError (List Wildcard)}
    (recorded : ∀ moved occurrence, moved.length = motif.wildcards.length →
      ∃ wildcards, record moved occurrence = .ok wildcards) :
    motif.insertWildcard index selection record = .error error ↔
      motif.LacksCell width selection.entry selection.cell error := by
  rw [← getCell_eq_error_iff uniform, insertWildcard, bind_eq_error_iff]
  refine or_iff_left ?_
  rintro ⟨content, -, refused⟩
  cases inserted : content.insert? index selection.range with
  | none => simp [inserted, pure, Except.pure] at refused
  | some insertion =>
    obtain ⟨wildcards, isRecorded⟩ := recorded
      (shiftOccurrences motif.wildcards selection.entry selection.cell selection.range.segment
        insertion.added) ⟨selection.entry, selection.cell, insertion.segment⟩ (by
          rw [shiftOccurrences, List.length_map])
    simp [inserted, isRecorded, bind, Except.bind, pure, Except.pure] at refused

theorem createWildcard_eq_error_iff {selection : Selection} :
    motif.createWildcard selection = .error error ↔
      motif.LacksCell width selection.entry selection.cell error :=
  insertWildcard_eq_error_iff uniform fun _ _ _ => ⟨_, rfl⟩

/-- The wildcard is looked for first, then the cell. -/
theorem useWildcard_eq_error_iff {index : Nat} {selection : Selection} :
    motif.useWildcard index selection = .error error ↔
      (motif.wildcards.length ≤ index ∧
        error = .outOfRange .wildcard index motif.wildcards.length) ∨
      (index < motif.wildcards.length ∧
        motif.LacksCell width selection.entry selection.cell error) := by
  unfold useWildcard
  split
  next inside =>
    have recorded : ∀ (moved : List Wildcard) (occurrence : Occurrence),
        moved.length = motif.wildcards.length →
        ∃ wildcards, addOccurrence moved index occurrence = .ok wildcards :=
      fun moved occurrence same => ⟨_, addOccurrence_eq_ok_iff.mpr ⟨same ▸ inside, rfl⟩⟩
    rw [insertWildcard_eq_error_iff uniform recorded]
    simp [inside, Nat.not_le.mpr inside]
  next outside => simp [outside, Nat.le_of_not_lt outside, eq_comm]

/-- The wildcard of a segment is listed where the wildcards are booked, so it can be struck out. -/
theorem removeWildcard_eq_error_iff (booked : motif.Booked) {segment : Nat} :
    motif.removeWildcard entry cell segment = .error error ↔
      motif.LacksCell width entry cell error := by
  rw [← getCell_eq_error_iff uniform, removeWildcard, bind_eq_error_iff]
  refine or_iff_left ?_
  rintro ⟨content, found, refused⟩
  split at refused
  next index removal here removed =>
    have listed : isListed motif.wildcards index ⟨entry, cell, segment⟩ :=
      booked.listed_iff.mp ((wildcardAt?_of_cellAt? (getCell_eq_ok_iff.mp found) segment).trans here)
    obtain ⟨wildcard, isWildcard, member⟩ := isListed_iff.mp listed
    have struck := removeOccurrence_eq_ok_iff.mpr ⟨wildcard, isWildcard, member, rfl⟩
    simp [struck, bind, Except.bind, pure, Except.pure] at refused
  next => cases refused

/-! ### Ranges of the shown text -/

theorem select_eq_error_iff {start stop : Nat} :
    motif.select entry cell start stop = .error error ↔
      motif.LacksCell width entry cell error := by
  rw [← getCell_eq_error_iff uniform, select, bind_pure_eq_error_iff]

end

/-- Which selection a range of the shown text of a cell stands for. -/
theorem select_eq_ok_some_iff {start stop : Nat} {selection : Selection} :
    motif.select entry cell start stop = .ok (some selection) ↔
      ∃ content range, cellAt? motif.entries entry cell = some content ∧
        Cell.Located content start stop range ∧ selection = ⟨entry, cell, range⟩ := by
  simp only [← getCell_eq_ok_iff, ← Cell.locate?_eq_some_iff]
  unfold select
  cases motif.getCell entry cell with
  | error => simp [bind, Except.bind]
  | ok content => simp [bind, Except.bind, pure, Except.pure, @eq_comm _ selection]

end Motif

end LogMotif
