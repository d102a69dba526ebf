import LogMotif.Proofs.Motif.Placement

/-! # When edits succeed

For each edit of a motif, the motifs on which it succeeds and what it makes of them. An edit that
finds nothing to change gives back none and is left out here.
-/

namespace LogMotif

namespace Motif

variable {motif next : Motif}

/-- When a wildcard can be put over a selection, and what becomes of the motif. -/
theorem insertWildcard_eq_ok_some_iff {index : Nat} {selection : Selection}
    {record : List Wildcard → Occurrence → Except MotifError (List Wildcard)} :
    motif.insertWildcard index selection record = .ok (some next) ↔
      ∃ cell insertion wildcards, cellAt? motif.entries selection.entry selection.cell = some cell ∧
        Cell.Inserted index cell selection.range insertion ∧
        record (shiftOccurrences motif.wildcards selection.entry selection.cell
          selection.range.segment insertion.added)
            ⟨selection.entry, selection.cell, insertion.segment⟩ = .ok wildcards ∧
        next = { motif.setCell selection.entry selection.cell insertion.cell with
          wildcards := wildcards } := by
  simp only [← getCell_eq_ok_iff, ← Cell.insert?_eq_some_iff]
  unfold insertWildcard
  cases motif.getCell selection.entry selection.cell with
  | error => simp [bind, Except.bind]
  | ok cell =>
    cases inserted : cell.insert? index selection.range with
    | none => simp [bind, Except.bind, pure, Except.pure, inserted]
    | some insertion =>
      cases recorded : record (shiftOccurrences motif.wildcards selection.entry selection.cell
          selection.range.segment insertion.added)
          ⟨selection.entry, selection.cell, insertion.segment⟩ <;>
        simp [bind, Except.bind, pure, Except.pure, inserted, recorded, eq_comm]

/-- When a wildcard can be taken out of a segment, and what becomes of the motif. -/
theorem removeWildcard_eq_ok_some_iff {entry cell segment : Nat} :
    motif.removeWildcard entry cell segment = .ok (some next) ↔
      ∃ content index removal update, cellAt? motif.entries entry cell = some content ∧
        Cell.Removed index content segment removal ∧
        removeOccurrence motif.wildcards index ⟨entry, cell, segment⟩ = .ok update ∧
        next = {
          entries :=
            if update.deleted then renumber (motif.setCell entry cell removal.cell).entries [index]
            else (motif.setCell entry cell removal.cell).entries
          wildcards := shiftOccurrences update.wildcards entry cell segment
            (-(removal.removed : Int)) } := by
  simp only [← getCell_eq_ok_iff, Cell.removed_iff]
  unfold removeWildcard Cell.wildcardAt?
  cases motif.getCell entry cell with
  | error => simp [bind, Except.bind]
  | ok content =>
    cases here : (content.segments[segment]?).bind Segment.wildcard? with
    | none => simp [bind, Except.bind, pure, Except.pure, here]
    | some index =>
      cases removed : content.remove? segment with
      | none => simp [bind, Except.bind, pure, Except.pure, here, removed]
      | some removal =>
        cases struck : removeOccurrence motif.wildcards index ⟨entry, cell, segment⟩ with
        | error => simp [bind, Except.bind, here, removed, struck]
        | ok update =>
          simp only [bind, Except.bind, pure, Except.pure, here, removed, struck, Except.ok.injEq,
            Option.some.injEq, exists_eq_left', exists_and_left, and_assoc]
          exact eq_comm

/-- What is left of a motif without one of its entries. -/
theorem removeEntry_eq_ok_remaining_iff {entry : Nat} :
    motif.removeEntry entry = .ok (.remaining next) ↔ entry < motif.entries.length ∧
      motif.entries.eraseIdx entry ≠ [] ∧ next = {
        entries := Entry.unlinkLast (renumber (motif.entries.eraseIdx entry)
          (clearEntry motif.wildcards entry).deleted)
        wildcards := (clearEntry motif.wildcards entry).wildcards } := by
  unfold removeEntry
  split
  next inside =>
    by_cases last : motif.entries.eraseIdx entry = []
    · simp [last]
    · simp only [List.isEmpty_iff, last, if_false, Except.ok.injEq, Removal.remaining.injEq, inside,
        true_and, ne_eq, not_false_eq_true]
      exact eq_comm
  next outside => simp [outside]

theorem toggleCell_eq_ok_iff {roles : List ColumnRole} {entry cell : Nat} {exclusive : Bool} :
    let selectable (column : Nat) : Bool := (roles[column]?).any ColumnRole.inCorpus
    motif.toggleCell roles entry cell exclusive = .ok next ↔
      (cellAt? motif.entries entry cell).isSome ∧
        next = if selectable cell then
            motif.modifyEntry entry fun found =>
              { found with
                selection := Entry.toggleSelection selectable cell exclusive found.selection }
          else motif := by
  intro selectable
  rw [Option.isSome_iff_exists]
  simp only [← getCell_eq_ok_iff]
  unfold toggleCell
  cases motif.getCell entry cell with
  | error => simp [bind, Except.bind]
  | ok content =>
    simp only [bind, Except.bind, pure, Except.pure, Except.ok.injEq, exists_eq', true_and,
      selectable]
    split <;> exact ⟨fun same => (Except.ok.inj same).symm, fun same => congrArg Except.ok same.symm⟩

theorem checkLink_eq_ok_iff {entry : Nat} :
    motif.checkLink entry = .ok () ↔ entry + 1 < motif.entries.length := by
  unfold checkLink
  simp only
  split
  next inside => simp only [true_iff]; omega
  next outside => simp only [reduceCtorEq, false_iff]; omega

theorem toggleLink_eq_ok_iff {entry gap : Nat} :
    motif.toggleLink entry gap = .ok next ↔ entry + 1 < motif.entries.length ∧
      next = motif.modifyEntry entry fun found =>
        { found with link := some ((found.link.getD .any).cycled gap) } := by
  rw [← checkLink_eq_ok_iff]
  unfold toggleLink
  cases motif.checkLink entry with
  | error => simp [bind, Except.bind]
  | ok =>
    simp only [bind, Except.bind, pure, Except.pure, Except.ok.injEq, true_and]
    exact eq_comm

theorem setLink_eq_ok_iff {entry : Nat} {link : Link} :
    motif.setLink entry link = .ok next ↔ entry + 1 < motif.entries.length ∧ link.isValid ∧
      next = motif.modifyEntry entry fun found => { found with link := some link } := by
  rw [← checkLink_eq_ok_iff]
  unfold setLink
  cases motif.checkLink entry with
  | error => simp [bind, Except.bind]
  | ok =>
    cases valid : link.isValid with
    | false => simp [bind, Except.bind, throw, throwThe, MonadExceptOf.throw]
    | true =>
      simp only [bind, Except.bind, pure, Except.pure, if_true, Except.ok.injEq, true_and]
      exact eq_comm

end Motif

end LogMotif
