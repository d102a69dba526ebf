import LogMotif.Proofs.Motif.Shape

/-! # The cells that take part in matching

A cell of a rule column never takes part: a fresh entry leaves it out, and no switch takes it in.
Edits that put wildcards into cells or take them out leave the selected cells as they are.
-/

namespace LogMotif

/-- Whether the flags of an entry select no cell of a rule column. -/
def SparesRules (roles : List ColumnRole) (selection : List Bool) : Prop :=
  ∀ column : Nat, roles[column]? = some .rule → selection[column]? ≠ some true

namespace Entry

variable {roles : List ColumnRole}

private theorem sparesRules_ofRow (roles : List ColumnRole) (row : List String) :
    SparesRules roles (ofRow roles row).selection := by
  intro column isRule selected
  obtain ⟨inside, selected⟩ := List.getElem?_eq_some_iff.mp selected
  simp [ofRow, isRule, ColumnRole.selectedByDefault] at selected

theorem sparesRules_of_mem_ofRows {rows : List (List String)} {entry : Entry}
    (member : entry ∈ ofRows roles rows) : SparesRules roles entry.selection := by
  obtain ⟨row, -, lifted⟩ := exists_body_eq_of_mem_ofRows member
  have flags_eq : entry.selection = (ofRow roles row).selection := (congrArg selection lifted :)
  exact flags_eq ▸ sparesRules_ofRow roles row

/-- Neither kind of switch selects a cell of a rule column, if it is a switch of another one. -/
private theorem sparesRules_toggleSelection {cell : Nat} {selection : List Bool}
    (spares : SparesRules roles selection) (exclusive : Bool)
    (selectable : (roles[cell]?).any ColumnRole.inCorpus) :
    SparesRules roles
      (toggleSelection (fun column => (roles[column]?).any ColumnRole.inCorpus) cell exclusive
        selection) := by
  intro column isRule
  have other : cell ≠ column := by
    rintro rfl
    simp [isRule, ColumnRole.inCorpus] at selectable
  unfold toggleSelection
  split
  next => simp [isRule, ColumnRole.inCorpus]
  next => simpa [List.getElem?_modify, other] using spares column isRule

end Entry

namespace Motif

variable {motif next : Motif}

/-- Switching a cell selects no cell of a rule column. -/
theorem sparesRules_toggleCell {roles : List ColumnRole} {entry cell : Nat} {exclusive : Bool}
    (toggled : motif.toggleCell roles entry cell exclusive = .ok next)
    (spared : ∀ flags ∈ motif.entries.map Entry.selection, SparesRules roles flags) :
    ∀ flags ∈ next.entries.map Entry.selection, SparesRules roles flags := by
  obtain ⟨-, rfl⟩ := toggleCell_eq_ok_iff.mp toggled
  split
  next selectable =>
    let toggle := Entry.toggleSelection
      (fun column => (roles[column]?).any ColumnRole.inCorpus) cell exclusive
    have switched : (motif.modifyEntry entry fun found =>
        { found with selection := toggle found.selection }).entries.map Entry.selection =
          (motif.entries.map Entry.selection).modify entry toggle := by
      apply Entry.map_modify_view
      exact fun _ => rfl
    have keeps : List.Forall₂ (fun old new => SparesRules roles old → SparesRules roles new)
        (motif.entries.map Entry.selection)
          ((motif.entries.map Entry.selection).modify entry toggle) :=
      forall₂_modify (fun _ => id) fun _ _ spares =>
        Entry.sparesRules_toggleSelection spares exclusive selectable
    intro flags member
    obtain ⟨old, isOld, spares⟩ := exists_of_forall₂_of_mem keeps (switched ▸ member)
    exact spares (spared old isOld)
  next => exact spared

private theorem map_selection_setCell (motif : Motif) (entry cell : Nat) (content : Cell) :
    (motif.setCell entry cell content).entries.map Entry.selection =
      motif.entries.map Entry.selection := by
  apply Entry.map_modify
  exact fun _ => rfl

theorem map_selection_renumber (entries : List Entry) (deleted : List Nat) :
    (renumber entries deleted).map Entry.selection = entries.map Entry.selection := by
  rw [renumber, List.map_map]
  rfl

theorem map_selection_insertWildcard {index : Nat} {selection : Selection}
    {record : List Wildcard → Occurrence → Except MotifError (List Wildcard)}
    (edited : motif.insertWildcard index selection record = .ok (some next)) :
    next.entries.map Entry.selection = motif.entries.map Entry.selection := by
  obtain ⟨cell, insertion, wildcards, -, -, -, rfl⟩ := insertWildcard_eq_ok_some_iff.mp edited
  exact map_selection_setCell motif _ _ _

theorem map_selection_useWildcard {index : Nat} {selection : Selection}
    (used : motif.useWildcard index selection = .ok (some next)) :
    next.entries.map Entry.selection = motif.entries.map Entry.selection := by
  unfold useWildcard at used
  split at used
  next => exact map_selection_insertWildcard used
  next => simp at used

theorem map_selection_removeWildcard {entry cell segment : Nat}
    (edited : motif.removeWildcard entry cell segment = .ok (some next)) :
    next.entries.map Entry.selection = motif.entries.map Entry.selection := by
  obtain ⟨content, index, removal, update, -, -, -, rfl⟩ :=
    removeWildcard_eq_ok_some_iff.mp edited
  simp only
  split
  next => rw [map_selection_renumber, map_selection_setCell]
  next => exact map_selection_setCell motif _ _ _

end Motif

end LogMotif
