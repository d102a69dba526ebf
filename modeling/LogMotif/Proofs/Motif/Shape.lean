import LogMotif.Proofs.Motif.Edits

/-! # The shape of entries

An entry keeps the log row that it was made from. Its cells are splits of the texts of that row, one
each, and it has one selection flag for each of them. Links are kept apart from this: without its
link an entry is its body, and edits of links leave the bodies alone.
-/

namespace LogMotif

theorem forall₂_modify {α : Type} {relation : α → α → Prop} {list : List α} {index : Nat}
    {change : α → α} (refl : ∀ item, relation item item)
    (changed : ∀ item, list[index]? = some item → relation item (change item)) :
    List.Forall₂ relation list (list.modify index change) := by
  induction list generalizing index with
  | nil => simp
  | cons first list ih =>
    cases index with
    | zero => exact .cons (changed first rfl) (List.forall₂_same.mpr fun _ _ => refl _)
    | succ index => exact .cons (refl first) (ih changed)

theorem exists_of_forall₂_of_getElem? {α β : Type} {relation : α → β → Prop} {left : List α}
    {right : List β} (related : List.Forall₂ relation left right) {i : Nat} {item : β}
    (here : right[i]? = some item) : ∃ other, left[i]? = some other ∧ relation other item := by
  induction related generalizing i with
  | nil => simp at here
  | cons first _ ih =>
    cases i with
    | zero =>
      obtain rfl := Option.some.inj here
      exact ⟨_, rfl, first⟩
    | succ i => exact ih here

theorem exists_of_forall₂_of_mem {α β : Type} {relation : α → β → Prop} {left : List α}
    {right : List β} (related : List.Forall₂ relation left right) {item : β} (member : item ∈ right) :
    ∃ other ∈ left, relation other item := by
  obtain ⟨i, here⟩ := List.mem_iff_getElem?.mp member
  obtain ⟨other, isOther, there⟩ := exists_of_forall₂_of_getElem? related here
  exact ⟨other, List.mem_of_getElem? isOther, there⟩

theorem forall₂_trans {α β γ : Type} {left : α → β → Prop} {right : β → γ → Prop}
    {both : α → γ → Prop} (trans : ∀ {a b c}, left a b → right b c → both a c) {first : List α}
    {second : List β} {third : List γ} (isLeft : List.Forall₂ left first second)
    (isRight : List.Forall₂ right second third) : List.Forall₂ both first third := by
  induction isLeft generalizing third with
  | nil =>
    cases isRight
    exact .nil
  | cons here _ ih =>
    obtain _ | ⟨there, rest⟩ := isRight
    exact .cons (trans here there) (ih rest)

/-- What related items have in common, their lists have in common. -/
theorem map_eq_of_forall₂ {α β : Type} {relation : α → α → Prop} {view : α → β}
    (same : ∀ old new, relation old new → view new = view old) {left right : List α}
    (related : List.Forall₂ relation left right) : right.map view = left.map view := by
  induction related with
  | nil => rfl
  | cons here _ ih => rw [List.map_cons, List.map_cons, same _ _ here, ih]

/-- Two relations that are the same for the items of a list relate it to the same lists. -/
theorem forall₂_congr_left {α β : Type} {one other : α → β → Prop} {left : List α} {right : List β}
    (same : ∀ item ∈ left, ∀ image, one item image ↔ other item image) :
    List.Forall₂ one left right ↔ List.Forall₂ other left right := by
  constructor
  · intro related
    refine ((List.forall₂_and_left _ _).mpr ⟨same, related⟩).imp ?_
    exact fun item image ⟨same, here⟩ => (same image).mp here
  · intro related
    refine ((List.forall₂_and_left _ _).mpr ⟨same, related⟩).imp ?_
    exact fun item image ⟨same, here⟩ => (same image).mpr here

/-- Whether a cell splits each text that another one splits. -/
def Cell.Resplits (old new : Cell) : Prop := ∀ text, old.IsSplitOf text → new.IsSplitOf text

private theorem Cell.IsSplitOf.renumber {text : String} {cell : Cell} (deleted : List Nat)
    (split : cell.IsSplitOf text) :
    IsSplitOf text ⟨cell.segments.map (Motif.renumberSegment deleted)⟩ := by
  have content : ∀ segment, (Motif.renumberSegment deleted segment).content = segment.content := by
    intro segment
    cases segment <;> rfl
  have isSome : ∀ segment, (Motif.renumberSegment deleted segment).wildcard?.isSome =
      segment.wildcard?.isSome := by
    intro segment
    cases segment <;> rfl
  refine ⟨?_, ?_, ?_, ?_⟩
  · rw [← split.content_eq, Cell.content, Cell.content, List.map_map]
    exact congrArg String.join (List.map_congr_left fun segment _ => content segment)
  · simpa using split.nonempty
  · rw [List.isChain_map]
    refine split.bordered.imp fun left right borders => ?_
    simpa only [Segment.Borders, isSome] using borders
  · refine split.filled.imp ?_ ?_
    · rintro lone
      rw [lone]
      rfl
    · intro filled segment member
      obtain ⟨old, inCell, rfl⟩ := List.mem_map.mp member
      rw [content]
      exact filled old inCell

namespace Entry

/-- An entry without its link. -/
def body (entry : Entry) : Entry := { entry with link := none }

/-- Whether an entry is made from a row of so many cells. -/
structure IsShaped (width : Nat) (entry : Entry) : Prop where
  source_length : entry.source.length = width
  selection_length : entry.selection.length = width
  splits : List.Forall₂ Cell.IsSplitOf entry.source entry.cells

theorem IsShaped.cells_length {width : Nat} {entry : Entry} (shaped : entry.IsShaped width) :
    entry.cells.length = width :=
  shaped.splits.length_eq.symm.trans shaped.source_length

theorem isShaped_body_iff {width : Nat} {entry : Entry} :
    entry.body.IsShaped width ↔ entry.IsShaped width :=
  ⟨fun shaped => ⟨shaped.source_length, shaped.selection_length, shaped.splits⟩,
    fun shaped => ⟨shaped.source_length, shaped.selection_length, shaped.splits⟩⟩

theorem isShaped_ofRow (roles : List ColumnRole) (row : List String) :
    (ofRow roles row).IsShaped row.length where
  source_length := rfl
  selection_length := by simp [ofRow]
  splits := by
    rw [ofRow, List.forall₂_map_right_iff, List.forall₂_same]
    exact fun text _ => Cell.isSplitOf_ofText text

/-! ### Links -/

/-- A change of one entry is seen as a change of what is seen of that entry. -/
theorem map_modify_view {β : Type} {view : Entry → β} {change : Entry → Entry} {seen : β → β}
    (same : ∀ entry, view (change entry) = seen (view entry)) (entries : List Entry) (i : Nat) :
    (entries.modify i change).map view = (entries.map view).modify i seen := by
  refine List.ext_getElem? fun j => ?_
  simp only [List.getElem?_map, List.getElem?_modify]
  cases entries[j]? with
  | none => rfl
  | some entry => by_cases here : i = j <;> simp [here, same]

/-- What a change of entries does not touch, it does not touch in a list of them. -/
theorem map_modify {β : Type} {view : Entry → β} {change : Entry → Entry}
    (same : ∀ entry, view (change entry) = view entry) (entries : List Entry) (i : Nat) :
    (entries.modify i change).map view = entries.map view :=
  (map_modify_view same entries i).trans (List.modify_id i _)

@[simp]
theorem map_body_modifyLastLink (change : Option Link → Option Link) (entries : List Entry) :
    (modifyLastLink change entries).map body = entries.map body := by
  apply map_modify
  exact fun _ => rfl

@[simp]
theorem map_body_unlinkLast (entries : List Entry) :
    (unlinkLast entries).map body = entries.map body := map_body_modifyLastLink _ entries

/-- Entries with the same bodies are the same in all that is not their link. -/
theorem map_of_map_body {β : Type} {view : Entry → β} (blind : ∀ entry, view entry.body = view entry)
    {left right : List Entry} (same : left.map body = right.map body) :
    left.map view = right.map view := by
  have views : ∀ entries : List Entry, entries.map view = (entries.map body).map view := by
    intro entries
    rw [List.map_map]
    exact List.map_congr_left fun entry _ => (blind entry).symm
  rw [views left, same, ← views right]

theorem map_cells_of_map_body {left right : List Entry} (same : left.map body = right.map body) :
    left.map cells = right.map cells := map_of_map_body (fun _ => rfl) same

theorem map_source_of_map_body {left right : List Entry} (same : left.map body = right.map body) :
    left.map source = right.map source := map_of_map_body (fun _ => rfl) same

theorem map_source_ofRows (roles : List ColumnRole) (rows : List (List String)) :
    (ofRows roles rows).map source = rows := by
  rw [ofRows, map_source_of_map_body (map_body_unlinkLast _), List.map_map]
  exact List.map_id' rows

theorem exists_body_eq_of_mem_ofRows {roles : List ColumnRole} {rows : List (List String)}
    {entry : Entry} (member : entry ∈ ofRows roles rows) :
    ∃ row ∈ rows, entry.body = (ofRow roles row).body := by
  have bodies : entry.body ∈ (ofRows roles rows).map body := List.mem_map_of_mem member
  rw [ofRows, map_body_unlinkLast, List.map_map] at bodies
  obtain ⟨row, isRow, same⟩ := List.mem_map.mp bodies
  exact ⟨row, isRow, same.symm⟩

theorem isShaped_of_mem_ofRows {roles : List ColumnRole} {rows : List (List String)} {width : Nat}
    (fitting : ∀ row ∈ rows, row.length = width) {entry : Entry} (member : entry ∈ ofRows roles rows) :
    entry.IsShaped width := by
  obtain ⟨row, isRow, same⟩ := exists_body_eq_of_mem_ofRows member
  rw [← isShaped_body_iff, same, isShaped_body_iff]
  exact fitting row isRow ▸ isShaped_ofRow roles row

/-- Appending entries keeps the bodies of those that are there, and adds some of the others. -/
theorem exists_map_body_appendAll (entries incoming : List Entry) :
    ∃ added, added.Sublist incoming ∧
      (appendAll entries incoming).map body = (entries ++ added).map body := by
  rw [appendAll, map_body_unlinkLast]
  induction incoming generalizing entries with
  | nil => exact ⟨[], .slnil, by simp⟩
  | cons first incoming ih =>
    obtain ⟨added, sublist, same⟩ := ih (appendNew entries first)
    rw [List.foldl_cons, same]
    by_cases present : entries.any (·.source == first.source)
    · refine ⟨added, sublist.cons first, ?_⟩
      rw [appendNew, if_pos present]
    · refine ⟨first :: added, sublist.cons_cons first, ?_⟩
      rw [appendNew, if_neg present]
      simp

/-! ### Edits of cells and selections -/

/-- Whether an entry is another one with some cells split otherwise, or other cells selected. -/
structure Reshaped (old new : Entry) : Prop where
  source_eq : new.source = old.source
  link_eq : new.link = old.link
  selection_length : new.selection.length = old.selection.length
  resplit : List.Forall₂ Cell.Resplits old.cells new.cells

theorem Reshaped.refl (entry : Entry) : Reshaped entry entry :=
  ⟨rfl, rfl, rfl, List.forall₂_same.mpr fun _ _ _ => id⟩

theorem Reshaped.trans {first second third : Entry} (left : Reshaped first second)
    (right : Reshaped second third) : Reshaped first third := by
  refine ⟨?_, ?_, ?_, ?_⟩
  · rw [right.source_eq, left.source_eq]
  · rw [right.link_eq, left.link_eq]
  · rw [right.selection_length, left.selection_length]
  · exact forall₂_trans (fun one other text split => other text (one text split)) left.resplit
      right.resplit

theorem Reshaped.isShaped {width : Nat} {old new : Entry} (reshaped : Reshaped old new)
    (shaped : old.IsShaped width) : new.IsShaped width := by
  refine ⟨?_, ?_, ?_⟩
  · rw [reshaped.source_eq, shaped.source_length]
  · rw [reshaped.selection_length, shaped.selection_length]
  · rw [reshaped.source_eq]
    exact forall₂_trans (fun split resplit => resplit _ split) shaped.splits reshaped.resplit

theorem Reshaped.body {old new : Entry} (reshaped : Reshaped old new) :
    Reshaped old.body new.body :=
  ⟨reshaped.source_eq, rfl, reshaped.selection_length, reshaped.resplit⟩

/-- Another split of one cell reshapes the entry. -/
theorem reshaped_modifyCell {entry : Entry} {cell : Nat} {content : Cell}
    (resplit : ∀ old, entry.cells[cell]? = some old → old.Resplits content) :
    Reshaped entry (entry.modifyCell cell fun _ => content) :=
  ⟨rfl, rfl, rfl, forall₂_modify (fun _ _ => id) resplit⟩

theorem length_toggleSelection (selectable : Nat → Bool) (cell : Nat) (exclusive : Bool)
    (selection : List Bool) :
    (toggleSelection selectable cell exclusive selection).length = selection.length := by
  unfold toggleSelection
  split <;> simp

end Entry

namespace Motif

variable {motif next : Motif}

theorem reshaped_setCell {entry cell : Nat} {old content : Cell}
    (found : cellAt? motif.entries entry cell = some old) (resplit : old.Resplits content) :
    List.Forall₂ Entry.Reshaped motif.entries (motif.setCell entry cell content).entries := by
  refine forall₂_modify Entry.Reshaped.refl fun item here => Entry.reshaped_modifyCell ?_
  intro other isOther
  rw [cellAt?, here] at found
  obtain rfl := Option.some.inj (isOther.symm.trans found)
  exact resplit

theorem reshaped_insertWildcard {index : Nat} {selection : Selection}
    {record : List Wildcard → Occurrence → Except MotifError (List Wildcard)}
    (edited : motif.insertWildcard index selection record = .ok (some next)) :
    List.Forall₂ Entry.Reshaped motif.entries next.entries := by
  obtain ⟨cell, insertion, wildcards, found, inserted, -, rfl⟩ :=
    insertWildcard_eq_ok_some_iff.mp edited
  exact reshaped_setCell found fun _ => inserted.isSplitOf

theorem reshaped_useWildcard {index : Nat} {selection : Selection}
    (used : motif.useWildcard index selection = .ok (some next)) :
    List.Forall₂ Entry.Reshaped motif.entries next.entries := by
  unfold useWildcard at used
  split at used
  next => exact reshaped_insertWildcard used
  next => simp at used

theorem reshaped_renumber (entries : List Entry) (deleted : List Nat) :
    List.Forall₂ Entry.Reshaped entries (renumber entries deleted) := by
  rw [renumber, List.forall₂_map_right_iff, List.forall₂_same]
  refine fun entry _ => ⟨rfl, rfl, rfl, ?_⟩
  rw [List.forall₂_map_right_iff, List.forall₂_same]
  exact fun cell _ _ => Cell.IsSplitOf.renumber deleted

theorem reshaped_removeWildcard {entry cell segment : Nat}
    (edited : motif.removeWildcard entry cell segment = .ok (some next)) :
    List.Forall₂ Entry.Reshaped motif.entries next.entries := by
  obtain ⟨content, index, removal, update, found, removed, -, rfl⟩ :=
    removeWildcard_eq_ok_some_iff.mp edited
  have reshaped := reshaped_setCell found (fun _ => removed.isSplitOf)
  simp only
  split
  next =>
    refine forall₂_trans ?_ reshaped (reshaped_renumber _ _)
    exact fun left right => left.trans right
  next => exact reshaped

theorem reshaped_toggleCell {roles : List ColumnRole} {entry cell : Nat} {exclusive : Bool}
    (toggled : motif.toggleCell roles entry cell exclusive = .ok next) :
    List.Forall₂ Entry.Reshaped motif.entries next.entries := by
  obtain ⟨-, rfl⟩ := toggleCell_eq_ok_iff.mp toggled
  split
  next =>
    refine forall₂_modify Entry.Reshaped.refl fun item _ => ⟨rfl, rfl, ?_, ?_⟩
    · simp only [Entry.length_toggleSelection]
    · exact List.forall₂_same.mpr fun _ _ _ => id
  next => exact List.forall₂_same.mpr fun _ _ => .refl _

end Motif

end LogMotif
