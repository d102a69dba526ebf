import LogMotif.Proofs.Motif.Marks

/-! # Taking out what was put in

A wildcard that has been put over some text of a booked motif stands at one new place. Taking it out
there joins the text that was split, moves the other occurrences back, and strikes out the one
occurrence that was entered, so that the motif is the same as before.
-/

namespace LogMotif

namespace Cell

variable {cell : Cell} {index : Nat} {range : SegmentRange} {insertion : CellInsertion}
  {text : String}

private theorem exists_side_eq (text : String) :
    ∃ part : Option String, side part = textUnlessEmpty text ∧ part.getD "" = text := by
  by_cases empty : text = ""
  · exact ⟨none, by simp [side, textUnlessEmpty, empty], by simp [empty]⟩
  · exact ⟨some text, by simp [side, textUnlessEmpty, empty], rfl⟩

/-- In a split of a text nothing but wildcards stands beside plain text, so that the parts into which
a wildcard has cut the text are all that it is joined with when it goes. -/
private theorem Inserted.removed (inserted : Inserted index cell range insertion)
    (split : cell.IsSplitOf text) :
    Removed index insertion.cell insertion.segment ⟨cell, insertion.added⟩ := by
  obtain ⟨front, back, before, inside, after, -⟩ := inserted
  obtain ⟨left, isLeft, rfl⟩ := exists_side_eq before
  obtain ⟨right, isRight, rfl⟩ := exists_side_eq after
  have plain (content : String) : (Segment.text content).wildcard?.isSome = false := rfl
  have bordered := split.bordered
  simp only [List.isChain_append, List.isChain_cons, Segment.Borders] at bordered
  obtain ⟨-, ⟨behind, -⟩, inFront⟩ := bordered
  rw [← isLeft, ← isRight]
  refine .intro front back left right inside (fun _ => ?_) fun _ => ?_
  · simpa [plainText?_eq_none_iff, plain] using inFront
  · simpa [plainText?_eq_none_iff, plain] using behind

private theorem Inserted.isSome_wildcardAt?_spread (inserted : Inserted index cell range insertion)
    {old : Nat} (occupied : (cell.wildcardAt? old).isSome) :
    (insertion.cell.wildcardAt? (spread range.segment insertion.added old)).isSome := by
  obtain ⟨wildcard, here⟩ := Option.isSome_iff_exists.mp occupied
  exact Option.isSome_iff_exists.mpr
    ⟨wildcard, inserted.wildcardAt?_iff.mpr (.inr ⟨old, here, rfl⟩)⟩

/-- The wildcards that a new one has moved go back to their places when it is taken out. -/
private theorem Inserted.gather_spread (inserted : Inserted index cell range insertion) {old : Nat}
    (occupied : (cell.wildcardAt? old).isSome) :
    gather insertion.segment insertion.added (spread range.segment insertion.added old) = old := by
  obtain ⟨front, back, before, inside, after, -⟩ := inserted
  refine Cell.gather_spread (Nat.le_add_right _ _) ?_
  rintro rfl
  simp [wildcardAt?, Segment.wildcard?] at occupied

private theorem Inserted.spanAt?_eq (inserted : Inserted index cell range insertion) :
    insertion.cell.spanAt? insertion.segment = some (cell.spanOver index range) := by
  obtain ⟨front, back, before, inside, after, -⟩ := inserted
  have covered := spanAt?_append_wildcard (front ++ textUnlessEmpty before)
    (textUnlessEmpty after ++ back) index inside
  rw [List.length_append] at covered
  rw [covered]
  simp [spanOver, offset, content_textUnlessEmpty, Nat.add_assoc]

end Cell

namespace Motif

/-- Renumbering the wildcards of entries twice is renumbering them once, if the wildcards that stand in
them are numbered the same in the end. -/
theorem renumber_renumber_eq {entries : List Entry} {first second whole : List Nat}
    (same : ∀ occurrence index, wildcardAt? entries occurrence = some index →
      closedUp second (closedUp first index) = closedUp whole index) :
    renumber (renumber entries first) second = renumber entries whole := by
  simp only [renumber, List.map_map]
  refine List.map_congr_left fun entry isEntry => ?_
  simp only [Function.comp_apply, List.map_map]
  congr 1
  refine List.map_congr_left fun cell isCell => ?_
  simp only [Function.comp_apply, List.map_map]
  congr 1
  refine List.map_congr_left fun segment isSegment => ?_
  cases segment with
  | text content => rfl
  | wildcard index content =>
    obtain ⟨i, here⟩ := List.mem_iff_getElem?.mp isEntry
    obtain ⟨j, inEntry⟩ := List.mem_iff_getElem?.mp isCell
    obtain ⟨k, inCell⟩ := List.mem_iff_getElem?.mp isSegment
    refine congrArg (Segment.wildcard · content) (same ⟨i, j, k⟩ index ?_)
    simp [wildcardAt?, here, inEntry, inCell, Segment.wildcard?]

theorem renumber_nil (entries : List Entry) : renumber entries [] = entries := by
  have same : renumberSegment [] = id := funext fun segment => by cases segment <;> rfl
  simp [renumber, same]

/-- A wildcard that goes from behind all those that stand in the entries leaves their numbers. -/
private theorem renumber_eq_self {entries : List Entry} {gone : Nat}
    (inFront : ∀ occurrence index, wildcardAt? entries occurrence = some index → index ≤ gone) :
    renumber entries [gone] = entries := by
  have once := @renumber_renumber_eq entries [] [gone] [] fun occurrence index here => by
    have unmoved : closedUp [] index = index := rfl
    rw [unmoved, closedUp_singleton, if_neg (Nat.not_lt.mpr (inFront occurrence index here))]
  rwa [renumber_nil] at once

variable {motif next : Motif} {wildcards : List Wildcard}

/-- Occurrences that stay where they are stay listed as they are. -/
private theorem map_mapOccurrences_eq_self {change : Occurrence → Occurrence}
    (same : ∀ index occurrence, isListed wildcards index occurrence → change occurrence = occurrence) :
    wildcards.map (·.mapOccurrences change) = wildcards := by
  refine (List.map_congr_left fun wildcard member => ?_).trans (List.map_id _)
  obtain ⟨index, here⟩ := List.mem_iff_getElem?.mp member
  refine congrArg Wildcard.mk ((List.map_congr_left fun occurrence listed => ?_).trans (List.map_id _))
  exact same index occurrence (isListed_iff.mpr ⟨wildcard, here, listed⟩)

/-- A change that leaves the item in its place as it is leaves the list as it is. -/
theorem modify_eq_self {α : Type} {list : List α} {i : Nat} {change : α → α}
    (same : ∀ item, list[i]? = some item → change item = item) : list.modify i change = list := by
  refine List.ext_getElem? fun j => ?_
  rw [List.getElem?_modify]
  cases here : list[j]? with
  | none => rfl
  | some item =>
    by_cases isPlace : i = j
    · subst isPlace
      simp [same item here]
    · simp [isPlace]

private theorem setCell_setCell_eq_self {entry cell : Nat} {old : Cell}
    (found : cellAt? motif.entries entry cell = some old) (new : Cell) (wildcards : List Wildcard) :
    (setCell { motif.setCell entry cell new with wildcards := wildcards } entry cell old).entries =
      motif.entries := by
  simp only [setCell, List.modify_modify_eq]
  refine modify_eq_self fun item isEntry => ?_
  rw [cellAt?, isEntry] at found
  simp only [Function.comp_apply, Entry.modifyCell, List.modify_modify_eq]
  rw [modify_eq_self fun content isCell => ?_]
  exact Option.some.inj (found.symm.trans isCell)

section

variable {selection : Selection} {index : Nat} {cell : Cell} {insertion : CellInsertion}

/-- A new wildcard marks the text that it has been put over. -/
private theorem markAt?_inserted
    (found : cellAt? motif.entries selection.entry selection.cell = some cell)
    (inserted : Cell.Inserted index cell selection.range insertion) (wildcards : List Wildcard) :
    markAt? { motif.setCell selection.entry selection.cell insertion.cell with
        wildcards := wildcards } ⟨selection.entry, selection.cell, insertion.segment⟩ =
      some ⟨selection.entry, selection.cell, cell.spanOver index selection.range⟩ := by
  refine markAt?_eq_some_iff.mpr ⟨insertion.cell, _, ?_, inserted.spanAt?_eq, rfl⟩
  rw [cellAt?_setCell, if_pos ⟨rfl, rfl⟩, found, Option.map_some]

/-- The occurrences that a new wildcard has moved go back when it is taken out. -/
private theorem Agrees.shiftBehind_shiftBehind (agrees : motif.Agrees)
    (found : cellAt? motif.entries selection.entry selection.cell = some cell) (fits : cell.Fits)
    (inserted : Cell.Inserted index cell selection.range insertion) {other : Nat}
    {occurrence : Occurrence} (listed : isListed motif.wildcards other occurrence) :
    (occurrence.shiftBehind selection.entry selection.cell selection.range.segment
        insertion.added).shiftBehind selection.entry selection.cell insertion.segment
          (-(insertion.added : Int)) = occurrence := by
  have here := agrees.listed_iff.mpr listed
  have room : insertion.cell.HasRoom := by
    obtain ⟨text, split, small⟩ := fits
    exact Cell.Fits.hasRoom ⟨text, inserted.isSplitOf split, small⟩
  rw [shiftBehind_eq_spread found fits.hasRoom inserted (by simp [here]), Occurrence.shiftBehind_eq]
  by_cases inside : occurrence.isIn selection.entry selection.cell
  · obtain ⟨i, j, segment⟩ := occurrence
    obtain ⟨rfl, rfl⟩ := Occurrence.isIn_iff.mp inside
    rw [wildcardAt?_of_cellAt? found] at here
    have occupied : (cell.wildcardAt? segment).isSome := by simp [here]
    rw [Occurrence.mapSegment_mk, Occurrence.mapSegment_mk,
      Cell.shift_eq_gather room _ _ (inserted.isSome_wildcardAt?_spread occupied),
      inserted.gather_spread occupied]
  · rw [Occurrence.mapSegment_of_not_isIn _ inside, Occurrence.mapSegment_of_not_isIn _ inside]

/-- A wildcard is taken out where it has been put in, if striking out its occurrence leaves the others
as they have been moved, and if only a wildcard behind all others goes with it. -/
private theorem Agrees.removeWildcard_of_inserted (agrees : motif.Agrees)
    (found : cellAt? motif.entries selection.entry selection.cell = some cell) (fits : cell.Fits)
    (inserted : Cell.Inserted index cell selection.range insertion) {wildcards : List Wildcard}
    {deleted : Bool}
    (struck : removeOccurrence wildcards index
        ⟨selection.entry, selection.cell, insertion.segment⟩ =
      .ok ⟨shiftOccurrences motif.wildcards selection.entry selection.cell selection.range.segment
        insertion.added, deleted⟩)
    (last : deleted → index = motif.wildcards.length) :
    removeWildcard { motif.setCell selection.entry selection.cell insertion.cell with
        wildcards := wildcards } selection.entry selection.cell insertion.segment =
      .ok (some motif) := by
  obtain ⟨text, split, -⟩ := id fits
  have replaced : cellAt? (motif.setCell selection.entry selection.cell insertion.cell).entries
      selection.entry selection.cell = some insertion.cell := by
    rw [cellAt?_setCell, if_pos ⟨rfl, rfl⟩, found, Option.map_some]
  have restored := setCell_setCell_eq_self found insertion.cell wildcards
  have moved : shiftOccurrences (shiftOccurrences motif.wildcards selection.entry selection.cell
      selection.range.segment insertion.added) selection.entry selection.cell insertion.segment
        (-(insertion.added : Int)) = motif.wildcards := by
    have back := @map_mapOccurrences_eq_self motif.wildcards _ fun _ _ =>
      agrees.shiftBehind_shiftBehind found fits inserted
    simpa [shiftOccurrences, Wildcard.mapOccurrences, Function.comp_def] using back
  refine removeWildcard_eq_ok_some_iff.mpr
    ⟨insertion.cell, index, _, _, replaced, inserted.removed split, struck, ?_⟩
  simp only [restored, moved]
  split
  next gone =>
    rw [renumber_eq_self fun occurrence other here => ?_]
    rw [last gone]
    exact Nat.le_of_lt (agrees.lt_length here)
  next => rfl

end

/-! ### Occurrences that are entered and struck out -/

private theorem removeOccurrence_append_single (wildcards : List Wildcard)
    (occurrence : Occurrence) :
    removeOccurrence (wildcards ++ [.single occurrence]) wildcards.length occurrence =
      .ok ⟨wildcards, true⟩ :=
  removeOccurrence_eq_ok_iff.mpr
    ⟨.single occurrence, by simp, List.mem_singleton_self _,
      by simp [Wildcard.single, List.eraseIdx_append_of_length_le]⟩

private theorem removeOccurrence_modify_append {index : Nat} {occurrence : Occurrence}
    {wildcard : Wildcard} (here : wildcards[index]? = some wildcard)
    (occurs : wildcard.occurrences ≠ []) (new : occurrence ∉ wildcard.occurrences) :
    removeOccurrence (wildcards.modify index fun old => ⟨old.occurrences ++ [occurrence]⟩) index
      occurrence = .ok ⟨wildcards, false⟩ := by
  refine removeOccurrence_eq_ok_iff.mpr ⟨⟨wildcard.occurrences ++ [occurrence]⟩, ?_, by simp, ?_⟩
  · simp [here]
  · have erased : (wildcard.occurrences ++ [occurrence]).erase occurrence = wildcard.occurrences := by
      rw [List.erase_append_right _ new, List.erase_cons_head, List.append_nil]
    rw [erased, if_neg occurs, List.set_eq_modify, List.modify_modify_eq,
      modify_eq_self fun other isOther => ?_]
    exact Option.some.inj (here.symm.trans isOther)

/-! ### Edits -/

/-- Whether a motif is another one with a wildcard put over a selection, and gives back that one when
the wildcard is taken out where it stands. -/
def Restores (before : Motif) (index : Nat) (selection : Selection) (after : Motif) : Prop :=
  ∃ cell segment, cellAt? before.entries selection.entry selection.cell = some cell ∧
    after.markAt? ⟨selection.entry, selection.cell, segment⟩ =
      some ⟨selection.entry, selection.cell, cell.spanOver index selection.range⟩ ∧
    after.removeWildcard selection.entry selection.cell segment = .ok (some before)

section

variable (booked : motif.Booked) {selection : Selection}
  (fits : ∀ cell, cellAt? motif.entries selection.entry selection.cell = some cell → cell.Fits)
include booked fits

theorem Booked.restores_of_createWildcard
    (created : motif.createWildcard selection = .ok (some next)) :
    motif.Restores motif.wildcards.length selection next := by
  obtain ⟨cell, insertion, wildcards, found, inserted, recorded, rfl⟩ :=
    insertWildcard_eq_ok_some_iff.mp created
  obtain rfl := Except.ok.inj recorded
  have struck := removeOccurrence_append_single (shiftOccurrences motif.wildcards selection.entry
    selection.cell selection.range.segment insertion.added)
      ⟨selection.entry, selection.cell, insertion.segment⟩
  rw [shiftOccurrences, List.length_map] at struck
  exact ⟨cell, insertion.segment, found, markAt?_inserted found inserted _,
    booked.toAgrees.removeWildcard_of_inserted found (fits cell found) inserted struck fun _ => rfl⟩

theorem Booked.restores_of_useWildcard {index : Nat}
    (used : motif.useWildcard index selection = .ok (some next)) :
    motif.Restores index selection next := by
  obtain ⟨inside, cell, insertion, found, inserted, rfl⟩ := useWildcard_eq_ok_some_iff.mp used
  have room := (fits cell found).hasRoom
  have tidy := booked.tidy_shift found room inserted
  have new := booked.toAgrees.not_isListed_shift found room inserted index
  have here := List.getElem?_eq_getElem (l := shiftOccurrences motif.wildcards selection.entry
    selection.cell selection.range.segment insertion.added) (i := index)
      (by rwa [shiftOccurrences, List.length_map])
  have struck := removeOccurrence_modify_append here (tidy _ (List.getElem_mem _)).occurs fun listed =>
    new (isListed_iff.mpr ⟨_, here, listed⟩)
  exact ⟨cell, insertion.segment, found, markAt?_inserted found inserted _,
    booked.toAgrees.removeWildcard_of_inserted found (fits cell found) inserted struck
      Bool.noConfusion⟩

end

end Motif

end LogMotif
