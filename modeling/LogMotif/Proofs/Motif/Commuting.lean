import LogMotif.Proofs.Motif.Thinning

/-! # Removals in either order

An entry that is removed takes its wildcards along, and what stands behind it moves up; a wildcard
that is taken out of a cell moves those behind it in the cell. Whichever of two removals at different
places is made first, together they strike out the same occurrences, and move the others to the same
places.
-/

namespace LogMotif

namespace Motif

variable {motif : Motif}

/-! ### Two entries -/

/-- The place of the second of two items once the first has gone. -/
private theorem eraseIdx_eraseIdx {α : Type} (list : List α) {first second : Nat}
    (ordered : first < second) :
    (list.eraseIdx first).eraseIdx (second - 1) = (list.eraseIdx second).eraseIdx first := by
  refine List.ext_getElem? fun i => ?_
  simp only [List.getElem?_eraseIdx]
  repeat' split
  all_goals first | rfl | omega

private theorem renumber_unlinkLast (entries : List Entry) (deleted : List Nat) :
    renumber (Entry.unlinkLast entries) deleted = Entry.unlinkLast (renumber entries deleted) := by
  have length_eq : (renumber entries deleted).length = entries.length := List.length_map _
  rw [Entry.unlinkLast, Entry.modifyLastLink, Entry.unlinkLast, Entry.modifyLastLink, length_eq]
  apply Entry.map_modify_view
  exact fun _ => rfl

/-- The last link is away for good, whichever entry goes. -/
private theorem unlinkLast_eraseIdx_unlinkLast (entries : List Entry) (i : Nat) :
    Entry.unlinkLast ((Entry.unlinkLast entries).eraseIdx i) =
      Entry.unlinkLast (entries.eraseIdx i) := by
  simp only [Entry.unlinkLast, Entry.modifyLastLink, List.length_eraseIdx, List.length_modify]
  rcases Nat.lt_trichotomy i (entries.length - 1) with before | rfl | behind
  · have inside : i < entries.length := by omega
    rw [if_pos inside, List.eraseIdx_modify_of_lt _ _ _ _ before, List.modify_modify_eq]
    rfl
  · rw [List.eraseIdx_modify_of_eq]
  · have outside : ¬ i < entries.length := by omega
    rw [if_neg outside, List.eraseIdx_modify_of_gt _ _ _ _ behind,
      List.eraseIdx_of_length_le (Nat.le_of_not_lt outside), List.modify_modify_eq]
    rfl

/-- What is left of entries when another one goes, after some have been renumbered. -/
private theorem unlinkLast_renumber_eraseIdx (entries : List Entry) (deleted more : List Nat)
    (i : Nat) :
    Entry.unlinkLast (renumber ((Entry.unlinkLast (renumber entries deleted)).eraseIdx i) more) =
      Entry.unlinkLast (renumber (renumber (entries.eraseIdx i) deleted) more) := by
  have erased : (renumber entries deleted).eraseIdx i = renumber (entries.eraseIdx i) deleted :=
    List.eraseIdx_map _ _ _
  rw [← renumber_unlinkLast, unlinkLast_eraseIdx_unlinkLast, erased, renumber_unlinkLast]

theorem length_of_removeEntry {entry : Nat} {next : Motif}
    (removed : motif.removeEntry entry = .ok (.remaining next)) :
    next.entries.length = motif.entries.length - 1 := by
  obtain ⟨inside, -, rfl⟩ := removeEntry_eq_ok_remaining_iff.mp removed
  simp [Entry.unlinkLast, Entry.modifyLastLink, renumber, List.length_eraseIdx_of_lt inside]

/-- What is left of a motif without two of its entries. -/
private theorem Agrees.removeEntry_removeEntry (agrees : motif.Agrees) {first second : Nat}
    {next : Motif} (removed : motif.removeEntry first = .ok (.remaining next))
    (inside : second < next.entries.length) :
    let rest := (motif.entries.eraseIdx first).eraseIdx second
    let clearance := thinOut
      (staysTwice (·.entry != first) (Occurrence.closeUp first) (·.entry != second))
      (Occurrence.closeUp second ∘ Occurrence.closeUp first) motif.wildcards
    next.removeEntry second = if rest.isEmpty then .ok .emptied
      else .ok (.remaining
        ⟨Entry.unlinkLast (renumber rest clearance.deleted), clearance.wildcards⟩) := by
  intro rest clearance
  obtain ⟨-, -, rfl⟩ := removeEntry_eq_ok_remaining_iff.mp removed
  let gone := thinOut (·.entry != first) (Occurrence.closeUp first) motif.wildcards
  have renumbered : renumber (renumber rest gone.deleted)
      (thinOut (·.entry != second) (Occurrence.closeUp second) gone.wildcards).deleted =
        renumber rest clearance.deleted := by
    refine renumber_thinOut_thinOut _ _ _ _ fun occurrence index here => ?_
    obtain ⟨_, -, inRest, -⟩ := wildcardAt?_eraseIdx_iff.mp here
    obtain ⟨_, -, inMotif, -⟩ := wildcardAt?_eraseIdx_iff.mp inRest
    exact agrees.lt_length inMotif
  have wildcards_eq :
      (thinOut (·.entry != second) (Occurrence.closeUp second) gone.wildcards).wildcards =
        clearance.wildcards := wildcards_thinOut_thinOut _ _ _ _ _
  have emptied : ((Entry.unlinkLast (renumber (motif.entries.eraseIdx first)
      gone.deleted)).eraseIdx second).isEmpty = rest.isEmpty := by
    rw [Bool.eq_iff_iff, List.isEmpty_iff_length_eq_zero, List.isEmpty_iff_length_eq_zero]
    simp [rest, List.length_eraseIdx, Entry.unlinkLast, Entry.modifyLastLink, renumber]
  rw [clearEntry_eq_thinOut] at inside ⊢
  rw [Motif.removeEntry, if_pos inside, clearEntry_eq_thinOut]
  simp only [emptied, unlinkLast_renumber_eraseIdx, wildcards_eq, renumbered, gone, rest]

private theorem closeUp_eq (entry : Nat) (occurrence : Occurrence) :
    occurrence.closeUp entry = { occurrence with entry := lowered entry occurrence.entry } := by
  unfold Occurrence.closeUp lowered
  split <;> rfl

/-- An occurrence outside of two entries stays when they go, whichever goes first. -/
private theorem staysTwice_closeUp {first second : Nat} (ordered : first < second) :
    staysTwice (·.entry != first) (Occurrence.closeUp first) (·.entry != second - 1) =
      staysTwice (·.entry != second) (Occurrence.closeUp second) (·.entry != first) := by
  funext occurrence
  rw [Bool.eq_iff_iff]
  simp only [staysTwice, closeUp_eq, lowered, Bool.and_eq_true, bne_iff_ne]
  split <;> split <;> omega

/-- Occurrences move up to the same place, whichever of two entries in front of them goes first. -/
private theorem closeUp_comp_closeUp {first second : Nat} (ordered : first < second) :
    Occurrence.closeUp (second - 1) ∘ Occurrence.closeUp first =
      Occurrence.closeUp first ∘ Occurrence.closeUp second := by
  funext occurrence
  have same : lowered (second - 1) (lowered first occurrence.entry) =
      lowered first (lowered second occurrence.entry) := by
    unfold lowered
    repeat' split
    all_goals omega
  simp only [Function.comp_apply, closeUp_eq, same]

/-- It makes no difference which of two entries is removed first. -/
theorem Agrees.removeEntry_comm (agrees : motif.Agrees) {first second : Nat} {left right : Motif}
    (ordered : first < second) (inside : second < motif.entries.length)
    (removedFirst : motif.removeEntry first = .ok (.remaining left))
    (removedSecond : motif.removeEntry second = .ok (.remaining right)) :
    left.removeEntry (second - 1) = right.removeEntry first := by
  have insideLeft : second - 1 < left.entries.length := by
    rw [length_of_removeEntry removedFirst]
    omega
  have insideRight : first < right.entries.length := by
    rw [length_of_removeEntry removedSecond]
    omega
  rw [agrees.removeEntry_removeEntry removedFirst insideLeft,
    agrees.removeEntry_removeEntry removedSecond insideRight, eraseIdx_eraseIdx _ ordered,
    staysTwice_closeUp ordered, closeUp_comp_closeUp ordered]

end Motif

/-! ### Two wildcards -/

namespace Cell

/-- The cell with its wildcards renumbered after those in `deleted` have gone. -/
def renumbered (deleted : List Nat) (cell : Cell) : Cell :=
  ⟨cell.segments.map (Motif.renumberSegment deleted)⟩

private theorem exists_removed {cell : Cell} {segment index : Nat}
    (here : cell.wildcardAt? segment = some index) :
    ∃ removal, Removed index cell segment removal := by
  obtain ⟨found, isSegment, isWildcard⟩ := Option.bind_eq_some_iff.mp here
  cases found with
  | text => cases isWildcard
  | wildcard other content =>
    simp only [removed_iff, here, true_and, remove?, isSegment]
    exact ⟨_, rfl⟩

/-- A wildcard leaves the same behind when it is taken out of a renumbered cell. -/
private theorem Removed.renumbered {cell : Cell} {segment index : Nat} {removal : CellRemoval}
    (removed : Removed index cell segment removal) (deleted : List Nat) :
    Removed (Motif.closedUp deleted index) (cell.renumbered deleted) segment
      ⟨removal.cell.renumbered deleted, removal.removed⟩ := by
  have plainText?_map (segment : Option Segment) :
      plainText? (segment.map (Motif.renumberSegment deleted)) = plainText? segment := by
    rcases segment with _ | _ | _ <;> rfl
  have map_side (text : Option String) :
      (side text).map (Motif.renumberSegment deleted) = side text := by
    cases text <;> rfl
  obtain ⟨front, back, before, after, content, left, right⟩ := removed
  have moved := @Removed.intro (Motif.closedUp deleted index)
    (front.map (Motif.renumberSegment deleted)) (back.map (Motif.renumberSegment deleted))
    before after content (by simpa [plainText?_map] using left) (by simpa [plainText?_map] using right)
  rw [List.length_map] at moved
  simpa [Cell.renumbered, map_side, Motif.renumberSegment, Motif.closedUp] using moved

end Cell

namespace Motif

variable {motif : Motif}

private theorem cellAt?_renumber (entries : List Entry) (deleted : List Nat) (i j : Nat) :
    cellAt? (renumber entries deleted) i j =
      (cellAt? entries i j).map (Cell.renumbered deleted) := by
  simp only [cellAt?, renumber, List.getElem?_map, Option.map_bind, Option.bind_map,
    Function.comp_def]
  rfl

private theorem setCell_renumber (motif : Motif) (entry cell : Nat) (content : Cell)
    (deleted : List Nat) (wildcards : List Wildcard) :
    (setCell ⟨renumber motif.entries deleted, wildcards⟩ entry cell
        (content.renumbered deleted)).entries =
      renumber (motif.setCell entry cell content).entries deleted := by
  refine (Entry.map_modify_view (fun found => ?_) _ _).symm
  refine congrArg (Entry.mk _ · _ _) (List.ext_getElem? fun k => ?_)
  simp only [Entry.modifyCell, List.getElem?_map, List.getElem?_modify]
  cases found.cells[k]? with
  | none => rfl
  | some old => by_cases here : cell = k <;> simp [here, Cell.renumbered]

theorem setCell_comm (motif : Motif) {entry cell i j : Nat} (apart : ¬ (entry = i ∧ cell = j))
    (one other : Cell) :
    (motif.setCell entry cell one).setCell i j other =
      (motif.setCell i j other).setCell entry cell one := by
  refine congrArg (Motif.mk · _) ?_
  by_cases same : entry = i
  · subst same
    have columns : cell ≠ j := fun isCell => apart ⟨rfl, isCell⟩
    simp only [setCell, List.modify_modify_eq]
    refine congrArg (List.modify _ entry) (funext fun found => ?_)
    simp only [Function.comp_apply, Entry.modifyCell, List.modify_modify_ne _ _ _ columns]
  · exact List.modify_modify_ne _ _ _ same

/-- Where an occurrence moves when the wildcard at another one is taken out of its cell. -/
def moveBehind (struck : Occurrence) (removal : CellRemoval) : Occurrence → Occurrence :=
  Occurrence.shiftBehind struck.entry struck.cell struck.segment (-(removal.removed : Int))

/-- A motif without the wildcard at an occurrence. -/
def without (motif : Motif) (struck : Occurrence) (removal : CellRemoval) : Motif :=
  let clearance := thinOut (· != struck) (moveBehind struck removal) motif.wildcards
  ⟨renumber (motif.setCell struck.entry struck.cell removal.cell).entries clearance.deleted,
    clearance.wildcards⟩

/-- What taking a wildcard out of a segment comes to. -/
private theorem Booked.removeWildcard_eq (booked : motif.Booked) {struck : Occurrence} {index : Nat}
    {content : Cell} {removal : CellRemoval}
    (found : cellAt? motif.entries struck.entry struck.cell = some content)
    (removed : Cell.Removed index content struck.segment removal) :
    motif.removeWildcard struck.entry struck.cell struck.segment =
      .ok (some (motif.without struck removal)) := by
  have here : wildcardAt? motif.entries struck = some index :=
    (wildcardAt?_of_cellAt? found struck.segment).trans removed.wildcardAt?_self
  obtain ⟨wildcard, isWildcard, member⟩ := isListed_iff.mp (booked.listed_iff.mp here)
  have update := removeOccurrence_eq_ok_iff.mpr ⟨wildcard, isWildcard, member, rfl⟩
  refine removeWildcard_eq_ok_some_iff.mpr ⟨content, index, removal, _, found, removed, update, ?_⟩
  rw [without, booked.thinOut_ne update]
  simp only
  split <;> simp [renumber_nil, shiftOccurrences, moveBehind]

/-- What is left of a motif without the wildcards at two occurrences in different cells. -/
private theorem Booked.removeWildcard_without (booked : motif.Booked) {one other : Occurrence}
    {index indexToo : Nat} {content contentToo : Cell} {removal removalToo : CellRemoval}
    (apart : ¬ (one.entry = other.entry ∧ one.cell = other.cell))
    (found : cellAt? motif.entries one.entry one.cell = some content) (fits : content.Fits)
    (removed : Cell.Removed index content one.segment removal)
    (foundToo : cellAt? motif.entries other.entry other.cell = some contentToo)
    (removedToo : Cell.Removed indexToo contentToo other.segment removalToo) :
    let clearance := thinOut (staysTwice (· != one) (moveBehind one removal) (· != other))
      (moveBehind other removalToo ∘ moveBehind one removal) motif.wildcards
    (motif.without one removal).removeWildcard other.entry other.cell other.segment =
      .ok (some ⟨renumber ((motif.setCell one.entry one.cell removal.cell).setCell other.entry
        other.cell removalToo.cell).entries clearance.deleted, clearance.wildcards⟩) := by
  intro clearance
  have taken := booked.removeWildcard_eq found removed
  have bookedNext : (motif.without one removal).Booked := by
    refine booked.removeWildcard (fun again isAgain => ?_) taken
    obtain rfl := Option.some.inj (found.symm.trans isAgain)
    exact fits
  have isCell : cellAt? (motif.setCell one.entry one.cell removal.cell).entries other.entry
      other.cell = some contentToo := by
    rw [cellAt?_setCell, if_neg (fun ⟨isEntry, isCell⟩ => apart ⟨isEntry.symm, isCell.symm⟩), foundToo]
  let gone := (thinOut (· != one) (moveBehind one removal) motif.wildcards).deleted
  have foundNext : cellAt? (motif.without one removal).entries other.entry other.cell =
      some (contentToo.renumbered gone) := by
    rw [without, cellAt?_renumber, isCell]
    rfl
  have entries_eq : ((motif.without one removal).setCell other.entry other.cell
      (removalToo.cell.renumbered gone)).entries = renumber ((motif.setCell one.entry one.cell
        removal.cell).setCell other.entry other.cell removalToo.cell).entries gone :=
    setCell_renumber _ _ _ _ _ _
  have renumbered : renumber (renumber ((motif.setCell one.entry one.cell removal.cell).setCell
      other.entry other.cell removalToo.cell).entries gone)
        (thinOut (· != other) (moveBehind other removalToo)
          (motif.without one removal).wildcards).deleted =
      renumber ((motif.setCell one.entry one.cell removal.cell).setCell other.entry other.cell
        removalToo.cell).entries clearance.deleted := by
    refine renumber_thinOut_thinOut _ _ _ _ fun occurrence place here => ?_
    obtain ⟨before, -, there, -⟩ := (wildcardAt?_setCell_remove isCell removedToo).mp here
    obtain ⟨old, -, inMotif, -⟩ := (wildcardAt?_setCell_remove found removed).mp there
    exact booked.lt_length inMotif
  have wildcards_eq : (thinOut (· != other) (moveBehind other removalToo)
      (motif.without one removal).wildcards).wildcards = clearance.wildcards :=
    wildcards_thinOut_thinOut _ _ _ _ _
  rw [bookedNext.removeWildcard_eq foundNext (removedToo.renumbered gone), without, entries_eq]
  exact congrArg₂ (fun entries wildcards => Except.ok (some (Motif.mk entries wildcards))) renumbered
    wildcards_eq

/-! ### Either order -/

section

variable {one other : Occurrence} (apart : ¬ (one.entry = other.entry ∧ one.cell = other.cell))
include apart

/-- No occurrence of another cell comes from one that moves. -/
private theorem moveBehind_eq_iff (removal : CellRemoval) (occurrence : Occurrence) :
    moveBehind one removal occurrence = other ↔ occurrence = other := by
  unfold moveBehind Occurrence.shiftBehind
  split
  next moves =>
    obtain ⟨isEntry, isCell⟩ := Occurrence.isIn_iff.mp (Bool.and_eq_true_iff.mp moves).1
    constructor <;> rintro rfl <;> exact absurd ⟨isEntry.symm, isCell.symm⟩ apart
  next => rfl

private theorem staysTwice_moveBehind (removal removalToo : CellRemoval) :
    staysTwice (· != one) (moveBehind one removal) (· != other) =
      staysTwice (· != other) (moveBehind other removalToo) (· != one) := by
  have apartToo : ¬ (other.entry = one.entry ∧ other.cell = one.cell) :=
    fun ⟨isEntry, isCell⟩ => apart ⟨isEntry.symm, isCell.symm⟩
  funext occurrence
  rw [Bool.eq_iff_iff]
  simp only [staysTwice, Bool.and_eq_true, bne_iff_ne, ne_eq, moveBehind_eq_iff apart,
    moveBehind_eq_iff apartToo]
  exact and_comm

private theorem moveBehind_comp_moveBehind (removal removalToo : CellRemoval) :
    moveBehind other removalToo ∘ moveBehind one removal =
      moveBehind one removal ∘ moveBehind other removalToo := by
  have stays (entry cell i j : Nat) (change : Nat → Nat) (occurrence : Occurrence) :
      (occurrence.mapSegment entry cell change).isIn i j = occurrence.isIn i j := by
    unfold Occurrence.mapSegment
    split <;> rfl
  funext occurrence
  simp only [Function.comp_apply, moveBehind, Occurrence.shiftBehind_eq]
  by_cases inside : occurrence.isIn one.entry one.cell
  · have outside : ¬ occurrence.isIn other.entry other.cell := by
      rw [Occurrence.isIn_iff] at inside ⊢
      exact fun ⟨isEntry, isCell⟩ => apart ⟨inside.1.symm.trans isEntry, inside.2.symm.trans isCell⟩
    rw [Occurrence.mapSegment_of_not_isIn _ outside, Occurrence.mapSegment_of_not_isIn]
    rwa [stays]
  · symm
    rw [Occurrence.mapSegment_of_not_isIn _ inside, Occurrence.mapSegment_of_not_isIn]
    rwa [stays]

end

/-- It makes no difference which of two wildcards in different cells is taken out first. -/
theorem Booked.removeWildcard_comm (booked : motif.Booked) {one other : Occurrence}
    (fits : ∀ entry cell content, cellAt? motif.entries entry cell = some content → content.Fits)
    (apart : ¬ (one.entry = other.entry ∧ one.cell = other.cell)) {index indexToo : Nat}
    (here : wildcardAt? motif.entries one = some index)
    (there : wildcardAt? motif.entries other = some indexToo) : ∃ left right both,
    motif.removeWildcard one.entry one.cell one.segment = .ok (some left) ∧
      left.removeWildcard other.entry other.cell other.segment = .ok (some both) ∧
      motif.removeWildcard other.entry other.cell other.segment = .ok (some right) ∧
      right.removeWildcard one.entry one.cell one.segment = .ok (some both) := by
  rw [wildcardAt?_eq_bind] at here there
  obtain ⟨content, found, here⟩ := Option.bind_eq_some_iff.mp here
  obtain ⟨contentToo, foundToo, there⟩ := Option.bind_eq_some_iff.mp there
  obtain ⟨removal, removed⟩ := Cell.exists_removed here
  obtain ⟨removalToo, removedToo⟩ := Cell.exists_removed there
  have apartToo : ¬ (other.entry = one.entry ∧ other.cell = one.cell) :=
    fun ⟨isEntry, isCell⟩ => apart ⟨isEntry.symm, isCell.symm⟩
  have first := booked.removeWildcard_without apart found (fits _ _ _ found) removed foundToo removedToo
  have second :=
    booked.removeWildcard_without apartToo foundToo (fits _ _ _ foundToo) removedToo found removed
  rw [setCell_comm _ apartToo, ← staysTwice_moveBehind apart removal removalToo,
    ← moveBehind_comp_moveBehind apart] at second
  exact ⟨_, _, _, booked.removeWildcard_eq found removed, first,
    booked.removeWildcard_eq foundToo removedToo, second⟩

end Motif

end LogMotif
