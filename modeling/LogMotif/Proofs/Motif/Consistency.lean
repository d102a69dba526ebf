import LogMotif.Proofs.Motif.Agreement

/-! # The consistency check

The check of a motif accepts what it is meant to accept: entries with one selection flag per cell,
cells and list that agree, and no wildcard without an occurrence. It does not ask how often an
occurrence is listed. So it accepts what an edit makes of an accepted motif, unless the edit takes a
wildcard out of a segment that is listed more than once.
-/

namespace LogMotif

/-- Entries that are reshaped keep one selection flag per cell. -/
private theorem Entry.Reshaped.flagged {old new : Entry} (reshaped : Reshaped old new)
    (flagged : old.selection.length = old.cells.length) :
    new.selection.length = new.cells.length := by
  rw [reshaped.selection_length, flagged, reshaped.resplit.length_eq]

private theorem Entry.flagged_of_reshaped {old new : List Entry}
    (reshaped : List.Forall₂ Reshaped old new)
    (flagged : ∀ entry ∈ old, entry.selection.length = entry.cells.length) :
    ∀ entry ∈ new, entry.selection.length = entry.cells.length := by
  intro entry member
  obtain ⟨before, isBefore, here⟩ := exists_of_forall₂_of_mem reshaped member
  exact here.flagged (flagged before isBefore)

namespace Motif

/-- What the consistency check of a motif looks for. -/
structure Consistent (motif : Motif) : Prop extends Agrees motif where
  flagged : ∀ entry ∈ motif.entries, entry.selection.length = entry.cells.length
  occurs : ∀ wildcard ∈ motif.wildcards, wildcard.occurrences ≠ []

variable {motif next : Motif}

theorem entryInconsistency?_eq_none_iff : motif.entryInconsistency? = none ↔
    (∀ entry ∈ motif.entries, entry.selection.length = entry.cells.length) ∧
      ∀ {occurrence index}, wildcardAt? motif.entries occurrence = some index →
        isListed motif.wildcards index occurrence := by
  rw [entryInconsistency?, List.findSome?_eq_none_iff]
  constructor
  · intro sound
    have flagged : ∀ entry ∈ motif.entries, entry.selection.length = entry.cells.length := by
      intro entry member
      obtain ⟨i, here⟩ := List.mem_iff_getElem?.mp member
      have found := sound (entry, i) (List.mk_mem_zipIdx_iff_getElem?.mpr here)
      by_contra other
      simp [other] at found
    refine ⟨flagged, ?_⟩
    rintro ⟨i, j, k⟩ index here
    obtain ⟨cell, isCell, isSegment⟩ := Option.bind_eq_some_iff.mp (wildcardAt?_eq_bind _ _ ▸ here)
    obtain ⟨entry, isEntry, isCell⟩ := Option.bind_eq_some_iff.mp isCell
    obtain ⟨segment, isSegment, holds⟩ := Option.bind_eq_some_iff.mp isSegment
    have found := sound (entry, i) (List.mk_mem_zipIdx_iff_getElem?.mpr isEntry)
    simp only [flagged entry (List.mem_of_getElem? isEntry), ne_eq, not_true_eq_false, if_false,
      List.findSome?_eq_none_iff] at found
    have found := found (cell, j) (List.mk_mem_zipIdx_iff_getElem?.mpr isCell)
      (segment, k) (List.mk_mem_zipIdx_iff_getElem?.mpr isSegment)
    by_contra unlisted
    simp [holds, unlisted] at found
  · rintro ⟨flagged, listed⟩ ⟨entry, i⟩ isEntry
    have isEntry := List.mk_mem_zipIdx_iff_getElem?.mp isEntry
    simp only [flagged entry (List.mem_of_getElem? isEntry), ne_eq, not_true_eq_false, if_false,
      List.findSome?_eq_none_iff]
    rintro ⟨cell, j⟩ isCell ⟨segment, k⟩ isSegment
    have isCell := List.mk_mem_zipIdx_iff_getElem?.mp isCell
    have isSegment := List.mk_mem_zipIdx_iff_getElem?.mp isSegment
    cases holds : segment.wildcard? with
    | none => rfl
    | some index =>
      have here : wildcardAt? motif.entries ⟨i, j, k⟩ = some index := by
        simp [wildcardAt?, isEntry, isCell, isSegment, holds]
      simp [listed here]

theorem wildcardInconsistency?_eq_none_iff : motif.wildcardInconsistency? = none ↔
    (∀ wildcard ∈ motif.wildcards, wildcard.occurrences ≠ []) ∧
      ∀ {occurrence index}, isListed motif.wildcards index occurrence →
        wildcardAt? motif.entries occurrence = some index := by
  rw [wildcardInconsistency?, List.findSome?_eq_none_iff]
  constructor
  · intro sound
    have occurs : ∀ wildcard ∈ motif.wildcards, wildcard.occurrences ≠ [] := by
      intro wildcard member
      obtain ⟨index, here⟩ := List.mem_iff_getElem?.mp member
      have found := sound (wildcard, index) (List.mk_mem_zipIdx_iff_getElem?.mpr here)
      rintro empty
      simp [empty] at found
    refine ⟨occurs, ?_⟩
    intro occurrence index listed
    obtain ⟨wildcard, here, member⟩ := isListed_iff.mp listed
    have found := sound (wildcard, index) (List.mk_mem_zipIdx_iff_getElem?.mpr here)
    simp only [List.isEmpty_iff, occurs wildcard (List.mem_of_getElem? here), if_false,
      List.findSome?_eq_none_iff] at found
    by_contra other
    simpa [other] using found occurrence member
  · rintro ⟨occurs, holds⟩ ⟨wildcard, index⟩ isWildcard
    have isWildcard := List.mk_mem_zipIdx_iff_getElem?.mp isWildcard
    simp only [List.isEmpty_iff, occurs wildcard (List.mem_of_getElem? isWildcard), if_false,
      List.findSome?_eq_none_iff]
    intro occurrence member
    simp [holds (isListed_iff.mpr ⟨wildcard, isWildcard, member⟩)]

theorem inconsistency?_eq_none_iff : motif.inconsistency? = none ↔ motif.Consistent := by
  rw [inconsistency?, Option.orElse_eq_orElse, Option.orElse_eq_or, Option.or_eq_none_iff,
    entryInconsistency?_eq_none_iff, wildcardInconsistency?_eq_none_iff]
  constructor
  · rintro ⟨⟨flagged, listed⟩, occurs, holds⟩
    exact ⟨⟨⟨listed, holds⟩⟩, flagged, occurs⟩
  · intro consistent
    exact ⟨⟨consistent.flagged, consistent.listed_iff.mp⟩,
      consistent.occurs, consistent.listed_iff.mpr⟩

theorem checkConsistency_eq_ok_iff :
    motif.checkConsistency = .ok () ↔ motif.inconsistency? = none := by
  unfold checkConsistency
  cases motif.inconsistency? <;> simp

theorem checkConsistency_iff : motif.checkConsistency = .ok () ↔ motif.Consistent := by
  rw [checkConsistency_eq_ok_iff, inconsistency?_eq_none_iff]

/-! ### Edits of a consistent motif -/

/-- Whether the segments of each cell can be numbered, also once two more have been added. -/
def HasRoom (motif : Motif) : Prop :=
  ∀ entry ∈ motif.entries, ∀ cell ∈ entry.cells, cell.segments.length + 2 ≤ Index.greatest

private theorem HasRoom.cell (room : motif.HasRoom) {entry cell : Nat} {content : Cell}
    (found : cellAt? motif.entries entry cell = some content) : content.HasRoom := by
  obtain ⟨item, isEntry, isCell⟩ := Option.bind_eq_some_iff.mp found
  exact Cell.hasRoom_of_length_le
    (room item (List.mem_of_getElem? isEntry) content (List.mem_of_getElem? isCell))

theorem Consistent.createWildcard (consistent : motif.Consistent) (room : motif.HasRoom)
    {selection : Selection} (created : motif.createWildcard selection = .ok (some next)) :
    next.Consistent := by
  refine ⟨consistent.toAgrees.createWildcard (fun _ => room.cell) created,
    Entry.flagged_of_reshaped (reshaped_insertWildcard created) consistent.flagged, ?_⟩
  obtain ⟨cell, insertion, wildcards, -, -, recorded, rfl⟩ :=
    insertWildcard_eq_ok_some_iff.mp created
  obtain rfl := Except.ok.inj recorded
  exact occurs_append_single (occurs_map _ consistent.occurs) _

theorem Consistent.useWildcard (consistent : motif.Consistent) (room : motif.HasRoom) {index : Nat}
    {selection : Selection} (used : motif.useWildcard index selection = .ok (some next)) :
    next.Consistent := by
  refine ⟨consistent.toAgrees.useWildcard (fun _ => room.cell) used,
    Entry.flagged_of_reshaped (reshaped_useWildcard used) consistent.flagged, ?_⟩
  obtain ⟨-, cell, insertion, -, -, rfl⟩ := useWildcard_eq_ok_some_iff.mp used
  exact occurs_modify_append (occurs_map _ consistent.occurs)

theorem Consistent.removeEntry (consistent : motif.Consistent) {entry : Nat}
    (removed : motif.removeEntry entry = .ok (.remaining next)) : next.Consistent := by
  refine ⟨consistent.toAgrees.removeEntry removed, ?_, ?_⟩
  all_goals obtain ⟨-, -, rfl⟩ := removeEntry_eq_ok_remaining_iff.mp removed
  · intro item member
    have bodies : item.body ∈ (Entry.unlinkLast _).map Entry.body := List.mem_map_of_mem member
    rw [Entry.map_body_unlinkLast] at bodies
    obtain ⟨unlinked, inList, same⟩ := List.mem_map.mp bodies
    have flagged : unlinked.body.selection.length = unlinked.body.cells.length :=
      Entry.flagged_of_reshaped (reshaped_renumber _ _)
        (fun old isOld => consistent.flagged old (List.mem_of_mem_eraseIdx isOld)) unlinked inList
    rw [same] at flagged
    exact flagged
  · exact occurs_clearEntry motif.wildcards entry

/-- Apart from agreement, taking a wildcard out of a segment keeps what the check looks for. -/
theorem Consistent.removeWildcard_iff (consistent : motif.Consistent) {entry cell segment : Nat}
    (edited : motif.removeWildcard entry cell segment = .ok (some next)) :
    next.Consistent ↔ next.Agrees := by
  refine ⟨Consistent.toAgrees, fun agrees => ⟨agrees, ?_, ?_⟩⟩
  · exact Entry.flagged_of_reshaped (reshaped_removeWildcard edited) consistent.flagged
  · obtain ⟨content, index, removal, update, -, -, struck, rfl⟩ :=
      removeWildcard_eq_ok_some_iff.mp edited
    exact occurs_map _ (occurs_removeOccurrence struck consistent.occurs)

/-- The check accepts what putting a wildcard in or removing an entry makes of an accepted motif. It
accepts a motif without the wildcard of some segment exactly when that segment was listed once, or
when what moves into its place holds the same wildcard. -/
theorem edits_keep_consistency (accepted : motif.checkConsistency = .ok ())
    (room : motif.HasRoom) :
    (∀ selection next, motif.createWildcard selection = .ok (some next) →
      next.checkConsistency = .ok ()) ∧
    (∀ index selection next, motif.useWildcard index selection = .ok (some next) →
      next.checkConsistency = .ok ()) ∧
    (∀ entry next, motif.removeEntry entry = .ok (.remaining next) →
      next.checkConsistency = .ok ()) ∧
    ∀ entry cell segment next, motif.removeWildcard entry cell segment = .ok (some next) →
      ∃ index wildcard, wildcardAt? motif.entries ⟨entry, cell, segment⟩ = some index ∧
        motif.wildcards[index]? = some wildcard ∧
        (next.checkConsistency = .ok () ↔ wildcard.occurrences.count ⟨entry, cell, segment⟩ = 1 ∨
          wildcardAt? next.entries ⟨entry, cell, segment⟩ = some index) := by
  have consistent := checkConsistency_iff.mp accepted
  simp only [checkConsistency_iff]
  refine ⟨?_, ?_, ?_, ?_⟩
  · exact fun selection next => consistent.createWildcard room
  · exact fun index selection next => consistent.useWildcard room
  · exact fun entry next => consistent.removeEntry
  · intro entry cell segment next edited
    rw [consistent.removeWildcard_iff edited]
    exact consistent.toAgrees.exists_of_removeWildcard (fun _ => room.cell) edited

/-- A motif of one wildcard, which lists the only segment twice. -/
def listedTwice : Motif :=
  ⟨[⟨["a"], [⟨[.wildcard 0 "a"]⟩], [true], none⟩], [⟨[⟨0, 0, 0⟩, ⟨0, 0, 0⟩]⟩]⟩

/-- The same motif with its wildcard listed once. -/
def listedOnce : Motif := { listedTwice with wildcards := [.single ⟨0, 0, 0⟩] }

/-- Without its wildcard, the motif that lists it once is consistent. -/
theorem consistent_of_listed_once : ∃ next, listedOnce.checkConsistency = .ok () ∧
    listedOnce.removeWildcard 0 0 0 = .ok (some next) ∧ next.checkConsistency = .ok () := by
  obtain ⟨next, edited⟩ : ∃ next, listedOnce.removeWildcard 0 0 0 = .ok (some next) := ⟨_, rfl⟩
  have room : listedOnce.HasRoom := by
    unfold HasRoom
    decide
  obtain ⟨index, wildcard, here, isWildcard, consistent_iff⟩ :=
    (edits_keep_consistency rfl room).2.2.2 0 0 0 next edited
  obtain rfl : 0 = index := Option.some.inj here
  obtain rfl : Wildcard.single ⟨0, 0, 0⟩ = wildcard := Option.some.inj isWildcard
  exact ⟨next, rfl, edited, consistent_iff.mpr (.inl rfl)⟩

/-- Without its wildcard, the motif that lists it twice lists a segment of text. -/
theorem orphan_of_listed_twice : ∃ next, listedTwice.checkConsistency = .ok () ∧
    listedTwice.removeWildcard 0 0 0 = .ok (some next) ∧
    next.checkConsistency = .error (.orphanWildcard 0 ⟨0, 0, 0⟩) :=
  ⟨_, rfl, rfl, rfl⟩

end Motif

end LogMotif
