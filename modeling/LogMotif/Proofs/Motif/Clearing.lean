import LogMotif.Proofs.Motif.Restoring

/-! # Removing an entry whose wildcards have been taken out

An entry takes its occurrences along when it goes: all of them are struck out at once, and the
wildcards that occurred nowhere else go together. It makes no difference if some of the occurrences
have been taken out before, one at a time, with renumberings in between: what the list of wildcards
says of the other entries is the same, and so is the number that each wildcard has in the end.
-/

namespace LogMotif

namespace Motif

variable {motif next : Motif} {wildcards : List Wildcard} {index entry : Nat}

/-! ### What the list says of the other entries -/

private theorem shiftBehind_of_ne {cell after : Nat} {delta : Int} {occurrence : Occurrence}
    (other : occurrence.entry ≠ entry) :
    occurrence.shiftBehind entry cell after delta = occurrence := by
  simp [Occurrence.shiftBehind, Occurrence.isIn, other]

private theorem entry_shiftBehind (cell after : Nat) (delta : Int) (occurrence : Occurrence) :
    (occurrence.shiftBehind entry cell after delta).entry = occurrence.entry := by
  unfold Occurrence.shiftBehind
  split <;> rfl

/-- That occurrences have moved in an entry is not seen outside of it. -/
private theorem map_outside_shiftOccurrences (wildcards : List Wildcard) (entry cell after : Nat)
    (delta : Int) :
    (shiftOccurrences wildcards entry cell after delta).map (·.outside entry) =
      wildcards.map (·.outside entry) := by
  rw [shiftOccurrences, List.map_map]
  refine List.map_congr_left fun wildcard _ => congrArg Wildcard.mk ?_
  simp only [Wildcard.mapOccurrences, List.filter_map, Function.comp_def, entry_shiftBehind]
  refine (List.map_congr_left fun occurrence kept => ?_).trans (List.map_id _)
  exact shiftBehind_of_ne (by simpa using (List.mem_filter.mp kept).2)

/-- That an occurrence of an entry has been struck out is seen outside of it only where a wildcard
has gone, which had no occurrence there. -/
private theorem map_outside_removeOccurrence {struck : Occurrence} {update : OccurrenceRemoval}
    (removed : removeOccurrence wildcards index struck = .ok update) (inEntry : struck.entry = entry) :
    (update.deleted = false ∧
      update.wildcards.map (·.outside entry) = wildcards.map (·.outside entry)) ∨
    (update.deleted = true ∧ (wildcards.map (·.outside entry))[index]? = some ⟨[]⟩ ∧
      update.wildcards.map (·.outside entry) = (wildcards.map (·.outside entry)).eraseIdx index) := by
  obtain ⟨wildcard, here, member, rfl⟩ := removeOccurrence_eq_ok_iff.mp removed
  split
  next last =>
    refine .inr ⟨rfl, ?_, (List.eraseIdx_map ..).symm⟩
    have only : wildcard.occurrences = [struck] :=
      (List.erase_eq_nil_iff.mp last).resolve_left (List.ne_nil_of_mem member)
    simp [here, Wildcard.outside, only, inEntry]
  next =>
    refine .inl ⟨rfl, ?_⟩
    have gone : struck ∉ wildcard.occurrences.filter (·.entry != entry) := by simp [inEntry]
    have unseen : Wildcard.outside entry ⟨wildcard.occurrences.erase struck⟩ =
        wildcard.outside entry := by
      rw [Wildcard.outside, ← List.erase_filter, List.erase_of_not_mem gone]
      rfl
    rw [List.map_set, unseen, List.set_eq_modify, modify_eq_self fun other isOther => ?_]
    rw [List.getElem?_map, here] at isOther
    exact Option.some.inj isOther

/-! ### Lists without an item that is dropped anyway -/

section

variable {α : Type} {keep : α → Bool} {list : List α} {k : Nat} {item : α}

private theorem filter_eraseIdx (here : list[k]? = some item) (dropped : keep item = false) :
    (list.eraseIdx k).filter keep = list.filter keep := by
  obtain ⟨front, back, rfl, rfl⟩ := Cell.exists_append_cons here
  simp [List.eraseIdx_append_of_length_le, dropped]

/-- The items kept in front of a place are as many, once the place has closed up. -/
private theorem countP_take_eraseIdx (here : list[k]? = some item) (dropped : keep item = false)
    (i : Nat) :
    ((list.eraseIdx k).take (closedUp [k] i)).countP keep = (list.take i).countP keep := by
  obtain ⟨front, back, rfl, rfl⟩ := Cell.exists_append_cons here
  rw [closedUp_singleton]
  split
  next behind =>
    obtain ⟨rest, rfl⟩ := Nat.exists_eq_add_of_lt behind
    have whole (more : Nat) : front.take (front.length + more) = front :=
      List.take_of_length_le (Nat.le_add_right _ _)
    simp [List.eraseIdx_append_of_length_le, List.take_append, dropped, whole, Nat.add_assoc]
  next before =>
    have short : i - front.length = 0 := by omega
    simp [List.eraseIdx_append_of_length_le, List.take_append, short]

end

/-! ### One occurrence less -/

section

variable {struck : Occurrence} {update : OccurrenceRemoval} (inEntry : struck.entry = entry)
  (removed : removeOccurrence wildcards index struck = .ok update) (cell after : Nat) (delta : Int)
include inEntry removed

private theorem wildcards_clearEntry_removal :
    (clearEntry (shiftOccurrences update.wildcards entry cell after delta) entry).wildcards =
      (clearEntry wildcards entry).wildcards := by
  simp only [clearEntry, map_outside_shiftOccurrences]
  rcases map_outside_removeOccurrence removed inEntry with ⟨-, same⟩ | ⟨-, empty, erased⟩
  · rw [same]
  · rw [erased, filter_eraseIdx empty rfl]

/-- A wildcard that closes up once for a wildcard that has gone, and then for those that go with the
entry, gets the number that it gets when all go with the entry. -/
private theorem closedUp_clearEntry_removal {place : Nat} (inside : place < wildcards.length) :
    closedUp (clearEntry (shiftOccurrences update.wildcards entry cell after delta) entry).deleted
        (closedUp (if update.deleted then [index] else []) place) =
      closedUp (clearEntry wildcards entry).deleted place := by
  have length_eq : (shiftOccurrences update.wildcards entry cell after delta).length =
      (update.wildcards.map (·.outside entry)).length := by simp [shiftOccurrences]
  rcases map_outside_removeOccurrence removed inEntry with ⟨kept, same⟩ | ⟨gone, empty, erased⟩
  · rw [same, List.length_map] at length_eq
    have unmoved : closedUp (if update.deleted then [index] else []) place = place := by
      rw [kept]
      rfl
    rw [unmoved, closedUp_clearEntry (by omega), closedUp_clearEntry (Nat.le_of_lt inside),
      map_outside_shiftOccurrences, same]
  · have struckInside := (List.getElem?_eq_some_iff.mp empty).1
    rw [erased, List.length_eraseIdx_of_lt struckInside] at length_eq
    rw [List.length_map] at length_eq struckInside
    have bound : closedUp [index] place ≤
        (shiftOccurrences update.wildcards entry cell after delta).length := by
      rw [closedUp_singleton]
      split <;> omega
    rw [gone, if_pos rfl, closedUp_clearEntry bound, closedUp_clearEntry (Nat.le_of_lt inside),
      map_outside_shiftOccurrences, erased, countP_take_eraseIdx empty rfl]

end

/-- A cell that has been replaced goes with its entry. -/
private theorem eraseIdx_setCell (motif : Motif) (entry cell : Nat) (content : Cell) :
    (motif.setCell entry cell content).entries.eraseIdx entry = motif.entries.eraseIdx entry := by
  refine List.ext_getElem? fun i => ?_
  simp only [setCell, List.getElem?_eraseIdx, List.getElem?_modify]
  split
  next before => simp [Nat.ne_of_gt before]
  next behind =>
    have other : entry ≠ i + 1 := by omega
    simp [other]

/-- An entry leaves the same behind if one of its wildcards has been taken out before. -/
theorem Agrees.removeEntry_of_removeWildcard (agrees : motif.Agrees) {cell segment : Nat}
    (edited : motif.removeWildcard entry cell segment = .ok (some next)) :
    next.removeEntry entry = motif.removeEntry entry := by
  obtain ⟨content, index, removal, update, found, removed, struck, rfl⟩ :=
    removeWildcard_eq_ok_some_iff.mp edited
  let gone := if update.deleted then [index] else []
  have entries_eq : (if update.deleted then
        renumber (motif.setCell entry cell removal.cell).entries [index]
      else (motif.setCell entry cell removal.cell).entries) =
        renumber (motif.setCell entry cell removal.cell).entries gone := by
    simp only [gone]
    split <;> simp [renumber_nil]
  have erased : (renumber (motif.setCell entry cell removal.cell).entries gone).eraseIdx entry =
      renumber (motif.entries.eraseIdx entry) gone := by
    rw [renumber, List.eraseIdx_map, eraseIdx_setCell]
    rfl
  have lengths : (renumber (motif.setCell entry cell removal.cell).entries gone).length =
      motif.entries.length := by
    simp [renumber, setCell]
  have renumbered := @renumber_renumber_eq (motif.entries.eraseIdx entry) gone
    (clearEntry (shiftOccurrences update.wildcards entry cell segment (-(removal.removed : Int)))
      entry).deleted (clearEntry motif.wildcards entry).deleted fun occurrence place here => by
    obtain ⟨before, -, isOld, -⟩ := wildcardAt?_eraseIdx_iff.mp here
    exact closedUp_clearEntry_removal rfl struck cell segment _ (agrees.lt_length isOld)
  have emptied : (renumber (motif.entries.eraseIdx entry) gone).isEmpty =
      (motif.entries.eraseIdx entry).isEmpty := by
    rw [renumber, List.isEmpty_map]
  simp only [Motif.removeEntry, entries_eq, erased, lengths, renumbered, emptied,
    wildcards_clearEntry_removal rfl struck]

end Motif

/-! ### The marks of an entry, one after the other -/

namespace Mark.SamePlace

variable {first second third : Mark}

theorem symm (same : first.SamePlace second) : second.SamePlace first :=
  ⟨same.1.symm, same.2.1.symm, same.2.2.1.symm, same.2.2.2.symm⟩

theorem trans (one : first.SamePlace second) (other : second.SamePlace third) :
    first.SamePlace third :=
  ⟨one.1.trans other.1, one.2.1.trans other.2.1, one.2.2.1.trans other.2.2.1,
    one.2.2.2.trans other.2.2.2⟩

private theorem relabel (rename : Nat → Nat) (mark : Mark) : mark.SamePlace (mark.relabel rename) :=
  ⟨rfl, rfl, rfl, rfl⟩

end Mark.SamePlace

namespace Markup

variable {before after : Markup} {entry : Nat} {order : List Mark}

/-- Whether a list holds the places of the marks of an entry, each once, under whatever labels. -/
structure Enumerates (markup : Markup) (entry : Nat) (order : List Mark) : Prop where
  apart : order.Pairwise fun left right => ¬ left.SamePlace right
  exists_mark : ∀ place ∈ order, ∃ mark ∈ markup.marks, place.SamePlace mark ∧ mark.entry = entry
  exists_place : ∀ mark ∈ markup.marks, mark.entry = entry → ∃ place ∈ order, place.SamePlace mark

/-- The marks of an entry themselves, in any order, are such a list. -/
theorem Functional.enumerates (functional : before.Functional) (nodup : order.Nodup)
    (mem_iff : ∀ mark, mark ∈ order ↔ mark ∈ before.marks ∧ mark.entry = entry) :
    before.Enumerates entry order where
  apart := nodup.imp_of_mem fun isLeft isRight other same =>
    other (functional _ ((mem_iff _).mp isLeft).1 _ ((mem_iff _).mp isRight).1 same)
  exists_mark place member :=
    ⟨place, ((mem_iff place).mp member).1, ⟨rfl, rfl, rfl, rfl⟩, ((mem_iff place).mp member).2⟩
  exists_place mark member inEntry := ⟨mark, (mem_iff mark).mpr ⟨member, inEntry⟩, rfl, rfl, rfl, rfl⟩

private theorem Loses.exists_relabel {mark : Mark} (loses : before.Loses mark after) :
    ∃ rename, after.marks = Mark.relabel rename '' (before.marks \ {mark}) := by
  obtain ⟨-, -, used, last⟩ := loses
  by_cases inUse : mark.span.wildcard ∈ Mark.labels (before.marks \ {mark})
  · exact ⟨id, (used inUse).trans (Set.image_id _).symm⟩
  · exact ⟨_, last inUse⟩

/-- Once the mark at the first place has been deleted, the rest of the list is left. -/
theorem Enumerates.tail {place mark : Mark} (enumerates : before.Enumerates entry (place :: order))
    (functional : before.Functional) (same : place.SamePlace mark) (loses : before.Loses mark after) :
    after.Enumerates entry order := by
  obtain ⟨rename, marks_eq⟩ := loses.exists_relabel
  obtain ⟨away, apart⟩ := List.pairwise_cons.mp enumerates.apart
  refine ⟨apart, fun other member => ?_, fun left member inEntry => ?_⟩
  · obtain ⟨left, isLeft, there, inEntry⟩ :=
      enumerates.exists_mark other (List.mem_cons_of_mem _ member)
    refine ⟨left.relabel rename, ?_, there.trans (.relabel rename left), inEntry⟩
    rw [marks_eq]
    refine Set.mem_image_of_mem _ ⟨isLeft, ?_⟩
    rintro rfl
    exact away other member (same.trans there.symm)
  · rw [marks_eq] at member
    obtain ⟨old, ⟨isOld, other⟩, rfl⟩ := member
    obtain ⟨found, isPlace, there⟩ := enumerates.exists_place old isOld inEntry
    rcases List.mem_cons.mp isPlace with rfl | inRest
    · exact absurd (functional _ isOld _ loses.1 (there.symm.trans same)) other
    · exact ⟨found, inRest, there.trans (.relabel rename old)⟩

end Markup

end LogMotif
