import LogMotif.Proofs.Motif.Thinning

/-! # The numbers of the wildcards that are left

An entry that goes takes along the wildcards that occur nowhere else. Those that are left close up
in their order, so each gets the number of its place in the shorter list. References in cells are
renumbered by counting the smaller numbers among those that are gone, which comes to the same.
-/

namespace LogMotif

/-! ### Places of items -/

/-- The places of the items of a list that have a property. -/
def placesOf {α : Type} (has : α → Bool) (list : List α) : List Nat :=
  (list.zipIdx.filter (has ·.1)).map (·.2)

section

variable {α : Type} {has : α → Bool} {list : List α} {index place : Nat}

theorem pairwise_placesOf (has : α → Bool) (list : List α) :
    (placesOf has list).Pairwise (· < ·) := by
  have all : (list.zipIdx.map (·.2)).Pairwise (· < ·) := by
    rw [List.zipIdx_map_snd]
    exact List.pairwise_lt_range'
  exact all.sublist (List.filter_sublist.map _)

theorem mem_placesOf_iff :
    index ∈ placesOf has list ↔ ∃ item, list[index]? = some item ∧ has item := by
  simp [placesOf, List.mem_zipIdx_iff_getElem?]

/-- A place at which one of them stands is found behind as many as stand in front of it. -/
theorem getElem?_placesOf_iff : (placesOf has list)[place]? = some index ↔
    index ∈ placesOf has list ∧ place = (list.take index).countP has := by
  have count (old : Nat) :
      (list.zipIdx.take old).countP (has ·.1) = (list.take old).countP has := by
    rw [← List.zipIdx_map_fst 0 list, ← List.map_take, List.countP_map, List.zipIdx_map_fst]
    rfl
  rw [mem_placesOf_iff, placesOf, List.getElem?_map, Option.map_eq_some_iff]
  simp only [Motif.getElem?_filter_eq_some_iff, List.getElem?_zipIdx, Option.map_eq_some_iff, count]
  constructor
  · rintro ⟨_, ⟨old, ⟨item, here, rfl⟩, isKind, rfl⟩, rfl⟩
    rw [Nat.zero_add]
    exact ⟨⟨item, here, isKind⟩, rfl⟩
  · rintro ⟨⟨item, here, isKind⟩, rfl⟩
    exact ⟨_, ⟨index, ⟨item, here, rfl⟩, isKind, rfl⟩, Nat.zero_add index⟩

/-- The items that are picked out are those at these places. -/
private theorem forall₂_placesOf_filter (has : α → Bool) (list : List α) :
    List.Forall₂ (fun index item => list[index]? = some item) (placesOf has list)
      (list.filter has) := by
  have picked : list.filter has = (list.zipIdx.filter (has ·.1)).map (·.1) := by
    conv_lhs => rw [← List.zipIdx_map_fst 0 list, List.filter_map]
    rfl
  rw [picked, placesOf, List.forall₂_map_left_iff, List.forall₂_map_right_iff, List.forall₂_same]
  intro pair member
  exact List.mem_zipIdx_iff_getElem?.mp (List.mem_filter.mp member).1

/-- In front of a place stand the items with a property and those without. -/
private theorem countP_take_add_length_placesOf (inside : index ≤ list.length) :
    (list.take index).countP (!has ·) + ((placesOf has list).filter (· < index)).length =
      index := by
  have others : ((placesOf has list).filter (· < index)).length = (list.take index).countP has := by
    rw [placesOf, ← List.countP_eq_length_filter, List.countP_map, List.countP_filter]
    simpa using Motif.countP_zipIdx_lt has list 0 index
  have total := List.length_eq_countP_add_countP has (l := list.take index)
  rw [List.length_take_of_le inside] at total
  simp only [Bool.not_eq_true, Bool.decide_eq_false] at total
  rw [others, Nat.add_comm, ← total]

end

/-! ### Wildcards -/

/-- The wildcard once an entry has gone: its occurrences in other entries, in their order, those
behind that entry one entry further up. -/
def Wildcard.withoutEntry (entry : Nat) (wildcard : Wildcard) : Wildcard :=
  ⟨(wildcard.occurrences.filter (·.entry != entry)).map fun occurrence =>
    { occurrence with
      entry := if entry < occurrence.entry then occurrence.entry - 1 else occurrence.entry }⟩

private theorem Wildcard.mapOccurrences_outside (entry : Nat) (wildcard : Wildcard) :
    (wildcard.outside entry).mapOccurrences (Occurrence.closeUp entry) =
      wildcard.withoutEntry entry := by
  refine congrArg Wildcard.mk (List.map_congr_left fun occurrence _ => ?_)
  unfold Occurrence.closeUp
  split <;> rfl

private theorem Wildcard.isEmpty_outside_iff {entry : Nat} {wildcard : Wildcard} :
    (wildcard.outside entry).occurrences.isEmpty ↔
      ∀ occurrence ∈ wildcard.occurrences, occurrence.entry = entry := by
  simp [Wildcard.outside]

namespace Motif

variable (wildcards : List Wildcard) (entry : Nat)

/-- The numbers of the wildcards that occur outside of an entry. -/
def survivors : List Nat :=
  placesOf (!·.occurrences.isEmpty) (wildcards.map (·.outside entry))

theorem deleted_clearEntry : (clearEntry wildcards entry).deleted =
    placesOf (·.occurrences.isEmpty) (wildcards.map (·.outside entry)) := rfl

variable {wildcards entry} {index : Nat}

private theorem mem_deleted_clearEntry_iff : index ∈ (clearEntry wildcards entry).deleted ↔
    ∃ wildcard, wildcards[index]? = some wildcard ∧
      ∀ occurrence ∈ wildcard.occurrences, occurrence.entry = entry := by
  simp [deleted_clearEntry, mem_placesOf_iff, ← Wildcard.isEmpty_outside_iff]

theorem mem_survivors_iff : index ∈ survivors wildcards entry ↔
    index < wildcards.length ∧ index ∉ (clearEntry wildcards entry).deleted := by
  rw [survivors, deleted_clearEntry, mem_placesOf_iff, mem_placesOf_iff, List.getElem?_map]
  cases here : wildcards[index]? with
  | none => simpa using here
  | some wildcard =>
    have inside := (List.getElem?_eq_some_iff.mp here).1
    simp [inside]

variable (wildcards entry)

/-- The wildcards that are left are those with these numbers, without the entry that has gone. -/
private theorem forall₂_survivors : List.Forall₂ (fun index left => ∃ wildcard,
      wildcards[index]? = some wildcard ∧ left = wildcard.withoutEntry entry)
    (survivors wildcards entry) (clearEntry wildcards entry).wildcards := by
  refine List.forall₂_map_right_iff.mpr ?_
  refine (forall₂_placesOf_filter _ _).imp fun index left found => ?_
  rw [List.getElem?_map] at found
  obtain ⟨wildcard, here, rfl⟩ := Option.map_eq_some_iff.mp found
  exact ⟨wildcard, here, Wildcard.mapOccurrences_outside entry wildcard⟩

variable {wildcards entry}

/-- The number of a wildcard that is left is its place among those that are left, and as many as are
gone from in front of it. -/
private theorem getElem?_survivors (survives : index ∈ survivors wildcards entry) :
    ∃ place, (survivors wildcards entry)[place]? = some index ∧
      place + ((clearEntry wildcards entry).deleted.filter (· < index)).length = index := by
  have inside := (mem_survivors_iff.mp survives).1
  refine ⟨_, getElem?_placesOf_iff.mpr ⟨survives, rfl⟩, ?_⟩
  rw [deleted_clearEntry]
  exact countP_take_add_length_placesOf (by rw [List.length_map]; exact Nat.le_of_lt inside)

/-- No number is lowered below zero. -/
private theorem length_filter_lt_le {numbers : List Nat} (ascending : numbers.Pairwise (· < ·))
    (index : Nat) : (numbers.filter (· < index)).length ≤ index := by
  have nodup : (numbers.filter (· < index)).Nodup := (ascending.imp Nat.ne_of_lt).filter _
  have below : numbers.filter (· < index) ⊆ List.range index := fun number member =>
    List.mem_range.mpr (by simpa using (List.mem_filter.mp member).2)
  simpa using (List.subperm_of_subset nodup below).length_le

/-- Whatever the list of wildcards is, the numbers that go with an entry are those of the wildcards
that occur nowhere else, in ascending order, and references to the others are renumbered to the
places that these have in the list that is left. -/
theorem renumber_clearEntry (wildcards : List Wildcard) (entry : Nat) :
    let deleted := (clearEntry wildcards entry).deleted
    deleted.Pairwise (· < ·) ∧
    (∀ index, index ∈ deleted ↔ ∃ wildcard, wildcards[index]? = some wildcard ∧
      ∀ occurrence ∈ wildcard.occurrences, occurrence.entry = entry) ∧
    (∀ index, (deleted.filter (· < index)).length ≤ index) ∧
    ∃ kept : List Nat, kept.Pairwise (· < ·) ∧
      (∀ index, index ∈ kept ↔ index < wildcards.length ∧ index ∉ deleted) ∧
      List.Forall₂ (fun index left => ∃ wildcard, wildcards[index]? = some wildcard ∧
        left = wildcard.withoutEntry entry) kept (clearEntry wildcards entry).wildcards ∧
      ∀ index ∈ kept, ∃ place, kept[place]? = some index ∧
        place + (deleted.filter (· < index)).length = index ∧
        ∀ entries occurrence, wildcardAt? entries occurrence = some index →
          wildcardAt? (renumber entries deleted) occurrence = some place := by
  have ascending : (clearEntry wildcards entry).deleted.Pairwise (· < ·) := by
    rw [deleted_clearEntry]
    exact pairwise_placesOf _ _
  refine ⟨ascending, fun index => mem_deleted_clearEntry_iff, length_filter_lt_le ascending,
    survivors wildcards entry, pairwise_placesOf _ _, fun index => mem_survivors_iff,
    forall₂_survivors wildcards entry, fun index survives => ?_⟩
  obtain ⟨place, here, count⟩ := getElem?_survivors survives
  refine ⟨place, here, count, fun entries occurrence reference => ?_⟩
  rw [wildcardAt?_renumber, reference, Option.map_some, closedUp]
  exact congrArg some (Nat.sub_eq_of_eq_add count.symm)

/-- The second of five wildcards and the fourth occur in the second entry only. The last wildcard is
referred to by the number of the third place once that entry has gone. -/
theorem renumber_clearEntry_between_deleted :
    let wildcards : List Wildcard := [⟨[⟨0, 0, 0⟩, ⟨2, 0, 1⟩]⟩, ⟨[⟨1, 2, 0⟩]⟩,
      ⟨[⟨1, 0, 0⟩, ⟨3, 0, 0⟩]⟩, ⟨[⟨1, 1, 0⟩, ⟨1, 1, 2⟩]⟩, ⟨[⟨0, 1, 0⟩, ⟨1, 1, 4⟩]⟩]
    let entries : List Entry :=
      [⟨["a", "b"], [⟨[.wildcard 0 "a"]⟩, ⟨[.wildcard 4 "b"]⟩], [true, true], none⟩]
    (clearEntry wildcards 1).deleted = [1, 3] ∧
      (clearEntry wildcards 1).wildcards =
        [⟨[⟨0, 0, 0⟩, ⟨1, 0, 1⟩]⟩, ⟨[⟨2, 0, 0⟩]⟩, ⟨[⟨0, 1, 0⟩]⟩] ∧
      wildcardAt? (renumber entries [1, 3]) ⟨0, 1, 0⟩ = some 2 := by
  intro wildcards entries
  have deleted_eq : (clearEntry wildcards 1).deleted = [1, 3] := by decide
  obtain ⟨-, -, -, kept, -, mem_iff, -, each⟩ := renumber_clearEntry wildcards 1
  rw [deleted_eq] at mem_iff each
  obtain ⟨place, -, count, renumbered⟩ := each 4 ((mem_iff 4).mpr (by decide))
  obtain rfl : place = 2 := Nat.add_right_cancel count
  exact ⟨deleted_eq, by decide, renumbered entries ⟨0, 1, 0⟩ rfl⟩

end Motif

end LogMotif
