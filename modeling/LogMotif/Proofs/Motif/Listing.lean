import Mathlib.Data.List.Nodup
import LogMotif.Motif

/-! # Which wildcard lists which occurrence

The operations on the list of wildcards, told by what is listed after them: an occurrence that is
entered, one that is struck out, occurrences that move, and wildcards that go when they have lost
their last occurrence, so that those behind them close up.
-/

namespace LogMotif

/-- Whether a wildcard lists some occurrences, and each of them once. -/
structure Wildcard.Tidy (wildcard : Wildcard) : Prop where
  nodup : wildcard.occurrences.Nodup
  occurs : wildcard.occurrences ≠ []

namespace Motif

variable {wildcards : List Wildcard} {index : Nat} {occurrence : Occurrence}

private theorem eq_of_closeUp_eq {entry : Nat} {left right : Occurrence}
    (isLeft : left.entry ≠ entry) (isRight : right.entry ≠ entry)
    (same : left.closeUp entry = right.closeUp entry) :
    left = right := by
  obtain ⟨i, j, segment⟩ := left
  obtain ⟨k, l, place⟩ := right
  unfold Occurrence.closeUp at same
  simp only at isLeft isRight same
  split at same <;> split at same <;> simp only [Occurrence.mk.injEq] at same ⊢ <;> omega

theorem isListed_iff : isListed wildcards index occurrence ↔
    ∃ wildcard, wildcards[index]? = some wildcard ∧ occurrence ∈ wildcard.occurrences := by
  unfold isListed
  cases wildcards[index]? <;> simp

/-- Moving occurrences moves what is listed. -/
theorem isListed_map_iff (change : Occurrence → Occurrence) :
    isListed (wildcards.map (·.mapOccurrences change)) index occurrence ↔
      ∃ before, isListed wildcards index before ∧ occurrence = change before := by
  simp only [isListed_iff, List.getElem?_map, Option.map_eq_some_iff]
  constructor
  · rintro ⟨_, ⟨wildcard, here, rfl⟩, member⟩
    obtain ⟨before, listed, rfl⟩ := List.mem_map.mp member
    exact ⟨before, ⟨wildcard, here, listed⟩, rfl⟩
  · rintro ⟨before, ⟨wildcard, here, listed⟩, rfl⟩
    exact ⟨_, ⟨wildcard, here, rfl⟩, List.mem_map_of_mem listed⟩

theorem isListed_append_single_iff {other : Occurrence} :
    isListed (wildcards ++ [.single other]) index occurrence ↔
      isListed wildcards index occurrence ∨ (index = wildcards.length ∧ occurrence = other) := by
  simp only [isListed_iff, List.getElem?_append]
  split
  next inside =>
    have other : index ≠ wildcards.length := Nat.ne_of_lt inside
    simp [other]
  next outside =>
    rw [List.getElem?_eq_none (Nat.le_of_not_lt outside)]
    by_cases last : index = wildcards.length
    · simp [last, Wildcard.single]
    · have behind : ¬ index - wildcards.length = 0 := by omega
      simp [last, behind]

theorem addOccurrence_eq_ok_iff {added : List Wildcard} :
    addOccurrence wildcards index occurrence = .ok added ↔ index < wildcards.length ∧
      added = wildcards.modify index fun wildcard => ⟨wildcard.occurrences ++ [occurrence]⟩ := by
  unfold addOccurrence
  split
  next inside => simp [inside, eq_comm]
  next outside => simp [outside]

theorem isListed_modify_append_iff (inside : index < wildcards.length) {other : Nat}
    {new : Occurrence} :
    isListed (wildcards.modify index fun wildcard => ⟨wildcard.occurrences ++ [new]⟩) other
        occurrence ↔
      isListed wildcards other occurrence ∨ (other = index ∧ occurrence = new) := by
  simp only [isListed_iff, List.getElem?_modify, Option.map_eq_map, Option.map_eq_some_iff]
  by_cases same : index = other
  · subst same
    have here : wildcards[index]? = some wildcards[index] := List.getElem?_eq_getElem inside
    simp [here, or_comm]
  · have different : ¬ other = index := fun eq => same eq.symm
    simp [same, different]

/-- Either the wildcard keeps its other occurrences, or it had none and goes. -/
theorem removeOccurrence_eq_ok_iff {update : OccurrenceRemoval} :
    removeOccurrence wildcards index occurrence = .ok update ↔
      ∃ wildcard, wildcards[index]? = some wildcard ∧ occurrence ∈ wildcard.occurrences ∧
        update = if wildcard.occurrences.erase occurrence = [] then
            ⟨wildcards.eraseIdx index, true⟩
          else ⟨wildcards.set index ⟨wildcard.occurrences.erase occurrence⟩, false⟩ := by
  unfold removeOccurrence
  cases here : wildcards[index]? with
  | none => simp
  | some wildcard =>
    by_cases member : occurrence ∈ wildcard.occurrences
    · simp only [member, if_true, List.isEmpty_iff, Option.some.injEq, exists_eq_left', true_and]
      split <;> exact ⟨fun same => (Except.ok.inj same).symm, fun same => congrArg Except.ok same.symm⟩
    · simp [member]

/-- The number of a wildcard once those in `deleted` have gone. -/
def closedUp (deleted : List Nat) (index : Nat) : Nat :=
  index - (deleted.filter (· < index)).length

theorem closedUp_singleton (deleted index : Nat) :
    closedUp [deleted] index = if deleted < index then index - 1 else index := by
  unfold closedUp
  split <;> simp_all

@[simp]
theorem wildcard?_renumberSegment (deleted : List Nat) (segment : Segment) :
    (renumberSegment deleted segment).wildcard? = segment.wildcard?.map (closedUp deleted) := by
  cases segment <;> rfl

/-- The items of a list that have a property, by the places they had in the list. -/
theorem getElem?_filter_eq_some_iff {α : Type} {keep : α → Bool} {list : List α} {place : Nat}
    {item : α} :
    (list.filter keep)[place]? = some item ↔
      ∃ old, list[old]? = some item ∧ keep item ∧ place = (list.take old).countP keep := by
  induction list generalizing place with
  | nil => simp
  | cons first list ih =>
    rw [List.filter_cons]
    split
    next kept =>
      cases place with
      | zero =>
        constructor
        · intro here
          obtain rfl := Option.some.inj here
          exact ⟨0, rfl, kept, by simp⟩
        · rintro ⟨_ | old, here, isKept, before⟩
          · simpa using here
          · simp [kept] at before
      | succ place =>
        rw [List.getElem?_cons_succ, ih]
        constructor
        · rintro ⟨old, here, isKept, rfl⟩
          exact ⟨old + 1, here, isKept, by simp [kept]⟩
        · rintro ⟨_ | old, here, isKept, before⟩
          · simp at before
          · exact ⟨old, here, isKept, by simpa [kept] using before⟩
    next dropped =>
      rw [ih]
      constructor
      · rintro ⟨old, here, isKept, rfl⟩
        exact ⟨old + 1, here, isKept, by simp [dropped]⟩
      · rintro ⟨_ | old, here, isKept, before⟩
        · obtain rfl := Option.some.inj here
          exact absurd isKept dropped
        · exact ⟨old, here, isKept, by simpa [dropped] using before⟩

theorem countP_zipIdx_lt {α : Type} (dropped : α → Bool) (list : List α) (start count : Nat) :
    (list.zipIdx start).countP (fun item => decide (item.2 < start + count) && dropped item.1) =
      (list.take count).countP dropped := by
  induction list generalizing start count with
  | nil => simp
  | cons first list ih =>
    cases count with
    | zero =>
      rw [List.take_zero, List.countP_nil, List.countP_eq_zero]
      rintro ⟨item, place⟩ member
      have behind := List.le_snd_of_mem_zipIdx member
      simp only at behind
      simp [Nat.not_lt.mpr behind]
    | succ count =>
      have here := ih (start + 1) count
      rw [show start + 1 + count = start + (count + 1) by omega] at here
      simp [List.zipIdx_cons, List.countP_cons, here]

/-- Wildcards close up by the number of dropped ones in front of them. -/
theorem closedUp_dropped {α : Type} {keep : α → Bool} {list : List α} {index : Nat}
    (inside : index ≤ list.length) :
    closedUp ((list.zipIdx.filter (!keep ·.1)).map (·.2)) index =
      (list.take index).countP keep := by
  have front : (list.take index).length = index := by simp [inside]
  have counted : (((list.zipIdx.filter (!keep ·.1)).map (·.2)).filter (· < index)).length =
      (list.take index).countP (!keep ·) := by
    rw [← List.countP_eq_length_filter, List.countP_map, List.countP_filter]
    simpa using countP_zipIdx_lt (!keep ·) list 0 index
  have total := List.length_eq_countP_add_countP keep (l := list.take index)
  rw [closedUp, counted]
  simp only [Bool.not_eq_true, Bool.decide_eq_false] at total
  omega

/-- Clearing an entry closes up the wildcards that occur outside of it. -/
theorem closedUp_clearEntry {entry old : Nat} (inside : old ≤ wildcards.length) :
    closedUp (clearEntry wildcards entry).deleted old =
      ((wildcards.map (·.outside entry)).take old).countP (!·.occurrences.isEmpty) := by
  rw [← closedUp_dropped (by rwa [List.length_map])]
  simp [clearEntry]

private theorem exists_mem_outside {entry old : Nat} {before : Occurrence} {wildcard : Wildcard}
    (here : wildcards[old]? = some wildcard) (listed : before ∈ wildcard.occurrences)
    (other : before.entry ≠ entry) :
    (wildcards.map (·.outside entry))[old]? = some (wildcard.outside entry) ∧
      before ∈ (wildcard.outside entry).occurrences := by
  rw [List.getElem?_map, here]
  exact ⟨rfl, List.mem_filter.mpr ⟨listed, by simpa using other⟩⟩

/-- What is listed once an entry has been cleared: the occurrences outside of it, moved up, under
wildcards that have closed up. -/
theorem isListed_clearEntry_iff {entry : Nat} :
    isListed (clearEntry wildcards entry).wildcards index occurrence ↔
      ∃ old before, isListed wildcards old before ∧ before.entry ≠ entry ∧
        index = closedUp (clearEntry wildcards entry).deleted old ∧
          occurrence = before.closeUp entry := by
  change isListed (((wildcards.map (·.outside entry)).filter _).map _) index occurrence ↔ _
  rw [isListed_map_iff]
  simp only [isListed_iff, getElem?_filter_eq_some_iff]
  constructor
  · rintro ⟨before, ⟨wildcard, ⟨old, here, -, rfl⟩, member⟩, rfl⟩
    rw [List.getElem?_map] at here
    obtain ⟨whole, isWhole, rfl⟩ := Option.map_eq_some_iff.mp here
    have inside := (List.getElem?_eq_some_iff.mp isWhole).1
    obtain ⟨listed, other⟩ := List.mem_filter.mp member
    exact ⟨old, before, ⟨whole, isWhole, listed⟩, by simpa using other,
      (closedUp_clearEntry (Nat.le_of_lt inside)).symm, rfl⟩
  · rintro ⟨old, before, ⟨whole, isWhole, listed⟩, other, rfl, rfl⟩
    obtain ⟨here, member⟩ := exists_mem_outside isWhole listed other
    have inside := (List.getElem?_eq_some_iff.mp isWhole).1
    refine ⟨before, ⟨_, ⟨old, here, ?_, closedUp_clearEntry (Nat.le_of_lt inside)⟩, member⟩, rfl⟩
    simpa using List.ne_nil_of_mem member

/-- Clearing an entry keeps the order of the wildcards that occur outside of it. -/
theorem closedUp_clearEntry_lt {entry old later : Nat} {before : Occurrence}
    (listed : isListed wildcards old before) (other : before.entry ≠ entry) (lt : old < later)
    (inside : later ≤ wildcards.length) :
    closedUp (clearEntry wildcards entry).deleted old <
      closedUp (clearEntry wildcards entry).deleted later := by
  obtain ⟨whole, isWhole, listed⟩ := isListed_iff.mp listed
  obtain ⟨here, member⟩ := exists_mem_outside isWhole listed other
  rw [closedUp_clearEntry (by omega), closedUp_clearEntry inside]
  refine Nat.lt_of_lt_of_le ?_
    ((List.take_prefix_take_left (Nat.succ_le_of_lt lt)).sublist.countP_le)
  have kept : !(whole.outside entry).occurrences.isEmpty := by
    simpa using List.ne_nil_of_mem member
  rw [List.take_add_one, here, Option.toList_some, List.countP_append, List.countP_singleton,
    if_pos kept]
  exact Nat.lt_succ_self _

/-- Striking out an occurrence lists no new ones. -/
theorem exists_isListed_of_removeOccurrence {struck : Occurrence} {update : OccurrenceRemoval}
    (removed : removeOccurrence wildcards index struck = .ok update) {place : Nat}
    (listed : isListed update.wildcards place occurrence) :
    ∃ old, isListed wildcards old occurrence := by
  obtain ⟨wildcard, here, -, rfl⟩ := removeOccurrence_eq_ok_iff.mp removed
  obtain ⟨left, isLeft, member⟩ := isListed_iff.mp listed
  have inList := List.mem_of_getElem? isLeft
  split at inList
  next =>
    obtain ⟨old, isOld⟩ := List.mem_iff_getElem?.mp (List.mem_of_mem_eraseIdx inList)
    exact ⟨old, isListed_iff.mpr ⟨left, isOld, member⟩⟩
  next =>
    rcases List.mem_or_eq_of_mem_set inList with isOld | rfl
    · obtain ⟨old, isOld⟩ := List.mem_iff_getElem?.mp isOld
      exact ⟨old, isListed_iff.mpr ⟨left, isOld, member⟩⟩
    · exact ⟨index, isListed_iff.mpr ⟨wildcard, here, List.mem_of_mem_erase member⟩⟩

/-- What is listed once an occurrence has been struck out that was listed once and by one wildcard. -/
theorem isListed_removeOccurrence_iff {wildcard : Wildcard} {struck : Occurrence}
    {update : OccurrenceRemoval} (here : wildcards[index]? = some wildcard)
    (removed : removeOccurrence wildcards index struck = .ok update)
    (once : wildcard.occurrences.count struck = 1)
    (unique : ∀ other, isListed wildcards other struck → other = index) {place : Nat} :
    isListed update.wildcards place occurrence ↔
      ∃ old, isListed wildcards old occurrence ∧ occurrence ≠ struck ∧
        place = if update.deleted then closedUp [index] old else old := by
  obtain ⟨_, again, member, rfl⟩ := removeOccurrence_eq_ok_iff.mp removed
  obtain rfl := Option.some.inj (here.symm.trans again)
  have others : ∀ old, isListed wildcards old occurrence → old ≠ index → occurrence ≠ struck := by
    rintro old listed other rfl
    exact other (unique old listed)
  have gone : struck ∉ wildcard.occurrences.erase struck := by
    rw [← List.count_eq_zero, List.count_erase_self, once]
  split
  next last =>
    have only : ∀ other, isListed wildcards index other → other = struck := by
      intro other listed
      obtain ⟨_, again, listed⟩ := isListed_iff.mp listed
      obtain rfl := Option.some.inj (here.symm.trans again)
      by_contra different
      simpa [last] using (List.mem_erase_of_ne different).mpr listed
    simp only [if_true, closedUp_singleton]
    constructor
    · intro listed
      rw [isListed_iff, List.getElem?_eraseIdx] at listed
      split at listed
      next before =>
        have listed := isListed_iff.mpr listed
        exact ⟨place, listed, others place listed (by omega), by rw [if_neg (by omega)]⟩
      next behind =>
        have listed := isListed_iff.mpr listed
        exact ⟨place + 1, listed, others _ listed (by omega), by rw [if_pos (by omega)]; rfl⟩
    · rintro ⟨old, listed, different, rfl⟩
      have other : old ≠ index := by
        rintro rfl
        exact different (only occurrence listed)
      rw [isListed_iff, List.getElem?_eraseIdx]
      split
      next behind =>
        rw [if_neg (by omega), show old - 1 + 1 = old by omega]
        exact isListed_iff.mp listed
      next before =>
        rw [if_pos (by omega)]
        exact isListed_iff.mp listed
  next remaining =>
    simp only [Bool.false_eq_true, if_false, exists_eq_right_right']
    by_cases same : place = index
    · subst same
      have inside := (List.getElem?_eq_some_iff.mp here).1
      have left : occurrence ∈ wildcard.occurrences.erase struck ↔
          occurrence ∈ wildcard.occurrences ∧ occurrence ≠ struck := by
        by_cases isStruck : occurrence = struck
        · simp [isStruck, gone]
        · simp [List.mem_erase_of_ne isStruck, isStruck]
      rw [isListed_iff, isListed_iff, List.getElem?_set_self inside, here]
      simpa using left
    · have kept : isListed (wildcards.set index ⟨wildcard.occurrences.erase struck⟩) place occurrence
          ↔ isListed wildcards place occurrence := by
        rw [isListed_iff, isListed_iff, List.getElem?_set_ne (Ne.symm same)]
      rw [kept]
      exact ⟨fun listed => ⟨listed, others place listed same⟩, And.left⟩

/-- Striking out an occurrence that is listed again changes nothing in what is listed. -/
theorem isListed_removeOccurrence_iff_of_again {wildcard : Wildcard} {struck : Occurrence}
    {update : OccurrenceRemoval} (here : wildcards[index]? = some wildcard)
    (removed : removeOccurrence wildcards index struck = .ok update)
    (again : struck ∈ wildcard.occurrences.erase struck) :
    update.deleted = false ∧ ∀ {place occurrence},
      isListed update.wildcards place occurrence ↔ isListed wildcards place occurrence := by
  obtain ⟨_, same, member, rfl⟩ := removeOccurrence_eq_ok_iff.mp removed
  obtain rfl := Option.some.inj (here.symm.trans same)
  rw [if_neg (List.ne_nil_of_mem again)]
  refine ⟨rfl, fun {place occurrence} => ?_⟩
  by_cases isHere : place = index
  · subst isHere
    have left : occurrence ∈ wildcard.occurrences.erase struck ↔
        occurrence ∈ wildcard.occurrences := by
      by_cases isStruck : occurrence = struck
      · simp [isStruck, again, member]
      · exact List.mem_erase_of_ne isStruck
    have inside := (List.getElem?_eq_some_iff.mp here).1
    rw [isListed_iff, isListed_iff, List.getElem?_set_self inside, here]
    simpa using left
  · rw [isListed_iff, isListed_iff, List.getElem?_set_ne (Ne.symm isHere)]

/-! ### Wildcards that list something -/

theorem occurs_map (change : Occurrence → Occurrence)
    (occurs : ∀ wildcard ∈ wildcards, wildcard.occurrences ≠ []) :
    ∀ wildcard ∈ wildcards.map (·.mapOccurrences change), wildcard.occurrences ≠ [] := by
  intro _ moved
  obtain ⟨wildcard, member, rfl⟩ := List.mem_map.mp moved
  simpa [Wildcard.mapOccurrences] using occurs wildcard member

theorem occurs_append_single (occurs : ∀ wildcard ∈ wildcards, wildcard.occurrences ≠ [])
    (occurrence : Occurrence) :
    ∀ wildcard ∈ wildcards ++ [.single occurrence], wildcard.occurrences ≠ [] := by
  intro wildcard member
  rcases List.mem_append.mp member with old | new
  · exact occurs wildcard old
  · rw [List.mem_singleton.mp new]
    exact List.cons_ne_nil _ _

theorem occurs_modify_append (occurs : ∀ wildcard ∈ wildcards, wildcard.occurrences ≠ []) :
    ∀ wildcard ∈ wildcards.modify index fun wildcard => ⟨wildcard.occurrences ++ [occurrence]⟩,
      wildcard.occurrences ≠ [] := by
  intro wildcard member
  obtain ⟨place, here⟩ := List.mem_iff_getElem?.mp member
  rw [List.getElem?_modify] at here
  obtain ⟨old, isOld, rfl⟩ := Option.map_eq_some_iff.mp here
  split
  next => simp
  next => exact occurs old (List.mem_of_getElem? isOld)

theorem occurs_removeOccurrence {update : OccurrenceRemoval}
    (removed : removeOccurrence wildcards index occurrence = .ok update)
    (occurs : ∀ wildcard ∈ wildcards, wildcard.occurrences ≠ []) :
    ∀ wildcard ∈ update.wildcards, wildcard.occurrences ≠ [] := by
  obtain ⟨found, here, -, rfl⟩ := removeOccurrence_eq_ok_iff.mp removed
  intro wildcard member
  split at member
  next => exact occurs wildcard (List.mem_of_mem_eraseIdx member)
  next remaining =>
    rcases List.mem_or_eq_of_mem_set member with old | rfl
    · exact occurs wildcard old
    · exact remaining

/-- Clearing an entry drops the wildcards that are left without an occurrence. -/
theorem occurs_clearEntry (wildcards : List Wildcard) (entry : Nat) :
    ∀ wildcard ∈ (clearEntry wildcards entry).wildcards, wildcard.occurrences ≠ [] := by
  apply occurs_map
  intro wildcard kept
  simpa using (List.mem_filter.mp kept).2

/-! ### Tidiness -/

theorem tidy_map {change : Occurrence → Occurrence} (tidy : ∀ wildcard ∈ wildcards, wildcard.Tidy)
    (inj : ∀ index left right, isListed wildcards index left → isListed wildcards index right →
      change left = change right → left = right) :
    ∀ wildcard ∈ wildcards.map (·.mapOccurrences change), wildcard.Tidy := by
  intro wildcard moved
  refine ⟨?_, occurs_map change (fun old member => (tidy old member).occurs) wildcard moved⟩
  obtain ⟨old, member, rfl⟩ := List.mem_map.mp moved
  obtain ⟨index, here⟩ := List.mem_iff_getElem?.mp member
  refine List.Nodup.map_on ?_ (tidy old member).nodup
  intro left isLeft right isRight
  exact inj index left right (isListed_iff.mpr ⟨old, here, isLeft⟩)
    (isListed_iff.mpr ⟨old, here, isRight⟩)

theorem tidy_append_single (tidy : ∀ wildcard ∈ wildcards, wildcard.Tidy) (occurrence : Occurrence) :
    ∀ wildcard ∈ wildcards ++ [.single occurrence], wildcard.Tidy := by
  intro wildcard member
  rcases List.mem_append.mp member with old | new
  · exact tidy wildcard old
  · rw [List.mem_singleton.mp new]
    exact ⟨List.nodup_singleton _, List.cons_ne_nil _ _⟩

theorem tidy_modify_append (tidy : ∀ wildcard ∈ wildcards, wildcard.Tidy)
    (new : ¬ isListed wildcards index occurrence) :
    ∀ wildcard ∈ wildcards.modify index fun wildcard => ⟨wildcard.occurrences ++ [occurrence]⟩,
      wildcard.Tidy := by
  intro wildcard member
  refine ⟨?_, occurs_modify_append (fun old inList => (tidy old inList).occurs) wildcard member⟩
  obtain ⟨place, here⟩ := List.mem_iff_getElem?.mp member
  rw [List.getElem?_modify] at here
  obtain ⟨old, isOld, rfl⟩ := Option.map_eq_some_iff.mp here
  have nodup := (tidy old (List.mem_of_getElem? isOld)).nodup
  split
  next same =>
    subst same
    refine List.nodup_append.mpr ⟨nodup, List.nodup_singleton _, ?_⟩
    rintro other member _ single rfl
    rw [List.mem_singleton.mp single] at member
    exact new (isListed_iff.mpr ⟨old, isOld, member⟩)
  next => exact nodup

theorem tidy_removeOccurrence {update : OccurrenceRemoval}
    (removed : removeOccurrence wildcards index occurrence = .ok update)
    (tidy : ∀ wildcard ∈ wildcards, wildcard.Tidy) :
    ∀ wildcard ∈ update.wildcards, wildcard.Tidy := by
  intro wildcard member
  refine ⟨?_, occurs_removeOccurrence removed (fun old inList => (tidy old inList).occurs) wildcard
    member⟩
  obtain ⟨found, here, -, rfl⟩ := removeOccurrence_eq_ok_iff.mp removed
  split at member
  next => exact (tidy wildcard (List.mem_of_mem_eraseIdx member)).nodup
  next =>
    rcases List.mem_or_eq_of_mem_set member with old | rfl
    · exact (tidy wildcard old).nodup
    · exact (tidy found (List.mem_of_getElem? here)).nodup.erase _

theorem tidy_clearEntry (tidy : ∀ wildcard ∈ wildcards, wildcard.Tidy) (entry : Nat) :
    ∀ wildcard ∈ (clearEntry wildcards entry).wildcards, wildcard.Tidy := by
  intro wildcard moved
  refine ⟨?_, occurs_clearEntry wildcards entry wildcard moved⟩
  obtain ⟨_, kept, rfl⟩ := List.mem_map.mp moved
  obtain ⟨cleared, -⟩ := List.mem_filter.mp kept
  obtain ⟨whole, member, rfl⟩ := List.mem_map.mp cleared
  refine List.Nodup.map_on ?_ ((tidy whole member).nodup.filter _)
  intro left isLeft right isRight same
  have leftOther : left.entry ≠ entry := by simpa using (List.mem_filter.mp isLeft).2
  have rightOther : right.entry ≠ entry := by simpa using (List.mem_filter.mp isRight).2
  exact eq_of_closeUp_eq leftOther rightOther same

end Motif

end LogMotif
