import Mathlib.Data.List.Basic

/-! # Lists of what is met

The wildcards of a template, the columns of a log and the rows that are appended to a motif are
collected in the order in which they are met, each at its first place only.
-/

namespace LogMotif

variable {α β : Type} [DecidableEq α] [DecidableEq β]

/-- The items of a list, each at its first place only. -/
def firstPlaces (items : List α) : List α :=
  items.foldl (fun found item => if item ∈ found then found else found ++ [item]) []

/-- What has been found stays in front, and of the rest it keeps out what is there already. -/
private theorem foldl_insert_eq_append (found more : List α) :
    more.foldl (fun found item => if item ∈ found then found else found ++ [item]) found =
      found ++ (firstPlaces more).filter (· ∉ found) := by
  induction more generalizing found with
  | nil => simp [firstPlaces]
  | cons first more ih =>
    rw [firstPlaces, List.foldl_cons, List.foldl_cons, ih,
      ih (if first ∈ [] then [] else [] ++ [first])]
    by_cases known : first ∈ found
    · have others : ∀ item, (item ∉ found ∧ item ∉ [first]) ↔ item ∉ found := by
        intro item
        refine and_iff_left_of_imp fun fresh => ?_
        rintro same
        exact fresh (List.mem_singleton.mp same ▸ known)
      simp only [List.not_mem_nil, if_false, List.nil_append, List.filter_append, List.filter_filter,
        ← Bool.decide_and, others]
      simp [known]
    · simp [known, List.filter_filter, Bool.and_comm]

theorem firstPlaces_cons (first : α) (items : List α) :
    firstPlaces (first :: items) = first :: (firstPlaces items).filter (· ≠ first) := by
  rw [firstPlaces, List.foldl_cons, foldl_insert_eq_append]
  simp

theorem mem_firstPlaces_iff {item : α} {items : List α} : item ∈ firstPlaces items ↔ item ∈ items := by
  induction items with
  | nil => rfl
  | cons first items ih =>
    rw [firstPlaces_cons, List.mem_cons, List.mem_filter, ih, List.mem_cons]
    by_cases same : item = first <;> simp [same]

/-- What is kept stands in the order of the first places. -/
theorem pairwise_idxOf_firstPlaces (items : List α) :
    (firstPlaces items).Pairwise fun left right => items.idxOf left < items.idxOf right := by
  induction items with
  | nil => exact .nil
  | cons first items ih =>
    have behind (item : α) (other : item ≠ first) :
        (first :: items).idxOf item = items.idxOf item + 1 :=
      List.idxOf_cons_ne items (Ne.symm other)
    rw [firstPlaces_cons]
    refine List.pairwise_cons.mpr ⟨fun item member => ?_, ?_⟩
    · have other : item ≠ first := by simpa using (List.mem_filter.mp member).2
      rw [List.idxOf_cons_self, behind item other]
      exact Nat.succ_pos _
    · refine (ih.filter _).imp_of_mem ?_
      intro left right isLeft isRight before
      have notLeft : left ≠ first := by simpa using (List.mem_filter.mp isLeft).2
      have notRight : right ≠ first := by simpa using (List.mem_filter.mp isRight).2
      rw [behind left notLeft, behind right notRight]
      exact Nat.succ_lt_succ before

theorem nodup_firstPlaces (items : List α) : (firstPlaces items).Nodup :=
  (pairwise_idxOf_firstPlaces items).imp fun before same => by
    rw [same] at before
    exact Nat.lt_irrefl _ before

/-- Items keep their first places under a change that keeps them apart. -/
theorem firstPlaces_map {change : α → β} (injective : change.Injective) (items : List α) :
    firstPlaces (items.map change) = (firstPlaces items).map change := by
  induction items with
  | nil => rfl
  | cons first items ih =>
    rw [List.map_cons, firstPlaces_cons, firstPlaces_cons, ih, List.map_cons, List.filter_map]
    refine congrArg (change first :: ·.map change) (List.filter_congr fun other _ => ?_)
    simp [injective.eq_iff]

/-- Leaving items out leaves the others in the order of their first places. -/
theorem firstPlaces_filter (keep : α → Bool) (items : List α) :
    firstPlaces (items.filter keep) = (firstPlaces items).filter keep := by
  induction items with
  | nil => rfl
  | cons first items ih =>
    rw [firstPlaces_cons, List.filter_cons, List.filter_cons, List.filter_filter]
    split
    next kept =>
      rw [firstPlaces_cons, ih, List.filter_filter]
      exact congrArg (first :: ·) (List.filter_congr fun item _ => Bool.and_comm _ _)
    next left =>
      rw [ih]
      refine List.filter_congr fun item _ => ?_
      by_cases same : item = first
      · simpa [same] using left
      · simp [same]

/-! ### Items that are new -/

/-- The items of a list, each at its first place only, that are not known yet. -/
def unseen (known items : List α) : List α := firstPlaces (items.filter (· ∉ known))

theorem mem_unseen_iff {known items : List α} {item : α} :
    item ∈ unseen known items ↔ item ∈ items ∧ item ∉ known := by
  simp [unseen, mem_firstPlaces_iff]

theorem append_unseen (known items : List α) :
    known ++ unseen known items =
      items.foldl (fun found item => if item ∈ found then found else found ++ [item]) known := by
  rw [foldl_insert_eq_append, unseen, firstPlaces_filter]

/-- Items that come in two parts are looked through one part after the other. -/
theorem unseen_append (known items more : List α) :
    unseen known (items ++ more) = unseen known items ++ unseen (known ++ unseen known items) more := by
  rw [← List.append_cancel_left_eq known, ← List.append_assoc, append_unseen, append_unseen,
    append_unseen, List.foldl_append]

/-- Nothing is new about items that have all been seen. -/
theorem unseen_eq_nil_iff {known items : List α} : unseen known items = [] ↔ items ⊆ known := by
  rw [List.eq_nil_iff_forall_not_mem]
  simp only [mem_unseen_iff, not_and, not_not]
  rfl

/-- Looking through the items again finds nothing new. -/
theorem unseen_append_self (known items : List α) :
    unseen known (items ++ items) = unseen known items := by
  have seen : items ⊆ known ++ unseen known items := by
    intro item member
    by_cases old : item ∈ known
    · exact List.mem_append_left _ old
    · exact List.mem_append_right _ (mem_unseen_iff.mpr ⟨member, old⟩)
  rw [unseen_append, unseen_eq_nil_iff.mpr seen, List.append_nil]

end LogMotif
