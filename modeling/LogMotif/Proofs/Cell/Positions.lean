import Mathlib.Algebra.BigOperators.Group.List.Basic
import LogMotif.Proofs.Cell.Splitting

/-! # Where the wildcards of a cell stand

An edit moves the segments behind the place that it is made at. A wildcard put into a cell adds one
place to those of the cell and spreads the ones behind it; a wildcard taken out gives back what was
there before it was put in.
-/

namespace LogMotif

namespace Cell

/-- The number of the wildcard in a segment of a cell. -/
def wildcardAt? (cell : Cell) (segment : Nat) : Option Nat :=
  (cell.segments[segment]?).bind Segment.wildcard?

/-- The place of a segment after so many segments have been added behind the segment `after`. -/
def spread (after count segment : Nat) : Nat := if after < segment then segment + count else segment

theorem spread_of_le {after count segment : Nat} (le : segment ≤ after) :
    spread after count segment = segment := if_neg (Nat.not_lt.mpr le)

theorem spread_of_lt {after count segment : Nat} (lt : after < segment) :
    spread after count segment = segment + count := if_pos lt

theorem spread_injective (after count : Nat) : Function.Injective (spread after count) := by
  intro left right same
  unfold spread at same
  split at same <;> split at same <;> omega

/-- The place of a segment after so many segments have gone behind the segment `after`. -/
def gather (after count segment : Nat) : Nat := if after < segment then segment - count else segment

theorem gather_spread {after before count segment : Nat} (bound : before ≤ count)
    (other : segment ≠ after) : gather (after + before) count (spread after count segment) = segment := by
  rcases Nat.lt_or_gt_of_ne other with lt | gt
  · rw [spread_of_le (Nat.le_of_lt lt), gather, if_neg (by omega)]
  · rw [spread_of_lt gt, gather, if_pos (by omega), Nat.add_sub_cancel]

theorem wildcardAt?_append (front rest : List Segment) (segment : Nat) :
    wildcardAt? ⟨front ++ rest⟩ segment =
      if segment < front.length then wildcardAt? ⟨front⟩ segment
      else wildcardAt? ⟨rest⟩ (segment - front.length) := by
  unfold wildcardAt?
  rw [List.getElem?_append]
  split <;> rfl

theorem wildcardAt?_cons (first : Segment) (rest : List Segment) (segment : Nat) :
    wildcardAt? ⟨first :: rest⟩ segment =
      if segment = 0 then first.wildcard? else wildcardAt? ⟨rest⟩ (segment - 1) := by
  cases segment <;> simp [wildcardAt?]

theorem wildcardAt?_eq_none_of_plain {texts : List Segment}
    (plain : ∀ segment ∈ texts, segment.wildcard? = none) (segment : Nat) :
    wildcardAt? ⟨texts⟩ segment = none := by
  refine Option.bind_eq_none_iff.mpr fun found here => plain found ?_
  exact List.mem_of_getElem? here

theorem wildcard?_eq_none_of_mem_textUnlessEmpty {text : String} {segment : Segment}
    (member : segment ∈ textUnlessEmpty text) : segment.wildcard? = none := by
  unfold textUnlessEmpty at member
  split at member
  next => simp at member
  next => rw [List.mem_singleton.mp member, Segment.wildcard?]

theorem wildcard?_eq_none_of_mem_side {text : Option String} {segment : Segment}
    (member : segment ∈ side text) : segment.wildcard? = none := by
  obtain ⟨content, -, rfl⟩ := List.mem_map.mp member
  rfl

/-- The wildcards of a cell in which one text has been split round a new wildcard. -/
private theorem wildcardAt?_splice {front back before after : List Segment}
    (plainBefore : ∀ segment ∈ before, segment.wildcard? = none)
    (plainAfter : ∀ segment ∈ after, segment.wildcard? = none) (index : Nat)
    (content text : String) {segment wildcard : Nat} :
    wildcardAt? ⟨front ++ before ++ .wildcard index content :: (after ++ back)⟩ segment =
        some wildcard ↔
      (segment = front.length + before.length ∧ wildcard = index) ∨
        ∃ old, wildcardAt? ⟨front ++ .text text :: back⟩ old = some wildcard ∧
          segment = spread front.length (before.length + after.length) old := by
  simp only [List.append_assoc, wildcardAt?_append, wildcardAt?_cons, Segment.wildcard?,
    wildcardAt?_eq_none_of_plain plainBefore, wildcardAt?_eq_none_of_plain plainAfter]
  constructor
  · intro here
    split at here
    next inFront =>
      refine .inr ⟨segment, ?_, ?_⟩
      · rw [if_pos inFront, here]
      · rw [spread_of_le (Nat.le_of_lt inFront)]
    next =>
      split at here
      next => simp at here
      next =>
        split at here
        next => exact .inl ⟨by omega, (Option.some.inj here).symm⟩
        next =>
          split at here
          next => simp at here
          next =>
            refine .inr ⟨segment - (before.length + after.length), ?_, ?_⟩
            · rw [if_neg (by omega), if_neg (by omega), ← here]
              congr 1
              omega
            · rw [spread_of_lt (by omega)]
              omega
  · rintro (⟨rfl, rfl⟩ | ⟨old, here, rfl⟩)
    · rw [if_neg (by omega), if_neg (by omega), if_pos (by omega)]
    · split at here
      next inFront =>
        rw [spread_of_le (Nat.le_of_lt inFront), if_pos inFront, here]
      next =>
        split at here
        next => simp at here
        next =>
          rw [spread_of_lt (by omega), if_neg (by omega), if_neg (by omega), if_neg (by omega),
            if_neg (by omega), ← here]
          congr 1
          omega

theorem Inserted.wildcardAt?_iff {index : Nat} {cell : Cell} {range : SegmentRange}
    {insertion : CellInsertion} (inserted : Inserted index cell range insertion)
    {segment wildcard : Nat} :
    insertion.cell.wildcardAt? segment = some wildcard ↔
      (segment = insertion.segment ∧ wildcard = index) ∨
        ∃ old, cell.wildcardAt? old = some wildcard ∧
          segment = spread range.segment insertion.added old := by
  obtain ⟨front, back, before, inside, after, -⟩ := inserted
  exact wildcardAt?_splice (fun _ => wildcard?_eq_none_of_mem_textUnlessEmpty)
    (fun _ => wildcard?_eq_none_of_mem_textUnlessEmpty) index inside _

/-- A wildcard is put into a segment that held none, at a place no other wildcard moves to. -/
theorem Inserted.spread_ne {index : Nat} {cell : Cell} {range : SegmentRange}
    {insertion : CellInsertion} (inserted : Inserted index cell range insertion) {old : Nat}
    (occupied : (cell.wildcardAt? old).isSome) :
    spread range.segment insertion.added old ≠ insertion.segment := by
  obtain ⟨front, back, before, inside, after, -⟩ := inserted
  have other : old ≠ front.length := by
    rintro rfl
    simp [wildcardAt?, Segment.wildcard?] at occupied
  rcases Nat.lt_or_gt_of_ne other with lt | gt
  · rw [spread_of_le (Nat.le_of_lt lt)]
    simp only
    omega
  · rw [spread_of_lt gt]
    simp only
    omega

/-- Taking a wildcard out of a cell undoes a splice of the cell that is left. -/
private theorem Removed.exists_spread {index segment : Nat} {cell : Cell} {removal : CellRemoval}
    (removed : Removed index cell segment removal) :
    ∃ after, (∀ place wildcard, cell.wildcardAt? place = some wildcard ↔
        (place = segment ∧ wildcard = index) ∨
          ∃ new, removal.cell.wildcardAt? new = some wildcard ∧
            place = spread after removal.removed new) ∧
      ∀ new, (removal.cell.wildcardAt? new).isSome →
        spread after removal.removed new ≠ segment ∧
          gather segment removal.removed (spread after removal.removed new) = new := by
  obtain ⟨front, back, before, after, content, -, -⟩ := removed
  refine ⟨front.length, fun place wildcard => ?_, fun new occupied => ?_⟩
  · exact wildcardAt?_splice (fun _ => wildcard?_eq_none_of_mem_side)
      (fun _ => wildcard?_eq_none_of_mem_side) index content _
  · have other : new ≠ front.length := by
      rintro rfl
      simp [wildcardAt?, Segment.wildcard?] at occupied
    refine ⟨?_, gather_spread (Nat.le_add_right _ _) other⟩
    rcases Nat.lt_or_gt_of_ne other with lt | gt
    · rw [spread_of_le (Nat.le_of_lt lt)]
      omega
    · rw [spread_of_lt gt]
      simp only
      omega

theorem Removed.wildcardAt?_self {index segment : Nat} {cell : Cell} {removal : CellRemoval}
    (removed : Removed index cell segment removal) : cell.wildcardAt? segment = some index := by
  obtain ⟨_, iff, -⟩ := removed.exists_spread
  exact (iff segment index).mpr (.inl ⟨rfl, rfl⟩)

theorem removed_iff {index segment : Nat} {cell : Cell} {removal : CellRemoval} :
    Removed index cell segment removal ↔
      cell.wildcardAt? segment = some index ∧ cell.remove? segment = some removal := by
  constructor
  · intro removed
    exact ⟨removed.wildcardAt?_self, remove?_eq_some_iff.mpr ⟨index, removed⟩⟩
  · rintro ⟨here, removed⟩
    obtain ⟨other, removed⟩ := remove?_eq_some_iff.mp removed
    obtain rfl := Option.some.inj (here.symm.trans removed.wildcardAt?_self)
    exact removed

theorem Removed.wildcardAt?_iff {index segment : Nat} {cell : Cell} {removal : CellRemoval}
    (removed : Removed index cell segment removal) {place wildcard : Nat} :
    removal.cell.wildcardAt? place = some wildcard ↔
      ∃ old, old ≠ segment ∧ cell.wildcardAt? old = some wildcard ∧
        place = gather segment removal.removed old := by
  obtain ⟨after, iff, undo⟩ := removed.exists_spread
  constructor
  · intro here
    obtain ⟨other, same⟩ := undo place (by simp [here])
    exact ⟨_, other, (iff _ _).mpr (.inr ⟨place, here, rfl⟩), same.symm⟩
  · rintro ⟨old, other, here, rfl⟩
    obtain ⟨rfl, -⟩ | ⟨new, there, rfl⟩ := (iff _ _).mp here
    · exact absurd rfl other
    · rw [(undo new (by simp [there])).2, there]

/-- Wildcards that stay in a cell keep different places. -/
theorem Removed.gather_inj {index segment : Nat} {cell : Cell} {removal : CellRemoval}
    (removed : Removed index cell segment removal) {left right : Nat} (isLeft : left ≠ segment)
    (isRight : right ≠ segment) (leftOccupied : (cell.wildcardAt? left).isSome)
    (rightOccupied : (cell.wildcardAt? right).isSome)
    (same : gather segment removal.removed left = gather segment removal.removed right) :
    left = right := by
  obtain ⟨after, iff, undo⟩ := removed.exists_spread
  have returns : ∀ place, place ≠ segment → (cell.wildcardAt? place).isSome →
      spread after removal.removed (gather segment removal.removed place) = place := by
    intro place other occupied
    obtain ⟨wildcard, here⟩ := Option.isSome_iff_exists.mp occupied
    obtain ⟨rfl, -⟩ | ⟨new, there, rfl⟩ := (iff _ _).mp here
    · exact absurd rfl other
    · rw [(undo new (by simp [there])).2]
  rw [← returns left isLeft leftOccupied, same, returns right isRight rightOccupied]

/-! ### Sizes -/

theorem IsSplitOf.length_le {cell : Cell} {text : String} (split : cell.IsSplitOf text) :
    cell.segments.length ≤ max 1 text.length := by
  rcases split.filled with lone | filled
  · rw [lone]
    exact Nat.le_max_left _ _
  · rw [← split.content_eq, content, String.length_join, List.map_map]
    refine Nat.le_trans ?_ (Nat.le_max_right _ _)
    have each : ∀ n ∈ cell.segments.map (String.length ∘ Segment.content), 1 ≤ n := by
      simp only [List.mem_map, Function.comp_apply]
      rintro n ⟨segment, member, rfl⟩
      exact Nat.one_le_iff_ne_zero.mpr (mt String.length_eq_zero_iff.mp (filled segment member))
    simpa using List.length_le_sum_of_one_le _ each

theorem lt_length_of_wildcardAt? {cell : Cell} {segment wildcard : Nat}
    (here : cell.wildcardAt? segment = some wildcard) : segment < cell.segments.length := by
  obtain ⟨_, found, -⟩ := Option.bind_eq_some_iff.mp here
  exact (List.getElem?_eq_some_iff.mp found).1

end Cell

end LogMotif
