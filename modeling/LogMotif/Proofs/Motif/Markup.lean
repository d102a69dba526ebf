import Mathlib.Data.Set.Function
import Mathlib.Order.Interval.Set.Basic
import LogMotif.Proofs.Cell.Spans

/-! # Texts marked up with wildcards

Seen from outside, a motif is a list of source rows and a set of marks: spans of the texts of the
rows, labelled with the numbers of wildcards. Here are the edits of such markup, which know of
neither segments nor the list of wildcards, and what they have in common: marks that stay share a
label after the edit exactly when they did before.
-/

namespace LogMotif

/-- A span of a cell, with the place of the cell. -/
structure Mark where
  entry : Nat
  cell : Nat
  span : Span
deriving DecidableEq, Repr

namespace Mark

/-- The same place under another label. -/
def relabel (rename : Nat → Nat) (mark : Mark) : Mark :=
  { mark with span := mark.span.relabel rename }

/-- The mark after an entry in front of it may have disappeared. -/
def closeUp (entry : Nat) (mark : Mark) : Mark :=
  { mark with entry := if entry < mark.entry then mark.entry - 1 else mark.entry }

/-- Whether two marks are at the same place, under whatever labels. -/
def SamePlace (left right : Mark) : Prop :=
  left.entry = right.entry ∧ left.cell = right.cell ∧ left.span.SameStretch right.span

/-- The labels of some marks. -/
def labels (marks : Set Mark) : Set Nat := (fun mark => mark.span.wildcard) '' marks

theorem labels_relabel (rename : Nat → Nat) (marks : Set Mark) :
    labels (relabel rename '' marks) = rename '' labels marks := by
  simp only [labels, Set.image_image]
  rfl

theorem labels_closeUp (entry : Nat) (marks : Set Mark) :
    labels (closeUp entry '' marks) = labels marks := by
  simp only [labels, Set.image_image]
  rfl

/-- Marks outside of an entry that goes stay apart. -/
private theorem SamePlace.of_closeUp {entry : Nat} {left right : Mark} (isLeft : left.entry ≠ entry)
    (isRight : right.entry ≠ entry) (same : (left.closeUp entry).SamePlace (right.closeUp entry)) :
    left.SamePlace right := by
  obtain ⟨moved, rest⟩ := same
  simp only [closeUp] at moved
  refine ⟨?_, rest⟩
  split at moved <;> split at moved <;> omega

end Mark

/-- The number of a wildcard once one in front of it may have gone. -/
def lowered (gone index : Nat) : Nat := if gone < index then index - 1 else index

private theorem injOn_lowered {gone : Nat} {labels : Set Nat} (other : gone ∉ labels) :
    Set.InjOn (lowered gone) labels := by
  intro left isLeft right isRight same
  have leftOther : left ≠ gone := fun same => other (same ▸ isLeft)
  have rightOther : right ≠ gone := fun same => other (same ▸ isRight)
  unfold lowered at same
  split at same <;> split at same <;> omega

/-- Whether a renaming keeps the order of some labels and leaves no gaps between them. -/
structure Renumbers (labels : Set Nat) (rename : Nat → Nat) : Prop where
  ordered : StrictMonoOn rename labels
  gapless : ∃ count, rename '' labels = Set.Iio count

/-- There is one renumbering of a set of labels. -/
theorem Renumbers.eqOn {labels : Set Nat} {one other : Nat → Nat} (isOne : Renumbers labels one)
    (isOther : Renumbers labels other) : Set.EqOn one other labels := by
  -- No renumbering is behind another one at the first label where they differ: it would have
  -- skipped a number that the other one has given.
  have le (left right : Nat → Nat) (isLeft : Renumbers labels left) (isRight : Renumbers labels right)
      (label : Nat) (member : label ∈ labels)
      (before : ∀ earlier ∈ labels, earlier < label → left earlier = right earlier) :
      left label ≤ right label := by
    by_contra behind
    obtain ⟨count, onto⟩ := isLeft.gapless
    have bound : left label < count := by
      rw [← Set.mem_Iio, ← onto]
      exact Set.mem_image_of_mem left member
    have skipped : right label ∈ left '' labels := by
      rw [onto, Set.mem_Iio]
      omega
    obtain ⟨earlier, inLabels, same⟩ := skipped
    have smaller : earlier < label := (isLeft.ordered.lt_iff_lt inLabels member).mp (by omega)
    have equal := before earlier inLabels smaller
    have increasing := isRight.ordered inLabels member smaller
    omega
  intro label
  induction label using Nat.strong_induction_on with
  | _ label ih =>
    intro member
    have before : ∀ earlier ∈ labels, earlier < label → one earlier = other earlier :=
      fun earlier inLabels smaller => ih earlier smaller inLabels
    exact Nat.le_antisymm (le one other isOne isOther label member before)
      (le other one isOther isOne label member fun earlier inLabels smaller =>
        (before earlier inLabels smaller).symm)

/-- The source rows of a motif, and the marks in their texts. -/
structure Markup where
  sources : List (List String)
  marks : Set Mark

namespace Markup

variable {before after : Markup}

/-- Whether no stretch of text is marked twice. -/
def Functional (markup : Markup) : Prop :=
  ∀ left ∈ markup.marks, ∀ right ∈ markup.marks, left.SamePlace right → left = right

/-- One new mark is made. -/
def Gains (before : Markup) (mark : Mark) (after : Markup) : Prop :=
  mark ∉ before.marks ∧ after = ⟨before.sources, insert mark before.marks⟩

/-- One mark is deleted, and if it was the last with its label, all greater labels are lowered. -/
def Loses (before : Markup) (mark : Mark) (after : Markup) : Prop :=
  let rest := before.marks \ {mark}
  mark ∈ before.marks ∧ after.sources = before.sources ∧
    (mark.span.wildcard ∈ Mark.labels rest → after.marks = rest) ∧
    (mark.span.wildcard ∉ Mark.labels rest →
      after.marks = Mark.relabel (lowered mark.span.wildcard) '' rest)

/-- An entry is dropped with its marks, and the labels that still have marks are renumbered, in the
only way that keeps their order and leaves no gaps. -/
def LosesEntry (before : Markup) (entry : Nat) (after : Markup) : Prop :=
  let rest := {mark ∈ before.marks | mark.entry ≠ entry}
  ∃ rename, Renumbers (Mark.labels rest) rename ∧
    (∀ other, Renumbers (Mark.labels rest) other → Set.EqOn rename other (Mark.labels rest)) ∧
    after = ⟨before.sources.eraseIdx entry,
      (fun mark => (mark.closeUp entry).relabel rename) '' rest⟩

/-- Whether marks share a label after an edit exactly when they did before, where `stays` tells which
mark became which. -/
def KeepsSharing (stays : Mark → Mark → Prop) (before after : Markup) : Prop :=
  ∀ left ∈ before.marks, ∀ right ∈ before.marks, ∀ left' ∈ after.marks, ∀ right' ∈ after.marks,
    stays left left' → stays right right' →
      (left'.span.wildcard = right'.span.wildcard ↔ left.span.wildcard = right.span.wildcard)

/-- Marks that are left as they are keep their labels. -/
theorem keepsSharing_of_subset (functional : after.Functional)
    (subset : before.marks ⊆ after.marks) : KeepsSharing Mark.SamePlace before after := by
  intro left isLeft right isRight left' isLeft' right' isRight' leftStays rightStays
  rw [functional left (subset isLeft) left' isLeft' leftStays,
    functional right (subset isRight) right' isRight' rightStays]

/-- Renaming the labels of the marks that stay keeps them apart. -/
private theorem keepsSharing_of_image (functional : before.Functional) {rest : Set Mark}
    (subset : rest ⊆ before.marks) {move : Mark → Mark} {rename : Nat → Nat}
    (injective : Set.InjOn rename (Mark.labels rest)) {stays : Mark → Mark → Prop}
    (moved : ∀ mark ∈ rest, (move mark).span.wildcard = rename mark.span.wildcard)
    (image : after.marks = move '' rest)
    (place : ∀ mark ∈ rest, ∀ left ∈ before.marks, stays left (move mark) → left.SamePlace mark) :
    KeepsSharing stays before after := by
  have renamed : ∀ left ∈ before.marks, ∀ left' ∈ after.marks, stays left left' →
      left ∈ rest ∧ left'.span.wildcard = rename left.span.wildcard := by
    intro left isLeft left' isLeft' leftStays
    rw [image] at isLeft'
    obtain ⟨mark, inRest, rfl⟩ := isLeft'
    obtain rfl := functional left isLeft mark (subset inRest) (place mark inRest left isLeft leftStays)
    exact ⟨inRest, moved left inRest⟩
  intro left isLeft right isRight left' isLeft' right' isRight' leftStays rightStays
  obtain ⟨leftInRest, leftLabel⟩ := renamed left isLeft left' isLeft' leftStays
  obtain ⟨rightInRest, rightLabel⟩ := renamed right isRight right' isRight' rightStays
  rw [leftLabel, rightLabel]
  exact injective.eq_iff (Set.mem_image_of_mem _ leftInRest) (Set.mem_image_of_mem _ rightInRest)

theorem Gains.keepsSharing {mark : Mark} (gains : before.Gains mark after)
    (functional : after.Functional) : KeepsSharing Mark.SamePlace before after := by
  obtain ⟨-, rfl⟩ := gains
  exact keepsSharing_of_subset functional (Set.subset_insert _ _)

theorem Loses.keepsSharing {mark : Mark} (loses : before.Loses mark after)
    (functional : before.Functional) : KeepsSharing Mark.SamePlace before after := by
  obtain ⟨-, -, used, last⟩ := loses
  by_cases inUse : mark.span.wildcard ∈ Mark.labels (before.marks \ {mark})
  · exact keepsSharing_of_image functional Set.sdiff_subset (Set.injOn_id _) (fun _ _ => rfl)
      ((used inUse).trans (Set.image_id _).symm) fun _ _ _ _ same => same
  · exact keepsSharing_of_image functional Set.sdiff_subset (injOn_lowered inUse) (fun _ _ => rfl)
      (last inUse) fun _ _ _ _ same => same

theorem LosesEntry.keepsSharing {entry : Nat} (loses : before.LosesEntry entry after)
    (functional : before.Functional) :
    KeepsSharing (fun left right => left.entry ≠ entry ∧ (left.closeUp entry).SamePlace right)
      before after := by
  obtain ⟨rename, renumbers, -, rfl⟩ := loses
  refine keepsSharing_of_image functional (fun _ inRest => inRest.1) renumbers.ordered.injOn
    (fun _ _ => rfl) rfl ?_
  exact fun mark inRest left _ ⟨outside, same⟩ => .of_closeUp outside inRest.2 same

end Markup

end LogMotif
