import LogMotif.Proofs.Motif.Clearing
import LogMotif.Proofs.Session.Refusals

/-! # Removing an entry, or its wildcards first

An entry can be removed as it is, or after its wildcards have been taken out one at a time. Whichever
comes first, and wherever the segments have moved to meanwhile, the session that is left is the same.
-/

namespace LogMotif

namespace Session

variable {session next final : Session} {entry : Nat} {order : List Mark}

/-- The sessions that are reached from one by taking out the wildcards at some places of an entry, in
the given order, each from the segment in which it then stands. -/
inductive Strips (entry : Nat) : Session → List Mark → Session → Prop
  | nil (session : Session) : Strips entry session [] session
  | cons {session next final : Session} {place mark : Mark} {order : List Mark} {cell segment : Nat}
      (here : session.motif.markAt? ⟨entry, cell, segment⟩ = some mark) (same : place.SamePlace mark)
      (applied : session.apply (.removeWildcard entry cell segment) = .ok (.updated next))
      (rest : Strips entry next order final) : Strips entry session (place :: order) final

/-- A wildcard can be taken out of the segment in which its mark stands, and is a mark less then. -/
private theorem Sound.exists_loses (sound : session.Sound) {cell segment : Nat} {mark : Mark}
    (here : session.motif.markAt? ⟨entry, cell, segment⟩ = some mark) :
    ∃ motif, session.motif.removeWildcard entry cell segment = .ok (some motif) ∧
      session.motif.markup.Loses mark motif.markup := by
  cases removed : session.motif.removeWildcard entry cell segment with
  | error error =>
    obtain ⟨content, -, found, -⟩ := Motif.markAt?_eq_some_iff.mp here
    have lacks := (Motif.removeWildcard_eq_error_iff sound.uniform sound.booked).mp removed
    rw [← Motif.getCell_eq_error_iff sound.uniform, Motif.getCell_eq_ok_iff.mpr found] at lacks
    cases lacks
  | ok edit =>
    cases edit with
    | none => simp [Motif.markAt?_eq_none_of_removeWildcard removed] at here
    | some motif =>
      obtain ⟨other, isOther, loses⟩ := sound.booked.exists_loses_of_removeWildcard sound.shaped removed
      obtain rfl := Option.some.inj (here.symm.trans isOther)
      exact ⟨motif, rfl, loses⟩

/-- What taking out one wildcard of an entry comes to. -/
private theorem Sound.removeWildcard_of_markAt? (sound : session.Sound) {cell segment : Nat}
    {mark : Mark} (here : session.motif.markAt? ⟨entry, cell, segment⟩ = some mark) :
    ∃ next, session.apply (.removeWildcard entry cell segment) = .ok (.updated next) ∧
      session.motif.markup.Loses mark next.motif.markup ∧ next.Sound ∧
      next.perform (.removeEntry entry) = session.perform (.removeEntry entry) := by
  obtain ⟨motif, removed, loses⟩ := sound.exists_loses here
  have edit : session.Edit (.removeWildcard entry cell segment) motif := .removeWildcard removed
  refine ⟨session.withMotif motif, ?_, loses,
    ⟨edit.shaped sound.shaped, sound.fits_edit edit trivial, sound.booked_edit edit⟩, ?_⟩
  · rw [sound.apply_eq_perform]
    exact bind_eq_ok_iff.mpr ⟨_, removed, rfl⟩
  · have same := sound.booked.toAgrees.removeEntry_of_removeWildcard removed
    simp only [perform, withMotif, same]

/-- The wildcards of an entry can be taken out in every order. -/
private theorem Sound.exists_strips (sound : session.Sound)
    (enumerates : session.motif.markup.Enumerates entry order) :
    ∃ final, Strips entry session order final := by
  induction order generalizing session with
  | nil => exact ⟨session, .nil session⟩
  | cons place order ih =>
    obtain ⟨mark, member, same, rfl⟩ := enumerates.exists_mark place List.mem_cons_self
    obtain ⟨segment, here⟩ := Motif.mem_marks_iff.mp member
    obtain ⟨next, applied, loses, soundNext, -⟩ := sound.removeWildcard_of_markAt? here
    obtain ⟨final, strips⟩ :=
      ih soundNext (enumerates.tail (Motif.functional_markup sound.shaped) same loses)
    exact ⟨final, .cons here same applied strips⟩

/-- Whatever wildcards of an entry are taken out, no marks are left but those not listed, and removing
the entry leaves the same as before. -/
theorem Strips.keeps (strips : Strips entry session order final) (sound : session.Sound) :
    final.Sound ∧ final.perform (.removeEntry entry) = session.perform (.removeEntry entry) ∧
      (session.motif.markup.Enumerates entry order → final.motif.markup.Enumerates entry []) := by
  induction strips with
  | nil session => exact ⟨sound, rfl, id⟩
  | cons here same applied rest ih =>
    obtain ⟨next, isNext, loses, soundNext, leaves⟩ := sound.removeWildcard_of_markAt? here
    obtain rfl := Transition.updated.inj (Except.ok.inj (applied.symm.trans isNext))
    obtain ⟨soundFinal, leavesToo, stripped⟩ := ih soundNext
    exact ⟨soundFinal, leavesToo.trans leaves, fun enumerates =>
      stripped (enumerates.tail (Motif.functional_markup sound.shaped) same loses)⟩

/-- The wildcards of an entry of a reachable session that has others can be taken out one by one, in
every order of their marks. However that is done, none is left in the entry, and removing the entry
then leaves the same session as removing it at once. -/
theorem Reachable.removeEntry_eq_of_strips (reachable : session.Reachable)
    (several : 2 ≤ session.motif.entries.length) (inside : entry < session.motif.entries.length)
    (nodup : order.Nodup)
    (marks : ∀ mark, mark ∈ order ↔ mark ∈ session.motif.markup.marks ∧ mark.entry = entry) :
    (∃ final, Strips entry session order final) ∧
    ∀ final, Strips entry session order final →
      (∀ cell segment, Motif.wildcardAt? final.motif.entries ⟨entry, cell, segment⟩ = none) ∧
      ∃ result, session.apply (.removeEntry entry) = .ok (.updated result) ∧
        final.apply (.removeEntry entry) = .ok (.updated result) := by
  have sound := reachable.sound
  have enumerates := (Motif.functional_markup sound.shaped).enumerates nodup marks
  refine ⟨sound.exists_strips enumerates, fun final strips => ?_⟩
  obtain ⟨soundFinal, leaves, stripped⟩ := strips.keeps sound
  obtain ⟨motif, remaining⟩ := Motif.exists_removeEntry_eq_ok_remaining several inside
  have removed := sound.apply_removeEntry remaining
  refine ⟨fun cell segment => ?_, _, removed, ?_⟩
  · by_contra occupied
    obtain ⟨mark, here⟩ := Motif.exists_markAt?_iff.mpr (Option.ne_none_iff_exists'.mp occupied)
    obtain ⟨_, span, -, -, rfl⟩ := Motif.markAt?_eq_some_iff.mp here
    have member : ⟨entry, cell, span⟩ ∈ final.motif.markup.marks :=
      Motif.mem_marks_iff.mpr ⟨segment, here⟩
    obtain ⟨_, listed, -⟩ := (stripped enumerates).exists_place _ member rfl
    cases listed
  · rw [soundFinal.apply_eq_perform, leaves, ← sound.apply_eq_perform, removed]

/-- An entry with two wildcards, of which the second also stands in the other entry. The second is
taken out first, then the first, which goes with it. -/
theorem removeEntry_eq_of_strips_backwards : ∃ session final result : Session,
    session.motif.entries.map Entry.cells =
      [[⟨[.wildcard 0 "a", .wildcard 1 "12"]⟩], [⟨[.text "c", .wildcard 1 "12", .text "-7"]⟩]] ∧
    Strips 0 session [⟨0, 0, 1, 3, 1⟩, ⟨0, 0, 0, 1, 0⟩] final ∧
    (∀ cell segment, Motif.wildcardAt? final.motif.entries ⟨0, cell, segment⟩ = none) ∧
    session.apply (.removeEntry 0) = .ok (.updated result) ∧
    final.apply (.removeEntry 0) = .ok (.updated result) := by
  have fits : TextsFit [["a12"], ["c12-7"]] := by
    unfold TextsFit
    decide
  obtain ⟨opened, first, second, session, isOpened, isFirst, isSecond, isSession, cells, found, lone,
      several⟩ : ∃ opened first second session : Session,
        start [⟨"m", .string⟩] [.content] [["a12"], ["c12-7"]] {} = .ok opened ∧
        opened.apply (.createWildcard ⟨0, 0, ⟨0, 0, 1⟩⟩) = .ok (.updated first) ∧
        first.apply (.createWildcard ⟨1, 0, ⟨0, 1, 3⟩⟩) = .ok (.updated second) ∧
        second.apply (.useWildcard 1 ⟨0, 0, ⟨1, 0, 2⟩⟩) = .ok (.updated session) ∧
        session.motif.entries.map Entry.cells =
          [[⟨[.wildcard 0 "a", .wildcard 1 "12"]⟩], [⟨[.text "c", .wildcard 1 "12", .text "-7"]⟩]] ∧
        Motif.cellAt? session.motif.entries 0 0 = some ⟨[.wildcard 0 "a", .wildcard 1 "12"]⟩ ∧
        (∀ column, Motif.cellAt? session.motif.entries 0 (column + 1) = none) ∧
        session.motif.entries.length = 2 :=
    ⟨_, _, _, _, rfl, rfl, rfl, rfl, rfl, rfl, fun _ => rfl, rfl⟩
  have reachable : session.Reachable :=
    .apply (.apply (.apply (.start fits isOpened) (by exact trivial) isFirst) (by exact trivial)
      isSecond) (by exact trivial) isSession
  have marks (mark : Mark) : mark ∈ [⟨0, 0, 1, 3, 1⟩, ⟨0, 0, 0, 1, 0⟩] ↔
      mark ∈ session.motif.markup.marks ∧ mark.entry = 0 := by
    have spans : Cell.spans ⟨[.wildcard 0 "a", .wildcard 1 "12"]⟩ = [⟨0, 1, 0⟩, ⟨1, 3, 1⟩] := rfl
    obtain ⟨i, j, span⟩ := mark
    constructor
    · intro listed
      simp only [List.mem_cons, Mark.mk.injEq, List.not_mem_nil, or_false] at listed
      rcases listed with ⟨rfl, rfl, rfl⟩ | ⟨rfl, rfl, rfl⟩
      all_goals exact ⟨(Motif.mem_marks_of_cellAt? found).mpr (by simp [spans]), rfl⟩
    · rintro ⟨inSession, rfl⟩
      cases j with
      | zero =>
        have inCell := (Motif.mem_marks_of_cellAt? found).mp inSession
        simpa [spans, or_comm] using inCell
      | succ column =>
        obtain ⟨_, isCell, -⟩ := inSession
        cases (lone column).symm.trans isCell
  obtain ⟨⟨final, strips⟩, outcome⟩ :=
    reachable.removeEntry_eq_of_strips (by omega) (by omega) (by decide) marks
  obtain ⟨plain, result, removed, same⟩ := outcome final strips
  exact ⟨session, final, result, cells, strips, plain, removed, same⟩

end Session

end LogMotif
