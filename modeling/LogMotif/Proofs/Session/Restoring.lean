import LogMotif.Proofs.Motif.Restoring
import LogMotif.Proofs.Session.Markup
import LogMotif.Proofs.Session.Refusals

/-! # Undoing a wildcard

An action that puts a wildcard over some text is undone by taking the wildcard out of the segment that
it stands in then. Entries and wildcards are the same as before, down to the order in which the
occurrences of a wildcard are listed.
-/

namespace LogMotif

/-- Whether an action puts a wildcard over some text. -/
def Action.PutsWildcard : Action → Prop
  | createWildcard _ | useWildcard .. | createWildcardOverText .. | useWildcardOverText .. => True
  | _ => False

/-- Wildcards bring no texts. -/
private theorem Action.PutsWildcard.fits {action : Action} (puts : action.PutsWildcard) :
    action.Fits := by
  cases action <;> first | exact puts.elim | exact trivial

namespace Session

variable {session next : Session} {action : Action} {motif : Motif}

/-- What is put in by an edit can be taken out again where its mark is. -/
private theorem Sound.exists_restores (sound : session.Sound) (edit : session.Edit action motif)
    (puts : action.PutsWildcard) : ∃ index selection,
      session.Covers (session.withMotif motif) index selection ∧
        session.motif.Restores index selection motif := by
  have booked := sound.booked
  cases edit with
  | createWildcard created =>
    exact ⟨_, _, Motif.exists_gains_of_insertWildcard sound.shaped created,
      booked.restores_of_createWildcard (fun _ => sound.cell_fits) created⟩
  | createWildcardOverText _ created =>
    exact ⟨_, _, Motif.exists_gains_of_insertWildcard sound.shaped created,
      booked.restores_of_createWildcard (fun _ => sound.cell_fits) created⟩
  | useWildcard used =>
    exact ⟨_, _, Motif.exists_gains_of_useWildcard sound.shaped used,
      booked.restores_of_useWildcard (fun _ => sound.cell_fits) used⟩
  | useWildcardOverText _ used =>
    exact ⟨_, _, Motif.exists_gains_of_useWildcard sound.shaped used,
      booked.restores_of_useWildcard (fun _ => sound.cell_fits) used⟩
  | _ => exact puts.elim

/-- An action that puts a wildcard over some text of a reachable session makes one mark, which stands
in one segment. Taking the wildcard out of that segment gives back the session, without results. -/
theorem Reachable.removeWildcard_restores (reachable : session.Reachable)
    (puts : action.PutsWildcard) (applied : session.apply action = .ok (.updated next))
    (edited : next ≠ session) :
    ∃ mark, session.motif.markup.Gains mark next.motif.markup ∧
      (∃! occurrence, next.motif.markAt? occurrence = some mark) ∧
      ∀ entry cell segment, next.motif.markAt? ⟨entry, cell, segment⟩ = some mark →
        next.apply (.removeWildcard entry cell segment) =
          .ok (.updated { session with results := none }) := by
  have sound := reachable.sound
  have soundNext := (Reachable.apply reachable puts.fits applied).sound
  rcases edit_of_perform (apply_eq_ok_updated_iff.mp applied).1 with ⟨same, -⟩ | ⟨motif, rfl, edit⟩
  · exact absurd same edited
  · obtain ⟨index, selection, covers, cell, segment, found, isMark, restores⟩ :=
      sound.exists_restores edit puts
    obtain ⟨content, again, gains⟩ := covers
    obtain rfl := Option.some.inj (found.symm.trans again)
    have only (occurrence : Occurrence) (isToo : motif.markAt? occurrence = some _) :=
      Motif.eq_of_markAt? soundNext.shaped isToo isMark
    refine ⟨_, gains, ⟨_, isMark, only⟩, fun i j k isToo => ?_⟩
    obtain ⟨rfl, rfl, rfl⟩ := Occurrence.mk.inj (only _ isToo)
    rw [soundNext.apply_eq_perform]
    exact bind_eq_ok_iff.mpr ⟨_, restores, rfl⟩

/-- A wildcard is put over text between two others of the same cell, the first of which it is an
occurrence of. Taken out again, it leaves no trace. -/
theorem removeWildcard_restores_between_others : ∃ session next : Session,
    Motif.cellAt? session.motif.entries 0 0 =
      some ⟨[.wildcard 0 "a", .text "1a-", .wildcard 1 "b2"]⟩ ∧
    session.apply (.useWildcard 0 ⟨0, 0, ⟨1, 1, 2⟩⟩) = .ok (.updated next) ∧
    next.motif.wildcards = [⟨[⟨0, 0, 0⟩, ⟨0, 0, 2⟩]⟩, ⟨[⟨0, 0, 4⟩]⟩] ∧
    next.apply (.removeWildcard 0 0 2) = .ok (.updated { session with results := none }) := by
  have fits : TextsFit [["a1a-b2"]] := by
    unfold TextsFit
    decide
  obtain ⟨opened, first, session, next, isOpened, isFirst, isSession, found, applied, listed, edited,
      isMark⟩ : ∃ opened first session next : Session,
        start [⟨"m", .string⟩] [.content] [["a1a-b2"]] {} = .ok opened ∧
        opened.apply (.createWildcard ⟨0, 0, ⟨0, 0, 1⟩⟩) = .ok (.updated first) ∧
        first.apply (.createWildcard ⟨0, 0, ⟨1, 3, 5⟩⟩) = .ok (.updated session) ∧
        Motif.cellAt? session.motif.entries 0 0 =
          some ⟨[.wildcard 0 "a", .text "1a-", .wildcard 1 "b2"]⟩ ∧
        session.apply (.useWildcard 0 ⟨0, 0, ⟨1, 1, 2⟩⟩) = .ok (.updated next) ∧
        next.motif.wildcards = [⟨[⟨0, 0, 0⟩, ⟨0, 0, 2⟩]⟩, ⟨[⟨0, 0, 4⟩]⟩] ∧ next ≠ session ∧
        next.motif.markAt? ⟨0, 0, 2⟩ = some ⟨0, 0, 2, 3, 0⟩ :=
    ⟨_, _, _, _, rfl, rfl, rfl, rfl, rfl, rfl, by decide, rfl⟩
  have reachable : session.Reachable :=
    .apply (.apply (.start fits isOpened) (by exact trivial) isFirst) (by exact trivial) isSession
  obtain ⟨mark, ⟨-, gained⟩, -, restores⟩ :=
    reachable.removeWildcard_restores (by exact trivial) applied edited
  -- the mark at the new segment is the one gained, since the cell had no such span before
  have member : ⟨0, 0, 2, 3, 0⟩ ∈ next.motif.markup.marks := Motif.mem_marks_iff.mpr ⟨2, isMark⟩
  rw [gained] at member
  rcases member with rfl | before
  · exact ⟨session, next, found, applied, listed, restores 0 0 2 isMark⟩
  · exact absurd ((Motif.mem_marks_of_cellAt? found).mp before) (by decide)

end Session

end LogMotif
