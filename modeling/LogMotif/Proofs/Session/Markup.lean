import LogMotif.Proofs.Motif.Marks
import LogMotif.Proofs.Session.Soundness

/-! # Sessions as marked up texts

What a user sees of a session are its source rows and the spans in them that are covered by
wildcards. Each action is an edit of these alone: it makes one mark over the selected text, deletes
one, drops those of an entry, or leaves them as they are. Segments, occurrences and the numbers that
are given to wildcards on the way never mix up which spans belong together.
-/

namespace LogMotif

/-- Which mark an action leaves where another one was. -/
def Action.Stays : Action → Mark → Mark → Prop
  | removeEntry entry => fun left right =>
    left.entry ≠ entry ∧ (left.closeUp entry).SamePlace right
  | _ => Mark.SamePlace

namespace Session

variable {session next : Session} {action : Action} {motif : Motif}

/-- Whether a session has one mark more than another one, of a wildcard put over a selection. -/
def Covers (session next : Session) (wildcard : Nat) (selection : Selection) : Prop :=
  ∃ content, Motif.cellAt? session.motif.entries selection.entry selection.cell = some content ∧
    session.motif.markup.Gains
      ⟨selection.entry, selection.cell, content.spanOver wildcard selection.range⟩ next.motif.markup

/-- What an action makes of the marked up texts of a session. -/
def Remarks (session next : Session) : Action → Prop
  | .createWildcard selection =>
    next = session ∨ session.Covers next session.motif.wildcards.length selection
  | .createWildcardOverText entry cell start stop =>
    next = session ∨ ∃ selection,
      session.motif.select entry cell start stop = .ok (some selection) ∧
        session.Covers next session.motif.wildcards.length selection
  | .useWildcard wildcard selection => next = session ∨ session.Covers next wildcard selection
  | .useWildcardOverText wildcard entry cell start stop =>
    next = session ∨ ∃ selection,
      session.motif.select entry cell start stop = .ok (some selection) ∧
        session.Covers next wildcard selection
  | .removeWildcard entry cell segment =>
    (∀ mark, session.motif.markAt? ⟨entry, cell, segment⟩ = some mark →
      session.motif.markup.Loses mark next.motif.markup) ∧
    (session.motif.markAt? ⟨entry, cell, segment⟩ = none → next = session)
  | .removeEntry entry => session.motif.markup.LosesEntry entry next.motif.markup
  | .appendRows rows => ∃ added : List (List String), added.Sublist rows ∧
    next.motif.markup = ⟨session.motif.markup.sources ++ added, session.motif.markup.marks⟩
  | .toggleCell .. | .toggleLink _ | .setLink .. => next.motif.markup = session.motif.markup

private theorem Idle.remarks (idle : session.Idle action) : session.Remarks session action := by
  cases idle with
  | createWildcard | useWildcard | createWildcardOverText | useWildcardOverText => exact .inl rfl
  | removeWildcard idle =>
    have isNone := Motif.markAt?_eq_none_of_removeWildcard idle
    exact ⟨fun mark isMark => by simp [isNone] at isMark, fun _ => rfl⟩

private theorem Sound.remarks_edit (sound : session.Sound) (edit : session.Edit action motif) :
    session.Remarks (session.withMotif motif) action := by
  cases edit with
  | createWildcard edited =>
    exact .inr (Motif.exists_gains_of_insertWildcard sound.shaped edited)
  | useWildcard edited =>
    exact .inr (Motif.exists_gains_of_useWildcard sound.shaped edited)
  | createWildcardOverText selected edited =>
    exact .inr ⟨_, selected, Motif.exists_gains_of_insertWildcard sound.shaped edited⟩
  | useWildcardOverText selected edited =>
    exact .inr ⟨_, selected, Motif.exists_gains_of_useWildcard sound.shaped edited⟩
  | removeWildcard edited =>
    obtain ⟨mark, isMark, loses⟩ := sound.booked.exists_loses_of_removeWildcard sound.shaped edited
    refine ⟨fun other isOther => ?_, fun isNone => by simp [isMark] at isNone⟩
    obtain rfl := Option.some.inj (isMark.symm.trans isOther)
    exact loses
  | removeEntry edited => exact sound.booked.losesEntry_of_removeEntry edited
  | appendRows => exact Motif.exists_markup_appendRows _ _ _
  | toggleCell edited =>
    obtain ⟨-, rfl⟩ := Motif.toggleCell_eq_ok_iff.mp edited
    change Motif.markup (if _ then _ else _) = _
    split
    next => exact Motif.markup_modifyEntry _ _ (fun _ => rfl) fun _ => rfl
    next => rfl
  | toggleLink edited =>
    obtain ⟨-, rfl⟩ := Motif.toggleLink_eq_ok_iff.mp edited
    exact Motif.markup_modifyEntry _ _ (fun _ => rfl) fun _ => rfl
  | setLink edited =>
    obtain ⟨-, -, rfl⟩ := Motif.setLink_eq_ok_iff.mp edited
    exact Motif.markup_modifyEntry _ _ (fun _ => rfl) fun _ => rfl

private theorem Covers.keepsSharing {wildcard : Nat} {selection : Selection}
    (covers : session.Covers next wildcard selection) (functional : next.motif.markup.Functional) :
    Markup.KeepsSharing Mark.SamePlace session.motif.markup next.motif.markup := by
  obtain ⟨content, -, gains⟩ := covers
  exact gains.keepsSharing functional

/-- Whatever an action makes of the marks, those that stay share a label as before. -/
theorem Remarks.keepsSharing (remarks : session.Remarks next action)
    (functional : session.motif.markup.Functional) (functionalNext : next.motif.markup.Functional) :
    Markup.KeepsSharing action.Stays session.motif.markup next.motif.markup := by
  have unchanged (same : next = session) :
      Markup.KeepsSharing Mark.SamePlace session.motif.markup next.motif.markup :=
    Markup.keepsSharing_of_subset functionalNext (by rw [same])
  cases action with
  | createWildcard | useWildcard =>
    exact remarks.elim unchanged fun covers => covers.keepsSharing functionalNext
  | createWildcardOverText | useWildcardOverText =>
    exact remarks.elim unchanged fun ⟨_, _, covers⟩ => covers.keepsSharing functionalNext
  | removeWildcard entry cell segment =>
    obtain ⟨loses, idle⟩ := remarks
    cases isMark : session.motif.markAt? ⟨entry, cell, segment⟩ with
    | none => exact unchanged (idle isMark)
    | some mark => exact (loses mark isMark).keepsSharing functional
  | removeEntry entry => exact remarks.keepsSharing functional
  | appendRows rows =>
    obtain ⟨added, -, same⟩ := remarks
    exact Markup.keepsSharing_of_subset functionalNext (by rw [same])
  | toggleCell | toggleLink | setLink =>
    exact Markup.keepsSharing_of_subset functionalNext (by rw [show _ = _ from remarks])

/-- An action on a reachable session is an edit of its marked up texts, and marks that stay share a
label after it exactly when they did before. -/
theorem Reachable.apply_refines_markup (reachable : session.Reachable)
    (applied : session.apply action = .ok (.updated next)) :
    session.Remarks next action ∧
      Markup.KeepsSharing action.Stays session.motif.markup next.motif.markup := by
  have sound := reachable.sound
  have functional := Motif.functional_markup sound.shaped
  rcases edit_of_perform (apply_eq_ok_updated_iff.mp applied).1 with ⟨rfl, idle⟩ | ⟨motif, rfl, edit⟩
  · exact ⟨idle.remarks, idle.remarks.keepsSharing functional functional⟩
  · have remarks := sound.remarks_edit edit
    have functionalNext : motif.markup.Functional :=
      Motif.functional_markup (edit.shaped sound.shaped)
    exact ⟨remarks, remarks.keepsSharing functional functionalNext⟩

/-- An entry with two wildcards is removed, of which the second also covers text of the other
entry; there it is the first one now. -/
theorem removeEntry_renumbers_shared_wildcard : ∃ session next : Session, session.Reachable ∧
    session.apply (.removeEntry 0) = .ok (.updated next) ∧
      session.motif.entries.map Entry.cells =
        [[⟨[.wildcard 0 "a", .wildcard 1 "12"]⟩], [⟨[.text "c", .wildcard 1 "12", .text "-7"]⟩]] ∧
      next.motif.entries.map Entry.cells = [[⟨[.text "c", .wildcard 0 "12", .text "-7"]⟩]] ∧
      session.motif.markup.LosesEntry 0 next.motif.markup := by
  have fits : TextsFit [["a12"], ["c12-7"]] := by
    unfold TextsFit
    decide
  obtain ⟨opened, first, second, session, next, isOpened, isFirst, isSecond, isSession, applied,
      before, after⟩ : ∃ opened first second session next : Session,
        start [⟨"m", .string⟩] [.content] [["a12"], ["c12-7"]] {} = .ok opened ∧
        opened.apply (.createWildcard ⟨0, 0, ⟨0, 0, 1⟩⟩) = .ok (.updated first) ∧
        first.apply (.createWildcard ⟨1, 0, ⟨0, 1, 3⟩⟩) = .ok (.updated second) ∧
        second.apply (.useWildcard 1 ⟨0, 0, ⟨1, 0, 2⟩⟩) = .ok (.updated session) ∧
        session.apply (.removeEntry 0) = .ok (.updated next) ∧
        session.motif.entries.map Entry.cells =
          [[⟨[.wildcard 0 "a", .wildcard 1 "12"]⟩], [⟨[.text "c", .wildcard 1 "12", .text "-7"]⟩]] ∧
        next.motif.entries.map Entry.cells = [[⟨[.text "c", .wildcard 0 "12", .text "-7"]⟩]] :=
    ⟨_, _, _, _, _, rfl, rfl, rfl, rfl, rfl, rfl, rfl⟩
  have reachable : session.Reachable :=
    .apply (.apply (.apply (.start fits isOpened) (by exact trivial) isFirst) (by exact trivial)
      isSecond) (by exact trivial) isSession
  exact ⟨session, next, reachable, applied, before, after,
    (reachable.apply_refines_markup applied).1⟩

end Session

end LogMotif
