import LogMotif.Proofs.Motif.Refusals
import LogMotif.Proofs.Session.Soundness

/-! # When actions are refused

An action that names an entry, a cell, a link or a wildcard is refused when there is none, and what
it brings has to fit: rows to the columns, and a link to at least one distance. In a reachable
session these are all the refusals. The consistency check adds none, and the session closes only
when its last entry is removed.
-/

namespace LogMotif

namespace Session

variable {session : Session} {action : Action} {error : MotifError}

/-- Why a session has no cell at a place. -/
def LacksCell (session : Session) (entry cell : Nat) (error : MotifError) : Prop :=
  session.motif.LacksCell session.headers.length entry cell error

/-- Why a session has no link behind an entry. -/
def LacksLink (session : Session) (entry : Nat) (error : MotifError) : Prop :=
  session.motif.entries.length ≤ entry + 1 ∧
    error = .outOfRange .link entry (session.motif.entries.length - 1)

/-- Why a session has no wildcard of a number. -/
def LacksWildcard (session : Session) (wildcard : Nat) (error : MotifError) : Prop :=
  session.motif.wildcards.length ≤ wildcard ∧
    error = .outOfRange .wildcard wildcard session.motif.wildcards.length

/-- Why an action on a session is refused. -/
def Refuses (session : Session) : Action → MotifError → Prop
  | .appendRows rows, error => ∃ i row, Corpus.FirstMisfit session.headers.length rows i row ∧
      error = .mismatchedRow i session.headers.length row.length
  | .removeEntry entry, error => session.motif.entries.length ≤ entry ∧
      error = .outOfRange .entry entry session.motif.entries.length
  | .toggleCell entry cell _, error => session.LacksCell entry cell error
  | .toggleLink entry, error => session.LacksLink entry error
  | .setLink entry link, error => session.LacksLink entry error ∨
      (entry + 1 < session.motif.entries.length ∧ (link = .exactly 0 ∨ link = .atMost 0) ∧
        error = .invalidLink link)
  | .createWildcard selection, error => session.LacksCell selection.entry selection.cell error
  -- the wildcard is looked for before the cell
  | .useWildcard wildcard selection, error => session.LacksWildcard wildcard error ∨
      (wildcard < session.motif.wildcards.length ∧
        session.LacksCell selection.entry selection.cell error)
  | .createWildcardOverText entry cell _ _, error => session.LacksCell entry cell error
  -- the cell is looked for before the wildcard, which only counts when there is a selection
  | .useWildcardOverText wildcard entry cell start stop, error =>
      session.LacksCell entry cell error ∨
      (∃ content range, Motif.cellAt? session.motif.entries entry cell = some content ∧
        content.Located start stop range) ∧ session.LacksWildcard wildcard error
  | .removeWildcard entry cell _, error => session.LacksCell entry cell error

private theorem not_isValid_iff {link : Link} :
    link.isValid = false ↔ link = .exactly 0 ∨ link = .atMost 0 := by
  cases link <;> simp [Link.isValid]

theorem Sound.uniform (sound : session.Sound) :
    ∀ entry ∈ session.motif.entries, entry.cells.length = session.headers.length :=
  fun entry member => (sound.shaped entry member).cells_length

/-- The check after an action on a sound session accepts whatever the action has made. -/
theorem Sound.apply_eq_perform (sound : session.Sound) (action : Action) :
    session.apply action = session.perform action := by
  unfold apply
  cases performed : session.perform action with
  | error => rfl
  | ok transition =>
    cases transition with
    | closed => rfl
    | updated next =>
      have checked := Motif.checkConsistency_eq_ok_iff.mpr
        (sound.inconsistency?_eq_none_of_perform performed)
      simp [bind, Except.bind, pure, Except.pure, checked]

theorem Sound.apply_removeEntry (sound : session.Sound) {entry : Nat} {motif : Motif}
    (removed : session.motif.removeEntry entry = .ok (.remaining motif)) :
    session.apply (.removeEntry entry) = .ok (.updated (session.withMotif motif)) := by
  rw [sound.apply_eq_perform]
  exact bind_eq_ok_iff.mpr ⟨_, removed, rfl⟩

theorem Sound.apply_removeWildcard (sound : session.Sound) {entry cell segment : Nat}
    {motif : Motif} (removed : session.motif.removeWildcard entry cell segment = .ok (some motif)) :
    session.apply (.removeWildcard entry cell segment) =
      .ok (.updated (session.withMotif motif)) := by
  rw [sound.apply_eq_perform]
  exact bind_eq_ok_iff.mpr ⟨_, removed, rfl⟩

private theorem Sound.editOverText_eq_error_iff (sound : session.Sound)
    {entry cell start stop : Nat} {edit : Selection → Except MotifError (Option Motif)} :
    session.editOverText entry cell start stop edit = .error error ↔
      session.LacksCell entry cell error ∨
        ∃ content range, Motif.cellAt? session.motif.entries entry cell = some content ∧
          content.Located start stop range ∧ edit ⟨entry, cell, range⟩ = .error error := by
  rw [editOverText, bind_eq_error_iff, Motif.select_eq_error_iff sound.uniform]
  refine or_congr_right ⟨?_, ?_⟩
  · rintro ⟨_ | selection, selected, refused⟩
    · cases refused
    · obtain ⟨content, range, found, located, rfl⟩ := Motif.select_eq_ok_some_iff.mp selected
      exact ⟨content, range, found, located, bind_pure_eq_error_iff.mp refused⟩
  · rintro ⟨content, range, found, located, refused⟩
    exact ⟨some _, Motif.select_eq_ok_some_iff.mpr ⟨content, range, found, located, rfl⟩,
      bind_pure_eq_error_iff.mpr refused⟩

theorem Sound.perform_eq_error_iff (sound : session.Sound) :
    session.perform action = .error error ↔ session.Refuses action error := by
  cases action with
  | appendRows rows => exact bind_pure_eq_error_iff.trans Corpus.checkRows_eq_error_iff
  | removeEntry entry =>
    refine bind_eq_error_iff.trans ((or_iff_left ?_).trans Motif.removeEntry_eq_error_iff)
    rintro ⟨_ | _, -, ⟨⟩⟩
  | toggleCell entry cell exclusive =>
    exact bind_pure_eq_error_iff.trans (Motif.toggleCell_eq_error_iff sound.uniform)
  | toggleLink entry => exact bind_pure_eq_error_iff.trans Motif.toggleLink_eq_error_iff
  | setLink entry link =>
    rw [Refuses, ← not_isValid_iff]
    exact bind_pure_eq_error_iff.trans Motif.setLink_eq_error_iff
  | createWildcard selection =>
    exact bind_pure_eq_error_iff.trans (Motif.createWildcard_eq_error_iff sound.uniform)
  | useWildcard wildcard selection =>
    exact bind_pure_eq_error_iff.trans (Motif.useWildcard_eq_error_iff sound.uniform)
  | createWildcardOverText entry cell start stop =>
    refine bind_pure_eq_error_iff.trans (sound.editOverText_eq_error_iff.trans ?_)
    -- a selection is in a cell that exists, so creating a wildcard over it adds no reason
    refine or_iff_left_of_imp ?_
    rintro ⟨content, range, -, -, refused⟩
    exact (Motif.createWildcard_eq_error_iff sound.uniform).mp refused
  | useWildcardOverText wildcard entry cell start stop =>
    refine bind_pure_eq_error_iff.trans (sound.editOverText_eq_error_iff.trans ?_)
    simp only [Motif.useWildcard_eq_error_iff sound.uniform]
    constructor
    · rintro (lacks | ⟨content, range, found, located, unknown | ⟨-, lacks⟩⟩)
      · exact .inl lacks
      · exact .inr ⟨⟨content, range, found, located⟩, unknown⟩
      · exact .inl lacks
    · rintro (lacks | ⟨⟨content, range, found, located⟩, unknown⟩)
      · exact .inl lacks
      · exact .inr ⟨content, range, found, located, .inl unknown⟩
  | removeWildcard entry cell segment =>
    exact bind_pure_eq_error_iff.trans
      (Motif.removeWildcard_eq_error_iff sound.uniform sound.booked)

/-- A session closes when the only entry is removed. -/
theorem perform_eq_ok_closed_iff : session.perform action = .ok .closed ↔
    action = .removeEntry 0 ∧ session.motif.entries.length = 1 := by
  constructor
  · intro performed
    cases action with
    | removeEntry entry =>
      obtain ⟨_ | _, removed, ⟨⟩⟩ := bind_eq_ok_iff.mp performed
      obtain ⟨rfl, alone⟩ := Motif.removeEntry_eq_ok_emptied_iff.mp removed
      exact ⟨rfl, alone⟩
    | _ => obtain ⟨_, -, ⟨⟩⟩ := bind_eq_ok_iff.mp performed
  · rintro ⟨rfl, alone⟩
    have removed := Motif.removeEntry_eq_ok_emptied_iff.mpr ⟨rfl, alone⟩
    exact bind_eq_ok_iff.mpr ⟨.emptied, removed, rfl⟩

theorem Sound.apply_eq_error_iff (sound : session.Sound) :
    session.apply action = .error error ↔ session.Refuses action error := by
  rw [sound.apply_eq_perform, sound.perform_eq_error_iff]

/-- What an action on a reachable session comes to: it is refused for the reasons given and no
others, it closes the session when it removes the only entry, and else it gives the next session. -/
theorem Reachable.outcome_of_apply (reachable : session.Reachable) (action : Action) :
    (∀ error, session.apply action = .error error ↔ session.Refuses action error) ∧
    (session.apply action = .ok .closed ↔
      action = .removeEntry 0 ∧ session.motif.entries.length = 1) ∧
    ((∃ next, session.apply action = .ok (.updated next)) ↔
      (∀ error, ¬ session.Refuses action error) ∧
        ¬ (action = .removeEntry 0 ∧ session.motif.entries.length = 1)) := by
  have sound := reachable.sound
  have refused_iff (error : MotifError) := @Sound.apply_eq_error_iff session action error sound
  have closed_iff : session.apply action = .ok .closed ↔
      action = .removeEntry 0 ∧ session.motif.entries.length = 1 := by
    rw [sound.apply_eq_perform, perform_eq_ok_closed_iff]
  refine ⟨refused_iff, closed_iff, ?_⟩
  simp only [← refused_iff, ← closed_iff]
  cases session.apply action with
  | error error => simp
  | ok transition => cases transition <;> simp

/-- A session of one row: a wildcard that is not there is refused where it would be put over text,
and passed over where the range ends behind the text. Removing the row closes the session. -/
theorem outcomes_of_one_row : ∃ opened : Session,
    start [⟨"m", .string⟩] [.content] [["a12b"]] {} = .ok opened ∧
      opened.apply (.useWildcardOverText 0 0 0 1 3) = .error (.outOfRange .wildcard 0 0) ∧
      (∃ next, opened.apply (.useWildcardOverText 0 0 0 1 9) = .ok (.updated next)) ∧
      opened.apply (.removeEntry 0) = .ok .closed := by
  have fits : TextsFit [["a12b"]] := by
    unfold TextsFit
    decide
  obtain ⟨opened, isOpened, isCell, isEmpty, wide, alone⟩ : ∃ opened : Session,
      start [⟨"m", .string⟩] [.content] [["a12b"]] {} = .ok opened ∧
        Motif.cellAt? opened.motif.entries 0 0 = some (.ofText "a12b") ∧
        opened.motif.wildcards = [] ∧ opened.headers.length = 1 ∧
        opened.motif.entries.length = 1 := ⟨_, rfl, rfl, rfl, rfl, rfl⟩
  have reachable : opened.Reachable := .start fits isOpened
  refine ⟨opened, isOpened, ?_, ?_, ?_⟩
  · refine ((Reachable.outcome_of_apply reachable _).1 _).mpr (.inr ⟨⟨_, ⟨0, 1, 3⟩, isCell, ?_⟩, ?_⟩)
    · exact Cell.locate?_eq_some_iff.mp rfl
    · simp [LacksWildcard, isEmpty]
  · refine (Reachable.outcome_of_apply reachable _).2.2.mpr ⟨?_, by simp⟩
    rintro error (lacks | ⟨⟨content, range, found, located⟩, -⟩)
    · rcases lacks with outside | ⟨-, outside⟩ <;> omega
    · obtain rfl := Option.some.inj (isCell.symm.trans found)
      cases Cell.locate?_eq_some_iff.mpr located
  · exact (Reachable.outcome_of_apply reachable _).2.1.mpr ⟨rfl, alone⟩

end Session

end LogMotif
