import LogMotif.Proofs.Session.Refusals

/-! # Wildcards of reachable sessions

In a reachable session the cells and the list of wildcards agree, so the errors that tell of a
disagreement are never met: an action may be refused for its indices, its rows or its link, but not
for the wildcards.
-/

namespace LogMotif

/-- Whether an error tells of cells and a list of wildcards that disagree. -/
def MotifError.IsBookkeeping : MotifError → Prop
  | orphanWildcard .. | emptyWildcard .. => True
  | _ => False

/-- Whether a result is not refused for disagreeing wildcards. -/
def Undisputed {α : Type} (result : Except MotifError α) : Prop :=
  ∀ error, result = .error error → ¬ error.IsBookkeeping

namespace Session

variable {session : Session} {action : Action} {error : MotifError}

/-- No reason to refuse an action tells of wildcards that disagree. -/
private theorem Refuses.not_isBookkeeping (refuses : session.Refuses action error) :
    ¬ error.IsBookkeeping := by
  have ofCell {entry cell : Nat} (lacks : session.LacksCell entry cell error) :
      ¬ error.IsBookkeeping := by
    cases lacks <;> exact id
  cases action with
  | appendRows =>
    obtain ⟨_, _, -, rfl⟩ := refuses
    exact id
  | removeEntry | toggleLink =>
    obtain ⟨-, rfl⟩ := refuses
    exact id
  | setLink => rcases refuses with ⟨-, rfl⟩ | ⟨-, -, rfl⟩ <;> exact id
  | toggleCell | createWildcard | createWildcardOverText | removeWildcard => exact ofCell refuses
  | useWildcard =>
    rcases refuses with ⟨-, rfl⟩ | ⟨-, lacks⟩
    · exact id
    · exact ofCell lacks
  | useWildcardOverText =>
    rcases refuses with lacks | ⟨-, -, rfl⟩
    · exact ofCell lacks
    · exact id

private theorem Sound.undisputed_apply (sound : session.Sound) (action : Action) :
    Undisputed (session.apply action) :=
  fun _ refused => (sound.apply_eq_error_iff.mp refused).not_isBookkeeping

/-- In a reachable session a segment holds a wildcard exactly when the wildcard lists it. Then it is
listed once and by no other wildcard, and no wildcard is without a segment. So no action is refused
because cells and wildcards disagree. -/
theorem Reachable.wildcards_agree (reachable : session.Reachable) :
    (∀ occurrence index, Motif.wildcardAt? session.motif.entries occurrence = some index ↔
      ∃ wildcard, session.motif.wildcards[index]? = some wildcard ∧
        occurrence ∈ wildcard.occurrences) ∧
    (∀ (occurrence : Occurrence) (index : Nat) (wildcard : Wildcard),
      session.motif.wildcards[index]? = some wildcard → occurrence ∈ wildcard.occurrences →
        wildcard.occurrences.count occurrence = 1 ∧
          ∀ (other : Nat) (another : Wildcard), session.motif.wildcards[other]? = some another →
            occurrence ∈ another.occurrences → other = index) ∧
    (∀ wildcard ∈ session.motif.wildcards, wildcard.occurrences ≠ []) ∧
    ∀ action index occurrence,
      session.apply action ≠ .error (.orphanWildcard index occurrence) ∧
        session.apply action ≠ .error (.emptyWildcard index) := by
  have sound := reachable.sound
  have booked := sound.booked
  refine ⟨?_, ?_, ?_, ?_⟩
  · intro occurrence index
    rw [booked.listed_iff, Motif.isListed_iff]
  · intro occurrence index wildcard here member
    have tidy := booked.tidy wildcard (List.mem_of_getElem? here)
    refine ⟨List.count_eq_one_of_mem tidy.nodup member, fun other another there again => ?_⟩
    exact booked.unique (Motif.isListed_iff.mpr ⟨wildcard, here, member⟩)
      (Motif.isListed_iff.mpr ⟨another, there, again⟩)
  · exact fun wildcard member => (booked.tidy wildcard member).occurs
  · intro action index occurrence
    have undisputed := sound.undisputed_apply action
    exact ⟨fun refused => undisputed _ refused trivial, fun refused => undisputed _ refused trivial⟩

/-- A session in which one wildcard has been put over the same text of two rows. -/
theorem wildcards_agree_over_two_rows : ∃ opened created used : Session,
    start [⟨"m", .string⟩] [.content] [["a12b"], ["c12"]] {} = .ok opened ∧
      opened.apply (.createWildcard ⟨0, 0, ⟨0, 1, 3⟩⟩) = .ok (.updated created) ∧
      created.apply (.useWildcard 0 ⟨1, 0, ⟨0, 1, 3⟩⟩) = .ok (.updated used) ∧
      used.motif.wildcards = [⟨[⟨0, 0, 1⟩, ⟨1, 0, 1⟩]⟩] ∧
      ∀ wildcard ∈ used.motif.wildcards, wildcard.occurrences ≠ [] := by
  have fits : TextsFit [["a12b"], ["c12"]] := by
    unfold TextsFit
    decide
  obtain ⟨opened, created, used, isOpened, isCreated, isUsed, listed⟩ :
      ∃ opened created used : Session,
        start [⟨"m", .string⟩] [.content] [["a12b"], ["c12"]] {} = .ok opened ∧
          opened.apply (.createWildcard ⟨0, 0, ⟨0, 1, 3⟩⟩) = .ok (.updated created) ∧
          created.apply (.useWildcard 0 ⟨1, 0, ⟨0, 1, 3⟩⟩) = .ok (.updated used) ∧
          used.motif.wildcards = [⟨[⟨0, 0, 1⟩, ⟨1, 0, 1⟩]⟩] := ⟨_, _, _, rfl, rfl, rfl, rfl⟩
  have reachable : used.Reachable :=
    .apply (.apply (.start fits isOpened) (by exact trivial) isCreated) (by exact trivial) isUsed
  exact ⟨opened, created, used, isOpened, isCreated, isUsed, listed,
    (Reachable.wildcards_agree reachable).2.2.1⟩

end Session

end LogMotif
