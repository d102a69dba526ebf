import LogMotif.Proofs.Motif.Commuting
import LogMotif.Proofs.Session.Refusals

/-! # Removals in a session in either order

In a reachable session, entries and wildcards of different cells can be removed in either order. An
entry behind the other one is named by its place one further up once that one has gone; everything
else is named as before.
-/

namespace LogMotif

namespace Session

variable {session : Session}

/-- Of two entries, either can be removed first: the session comes out the same, or closes. -/
theorem Reachable.removeEntry_comm (reachable : session.Reachable) {first second : Nat}
    (ordered : first < second) (inside : second < session.motif.entries.length) :
    ∃ left right outcome,
      session.apply (.removeEntry first) = .ok (.updated left) ∧
      left.apply (.removeEntry (second - 1)) = .ok outcome ∧
      session.apply (.removeEntry second) = .ok (.updated right) ∧
      right.apply (.removeEntry first) = .ok outcome ∧
      (outcome = .closed ↔ session.motif.entries.length = 2) := by
  have sound := reachable.sound
  obtain ⟨left, removedFirst⟩ := Motif.exists_removeEntry_eq_ok_remaining
    (show 2 ≤ session.motif.entries.length by omega) (Nat.lt_trans ordered inside)
  obtain ⟨right, removedSecond⟩ :=
    Motif.exists_removeEntry_eq_ok_remaining (by omega) inside
  have appliedFirst := sound.apply_removeEntry removedFirst
  have appliedSecond := sound.apply_removeEntry removedSecond
  have soundLeft := (reachable.apply (by exact trivial) appliedFirst).sound
  have soundRight := (reachable.apply (by exact trivial) appliedSecond).sound
  have motifs := sound.booked.toAgrees.removeEntry_comm ordered inside removedFirst removedSecond
  have same : (session.withMotif left).perform (.removeEntry (second - 1)) =
      (session.withMotif right).perform (.removeEntry first) := by
    simp only [perform, withMotif, motifs]
  have fewer : left.entries.length = session.motif.entries.length - 1 :=
    Motif.length_of_removeEntry removedFirst
  obtain ⟨outcome, performed⟩ :
      ∃ outcome, (session.withMotif left).perform (.removeEntry (second - 1)) = .ok outcome := by
    cases performed : (session.withMotif left).perform (.removeEntry (second - 1)) with
    | ok outcome => exact ⟨outcome, rfl⟩
    | error error =>
      obtain ⟨outside, -⟩ := soundLeft.perform_eq_error_iff.mp performed
      have outside : left.entries.length ≤ second - 1 := outside
      omega
  refine ⟨_, _, outcome, appliedFirst, ?_, appliedSecond, ?_, ?_⟩
  · rw [soundLeft.apply_eq_perform, performed]
  · rw [soundRight.apply_eq_perform, ← same, performed]
  · have closes := @perform_eq_ok_closed_iff (session.withMotif left) (.removeEntry (second - 1))
    rw [performed, Except.ok.injEq, Action.removeEntry.injEq] at closes
    rw [closes]
    have same_length : (session.withMotif left).motif.entries.length = left.entries.length := rfl
    omega

/-- Of two wildcards in different cells, either can be taken out first. -/
theorem Reachable.removeWildcard_comm (reachable : session.Reachable) {one other : Occurrence}
    (apart : ¬ (one.entry = other.entry ∧ one.cell = other.cell)) {index indexToo : Nat}
    (here : Motif.wildcardAt? session.motif.entries one = some index)
    (there : Motif.wildcardAt? session.motif.entries other = some indexToo) :
    ∃ left right both,
      session.apply (.removeWildcard one.entry one.cell one.segment) = .ok (.updated left) ∧
      left.apply (.removeWildcard other.entry other.cell other.segment) = .ok (.updated both) ∧
      session.apply (.removeWildcard other.entry other.cell other.segment) = .ok (.updated right) ∧
      right.apply (.removeWildcard one.entry one.cell one.segment) = .ok (.updated both) := by
  have sound := reachable.sound
  obtain ⟨left, right, both, takenOne, takenOther, takenOtherFirst, takenOneSecond⟩ :=
    sound.booked.removeWildcard_comm (fun _ _ _ => sound.cell_fits) apart here there
  have appliedOne := sound.apply_removeWildcard takenOne
  have appliedOther := sound.apply_removeWildcard takenOtherFirst
  have soundLeft := (reachable.apply (by exact trivial) appliedOne).sound
  have soundRight := (reachable.apply (by exact trivial) appliedOther).sound
  exact ⟨_, _, _, appliedOne, soundLeft.apply_removeWildcard takenOther, appliedOther,
    soundRight.apply_removeWildcard takenOneSecond⟩

/-- Removals at different places of a reachable session commute. Two entries go in either order, the
second named by its place once the first has gone, with the same session left, or none where there
were no others. Two wildcards go in either order where they are in different cells. -/
theorem Reachable.removals_commute (reachable : session.Reachable) :
    (∀ first second, first < second → second < session.motif.entries.length →
      ∃ left right outcome,
        session.apply (.removeEntry first) = .ok (.updated left) ∧
        left.apply (.removeEntry (second - 1)) = .ok outcome ∧
        session.apply (.removeEntry second) = .ok (.updated right) ∧
        right.apply (.removeEntry first) = .ok outcome ∧
        (outcome = .closed ↔ session.motif.entries.length = 2)) ∧
    ∀ (one other : Occurrence) (index indexToo : Nat),
      ¬ (one.entry = other.entry ∧ one.cell = other.cell) →
      Motif.wildcardAt? session.motif.entries one = some index →
      Motif.wildcardAt? session.motif.entries other = some indexToo →
      ∃ left right both,
        session.apply (.removeWildcard one.entry one.cell one.segment) = .ok (.updated left) ∧
        left.apply (.removeWildcard other.entry other.cell other.segment) = .ok (.updated both) ∧
        session.apply (.removeWildcard other.entry other.cell other.segment) =
          .ok (.updated right) ∧
        right.apply (.removeWildcard one.entry one.cell one.segment) = .ok (.updated both) :=
  ⟨fun _ _ ordered inside => reachable.removeEntry_comm ordered inside,
    fun _ _ _ _ apart here there => reachable.removeWildcard_comm apart here there⟩

/-- Three entries, of which the first and the last share a wildcard. They can be removed in either
order, and so can one wildcard of each. -/
theorem removals_of_a_shared_wildcard :
    ∃ session withoutFirst withoutLast left right both : Session,
    session.motif.entries.map Entry.cells =
      [[⟨[.wildcard 0 "a", .wildcard 1 "12"]⟩], [⟨[.text "b"]⟩],
        [⟨[.text "c", .wildcard 1 "12", .text "-7"]⟩]] ∧
    (∃ outcome, session.apply (.removeEntry 0) = .ok (.updated withoutFirst) ∧
      withoutFirst.apply (.removeEntry 1) = .ok outcome ∧
      session.apply (.removeEntry 2) = .ok (.updated withoutLast) ∧
      withoutLast.apply (.removeEntry 0) = .ok outcome) ∧
    session.apply (.removeWildcard 0 0 1) = .ok (.updated left) ∧
    left.apply (.removeWildcard 2 0 1) = .ok (.updated both) ∧
    session.apply (.removeWildcard 2 0 1) = .ok (.updated right) ∧
    right.apply (.removeWildcard 0 0 1) = .ok (.updated both) := by
  have fits : TextsFit [["a12"], ["b"], ["c12-7"]] := by
    unfold TextsFit
    decide
  obtain ⟨opened, first, second, session, isOpened, isFirst, isSecond, isSession, cells, several,
      here, there⟩ : ∃ opened first second session : Session,
        start [⟨"m", .string⟩] [.content] [["a12"], ["b"], ["c12-7"]] {} = .ok opened ∧
        opened.apply (.createWildcard ⟨0, 0, ⟨0, 0, 1⟩⟩) = .ok (.updated first) ∧
        first.apply (.createWildcard ⟨2, 0, ⟨0, 1, 3⟩⟩) = .ok (.updated second) ∧
        second.apply (.useWildcard 1 ⟨0, 0, ⟨1, 0, 2⟩⟩) = .ok (.updated session) ∧
        session.motif.entries.map Entry.cells =
          [[⟨[.wildcard 0 "a", .wildcard 1 "12"]⟩], [⟨[.text "b"]⟩],
            [⟨[.text "c", .wildcard 1 "12", .text "-7"]⟩]] ∧
        session.motif.entries.length = 3 ∧
        Motif.wildcardAt? session.motif.entries ⟨0, 0, 1⟩ = some 1 ∧
        Motif.wildcardAt? session.motif.entries ⟨2, 0, 1⟩ = some 1 :=
    ⟨_, _, _, _, rfl, rfl, rfl, rfl, rfl, rfl, rfl, rfl⟩
  have reachable : session.Reachable :=
    .apply (.apply (.apply (.start fits isOpened) (by exact trivial) isFirst) (by exact trivial)
      isSecond) (by exact trivial) isSession
  obtain ⟨entries, wildcards⟩ := reachable.removals_commute
  obtain ⟨withoutFirst, withoutLast, outcome, removedFirst, thenSecond, removedSecond, thenFirst,
    -⟩ := entries 0 2 (by omega) (by omega)
  obtain ⟨left, right, both, takenOne, thenOther, takenOther, thenOne⟩ :=
    wildcards ⟨0, 0, 1⟩ ⟨2, 0, 1⟩ 1 1 (by simp) here there
  exact ⟨session, withoutFirst, withoutLast, left, right, both, cells,
    ⟨outcome, removedFirst, thenSecond, removedSecond, thenFirst⟩, takenOne, thenOther,
    takenOther, thenOne⟩

end Session

end LogMotif
