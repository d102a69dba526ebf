import LogMotif.Proofs.Motif.Appending
import LogMotif.Proofs.Session.Links

/-! # Appending rows to a session

Rows that fit the columns are never refused. Rows that are appended in parts are appended as if they
had come at once, and those that are there already change nothing.
-/

namespace LogMotif

namespace Session

variable {session : Session}

/-- Rows that fit the columns are appended, however large they are. -/
private theorem apply_appendRows {rows : List (List String)}
    (shaped : ∀ entry ∈ session.motif.entries, entry.IsShaped session.headers.length)
    (booked : session.motif.Booked) (fitting : ∀ row ∈ rows, row.length = session.headers.length) :
    session.apply (.appendRows rows) =
      .ok (.updated (session.withMotif (session.motif.appendRows session.roles rows))) := by
  have checked := Corpus.checkRows_eq_ok_iff.mpr fitting
  exact apply_eq_ok_updated_iff.mpr ⟨bind_eq_ok_iff.mpr ⟨(), checked, rfl⟩,
    inconsistency?_eq_none ((Edit.appendRows fitting).shaped shaped) (booked.appendRows _ _)⟩

/-- Rows can be appended to a reachable session in two parts or at once, and appending them again
changes nothing. The entries of the session stay, but for the link of the last one, which comes to
allow all distances if rows follow; and what follows are the rows that are the source of no entry,
each at its first place. -/
theorem Reachable.appendRows_incremental (reachable : session.Reachable)
    (first second : List (List String))
    (fitting : ∀ row ∈ first ++ second, row.length = session.headers.length) :
    ∃ middle final,
      session.apply (.appendRows first) = .ok (.updated middle) ∧
      middle.apply (.appendRows second) = .ok (.updated final) ∧
      session.apply (.appendRows (first ++ second)) = .ok (.updated final) ∧
      middle.apply (.appendRows first) = .ok (.updated middle) ∧
      Motif.Continues session.roles (unseen (session.motif.entries.map Entry.source) first)
        session.motif middle.motif := by
  have sound := reachable.sound
  obtain ⟨links, linked, -⟩ := reachable.exists_linkedBy
  obtain ⟨fittingFirst, fittingSecond⟩ := List.forall_mem_append.mp fitting
  let middle := session.withMotif (session.motif.appendRows session.roles first)
  have shaped : ∀ entry ∈ middle.motif.entries, entry.IsShaped middle.headers.length :=
    (Edit.appendRows fittingFirst).shaped sound.shaped
  have booked : middle.motif.Booked := sound.booked.appendRows session.roles first
  have appendedToo (rows : List (List String))
      (fits : ∀ row ∈ rows, row.length = session.headers.length) :
      middle.apply (.appendRows rows) =
        .ok (.updated (session.withMotif (session.motif.appendRows session.roles (first ++ rows)))) := by
    rw [← Motif.appendRows_appendRows linked]
    exact apply_appendRows shaped booked fits
  refine ⟨middle, _, apply_appendRows sound.shaped sound.booked fittingFirst,
    appendedToo second fittingSecond, apply_appendRows sound.shaped sound.booked fitting, ?_,
    Motif.continues_appendRows linked session.roles first⟩
  rw [appendedToo first fittingFirst, Motif.appendRows_append_self linked]

/-- Rows with repetitions, in part already there, appended to two entries with a wildcard. -/
theorem appendRows_of_repeated_rows : ∃ session middle final : Session,
    session.motif.entries.map Entry.cells = [[⟨[.text "a", .wildcard 0 "12"]⟩], [⟨[.text "b"]⟩]] ∧
    session.apply (.appendRows [["b"], ["c"], ["c"]]) = .ok (.updated middle) ∧
    middle.apply (.appendRows [["c"], ["a12"], ["d"]]) = .ok (.updated final) ∧
    session.apply (.appendRows [["b"], ["c"], ["c"], ["c"], ["a12"], ["d"]]) =
      .ok (.updated final) ∧
    middle.apply (.appendRows [["b"], ["c"], ["c"]]) = .ok (.updated middle) ∧
    middle.motif.entries.map Entry.source = [["a12"], ["b"], ["c"]] := by
  have fits : TextsFit [["a12"], ["b"]] := by
    unfold TextsFit
    decide
  obtain ⟨opened, session, isOpened, isSession, cells, sources, width⟩ :
      ∃ opened session : Session,
        start [⟨"m", .string⟩] [.content] [["a12"], ["b"]] {} = .ok opened ∧
        opened.apply (.createWildcard ⟨0, 0, ⟨0, 1, 3⟩⟩) = .ok (.updated session) ∧
        session.motif.entries.map Entry.cells =
          [[⟨[.text "a", .wildcard 0 "12"]⟩], [⟨[.text "b"]⟩]] ∧
        session.motif.entries.map Entry.source = [["a12"], ["b"]] ∧ session.headers.length = 1 :=
    ⟨_, _, rfl, rfl, rfl, rfl, rfl⟩
  have reachable : session.Reachable := .apply (.start fits isOpened) (by exact trivial) isSession
  obtain ⟨middle, final, first, second, both, again, continues⟩ :=
    reachable.appendRows_incremental [["b"], ["c"], ["c"]] [["c"], ["a12"], ["d"]]
      (by rw [width]; decide)
  refine ⟨session, middle, final, cells, first, second, both, again, ?_⟩
  rw [continues.sources_eq, sources]
  rfl

end Session

end LogMotif
