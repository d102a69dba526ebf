import LogMotif.Proofs.Session.Soundness

/-! # The texts of cells

Whatever wildcards are put into the cells of a session and taken out again, each cell still joins to
the text of its source row. Its segments are in normal form: text is cut at wildcards only, and no
segment is empty, except in the cell of an empty text, which is one empty segment.
-/

namespace LogMotif

namespace Cell

variable {text : String} {cell : Cell}

/-- Plain text is not cut where no wildcard is. -/
private theorem IsSplitOf.not_adjacent (split : cell.IsSplitOf text) (k : Nat)
    (left right : String) :
    ¬ (cell.segments[k]? = some (.text left) ∧ cell.segments[k + 1]? = some (.text right)) := by
  rintro ⟨isLeft, isRight⟩
  obtain ⟨inside, here⟩ := List.getElem?_eq_some_iff.mp isLeft
  obtain ⟨next, there⟩ := List.getElem?_eq_some_iff.mp isRight
  have borders := split.bordered.getElem k next
  rw [here, there] at borders
  simp [Segment.Borders, Segment.wildcard?] at borders

/-- Only the cell of an empty text has an empty segment. -/
private theorem IsSplitOf.lone_of_mem_empty (split : cell.IsSplitOf text)
    (member : .text "" ∈ cell.segments) : text = "" ∧ cell.segments = [.text ""] := by
  rcases split.filled with lone | filled
  · refine ⟨?_, lone⟩
    rw [← split.content_eq, content, lone]
    rfl
  · exact absurd rfl (filled _ member)

end Cell

namespace Session

variable {session : Session}

/-- In a reachable session every cell joins to the text of its source row and is split in normal
form: into one segment at least, never between two plain texts, into wildcards that stand for some
text, and into plain texts that are not empty unless the whole cell is. -/
theorem Reachable.cells_split_source_texts (reachable : session.Reachable) {entry : Entry}
    (member : entry ∈ session.motif.entries) :
    entry.cells.length = entry.source.length ∧
    ∀ (column : Nat) (cell : Cell), entry.cells[column]? = some cell →
      ∃ text, entry.source[column]? = some text ∧ cell.content = text ∧ cell.segments ≠ [] ∧
        (∀ (k : Nat) (left right : String),
          ¬ (cell.segments[k]? = some (.text left) ∧ cell.segments[k + 1]? = some (.text right))) ∧
        (∀ (index : Nat) (content : String),
          .wildcard index content ∈ cell.segments → content ≠ "") ∧
        ∀ content : String, .text content ∈ cell.segments →
          content ≠ "" ∨ (text = "" ∧ cell.segments = [.text ""]) := by
  have shaped := reachable.sound.shaped entry member
  refine ⟨shaped.splits.length_eq.symm, fun column cell isCell => ?_⟩
  obtain ⟨text, isText, split⟩ := exists_of_forall₂_of_getElem? shaped.splits isCell
  refine ⟨text, isText, split.content_eq, split.nonempty, split.not_adjacent,
    fun index content => split.wildcard_ne, fun content inCell => ?_⟩
  by_cases empty : content = ""
  · subst empty
    exact .inr (split.lone_of_mem_empty inCell)
  · exact .inl empty

/-- A cell with two wildcards, of which one has been taken out and another put in across the place
where it ended. -/
theorem cell_split_again_keeps_text : ∃ (session : Session) (entry : Entry) (cell : Cell),
    session.Reachable ∧ session.motif.entries = [entry] ∧ entry.source = ["añb→12", ""] ∧
      entry.cells = [cell, ⟨[.text ""]⟩] ∧
      cell.segments = [.text "añ", .wildcard 1 "b→", .wildcard 0 "12"] ∧
      cell.content = "añb→12" := by
  have fits : TextsFit [["añb→12", ""]] := by
    unfold TextsFit
    decide
  obtain ⟨opened, once, twice, removed, session, isOpened, isOnce, isTwice, isRemoved, isSession,
      entries_eq⟩ : ∃ opened once twice removed session : Session,
        start [⟨"m", .string⟩, ⟨"n", .string⟩] [.content, .content] [["añb→12", ""]] {} =
          .ok opened ∧
        opened.apply (.createWildcard ⟨0, 0, ⟨0, 1, 3⟩⟩) = .ok (.updated once) ∧
        once.apply (.createWildcard ⟨0, 0, ⟨2, 1, 3⟩⟩) = .ok (.updated twice) ∧
        twice.apply (.removeWildcard 0 0 1) = .ok (.updated removed) ∧
        removed.apply (.createWildcard ⟨0, 0, ⟨0, 2, 4⟩⟩) = .ok (.updated session) ∧
        session.motif.entries = [⟨["añb→12", ""],
          [⟨[.text "añ", .wildcard 1 "b→", .wildcard 0 "12"]⟩, ⟨[.text ""]⟩], [true, true], none⟩] :=
    ⟨_, _, _, _, _, rfl, rfl, rfl, rfl, rfl, rfl⟩
  have reachable : session.Reachable :=
    .apply (.apply (.apply (.apply (.start fits isOpened) (by exact trivial) isOnce)
      (by exact trivial) isTwice) (by exact trivial) isRemoved) (by exact trivial) isSession
  have member := entries_eq ▸ List.mem_singleton_self _
  obtain ⟨text, isText, content_eq, -⟩ :=
    (reachable.cells_split_source_texts member).2 0 _ rfl
  obtain rfl := Option.some.inj isText
  exact ⟨session, _, _, reachable, entries_eq, rfl, rfl, rfl, content_eq⟩

end Session

end LogMotif
