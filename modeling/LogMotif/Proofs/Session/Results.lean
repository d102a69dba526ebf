import Mathlib
import LogMotif.Proofs.Search.Assignment
import LogMotif.Proofs.Session.Reachable

/-! # The results of a session

The results that a session holds are those of searching the last corpus for the motif as it is now:
an edit drops them, and an action that finds nothing to change, or a move of the cursor, keeps the
motif. The cursor stays on a match as long as there is one.
-/

namespace LogMotif

/-- Whether a cursor is on one of so many matches, or nowhere if there are none. -/
structure Cursor.IsOn (count : Nat) (cursor : Cursor) : Prop where
  total_eq : cursor.total = count
  nowhere : count = 0 → cursor.current = none
  somewhere : 0 < count → ∃ index < count, cursor.current = some index

namespace Cursor

variable {count : Nat} {cursor : Cursor}

private theorem isOn_start (count : Nat) : IsOn count (start count) := by
  refine ⟨rfl, fun empty => ?_, fun filled => ⟨0, filled, ?_⟩⟩
  · simp [start, empty]
  · simp [start, Nat.ne_of_gt filled]

/-- A step that keeps the total, and stays among the matches where it starts there. -/
private theorem IsOn.step {change : Nat → Nat} (isOn : cursor.IsOn count)
    (inside : ∀ index < count, change index < count) :
    IsOn count { cursor with current := cursor.current.map change } := by
  refine ⟨isOn.total_eq, fun empty => ?_, fun filled => ?_⟩
  · simp [isOn.nowhere empty]
  · obtain ⟨index, before, here⟩ := isOn.somewhere filled
    exact ⟨change index, inside index before, by simp [here]⟩

private theorem IsOn.next (isOn : cursor.IsOn count) : cursor.next.IsOn count := by
  refine isOn.step fun index before => ?_
  rw [isOn.total_eq]
  split <;> omega

private theorem IsOn.previous (isOn : cursor.IsOn count) : cursor.previous.IsOn count := by
  refine isOn.step fun index before => ?_
  rw [isOn.total_eq]
  split <;> omega

end Cursor

namespace Results

variable {results : Results}

private theorem currentMatch?_eq_bind (results : Results) :
    results.currentMatch? = results.cursor.current.bind (results.found.list[·]?) := rfl

theorem mem_of_currentMatch? {found : Match} (here : results.currentMatch? = some found) :
    found ∈ results.found.list := by
  obtain ⟨index, -, here⟩ := Option.bind_eq_some_iff.mp here
  exact List.mem_of_getElem? here

/-- A cursor that is on a match shows one. -/
theorem isSome_currentMatch?_iff (isOn : results.cursor.IsOn results.found.count) :
    results.currentMatch?.isSome ↔ 0 < results.found.count := by
  rw [currentMatch?_eq_bind]
  constructor
  · intro shown
    by_contra empty
    simp [isOn.nowhere (Nat.eq_zero_of_not_pos empty)] at shown
  · intro filled
    obtain ⟨index, before, here⟩ := isOn.somewhere filled
    simpa [here, Matches.count] using before

end Results

namespace Session

variable {session : Session}

/-- The sessions that are reached from an opened one, with the corpus that was searched last, if one
has been searched. -/
inductive ReachedAfter : Session → Option Corpus → Prop
  | start {headers : List Header} {roles : List ColumnRole} {rows : List (List String)}
      {options : SessionOptions} {session : Session} (fits : TextsFit rows)
      (opened : Session.start headers roles rows options = .ok session) : ReachedAfter session none
  | apply {session next : Session} {searched : Option Corpus} {action : Action}
      (reached : ReachedAfter session searched) (fits : action.Fits)
      (applied : session.apply action = .ok (.updated next)) : ReachedAfter next searched
  | search {session next : Session} {before : Option Corpus} {corpus : Corpus}
      (reached : ReachedAfter session before) (searched : session.search corpus = .ok next) :
      ReachedAfter next (some corpus)
  | nextMatch {session : Session} {searched : Option Corpus}
      (reached : ReachedAfter session searched) : ReachedAfter session.nextMatch searched
  | previousMatch {session : Session} {searched : Option Corpus}
      (reached : ReachedAfter session searched) : ReachedAfter session.previousMatch searched

/-- Every reachable session is reached with some corpus searched last, or none. -/
theorem reachable_iff_exists_reachedAfter :
    session.Reachable ↔ ∃ searched, session.ReachedAfter searched := by
  constructor
  · intro reachable
    induction reachable with
    | start fits opened => exact ⟨_, .start fits opened⟩
    | apply _ fits applied ih =>
      obtain ⟨searched, reached⟩ := ih
      exact ⟨searched, .apply reached fits applied⟩
    | search _ searched ih =>
      obtain ⟨before, reached⟩ := ih
      exact ⟨_, .search reached searched⟩
    | nextMatch _ ih =>
      obtain ⟨searched, reached⟩ := ih
      exact ⟨searched, .nextMatch reached⟩
    | previousMatch _ ih =>
      obtain ⟨searched, reached⟩ := ih
      exact ⟨searched, .previousMatch reached⟩
  · rintro ⟨searched, reached⟩
    induction reached with
    | start fits opened => exact .start fits opened
    | apply _ fits applied ih => exact .apply ih fits applied
    | search _ searched ih => exact .search ih searched
    | nextMatch _ ih => exact .nextMatch ih
    | previousMatch _ ih => exact .previousMatch ih

/-- Whether the results of a session, if it has any, are those of searching the given corpus for its
motif, with the cursor on one of them. -/
def IsCurrent (session : Session) (searched : Option Corpus) : Prop :=
  ∀ results, session.results = some results → ∃ corpus query, searched = some corpus ∧
    session.compile = .ok query ∧ results.found = query.search corpus ∧
      results.cursor.IsOn results.found.count

private theorem IsCurrent.moveCursor {searched : Option Corpus} {step : Cursor → Cursor}
    (current : session.IsCurrent searched)
    (stays : ∀ {count cursor}, Cursor.IsOn count cursor → (step cursor).IsOn count) :
    (session.moveCursor step).IsCurrent searched := by
  intro results present
  obtain ⟨before, isBefore, rfl⟩ := Option.map_eq_some_iff.mp present
  obtain ⟨corpus, query, isLast, compiled, found, isOn⟩ := current before isBefore
  exact ⟨corpus, query, isLast, compiled, found, stays isOn⟩

/-- However searches, edits and moves of the cursor follow one another, the results are current. -/
theorem ReachedAfter.isCurrent {searched : Option Corpus} (reached : session.ReachedAfter searched) :
    session.IsCurrent searched := by
  induction reached with
  | start _ opened =>
    obtain ⟨-, -, -, rfl⟩ := start_eq_ok_iff.mp opened
    rintro results ⟨⟩
  | apply _ _ applied ih =>
    rcases edit_of_perform (apply_eq_ok_updated_iff.mp applied).1 with ⟨rfl, -⟩ | ⟨motif, rfl, -⟩
    · exact ih
    · rintro results ⟨⟩
  | search _ searched ih =>
    obtain ⟨query, compiled, searched⟩ := bind_eq_ok_iff.mp searched
    obtain rfl := Except.ok.inj searched
    rintro results ⟨⟩
    exact ⟨_, query, rfl, compiled, rfl, Cursor.isOn_start _⟩
  | nextMatch _ ih => exact ih.moveCursor Cursor.IsOn.next
  | previousMatch _ ih => exact ih.moveCursor Cursor.IsOn.previous

/-- The results that a session holds are what searching the corpus searched last for its motif gives
now. The cursor counts these matches and is on one of them, if there are any; then there is a match
to show, and it has one row for each entry. -/
theorem ReachedAfter.results_eq_search {searched : Option Corpus}
    (reached : session.ReachedAfter searched) {results : Results}
    (present : session.results = some results) :
    (∃ corpus query, searched = some corpus ∧ session.compile = .ok query ∧
      results.found = query.search corpus) ∧
    results.cursor.total = results.found.count ∧
    (results.found.count = 0 → results.cursor.current = none) ∧
    (0 < results.found.count → ∃ index < results.found.count,
      results.cursor.current = some index) ∧
    (results.currentMatch?.isSome ↔ 0 < results.found.count) ∧
    ∀ found, results.currentMatch? = some found →
      found ∈ results.found.list ∧ found.length = session.motif.entries.length := by
  obtain ⟨corpus, query, isLast, compiled, found_eq, isOn⟩ := reached.isCurrent results present
  refine ⟨⟨corpus, query, isLast, compiled, found_eq⟩, isOn.total_eq, isOn.nowhere, isOn.somewhere,
    Results.isSome_currentMatch?_iff isOn, fun found shown => ?_⟩
  have listed := Results.mem_of_currentMatch? shown
  refine ⟨listed, ?_⟩
  rw [found_eq] at listed
  rw [Query.length_of_mem_list compiled listed]
  obtain ⟨-, -, -, -, rfl⟩ := Query.compile_eq_ok_iff.mp compiled
  exact Query.length_templates ..

/-- A session that is searched, edited, searched again in another log, left as it is by an action that
finds nothing to change, and moved to the previous match. -/
theorem results_after_second_search :
    ∃ (opened early edited late session : Session) (first second : Corpus) (results : Results),
      start [⟨"m", .string⟩] [.content] [["a"]] {} = .ok opened ∧
      Corpus.ofRows opened.headers opened.roles [["a"]] = .ok first ∧
      opened.search first = .ok early ∧
      early.nextMatch.apply (.createWildcard ⟨0, 0, ⟨0, 0, 1⟩⟩) = .ok (.updated edited) ∧
      Corpus.ofRows opened.headers opened.roles [["b"], ["c"]] = .ok second ∧
      edited.search second = .ok late ∧
      late.apply (.createWildcard ⟨0, 0, ⟨0, 0, 1⟩⟩) = .ok (.updated session) ∧
      session.previousMatch.results = some results ∧ results.currentMatch? = some [1] ∧
      ∃ query, session.previousMatch.compile = .ok query ∧ results.found = query.search second := by
  obtain ⟨opened, early, edited, late, session, first, second, results, isOpened, isFirst, isEarly,
      isEdited, isSecond, isLate, isSession, present, shown⟩ :
      ∃ (opened early edited late session : Session) (first second : Corpus) (results : Results),
        start [⟨"m", .string⟩] [.content] [["a"]] {} = .ok opened ∧
        Corpus.ofRows opened.headers opened.roles [["a"]] = .ok first ∧
        opened.search first = .ok early ∧
        early.nextMatch.apply (.createWildcard ⟨0, 0, ⟨0, 0, 1⟩⟩) = .ok (.updated edited) ∧
        Corpus.ofRows opened.headers opened.roles [["b"], ["c"]] = .ok second ∧
        edited.search second = .ok late ∧
        late.apply (.createWildcard ⟨0, 0, ⟨0, 0, 1⟩⟩) = .ok (.updated session) ∧
        session.previousMatch.results = some results ∧ results.currentMatch? = some [1] :=
    ⟨_, _, _, _, _, _, _, _, rfl, rfl, rfl, rfl, rfl, rfl, rfl, rfl, by cbv⟩
  have fits : TextsFit [["a"]] := by
    unfold TextsFit
    decide
  have reached : session.previousMatch.ReachedAfter (some second) :=
    .previousMatch (.apply (.search (.apply (.nextMatch (.search (.start fits isOpened) isEarly))
      (by exact trivial) isEdited) isLate) (by exact trivial) isSession)
  obtain ⟨corpus, query, isLast, compiled, found⟩ := (reached.results_eq_search present).1
  obtain rfl := Option.some.inj isLast
  exact ⟨opened, early, edited, late, session, first, second, results, isOpened, isFirst, isEarly,
    isEdited, isSecond, isLate, isSession, present, shown, query, compiled, found⟩

end Session

end LogMotif
