import LogMotif.Proofs.Motif.Selections
import LogMotif.Proofs.Session.Compiling

/-! # The form of reachable sessions

However a session is edited, its entries stay in form: there is one at least, each has a text, a
cell and a flag for every column, no cell of a rule column is selected, and the entries are linked
one to the next. That is all that compiling and searching ask for, so neither fails.
-/

namespace LogMotif

namespace Session

variable {session : Session} {action : Action} {motif : Motif}

/-- The roles of the columns are fixed when the session opens. -/
theorem Reachable.covered (reachable : session.Reachable) :
    session.headers.length = session.roles.length := by
  refine reachable.invariant ?_ ?_ ?_
  · intro headers roles rows options opened _ isOpened
    obtain ⟨covered, -, -, rfl⟩ := start_eq_ok_iff.mp isOpened
    exact covered
  · exact fun covered _ _ => covered
  · exact fun _ _ covered => covered

/-- An edit selects no cell of a rule column. -/
theorem Edit.sparesRules (edit : session.Edit action motif)
    (spared : ∀ flags ∈ session.motif.entries.map Entry.selection, SparesRules session.roles flags) :
    ∀ flags ∈ motif.entries.map Entry.selection, SparesRules session.roles flags := by
  have kept (same : motif.entries.map Entry.selection = session.motif.entries.map Entry.selection) :
      ∀ flags ∈ motif.entries.map Entry.selection, SparesRules session.roles flags := same ▸ spared
  cases edit with
  | @appendRows rows =>
    obtain ⟨added, sublist, same⟩ :=
      Entry.exists_map_body_appendAll session.motif.entries (Entry.ofRows session.roles rows)
    have selections : (session.motif.appendRows session.roles rows).entries.map Entry.selection =
        (session.motif.entries ++ added).map Entry.selection :=
      Entry.map_of_map_body (fun _ => rfl) same
    rw [selections, List.map_append]
    refine List.forall_mem_append.mpr ⟨spared, fun flags member => ?_⟩
    obtain ⟨entry, isAdded, rfl⟩ := List.mem_map.mp member
    exact Entry.sparesRules_of_mem_ofRows (sublist.subset isAdded)
  | removeEntry edited =>
    obtain ⟨-, -, rfl⟩ := Motif.removeEntry_eq_ok_remaining_iff.mp edited
    rw [Entry.map_of_map_body (fun _ => rfl) (Entry.map_body_unlinkLast _),
      Motif.map_selection_renumber, ← List.eraseIdx_map]
    exact fun flags member => spared flags (List.mem_of_mem_eraseIdx member)
  | toggleCell edited => exact Motif.sparesRules_toggleCell edited spared
  | toggleLink edited =>
    obtain ⟨-, rfl⟩ := Motif.toggleLink_eq_ok_iff.mp edited
    refine kept ?_
    apply Entry.map_modify
    exact fun _ => rfl
  | setLink edited =>
    obtain ⟨-, -, rfl⟩ := Motif.setLink_eq_ok_iff.mp edited
    refine kept ?_
    apply Entry.map_modify
    exact fun _ => rfl
  | createWildcard edited => exact kept (Motif.map_selection_insertWildcard edited)
  | useWildcard edited => exact kept (Motif.map_selection_useWildcard edited)
  | createWildcardOverText _ edited => exact kept (Motif.map_selection_insertWildcard edited)
  | useWildcardOverText _ edited => exact kept (Motif.map_selection_useWildcard edited)
  | removeWildcard edited => exact kept (Motif.map_selection_removeWildcard edited)

theorem Reachable.sparesRules (reachable : session.Reachable) {entry : Entry}
    (member : entry ∈ session.motif.entries) : SparesRules session.roles entry.selection := by
  suffices spared : ∀ flags ∈ session.motif.entries.map Entry.selection,
      SparesRules session.roles flags from spared _ (List.mem_map_of_mem member)
  clear member
  refine reachable.invariant ?_ ?_ ?_
  · intro headers roles rows options opened _ isOpened
    obtain ⟨-, -, -, rfl⟩ := start_eq_ok_iff.mp isOpened
    intro flags isFlags
    obtain ⟨entry, lifted, rfl⟩ := List.mem_map.mp isFlags
    exact Entry.sparesRules_of_mem_ofRows lifted
  · exact fun spared _ edit => edit.sparesRules spared
  · exact fun _ _ spared => spared

/-- A reachable session is in form: it has an entry, each entry has one text, cell and flag for each
column and takes in no cell of a rule column, and exactly the last entry has no link. So it compiles,
to one template for each entry and one link for each entry but the last, and every corpus can be
searched for it. -/
theorem Reachable.formed_and_compiles (reachable : session.Reachable) :
    session.motif.entries ≠ [] ∧
    (∀ entry ∈ session.motif.entries, entry.source.length = session.headers.length ∧
      entry.cells.length = session.headers.length ∧
      entry.selection.length = session.headers.length ∧
      ∀ column : Nat, session.roles[column]? = some .rule →
        entry.selection[column]? = some false) ∧
    (∀ (i : Nat) (entry : Entry), session.motif.entries[i]? = some entry →
      (entry.link = none ↔ i + 1 = session.motif.entries.length)) ∧
    (∃ query, session.compile = .ok query ∧
      query.entries.length = session.motif.entries.length ∧
      query.links.length + 1 = session.motif.entries.length) ∧
    ∀ corpus, ∃ next, session.search corpus = .ok next := by
  obtain ⟨links, linked, -⟩ := reachable.exists_linkedBy
  have compiled := reachable.compile_eq_ok reachable.covered
  refine ⟨linked.ne_nil, fun entry member => ?_, fun i entry => linked.link_eq_none_iff,
    ⟨_, compiled, Query.length_templates .., ?_⟩, fun corpus => ?_⟩
  · have shaped := reachable.sound.shaped entry member
    refine ⟨shaped.source_length, shaped.cells_length, shaped.selection_length, ?_⟩
    intro column isRule
    have inside : column < entry.selection.length := by
      rw [shaped.selection_length, reachable.covered]
      exact (List.getElem?_eq_some_iff.mp isRule).1
    have spared := reachable.sparesRules member column isRule
    rw [List.getElem?_eq_getElem inside] at spared ⊢
    simpa using spared
  · simp only [linked.dropLast_eq, linked.length_eq]
  · exact ⟨_, bind_eq_ok_iff.mpr ⟨_, compiled, rfl⟩⟩

/-- A session to which rows were added, in which every cell that may be was selected, and from which
the last entry was removed. -/
theorem formed_after_removing_last : ∃ session : Session, session.Reachable ∧
    session.motif.entries.map Entry.selection = [[true, true, false], [true, false, false]] ∧
    session.motif.entries.map Entry.link = [some .any, none] ∧
    ∃ query, session.compile = .ok query ∧ query.entries.length = 2 ∧
      query.links.length + 1 = 2 := by
  have fits : TextsFit [["a", "1", "red"]] := by
    unfold TextsFit
    decide
  have fitsToo : TextsFit [["b", "2", ""], ["c", "3", ""]] := by
    unfold TextsFit
    decide
  obtain ⟨opened, longer, toggled, session, isOpened, isLonger, isToggled, isSession, selections,
      links⟩ : ∃ opened longer toggled session : Session,
        start [⟨"m", .string⟩, ⟨"t", .string⟩, ⟨"color", .string⟩] [.content, .timestamp, .rule]
          [["a", "1", "red"]] {} = .ok opened ∧
        opened.apply (.appendRows [["b", "2", ""], ["c", "3", ""]]) = .ok (.updated longer) ∧
        longer.apply (.toggleCell 0 0 true) = .ok (.updated toggled) ∧
        toggled.apply (.removeEntry 2) = .ok (.updated session) ∧
        session.motif.entries.map Entry.selection = [[true, true, false], [true, false, false]] ∧
        session.motif.entries.map Entry.link = [some .any, none] :=
    ⟨_, _, _, _, rfl, rfl, rfl, rfl, rfl, rfl⟩
  have reachable : session.Reachable :=
    .apply (.apply (.apply (.start fits isOpened) (by exact fitsToo) isLonger) (by exact trivial)
      isToggled) (by exact trivial) isSession
  have length_eq : session.motif.entries.length = 2 := by simpa using congrArg List.length links
  refine ⟨session, reachable, selections, links, ?_⟩
  rw [← length_eq]
  exact (Reachable.formed_and_compiles reachable).2.2.2.1

end Session

end LogMotif
