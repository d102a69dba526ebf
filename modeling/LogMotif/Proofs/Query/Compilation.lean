import LogMotif.Proofs.Corpus.Rows
import LogMotif.Proofs.Query.Spelling

/-! # What compilation accepts and builds

A motif is compiled exactly when it fits the columns, is not empty, and its cells agree with its
wildcards. The templates are made one behind the other: each binds the wildcards that an earlier one
has captured and defines the others that it holds.
-/

namespace LogMotif

namespace Query

/-- Templates of consecutive lines behind lines that have captured some wildcards. -/
inductive Threaded : List Nat → List EntryTemplate → Prop
  | nil (captured : List Nat) : Threaded captured []
  | cons {captured : List Nat} {items : List TemplateItem} {rest : List EntryTemplate}
      (threaded : Threaded (captured ++ (EntryTemplate.ofItems captured items).defined) rest) :
      Threaded captured (.ofItems captured items :: rest)

theorem threaded_templates (headers : List Header) (roles : List ColumnRole) (captured : List Nat)
    (entries : List Entry) : Threaded captured (templates headers roles captured entries) := by
  induction entries generalizing captured with
  | nil => exact .nil captured
  | cons entry entries ih => exact .cons (ih _)

@[simp]
theorem length_templates (headers : List Header) (roles : List ColumnRole) (captured : List Nat)
    (entries : List Entry) : (templates headers roles captured entries).length = entries.length := by
  induction entries generalizing captured with
  | nil => rfl
  | cons entry entries ih => simp [templates, ih]

@[simp]
theorem map_items_templates (headers : List Header) (roles : List ColumnRole) (captured : List Nat)
    (entries : List Entry) : (templates headers roles captured entries).map EntryTemplate.items =
      entries.map (TemplateItem.ofEntry headers roles) := by
  induction entries generalizing captured with
  | nil => rfl
  | cons entry entries ih =>
    rw [templates, List.map_cons, List.map_cons, ih]
    rfl

/-- A template is made from the entry in its place, behind the wildcards of the entries before it. -/
theorem exists_ofItems_of_getElem?_templates {headers : List Header} {roles : List ColumnRole}
    {captured : List Nat} {entries : List Entry} {k : Nat} {template : EntryTemplate}
    (here : (templates headers roles captured entries)[k]? = some template) :
    ∃ entry known, entries[k]? = some entry ∧
      template = .ofItems known (TemplateItem.ofEntry headers roles entry) ∧
      ∀ index, index ∈ known ↔ index ∈ captured ∨
        ∃ earlier ∈ entries.take k, .wildcard index ∈ TemplateItem.ofEntry headers roles earlier := by
  induction entries generalizing captured k with
  | nil => simp [templates] at here
  | cons first entries ih =>
    cases k with
    | zero =>
      obtain rfl := Option.some.inj here
      exact ⟨first, captured, rfl, rfl, by simp⟩
    | succ k =>
      obtain ⟨entry, known, isEntry, rfl, known_iff⟩ := ih here
      refine ⟨entry, known, isEntry, rfl, fun index => ?_⟩
      simp only [known_iff, List.take_succ_cons, List.mem_cons, exists_eq_or_imp, List.mem_append,
        EntryTemplate.mem_defined_iff]
      by_cases before : index ∈ captured <;> simp [before]

theorem checkEntries_eq_ok_iff {width : Nat} {entries : List Entry} :
    checkEntries width entries = .ok () ↔ ∀ entry ∈ entries, entry.cells.length = width := by
  have none_iff := @find?_zipIdx_eq_none_iff _ (·.cells.length != width) entries
  simp only [bne_eq_false_iff_eq] at none_iff
  rw [← none_iff]
  unfold checkEntries
  split
  next none => simpa using none
  next found => simp [found]

/-- When a motif is compiled, and to which query. -/
theorem compile_eq_ok_iff {headers : List Header} {roles : List ColumnRole} {motif : Motif}
    {budget : Nat} {query : Query} :
    compile headers roles motif budget = .ok query ↔
      headers.length = roles.length ∧ motif.entries ≠ [] ∧
        (∀ entry ∈ motif.entries, entry.cells.length = headers.length) ∧
        motif.inconsistency? = none ∧
        query = {
          entries := templates headers roles [] motif.entries
          links := motif.entries.dropLast.map fun entry => entry.link.getD .any
          wildcardCount := motif.wildcards.length
          budget := budget } := by
  rw [← checkEntries_eq_ok_iff]
  by_cases covered : headers.length = roles.length
  · by_cases empty : motif.entries = []
    · simp [compile, covered, empty, bind, Except.bind, throw, throwThe, MonadExceptOf.throw]
    · simp only [covered]
      cases fitting : checkEntries roles.length motif.entries with
      | error error => simp [compile, covered, empty, fitting, bind, Except.bind]
      | ok =>
        cases agree : motif.inconsistency? with
        | some error =>
          simp [compile, covered, empty, fitting, Motif.checkConsistency, agree, bind, Except.bind]
        | none =>
          simpa [compile, covered, empty, fitting, Motif.checkConsistency, agree, bind, Except.bind,
            pure, Except.pure] using eq_comm
  · simp [compile, covered, bind, Except.bind, throw, throwThe, MonadExceptOf.throw]

/-- A compiled motif has a first template, and a link to each of the others. -/
theorem exists_entries_of_compile {headers : List Header} {roles : List ColumnRole}
    {motif : Motif} {budget : Nat} {query : Query}
    (compiled : compile headers roles motif budget = .ok query) :
    ∃ first templates, query.entries = first :: templates ∧
      query.links.length = templates.length ∧ Threaded [] query.entries := by
  obtain ⟨-, filled, -, -, rfl⟩ := compile_eq_ok_iff.mp compiled
  obtain ⟨entry, entries, same⟩ := List.exists_cons_of_ne_nil filled
  refine ⟨_, _, by rw [same]; rfl, ?_, threaded_templates ..⟩
  simp [same]

end Query

end LogMotif
