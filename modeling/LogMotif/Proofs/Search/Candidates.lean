import LogMotif.Proofs.Search.Alike

/-! # Candidates

The rows that an entry is tried on are those whose line its prefilter finds, where each occurrence
of a wildcard may stand for any stretch. Nothing that the entry could match is left out: it does not
matter whether a wildcard is captured, recalled, or given as a value, as long as the values are
stretches.
-/

namespace LogMotif

open LineItem (IsStretch)

namespace EntryTemplate

theorem mem_candidateRows_iff {template : EntryTemplate} {corpus : Corpus} {row : Nat} :
    row ∈ template.candidateRows corpus ↔
      ∃ line, corpus.line? row = some line ∧ (template.prefilter.find? line).isSome := by
  simp only [candidateRows, List.mem_filter, List.mem_range, Option.any_eq_true]
  refine and_iff_right_of_imp ?_
  rintro ⟨line, isLine, -⟩
  exact Corpus.lt_rowCount_of_line? isLine

/-- Candidates come in ascending order, each once. -/
theorem pairwise_candidateRows (template : EntryTemplate) (corpus : Corpus) :
    (template.candidateRows corpus).Pairwise (· < ·) :=
  List.pairwise_lt_range.sublist List.filter_sublist

/-- The prefilter of an entry finds every line that the entry matches for some stretches as the
values of its bound wildcards. -/
private theorem isSome_find?_of_match? {captured : List Nat} {items : List TemplateItem}
    {values : List String} {line : String} {taken : Captures}
    (length_eq : values.length = (ofItems captured items).bound.length)
    (given : ∀ content ∈ values, IsStretch content.toList)
    (matched : ((ofItems captured items).linePattern values).match? line = some taken) :
    ((ofItems captured items).prefilter.find? line).isSome := by
  obtain ⟨assigned, ⟨stretches, spells⟩, -⟩ := exists_fills_of_match? length_eq matched
  exact isSome_find?_prefilter spells fun _ => isStretch_valueFor length_eq given stretches

end EntryTemplate

namespace Query

private theorem linePattern_of_getElem? {query : Query} {i : Nat} {template : EntryTemplate}
    (isTemplate : query.entries[i]? = some template) (values : List String) :
    query.linePattern i values = .ok (template.linePattern values) := by
  rw [linePattern, isTemplate]

/-- The candidates of an entry ascend, and among them is each row whose line the entry matches,
within any budget or without one, for some stretches as the values of its bound wildcards. -/
theorem mem_candidateRows_of_linePattern {headers : List Header} {roles : List ColumnRole}
    {motif : Motif} {budget : Nat} {query : Query}
    (compiled : compile headers roles motif budget = .ok query) {i : Nat} {template : EntryTemplate}
    (isTemplate : query.entries[i]? = some template) (corpus : Corpus) :
    (template.candidateRows corpus).Pairwise (· < ·) ∧
      ∀ values : List String, values.length = template.bound.length →
        (∀ content ∈ values, IsStretch content.toList) →
        ∃ pattern, query.linePattern i values = .ok pattern ∧
          ∀ row line, corpus.line? row = some line →
            ((∃ limit taken, pattern.attempt limit line = .found taken) ∨
              (pattern.match? line).isSome) →
            row ∈ template.candidateRows corpus := by
  obtain ⟨-, -, -, -, rfl⟩ := compile_eq_ok_iff.mp compiled
  obtain ⟨_, captured, -, rfl, -⟩ := exists_ofItems_of_getElem?_templates isTemplate
  refine ⟨EntryTemplate.pairwise_candidateRows _ corpus, fun values length_eq given => ?_⟩
  refine ⟨_, linePattern_of_getElem? isTemplate values, fun row line isLine matched => ?_⟩
  obtain ⟨taken, matched⟩ : ∃ taken, LinePattern.match? _ line = some taken := by
    rcases matched with ⟨limit, taken, found⟩ | matched
    · exact ⟨taken, LinePattern.match?_of_attempt_eq_found found⟩
    · exact Option.isSome_iff_exists.mp matched
  exact EntryTemplate.mem_candidateRows_iff.mpr
    ⟨line, isLine, EntryTemplate.isSome_find?_of_match? length_eq given matched⟩

/-- The second of two entries that share a wildcard, with an escaped slash as its value. -/
theorem mem_candidateRows_of_escaped_slash :
    let motif : Motif := ⟨[⟨["a"], [⟨[.wildcard 0 "a"]⟩], [true], some .any⟩,
      ⟨["ab"], [⟨[.wildcard 0 "a", .wildcard 1 "b"]⟩], [true], none⟩],
      [⟨[⟨0, 0, 0⟩, ⟨1, 0, 0⟩]⟩, ⟨[⟨1, 0, 1⟩]⟩]⟩
    let corpus := Corpus.ofText "\x7b\"m\":\"b\"\x7d\n\x7b\"m\":\"\\/b\"\x7d\n"
    ∃ query template pattern, compile [⟨"m", .string⟩] [.content] motif 10 = .ok query ∧
      query.entries[1]? = some template ∧ template.bound = [0] ∧ IsStretch "\\/".toList ∧
      query.linePattern 1 ["\\/"] = .ok pattern ∧
      (∃ line, corpus.line? 1 = some line ∧ (pattern.match? line).isSome) ∧
      1 ∈ template.candidateRows corpus := by
  intro motif corpus
  obtain ⟨query, template, pattern, compiled, isTemplate, bound, isPattern, matched⟩ :
      ∃ query template pattern, compile [⟨"m", .string⟩] [.content] motif 10 = .ok query ∧
        query.entries[1]? = some template ∧ template.bound = [0] ∧
        query.linePattern 1 ["\\/"] = .ok pattern ∧
        (pattern.match? "\x7b\"m\":\"\\/b\"\x7d").isSome :=
    ⟨_, _, _, rfl, rfl, rfl, rfl, rfl⟩
  have isLine : corpus.line? 1 = some "\x7b\"m\":\"\\/b\"\x7d" := by decide +kernel
  have stretch : IsStretch "\\/".toList := ⟨by decide, .escaped (by decide) .nil⟩
  obtain ⟨-, covers⟩ := mem_candidateRows_of_linePattern compiled isTemplate corpus
  obtain ⟨_, same, covers⟩ :=
    covers ["\\/"] (by rw [bound]; rfl) (List.forall_mem_singleton.mpr stretch)
  obtain rfl := Except.ok.inj (isPattern.symm.trans same)
  exact ⟨query, template, pattern, compiled, isTemplate, bound, stretch, isPattern,
    ⟨_, isLine, matched⟩, covers 1 _ isLine (.inr matched)⟩

end Query

end LogMotif
