import Mathlib.Data.List.Sort
import LogMotif.Proofs.Query.Matching
import LogMotif.Proofs.Search.Budget

/-! # Corpora that look alike

Two corpora look alike to a query when its templates spell the same rows of both, whatever the
wildcards stand for. Then each entry captures the same texts in both: what it captures is told by
what it could capture, as it is shortest of that. So a search that stays within its budget finds the
same in both.
-/

namespace LogMotif

open LineItem (IsStretch)
open TemplateItem (SpellRow)

namespace EntryTemplate

variable {captured : List Nat} {items : List TemplateItem} {captures : Captures} {row : Nat}

theorem length_boundValues (template : EntryTemplate) (captures : Captures) :
    (Search.boundValues template captures).length = template.bound.length := List.length_map _

theorem isStretch_of_mem_boundValues (items : List TemplateItem) (hold : captures.Hold captured) :
    ∀ content ∈ Search.boundValues (ofItems captured items) captures, IsStretch content.toList := by
  intro content member
  obtain ⟨index, bound, rfl⟩ := List.mem_map.mp member
  obtain ⟨content, found, stretch⟩ := hold.exists_stretch index (mem_bound_iff.mp bound).2
  rwa [found, Option.getD_some]

section

variable {values : List String}
  (length_eq : values.length = (ofItems captured items).bound.length)

include length_eq

/-- Where the values of the bound wildcards are stretches, and so are the texts of the others, every
wildcard of the entry stands for a stretch. -/
theorem isStretch_valueFor (given : ∀ content ∈ values, IsStretch content.toList)
    {assigned : Nat → String}
    (stretches : ∀ index ∈ (ofItems captured items).defined, IsStretch (assigned index).toList)
    {index : Nat} (inItems : .wildcard index ∈ items) :
    IsStretch ((ofItems captured items).valueFor values assigned index).toList := by
  by_cases known : index ∈ captured
  · have bound := mem_bound_iff.mpr ⟨inItems, known⟩
    have value_eq : (ofItems captured items).boundValue? values index =
        some ((ofItems captured items).valueFor values assigned index) :=
      boundValue?_eq_valueFor length_eq bound
    obtain ⟨place, -, here⟩ := Option.bind_eq_some_iff.mp value_eq
    exact given _ (List.mem_of_getElem? here)
  · have defined := mem_defined_iff.mpr ⟨inItems, known⟩
    rw [valueFor_of_defined length_eq defined]
    exact stretches index defined

/-- Texts fill the line of a row when the template spells the row with them. -/
private theorem fills_iff_spellRow (given : ∀ content ∈ values, IsStretch content.toList)
    {corpus : Corpus} {line : String} (isLine : corpus.line? row = some line)
    {assigned : Nat → String} :
    (ofItems captured items).Fills values line assigned ↔
      SpellRow corpus ((ofItems captured items).valueFor values assigned) items row := by
  simp only [SpellRow, isLine, Option.some.injEq, exists_eq_left']
  refine and_congr_left fun _ =>
    ⟨fun stretches index => isStretch_valueFor length_eq given stretches,
      fun stretches index defined => ?_⟩
  have stretch := stretches index (mem_defined_iff.mp defined).1
  rwa [valueFor_of_defined length_eq defined] at stretch

end

/-- An entry captures the same at a row of two corpora if its template spells the row in both, or in
neither, whatever the wildcards stand for. -/
private theorem matchRow?_eq_some_of_spellRow_iff (hold : captures.Hold captured)
    {left right : Corpus}
    (alike : ∀ value, SpellRow left value items row ↔ SpellRow right value items row)
    {extended : Captures}
    (matched : (ofItems captured items).matchRow? left captures row = some extended) :
    (ofItems captured items).matchRow? right captures row = some extended := by
  have length_eq := length_boundValues (ofItems captured items) captures
  have given := isStretch_of_mem_boundValues items hold
  obtain ⟨line, isLine, matched⟩ := Option.bind_eq_some_iff.mp matched
  obtain ⟨taken, found, rfl⟩ := Option.map_eq_some_iff.mp matched
  obtain ⟨assigned, fills, -⟩ := exists_fills_of_match? length_eq found
  obtain ⟨-, other, isOther, -⟩ :=
    (alike _).mp ((fills_iff_spellRow length_eq given isLine).mp fills)
  refine Option.bind_eq_some_iff.mpr ⟨other, isOther, Option.map_eq_some_iff.mpr ⟨taken, ?_, rfl⟩⟩
  refine match?_eq_some_of_fills_iff length_eq length_eq rfl (fun texts => ?_) found
  rw [fills_iff_spellRow length_eq given isLine, fills_iff_spellRow length_eq given isOther, alike]

private theorem matchRow?_eq_of_spellRow_iff (hold : captures.Hold captured) {left right : Corpus}
    (alike : ∀ value, SpellRow left value items row ↔ SpellRow right value items row) :
    (ofItems captured items).matchRow? left captures row =
      (ofItems captured items).matchRow? right captures row :=
  Option.ext fun _ => ⟨matchRow?_eq_some_of_spellRow_iff hold alike,
    matchRow?_eq_some_of_spellRow_iff hold fun value => (alike value).symm⟩

end EntryTemplate

/-- Whether the templates of a query spell the same rows of two corpora, whatever the wildcards
stand for. -/
def Query.LooksAlike (query : Query) (left right : Corpus) : Prop :=
  ∀ items ∈ query.entries.map EntryTemplate.items, ∀ value row,
    SpellRow left value items row ↔ SpellRow right value items row

theorem Query.LooksAlike.symm {query : Query} {left right : Corpus}
    (alike : query.LooksAlike left right) : query.LooksAlike right left :=
  fun items member value row => (alike items member value row).symm

private theorem matchAlong?_eq_of_spellRow_iff {left right : Corpus} {captured : List Nat}
    {templates : List EntryTemplate} (threaded : Query.Threaded captured templates)
    (alike : ∀ items ∈ templates.map EntryTemplate.items, ∀ value row,
      SpellRow left value items row ↔ SpellRow right value items row)
    {captures : Captures} (hold : captures.Hold captured) (rows : Match) :
    matchAlong? left (templates.zip rows) captures =
      matchAlong? right (templates.zip rows) captures := by
  induction threaded generalizing captures rows with
  | nil => rfl
  | @cons captured items rest _ ih =>
    cases rows with
    | nil => rfl
    | cons row rows =>
      obtain ⟨here, behind⟩ := List.forall_mem_cons.mp alike
      have same : (EntryTemplate.ofItems captured items).matchRow? left captures row =
          (EntryTemplate.ofItems captured items).matchRow? right captures row :=
        EntryTemplate.matchRow?_eq_of_spellRow_iff hold fun value => here value row
      rw [List.zip_cons_cons, matchAlong?, matchAlong?, same]
      refine Option.bind_congr fun extended matched => ih behind ?_ rows
      obtain ⟨line, -, matched⟩ := Option.bind_eq_some_iff.mp matched
      exact (EntryTemplate.spells_of_matchLine? hold matched).2.1

namespace Query

section

variable {headers : List Header} {roles : List ColumnRole} {motif : Motif} {budget : Nat}
  {query : Query} (compiled : compile headers roles motif budget = .ok query)
  {left right : Corpus} (fewLeft : left.rowCount < Index.greatest)
  (fewRight : right.rowCount < Index.greatest)

include compiled fewLeft fewRight

/-- What a search lists in one of two corpora that look alike, is or comes behind what it lists in
the other one. -/
private theorem exists_listed_of_looksAlike (alike : query.LooksAlike left right)
    (within : query.StaysWithin right) {chain : Match} (listed : chain ∈ (query.search left).list) :
    ∃ found ∈ (query.search right).list,
      found.head? = chain.head? ∧ (found = chain ∨ found.Precedes chain) := by
  obtain ⟨_, _, -, -, threaded⟩ := exists_entries_of_compile compiled
  obtain ⟨isChain, -⟩ := (mem_list_iff_isEarliestChain compiled fewLeft).mp listed
  obtain ⟨final, along⟩ := Option.isSome_iff_exists.mp isChain.matched
  refine exists_listed_of_matchAlong? compiled fewRight within isChain.length_eq isChain.linked ?_
  rw [← matchAlong?_eq_of_spellRow_iff threaded alike Captures.hold_nil,
    matchAlong?_of_captureAlong? along]
  rfl

/-- What comes behind a match in one corpus comes behind the same match in the other one, and the
other way round: so both are the same. -/
private theorem mem_list_of_looksAlike (alike : query.LooksAlike left right)
    (withinLeft : query.StaysWithin left) (withinRight : query.StaysWithin right) {chain : Match}
    (listed : chain ∈ (query.search left).list) : chain ∈ (query.search right).list := by
  obtain ⟨found, isFound, same, before⟩ :=
    exists_listed_of_looksAlike compiled fewLeft fewRight alike withinRight listed
  obtain ⟨again, isAgain, sameAgain, beforeAgain⟩ :=
    exists_listed_of_looksAlike compiled fewRight fewLeft alike.symm withinLeft isFound
  have earliest := (mem_list_iff_isEarliestChain compiled fewLeft).mp listed
  obtain rfl := ((mem_list_iff_isEarliestChain compiled fewLeft).mp isAgain).eq earliest
    (sameAgain.trans same)
  rcases before with rfl | before
  · exact isFound
  · rcases beforeAgain with rfl | behind
    · exact isFound
    · exact absurd before behind.asymm

/-- A search finds the same in two corpora that look alike, if it stays within its budget in both.
-/
theorem search_eq_of_looksAlike (alike : query.LooksAlike left right)
    (withinLeft : query.StaysWithin left) (withinRight : query.StaysWithin right) :
    query.search left = query.search right := by
  have listed_iff (chain : Match) :
      chain ∈ (query.search left).list ↔ chain ∈ (query.search right).list :=
    ⟨mem_list_of_looksAlike compiled fewLeft fewRight alike withinLeft withinRight,
      mem_list_of_looksAlike compiled fewRight fewLeft alike.symm withinRight withinLeft⟩
  exact congrArg Matches.mk ((pairwise_precedes_of_compile compiled left).eq_of_mem_iff
    (pairwise_precedes_of_compile compiled right) listed_iff)

end

end Query

end LogMotif
