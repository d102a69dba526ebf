import LogMotif.Proofs.Search.Assignment

/-! # Rows that are captured again

Rows whose lines the templates of a query spell with one text for each wildcard need not be a match.
The entry that meets a wildcard first captures as little text as it can, and the entries behind it
are bound to what it has captured. The rows are matched where each entry captures, for the wildcards
that are bound later, the texts with which the lines are spelled.
-/

namespace LogMotif

open LineItem (IsContent IsStretch)
open TemplateItem (Spells)

/-- An entry whose template spells a line finds a match of it, unless the budget runs out. -/
private theorem EntryTemplate.exists_attempt_eq_found_of_spells {captured : List Nat}
    {items : List TemplateItem} {value : Nat → String} {budget : Nat} {line : String}
    (spells : Spells value items line.toList)
    (stretches : ∀ index, .wildcard index ∈ items → IsStretch (value index).toList)
    (within : ((ofItems captured items).linePattern ((ofItems captured items).bound.map value)).attempt
      budget line ≠ .exhausted) :
    ∃ taken, ((ofItems captured items).linePattern
      ((ofItems captured items).bound.map value)).attempt budget line = .found taken := by
  refine LinePattern.exists_attempt_eq_found ?_ within
  refine isSome_match?_of_spells spells (List.length_map _) ?_ ?_
  · exact fun index member => boundValue?_map value member
  · exact fun index member => stretches index (mem_defined_iff.mp member).1

/-- How the attempt at a row ends when the bound wildcards stand for given texts. -/
def EntryTemplate.attemptRow? (template : EntryTemplate) (budget : Nat) (corpus : Corpus)
    (value : Nat → String) (row : Nat) : Option (Outcome Captures) :=
  (corpus.line? row).map ((template.linePattern (template.bound.map value)).attempt budget)

/-- An attempt without recalled texts has no budget. -/
theorem EntryTemplate.attemptRow?_ne_exhausted {template : EntryTemplate} {value : Nat → String}
    (plain : (template.linePattern (template.bound.map value)).hasRecall = false) (budget : Nat)
    (corpus : Corpus) (row : Nat) : template.attemptRow? budget corpus value row ≠ some .exhausted := by
  intro exhausted
  obtain ⟨line, -, exhausted⟩ := Option.map_eq_some_iff.mp exhausted
  exact LinePattern.attempt_ne_exhausted plain _ _ exhausted

/-- A match of an entry at a row spells the line with the texts that were given to the wildcards
captured before, and with those that the entry captures. -/
theorem EntryTemplate.exists_spellRow_of_attemptRow? {budget : Nat} {corpus : Corpus}
    {value : Nat → String} (contents : ∀ index, IsContent (value index).toList) {captured : List Nat}
    {items : List TemplateItem} {row : Nat} {taken : Captures}
    (stretches : ∀ index, .wildcard index ∈ items → IsStretch (value index).toList)
    (found : (ofItems captured items).attemptRow? budget corpus value row = some (.found taken)) :
    ∃ text : Nat → String, (∀ index, IsContent (text index).toList) ∧
      (∀ index ∈ captured, text index = value index) ∧
      (∀ index ∈ (ofItems captured items).defined, taken.lookup index = some (text index)) ∧
      TemplateItem.SpellRow corpus text items row := by
  obtain ⟨line, isLine, found⟩ := Option.map_eq_some_iff.mp found
  obtain ⟨matched, spells, given, defined⟩ :=
    exists_spells_of_match? (List.length_map _) (LinePattern.match?_of_attempt_eq_found found)
  let text (index : Nat) : String :=
    if index ∈ (ofItems captured items).defined then matched index else value index
  have text_eq_matched {index : Nat} (isDefined : index ∈ (ofItems captured items).defined) :
      text index = matched index := if_pos isDefined
  have text_eq_value {index : Nat} (old : index ∉ (ofItems captured items).defined) :
      text index = value index := if_neg old
  have same (index : Nat) (inItems : .wildcard index ∈ items) : matched index = text index := by
    by_cases known : index ∈ captured
    · have bound := mem_bound_iff.mpr ⟨inItems, known⟩
      have isValue := (given index bound).symm.trans (boundValue?_map value bound)
      rw [text_eq_value fun isDefined => (mem_defined_iff.mp isDefined).2 known]
      exact Option.some.inj isValue
    · exact (text_eq_matched (mem_defined_iff.mpr ⟨inItems, known⟩)).symm
  refine ⟨text, ?_, ?_, ?_, ?_, line, isLine, spells.congr same⟩
  · intro index
    by_cases isDefined : index ∈ (ofItems captured items).defined
    · rw [text_eq_matched isDefined]
      exact (defined index isDefined).2.2
    · rw [text_eq_value isDefined]
      exact contents index
  · exact fun index known => text_eq_value fun isDefined => (mem_defined_iff.mp isDefined).2 known
  · intro index isDefined
    rw [text_eq_matched isDefined]
    exact (defined index isDefined).1
  · intro index inItems
    by_cases isDefined : index ∈ (ofItems captured items).defined
    · rw [text_eq_matched isDefined]
      exact (defined index isDefined).2
    · rw [text_eq_value isDefined]
      exact stretches index inItems

/-- Whether each entry, attempted at a row of its own with given texts for the bound wildcards,
stays within the budget, and captures these texts where a later entry is bound to what it captures.
-/
structure Query.Recaptures (query : Query) (corpus : Corpus) (value : Nat → String)
    (rows : Match) : Prop where
  within : ∀ template row, (template, row) ∈ query.entries.zip rows →
    template.attemptRow? query.budget corpus value row ≠ some .exhausted
  captured : ∀ template row taken, (template, row) ∈ query.entries.zip rows →
    template.attemptRow? query.budget corpus value row = some (.found taken) →
      ∀ index ∈ template.defined, (∃ later ∈ query.entries, index ∈ later.bound) →
        taken.lookup index = some (value index)

/-- Entries that capture the texts with which their lines are spelled match the lines. -/
theorem isSome_captureAlong?_of_spellRow {budget : Nat} {corpus : Corpus} {value : Nat → String}
    {reused : Nat → Prop} {captured : List Nat} {templates : List EntryTemplate}
    (threaded : Query.Threaded captured templates) {captures : Captures} {rows : Match}
    (hold : captures.Hold captured)
    (known : ∀ index ∈ captured, reused index → captures.lookup index = some (value index))
    (bound : ∀ template ∈ templates, ∀ index ∈ template.bound, reused index)
    (spelled : List.Forall₂ (TemplateItem.SpellRow corpus value)
      (templates.map EntryTemplate.items) rows)
    (within : ∀ template row, (template, row) ∈ templates.zip rows →
      template.attemptRow? budget corpus value row ≠ some .exhausted)
    (recaptured : ∀ template row taken, (template, row) ∈ templates.zip rows →
      template.attemptRow? budget corpus value row = some (.found taken) →
        ∀ index ∈ template.defined, reused index → taken.lookup index = some (value index)) :
    (captureAlong? budget corpus (templates.zip rows) captures).isSome := by
  induction threaded generalizing captures rows with
  | nil => rfl
  | @cons captured items rest _ ih =>
    obtain _ | @⟨_, row, _, rows, ⟨stretches, line, isLine, spells⟩, others⟩ := spelled
    let template := EntryTemplate.ofItems captured items
    have here : (template, row) ∈ (template :: rest).zip (row :: rows) := List.mem_cons_self
    have behind {pair : EntryTemplate × Nat} (member : pair ∈ rest.zip rows) :
        pair ∈ (template :: rest).zip (row :: rows) := List.mem_cons_of_mem _ member
    -- The entry is attempted with the texts that the captures give to its bound wildcards.
    have values : Search.boundValues template captures = template.bound.map value := by
      refine List.map_congr_left fun index member => ?_
      have before := (EntryTemplate.mem_bound_iff.mp member).2
      rw [known index before (bound template List.mem_cons_self index member), Option.getD_some]
    have attempted : template.attemptRow? budget corpus value row =
        some ((template.linePattern (template.bound.map value)).attempt budget line) := by
      rw [EntryTemplate.attemptRow?, isLine, Option.map_some]
    have enough :
        (template.linePattern (template.bound.map value)).attempt budget line ≠ .exhausted := by
      intro exhausted
      exact within template row here (by rw [attempted, exhausted])
    obtain ⟨taken, found⟩ : ∃ taken,
        (template.linePattern (template.bound.map value)).attempt budget line = .found taken :=
      EntryTemplate.exists_attempt_eq_found_of_spells spells stretches enough
    have matched : template.captureLine? budget captures line =
        some (captures ++ taken.filter (·.1 ∈ template.defined)) :=
      EntryTemplate.captureLine?_eq_some_iff.mpr ⟨taken, by rw [values]; exact found, rfl⟩
    obtain ⟨before, holdBehind, -⟩ := EntryTemplate.spells_of_captureLine? hold matched
    rw [List.zip_cons_cons, captureAlong?, EntryTemplate.captureRow?, isLine, Option.bind_some,
      matched, Option.bind_some]
    refine ih holdBehind ?_ ?_ others ?_ ?_
    · intro index member again
      rcases List.mem_append.mp member with old | new
      · exact Captures.lookup_of_isPrefix before (known index old again)
      · have fresh := hold.lookup_eq_none index (EntryTemplate.mem_defined_iff.mp new).2
        rw [Captures.lookup_append, fresh, Option.none_or, Captures.lookup_filter, if_pos new]
        exact recaptured template row taken here (by rw [attempted, found]) index new again
    · exact fun later member => bound later (List.mem_cons_of_mem _ member)
    · exact fun later next member => within later next (behind member)
    · exact fun later next more member => recaptured later next more (behind member)

namespace Query

/-- Rows in order that the entries of a query capture again are a chain of it, if its links allow
all distances. -/
theorem isChain_of_recaptures {query : Query} {corpus : Corpus} {value : Nat → String}
    {rows : Match} (threaded : Threaded [] query.entries)
    (free : ∀ link ∈ query.links, link = .any) (ascending : rows.Pairwise (· < ·))
    (spelled : List.Forall₂ (TemplateItem.SpellRow corpus value)
      (query.entries.map EntryTemplate.items) rows)
    (recaptures : query.Recaptures corpus value rows) : query.IsChain corpus rows where
  length_eq := by
    rw [entryCount, ← spelled.length_eq, List.length_map]
  linked := by
    intro i link row next isLink isRow isNext
    rw [free link (List.mem_of_getElem? isLink)]
    obtain ⟨inside, rfl⟩ := List.getElem?_eq_some_iff.mp isRow
    obtain ⟨insideNext, rfl⟩ := List.getElem?_eq_some_iff.mp isNext
    have before := List.pairwise_iff_getElem.mp ascending i (i + 1) inside insideNext (by omega)
    simp only [Link.Allows]
    omega
  matched := by
    have reused : ∀ template ∈ query.entries, ∀ index ∈ template.bound,
        ∃ later ∈ query.entries, index ∈ later.bound :=
      fun template member index isBound => ⟨template, member, isBound⟩
    exact isSome_captureAlong?_of_spellRow threaded Captures.hold_nil (by simp) reused spelled
      recaptures.within recaptures.captured

end Query

end LogMotif
