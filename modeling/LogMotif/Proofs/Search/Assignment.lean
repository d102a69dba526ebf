import Mathlib.Data.List.Forall2
import LogMotif.Proofs.Query.Lines
import LogMotif.Proofs.Search.Earliest

/-! # One text for each wildcard

The rows of a listed match are matched one after the other, whatever the links are and however many
rows the log has. So there is one text for each wildcard, captured by the entry that meets it first,
with which the templates of all entries spell their lines.
-/

namespace LogMotif

open LineItem (IsContent IsStretch)
open TemplateItem (Spells)

namespace Search

variable {budget : Nat} {corpus : Corpus}

/-- What the search finds behind a row continues from there. -/
private theorem continues_of_earliest? {templates : List EntryTemplate} {links : List Link}
    {previous : Nat} {captures : Captures} {rows : Match}
    (found : earliest? budget (stages corpus templates links) previous captures = some rows) :
    Continues budget corpus (templates.zip links) previous captures rows := by
  induction templates generalizing links previous captures rows with
  | nil =>
    obtain rfl := Option.some.inj found
    exact .nil previous captures
  | cons template templates ih =>
    cases links with
    | nil =>
      obtain rfl := Option.some.inj found
      exact .nil previous captures
    | cons link links =>
      let stage : Stage := ⟨template, candidates corpus template, link⟩
      obtain ⟨⟨row, line⟩, member, here⟩ : ∃ candidate ∈ stage.behind previous,
          ((template.captureLine? budget captures candidate.2).bind fun extended =>
            (earliest? budget (stages corpus templates links) candidate.1 extended).map
              (candidate.1 :: ·)) = some rows :=
        List.exists_of_findSome?_eq_some found
      obtain ⟨extended, captures_eq, behind⟩ := Option.bind_eq_some_iff.mp here
      obtain ⟨rest, continued, rfl⟩ := Option.map_eq_some_iff.mp behind
      obtain ⟨isCandidate, start, stop⟩ :=
        (mem_behind_iff_window (pairwise_candidates corpus template)).mp member
      have matched : template.captureRow? budget corpus captures row = some extended := by
        rw [EntryTemplate.captureRow?, (mem_candidates_iff.mp isCandidate).2.1]
        exact captures_eq
      exact .cons (allows_of_window start stop) matched (ih continued)

end Search

/-- Entries that match one row each, one after the other, spell their lines with what they have
captured in the end, which is a stretch for each wildcard of their templates. -/
theorem spellRow_of_captureAlong? {budget : Nat} {corpus : Corpus} {captured : List Nat}
    {templates : List EntryTemplate} (threaded : Query.Threaded captured templates)
    {captures final : Captures} {rows : Match} (hold : captures.Hold captured)
    (lengths : rows.length = templates.length)
    (along : captureAlong? budget corpus (templates.zip rows) captures = some final) :
    captures <+: final ∧
      (∃ all, final.Hold all ∧ ∀ index, index ∈ all ↔
        index ∈ captured ∨ ∃ template ∈ templates, .wildcard index ∈ template.items) ∧
      List.Forall₂ (TemplateItem.SpellRow corpus fun index => (final.lookup index).getD "")
        (templates.map EntryTemplate.items) rows := by
  induction threaded generalizing captures rows with
  | nil captured =>
    obtain rfl := List.length_eq_zero_iff.mp lengths
    obtain rfl := Option.some.inj along
    exact ⟨List.prefix_rfl, ⟨captured, hold, by simp⟩, .nil⟩
  | @cons captured items rest _ ih =>
    obtain ⟨row, rows, rfl⟩ := List.exists_cons_of_length_eq_add_one lengths
    obtain ⟨extended, matched, along⟩ := Option.bind_eq_some_iff.mp along
    obtain ⟨line, isLine, matched⟩ := Option.bind_eq_some_iff.mp matched
    obtain ⟨before, holdBehind, spells⟩ := EntryTemplate.spells_of_captureLine? hold matched
    obtain ⟨after, ⟨all, holdFinal, all_iff⟩, others⟩ := ih holdBehind (by simpa using lengths) along
    -- A wildcard of this entry has been captured here at the latest, and keeps its text.
    have kept : ∀ index, .wildcard index ∈ items → ∃ content,
        extended.lookup index = some content ∧ final.lookup index = some content ∧
          IsStretch content.toList := by
      intro index member
      have known : index ∈ captured ++ (EntryTemplate.ofItems captured items).defined := by
        by_cases old : index ∈ captured
        · exact List.mem_append_left _ old
        · exact List.mem_append_right _ (EntryTemplate.mem_defined_iff.mpr ⟨member, old⟩)
      obtain ⟨content, found, stretch⟩ := holdBehind.exists_stretch index known
      exact ⟨content, found, Captures.lookup_of_isPrefix after found, stretch⟩
    refine ⟨before.trans after, ⟨all, holdFinal, fun index => ?_⟩,
      .cons ⟨?_, line, isLine, spells.congr ?_⟩ others⟩
    · simp only [all_iff, List.mem_append, EntryTemplate.mem_defined_iff, List.mem_cons,
        exists_eq_or_imp]
      by_cases old : index ∈ captured <;> simp [old, EntryTemplate.ofItems]
    · intro index member
      obtain ⟨content, -, found, stretch⟩ := kept index member
      simpa [found] using stretch
    · intro index member
      obtain ⟨content, found, foundLater, -⟩ := kept index member
      rw [found, foundLater]

namespace Query

/-- A listed match is a chain. -/
theorem isChain_of_mem_list {query : Query} {corpus : Corpus} {first : EntryTemplate}
    {templates : List EntryTemplate} (entries_eq : query.entries = first :: templates)
    (lengths : query.links.length = templates.length) {chain : Match}
    (listed : chain ∈ (query.search corpus).list) : query.IsChain corpus chain := by
  obtain ⟨row, line, rest, member, rfl, found⟩ := (mem_list_search_iff entries_eq).mp listed
  obtain ⟨captures, captures_eq, behind⟩ := Option.bind_eq_some_iff.mp found
  have matched : first.captureRow? query.budget corpus [] row = some captures := by
    rw [EntryTemplate.captureRow?, (Search.mem_candidates_iff.mp member).2.1]
    exact captures_eq
  exact (isChain_iff entries_eq lengths).mpr
    ⟨row, rest, captures, rfl, matched, Search.continues_of_earliest? behind⟩

/-- Along a listed match there is one text for each wildcard with which all entries spell their
lines. -/
theorem exists_spellRow_of_mem_list {query : Query} {corpus : Corpus} {first : EntryTemplate}
    {templates : List EntryTemplate} (entries_eq : query.entries = first :: templates)
    (lengths : query.links.length = templates.length) (threaded : Threaded [] query.entries)
    {chain : Match} (listed : chain ∈ (query.search corpus).list) :
    ∃ value : Nat → String, (∀ index, IsContent (value index).toList) ∧
      List.Forall₂ (TemplateItem.SpellRow corpus value) (query.entries.map EntryTemplate.items)
        chain := by
  obtain ⟨length_eq, -, matched⟩ := isChain_of_mem_list entries_eq lengths listed
  obtain ⟨final, along⟩ := Option.isSome_iff_exists.mp matched
  obtain ⟨-, ⟨all, hold, -⟩, spelled⟩ :=
    spellRow_of_captureAlong? threaded Captures.hold_nil length_eq along
  refine ⟨fun index => (final.lookup index).getD "", fun index => ?_, spelled⟩
  by_cases known : index ∈ all
  · obtain ⟨content, found, stretch⟩ := hold.exists_stretch index known
    simpa [found] using stretch.2
  · have none := hold.lookup_eq_none index known
    simp only [none, Option.getD_none]
    exact .nil

/-- A match has one row for each entry. -/
theorem length_of_mem_list {headers : List Header} {roles : List ColumnRole} {motif : Motif}
    {budget : Nat} {query : Query} (compiled : compile headers roles motif budget = .ok query)
    {corpus : Corpus} {chain : Match} (listed : chain ∈ (query.search corpus).list) :
    chain.length = query.entries.length := by
  obtain ⟨first, templates, entries_eq, lengths, -⟩ := exists_entries_of_compile compiled
  exact (isChain_of_mem_list entries_eq lengths listed).length_eq

end Query

end LogMotif
