import LogMotif.Proofs.Motif.Shape
import LogMotif.Proofs.Query.Members
import LogMotif.Proofs.Search.Recapture

/-! # The lines of a match

In any searchable text, also one that was not written from a log, the rows of a listed match are
lines that the entries describe with one text for each wildcard: it does not matter whether a
wildcard was captured in a line, recalled in the same line, or put in its place in a later one.
-/

namespace LogMotif

open LineItem (IsStretch)

/-- Whether a row of a corpus is the line of an entry. -/
def Entry.DescribesRow (headers : List Header) (roles : List ColumnRole) (corpus : Corpus)
    (value : Nat → String) (entry : Entry) (row : Nat) : Prop :=
  ∃ line, corpus.line? row = some line ∧ entry.IsLine headers roles value line

/-- A row that the template of an entry spells is described by the entry, with stretches for the
wildcards in its cells that take part in matching. -/
private theorem Entry.spellRow_ofEntry_iff_describesRow {headers : List Header}
    {roles : List ColumnRole} (covered : headers.length = roles.length) {corpus : Corpus}
    {value : Nat → String} {entry : Entry} {row : Nat} :
    TemplateItem.SpellRow corpus value (TemplateItem.ofEntry headers roles entry) row ↔
      (∀ index, entry.Uses roles index → IsStretch (value index).toList) ∧
        entry.DescribesRow headers roles corpus value row := by
  simp only [TemplateItem.SpellRow, Entry.wildcard_mem_ofEntry_iff covered,
    TemplateItem.spells_ofEntry_iff_isLine, DescribesRow]

namespace Query

/-- Along a listed match there is one stretch for each wildcard with which the entries describe the
lines of their rows. -/
theorem exists_describesRow_of_mem_list {headers : List Header} {roles : List ColumnRole}
    {motif : Motif} {budget : Nat} {query : Query}
    (compiled : compile headers roles motif budget = .ok query) {corpus : Corpus} {chain : Match}
    (listed : chain ∈ (query.search corpus).list) :
    ∃ value : Nat → String,
      (∀ entry ∈ motif.entries, ∀ index, entry.Uses roles index → IsStretch (value index).toList) ∧
      List.Forall₂ (Entry.DescribesRow headers roles corpus value) motif.entries chain := by
  obtain ⟨first, templates, entries_eq, lengths, threaded⟩ := exists_entries_of_compile compiled
  obtain ⟨value, -, spelled⟩ := exists_spellRow_of_mem_list entries_eq lengths threaded listed
  obtain ⟨covered, -, -, -, rfl⟩ := compile_eq_ok_iff.mp compiled
  rw [map_items_templates, List.forall₂_map_left_iff] at spelled
  simp only [Entry.spellRow_ofEntry_iff_describesRow covered] at spelled
  refine ⟨value, fun entry member => ?_, spelled.imp fun _ _ => And.right⟩
  obtain ⟨row, -, stretches, -⟩ := exists_of_forall₂_of_mem spelled.flip member
  exact stretches

/-- Two entries that share a wildcard, in a text that no log is written as: an escaped slash on both
lines. -/
theorem describesRow_of_escaped_slash :
    let motif : Motif := ⟨[⟨["a"], [⟨[.wildcard 0 "a"]⟩], [true], some .any⟩,
      ⟨["a"], [⟨[.wildcard 0 "a"]⟩], [true], none⟩], [⟨[⟨0, 0, 0⟩, ⟨1, 0, 0⟩]⟩]⟩
    let corpus := Corpus.ofText "\x7b\"m\":\"\\/\"\x7d\n\x7b\"m\":\"\\/\"\x7d\n"
    ∃ query, compile [⟨"m", .string⟩] [.content] motif 10 = .ok query ∧
      ∃ chain ∈ (query.search corpus).list, ∃ value : Nat → String,
        List.Forall₂ (Entry.DescribesRow [⟨"m", .string⟩] [.content] corpus value) motif.entries
          chain := by
  intro motif corpus
  obtain ⟨query, compiled⟩ :
      ∃ query, compile [⟨"m", .string⟩] [.content] motif 10 = .ok query := ⟨_, rfl⟩
  obtain ⟨-, -, -, -, query_eq⟩ := compile_eq_ok_iff.mp compiled
  let item (bound defined : List Nat) : EntryTemplate :=
    ⟨[.literal "\x7b", .literal "\"m\":", .literal "\"", .wildcard 0, .literal "\"",
      .literal "\x7d"], bound, defined⟩
  have entries_eq : query.entries = [item [] [0], item [0] []] := by
    rw [query_eq]
    rfl
  have links_eq : query.links = [.any] := by
    rw [query_eq]
    rfl
  have lines : Text.splitLines corpus.text.toList =
      [("\x7b\"m\":\"\\/\"\x7d\n").toList, ("\x7b\"m\":\"\\/\"\x7d\n").toList] := by decide
  have describes (link : Option Link) (row : Nat) (inside : row < 2) :
      TemplateItem.SpellRow corpus (fun _ => "\\/")
        (TemplateItem.ofEntry [⟨"m", .string⟩] [.content]
          ⟨["a"], [⟨[.wildcard 0 "a"]⟩], [true], link⟩) row := by
    refine (Entry.spellRow_ofEntry_iff_describesRow rfl).mpr
      ⟨fun _ _ => ⟨by decide, .escaped (by decide) .nil⟩, "\x7b\"m\":\"\\/\"\x7d", ?_, ?_⟩
    · rw [Corpus.line?, Corpus.rowText?_eq, lines]
      obtain rfl | rfl : row = 0 ∨ row = 1 := by omega
      all_goals decide
    · have stands : Entry.IsMember (fun _ => "\\/")
          (⟨"m", .string⟩, .content, ⟨[.wildcard 0 "a"]⟩, true) "\"m\":\"\\/\"" :=
        ⟨"\\/".toList, (List.append_nil _).symm, by decide⟩
      exact ⟨["\"m\":\"\\/\""], .cons stands .nil, by decide⟩
  have spelled : List.Forall₂ (TemplateItem.SpellRow corpus fun _ => "\\/")
      (query.entries.map EntryTemplate.items) [0, 1] := by
    rw [query_eq, map_items_templates]
    exact .cons (describes _ 0 (by decide)) (.cons (describes _ 1 (by decide)) .nil)
  have recaptures : query.Recaptures corpus (fun _ => "\\/") [0, 1] := by
    constructor
    all_goals
      simp only [entries_eq, List.zip_cons_cons, List.zip_nil_left, List.mem_cons,
        List.not_mem_nil, or_false, Prod.mk.injEq]
    · rintro _ _ (⟨rfl, rfl⟩ | ⟨rfl, rfl⟩)
      all_goals exact EntryTemplate.attemptRow?_ne_exhausted rfl _ _ _
    · rintro _ _ taken (⟨rfl, rfl⟩ | ⟨rfl, rfl⟩) found index isDefined -
      · obtain ⟨line, isLine, found⟩ := Option.map_eq_some_iff.mp found
        rw [Corpus.line?, Corpus.rowText?_eq, lines] at isLine
        obtain rfl := Option.some.inj isLine
        obtain rfl : [(0, "\\/")] = taken :=
          Option.some.inj (LinePattern.match?_of_attempt_eq_found found)
        obtain rfl := List.mem_singleton.mp isDefined
        rfl
      · cases isDefined
  obtain ⟨_, _, cons_eq, lengths, threaded⟩ := exists_entries_of_compile compiled
  have isChain := isChain_of_recaptures threaded (by simp [links_eq]) (by decide) spelled recaptures
  have few : corpus.rowCount < Index.greatest := by
    rw [Corpus.rowCount_eq, lines]
    decide
  obtain ⟨chain, listed, -⟩ := exists_listed cons_eq lengths threaded few isChain
  obtain ⟨value, -, rows⟩ := exists_describesRow_of_mem_list compiled listed
  exact ⟨query, compiled, chain, listed, value, rows⟩

end Query

end LogMotif
