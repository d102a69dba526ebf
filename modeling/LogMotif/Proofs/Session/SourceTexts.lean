import LogMotif.Proofs.Search.Plain
import LogMotif.Proofs.Session.Compiling

/-! # Motifs without wildcards

A motif without wildcards stands for the texts of its source rows. A search with it lists chains of
rows that repeat these texts in the columns that take part in matching, whatever characters they are
made of, whatever the headers are, and whatever stands in the other columns.
-/

namespace LogMotif

/-- A cell without wildcards stands for the text it splits. -/
private theorem Cell.IsSplitOf.spelled_eq_of_plain {value : Nat → String} {cell : Cell}
    {text : String} (split : cell.IsSplitOf text) (plain : ∀ index, ¬ cell.Holds index) :
    cell.spelled value = Json.escape text.toList := by
  have filled : cell.filled (fun _ => "") = cell.content :=
    filled_eq_content fun index content member => absurd ⟨content, member⟩ (plain index)
  rw [← split.content_eq, ← filled]
  exact spelled_eq_escape_filled fun index holds => absurd holds (plain index)

namespace Entry

/-- Whether a row has the texts of the source row of an entry in the columns that take part in
matching. -/
def RepeatedBy (roles : List ColumnRole) (entry : Entry) (row : List String) : Prop :=
  ∀ column, entry.IsActive roles column →
    ∃ text, entry.source[column]? = some text ∧ row[column]? = some text

/-- Cells without wildcards stand for what the texts of a row are written as exactly when these are
the texts of the source row. -/
private theorem faces_iff_repeatedBy {value : Nat → String} {roles : List ColumnRole}
    {entry : Entry} {width : Nat} {row : List String} (shaped : entry.IsShaped width)
    (plain : ∀ cell ∈ entry.cells, ∀ index, ¬ cell.Holds index) :
    entry.Faces roles row (fun cell text => Json.escape text.toList = cell.spelled value) ↔
      entry.RepeatedBy roles row := by
  refine forall_congr' fun column => imp_congr_right fun _ => ?_
  constructor
  · rintro ⟨cell, text, isCell, isText, spelled⟩
    obtain ⟨source, isSource, split⟩ := exists_of_forall₂_of_getElem? shaped.splits isCell
    rw [split.spelled_eq_of_plain (plain cell (List.mem_of_getElem? isCell))] at spelled
    obtain rfl := String.toList_inj.mp (Json.escape_injective spelled)
    exact ⟨text, isSource, isText⟩
  · rintro ⟨text, isSource, isText⟩
    obtain ⟨cell, isCell, split⟩ := exists_of_forall₂_of_getElem? shaped.splits.flip isSource
    exact ⟨cell, text, isCell, isText,
      (split.spelled_eq_of_plain (plain cell (List.mem_of_getElem? isCell))).symm⟩

end Entry

/-- Where no wildcards are listed, no cell holds one. -/
private theorem Motif.Agrees.not_holds {motif : Motif} (agrees : motif.Agrees)
    (none : motif.wildcards = []) {entry : Entry} (inEntries : entry ∈ motif.entries) {cell : Cell}
    (inCells : cell ∈ entry.cells) (index : Nat) : ¬ cell.Holds index := by
  rintro ⟨content, inSegments⟩
  obtain ⟨i, isEntry⟩ := List.mem_iff_getElem?.mp inEntries
  obtain ⟨j, isCell⟩ := List.mem_iff_getElem?.mp inCells
  obtain ⟨k, isSegment⟩ := List.mem_iff_getElem?.mp inSegments
  have here : wildcardAt? motif.entries ⟨i, j, k⟩ = some index := by
    simp [wildcardAt?, isEntry, isCell, isSegment, Segment.wildcard?]
  rw [agrees.listed_iff, none] at here
  simp [isListed] at here

namespace Session

variable {session : Session}

/-- Whether the rows of a log are, one after the other, at distances that the links of a session
allow, and repeat the texts of its source rows. -/
structure IsSourceChain (session : Session) (log : List (List String)) (chain : Match) : Prop where
  linked : chain.Linked (session.motif.entries.dropLast.map fun entry => entry.link.getD .any)
  repeated : List.Forall₂ (fun entry i => ∃ row, log[i]? = some row ∧
    entry.RepeatedBy session.roles row) session.motif.entries chain

/-- A reachable session compiles, if its roles cover the headers. Where it has no wildcards, the
chains of the query are those of rows that repeat the texts of the source rows. -/
private theorem Reachable.exists_query_of_plain (reachable : session.Reachable)
    (plain : session.motif.wildcards = []) {log : List (List String)} {corpus : Corpus}
    (written : Corpus.ofRows session.headers session.roles log = .ok corpus) :
    ∃ query, session.compile = .ok query ∧
      ∀ chain, query.IsChain corpus chain ↔ session.IsSourceChain log chain := by
  have sound := reachable.sound
  have covered := (Corpus.ofRows_eq_ok_iff.mp written).1
  have notHolds {entry : Entry} (member : entry ∈ session.motif.entries) :
      ∀ cell ∈ entry.cells, ∀ index, ¬ cell.Holds index :=
    fun _ inCells => sound.booked.not_holds plain member inCells
  have items_plain {entry : Entry} (member : entry ∈ session.motif.entries) (index : Nat) :
      .wildcard index ∉ TemplateItem.ofEntry session.headers session.roles entry := by
    rw [Entry.wildcard_mem_ofEntry_iff covered]
    rintro ⟨column, cell, -, isCell, holds⟩
    exact notHolds member cell (List.mem_of_getElem? isCell) index holds
  have spelled_iff : ∀ entry ∈ session.motif.entries, ∀ i,
      TemplateItem.SpellRow corpus (fun _ => "")
        (TemplateItem.ofEntry session.headers session.roles entry) i ↔
          ∃ row, log[i]? = some row ∧ entry.RepeatedBy session.roles row := by
    intro entry member i
    have shaped := sound.shaped entry member
    have contents : ∀ index : Nat, LineItem.IsContent ((fun _ : Nat => "") index).toList :=
      fun _ => .nil
    rw [Entry.spellRow_ofEntry_iff contents written shaped.cells_length shaped.selection_length]
    simp only [Entry.faces_iff_repeatedBy shaped (notHolds member), items_plain member,
      false_imp_iff, implies_true, true_and]
  refine ⟨_, reachable.compile_eq_ok covered, fun chain => ?_⟩
  rw [Query.isChain_iff_of_plain (Query.threaded_templates ..) ?_ fun _ => "",
    Query.map_items_templates, List.forall₂_map_left_iff, forall₂_congr_left spelled_iff]
  · exact ⟨fun ⟨linked, repeated⟩ => ⟨linked, repeated⟩, fun chain => ⟨chain.1, chain.2⟩⟩
  · intro template member index
    have inItems := List.mem_map_of_mem (f := EntryTemplate.items) member
    rw [Query.map_items_templates] at inItems
    obtain ⟨entry, inEntries, same⟩ := List.mem_map.mp inItems
    rw [← same]
    exact items_plain inEntries index

/-- What a search finds with a motif without wildcards, told by the texts of rows alone: in
ascending order of their first rows, the earliest chain of rows that repeat the texts of the source
rows from each row that starts one, and nothing else. -/
theorem Reachable.search_eq_earliest_source_chains (reachable : session.Reachable)
    (plain : session.motif.wildcards = []) {log : List (List String)} {corpus : Corpus}
    (written : Corpus.ofRows session.headers session.roles log = .ok corpus)
    (few : log.length < Index.greatest) :
    ∃ next results, session.search corpus = .ok next ∧ next.results = some results ∧
      (∀ chain, chain ∈ results.found.list ↔ session.IsSourceChain log chain ∧
        ∀ other, session.IsSourceChain log other → other.head? = chain.head? →
          chain = other ∨ chain.Precedes other) ∧
      (∀ chain, session.IsSourceChain log chain →
        ∃ found ∈ results.found.list, found.head? = chain.head?) ∧
      (results.found.list.filterMap List.head?).Pairwise (· < ·) := by
  obtain ⟨query, compiled, isChain_iff⟩ := reachable.exists_query_of_plain plain written
  have small : corpus.rowCount < Index.greatest := by
    rw [Corpus.rowCount_ofRows written]
    exact few
  refine ⟨_, _, bind_eq_ok_iff.mpr ⟨query, compiled, rfl⟩, rfl, fun chain => ?_,
    fun chain isSourceChain => ?_, Query.pairwise_head_of_compile compiled corpus⟩
  · rw [Query.mem_list_iff_isEarliestChain compiled small]
    simp only [Query.IsEarliestChain, isChain_iff]
  · exact Query.exists_listed_of_isChain compiled small ((isChain_iff chain).mpr isSourceChain)

/-- Two rows with quotes, backslashes and line feeds in their texts and operator characters in a
header, found in a log at other times. -/
theorem search_finds_repeated_texts :
    let log := [["x", "5"], ["\"a\\\n", "6"], ["y", "7"], ["(b", "8"]]
    ∃ (session next : Session) (results : Results) (corpus : Corpus),
      start [⟨"m\".*", .string⟩, ⟨"t", .string⟩] [.content, .timestamp]
        [["\"a\\\n", "1"], ["(b", "2"]] {} = .ok session ∧
      Corpus.ofRows session.headers session.roles log = .ok corpus ∧
      session.search corpus = .ok next ∧ next.results = some results ∧
      [1, 3] ∈ results.found.list := by
  intro log
  have fits : TextsFit [["\"a\\\n", "1"], ["(b", "2"]] := by
    unfold TextsFit
    decide
  obtain ⟨session, corpus, opened, session_eq, written⟩ : ∃ (session : Session) (corpus : Corpus),
      start [⟨"m\".*", .string⟩, ⟨"t", .string⟩] [.content, .timestamp]
        [["\"a\\\n", "1"], ["(b", "2"]] {} = .ok session ∧
      session = ⟨[⟨"m\".*", .string⟩, ⟨"t", .string⟩], [.content, .timestamp],
        ⟨[⟨["\"a\\\n", "1"], [⟨[.text "\"a\\\n"]⟩, ⟨[.text "1"]⟩], [true, false], some .any⟩,
          ⟨["(b", "2"], [⟨[.text "(b"]⟩, ⟨[.text "2"]⟩], [true, false], none⟩], []⟩, {}, none⟩ ∧
      Corpus.ofRows session.headers session.roles log = .ok corpus :=
    ⟨_, _, rfl, rfl, rfl⟩
  have isSourceChain : session.IsSourceChain log [1, 3] := by
    subst session_eq
    constructor
    · rintro (_ | i) link row next isLink isRow isNext
      · obtain rfl := Option.some.inj isLink
        obtain rfl := Option.some.inj isRow
        obtain rfl := Option.some.inj isNext
        change (1 : Int) ≤ 3 - 1
        decide
      · simp at isLink
    · refine .cons ⟨_, rfl, ?_⟩ (.cons ⟨_, rfl, ?_⟩ .nil)
      all_goals
        rintro (_ | _ | column) ⟨selected, -⟩
        · exact ⟨_, rfl, rfl⟩
        · simp at selected
        · simp at selected
  -- No other row has the text of the second source row.
  have last : ∀ i < 4, log[i]?.bind (·[0]?) = some "(b" → i = 3 := by decide
  have only : ∀ other, session.IsSourceChain log other → other.head? = some 1 → other = [1, 3] := by
    subst session_eq
    rintro other ⟨-, repeated⟩ head
    obtain _ | ⟨-, _ | ⟨⟨row, isRow, same⟩, _ | _⟩⟩ := repeated
    obtain rfl := Option.some.inj head
    obtain ⟨text, isText, here⟩ := same 0 ⟨rfl, _, rfl, rfl⟩
    obtain rfl := Option.some.inj isText
    rw [last _ (List.getElem?_eq_some_iff.mp isRow).1 (by rw [isRow]; exact here)]
  have plain : session.motif.wildcards = [] := by rw [session_eq]
  obtain ⟨next, results, searched, isResults, listed_iff, -⟩ :=
    (Reachable.start fits opened).search_eq_earliest_source_chains plain written (by decide)
  have listed := (listed_iff [1, 3]).mpr
    ⟨isSourceChain, fun other sourced head => .inl (only other sourced head).symm⟩
  exact ⟨session, next, results, corpus, opened, written, searched, isResults, listed⟩

end Session

end LogMotif
