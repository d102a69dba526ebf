import LogMotif.Proofs.Query.Lines
import LogMotif.Proofs.Search.Budget
import LogMotif.Proofs.Session.Compiling

/-! # Instances of a motif

Where a wildcard is used by several entries, the first of them may capture another text for it than
the later ones need, so that rows that could be matched are not. Where no two entries use the same
wildcard, nothing that an entry captures is used later. Then no instance of the motif is missed:
rows that are its entries with some texts filled in are found, or something earlier from the same
row.
-/

namespace LogMotif

open TemplateItem (SpellRow)

/-- Rows are matched one after the other if each is spelled with texts of its own, by entries that
are bound to nothing. -/
private theorem isSome_matchAlong?_of_unbound {corpus : Corpus} {captured : List Nat}
    {templates : List EntryTemplate} (threaded : Query.Threaded captured templates)
    (unbound : ∀ template ∈ templates, template.bound = []) {rows : Match}
    (spelled : List.Forall₂ (fun items row => ∃ value, SpellRow corpus value items row)
      (templates.map EntryTemplate.items) rows) (captures : Captures) :
    (matchAlong? corpus (templates.zip rows) captures).isSome := by
  induction threaded generalizing rows captures with
  | nil => rfl
  | @cons captured items rest _ ih =>
    obtain _ | @⟨_, row, _, rows, ⟨value, stretches, line, isLine, spells⟩, others⟩ := spelled
    obtain ⟨here, behind⟩ := List.forall_mem_cons.mp unbound
    let template := EntryTemplate.ofItems captured items
    have found :
        ((template.linePattern (Search.boundValues template captures)).match? line).isSome := by
      refine EntryTemplate.isSome_match?_of_spells spells (List.length_map _) ?_ ?_
      · intro index bound
        rw [here] at bound
        cases bound
      · exact fun index defined => stretches index (EntryTemplate.mem_defined_iff.mp defined).1
    obtain ⟨taken, found⟩ := Option.isSome_iff_exists.mp found
    have matched : template.matchRow? corpus captures row =
        some (captures ++ taken.filter (·.1 ∈ template.defined)) :=
      Option.bind_eq_some_iff.mpr ⟨line, isLine, Option.map_eq_some_iff.mpr ⟨taken, found, rfl⟩⟩
    rw [List.zip_cons_cons, matchAlong?, matched]
    exact ih behind others _

/-- Where no two entries use the same wildcard, no template binds one. -/
private theorem Query.bound_eq_nil_of_pairwise {headers : List Header} {roles : List ColumnRole}
    (covered : headers.length = roles.length) {entries : List Entry}
    (unshared : entries.Pairwise fun entry later =>
      ∀ index, entry.Uses roles index → ¬ later.Uses roles index)
    {template : EntryTemplate} (member : template ∈ templates headers roles [] entries) :
    template.bound = [] := by
  obtain ⟨k, isTemplate⟩ := List.mem_iff_getElem?.mp member
  obtain ⟨entry, known, isEntry, rfl, known_iff⟩ := exists_ofItems_of_getElem?_templates isTemplate
  refine List.eq_nil_iff_forall_not_mem.mpr fun index bound => ?_
  obtain ⟨inItems, isKnown⟩ := EntryTemplate.mem_bound_iff.mp bound
  simp only [known_iff, List.not_mem_nil, false_or, Entry.wildcard_mem_ofEntry_iff covered]
    at isKnown
  obtain ⟨earlier, inFront, uses⟩ := isKnown
  have behind : entry ∈ entries.drop k := List.mem_of_getElem? (i := 0) (by simpa using isEntry)
  rw [← List.take_append_drop k entries, List.pairwise_append] at unshared
  exact unshared.2.2 earlier inFront entry behind index uses
    ((Entry.wildcard_mem_ofEntry_iff covered).mp inItems)

/-- Whether the texts of a row are those of the cells of an entry that take part in matching, with
some texts filled in for the wildcards. -/
def Entry.HasInstance (roles : List ColumnRole) (entry : Entry) (row : List String) : Prop :=
  ∃ assigned : Nat → String, (∀ index, entry.Uses roles index → assigned index ≠ "") ∧
    entry.Faces roles row fun cell text => text = cell.filled assigned

/-- A row is spelled with what the texts that are filled in are written as. -/
private theorem Entry.HasInstance.exists_spellRow {headers : List Header} {roles : List ColumnRole}
    {log : List (List String)} {corpus : Corpus}
    (written : Corpus.ofRows headers roles log = .ok corpus) {entry : Entry}
    (shaped : entry.IsShaped headers.length) {i : Nat} {row : List String}
    (here : log[i]? = some row) (isInstance : entry.HasInstance roles row) :
    ∃ value, SpellRow corpus value (TemplateItem.ofEntry headers roles entry) i := by
  obtain ⟨assigned, filled, faces⟩ := isInstance
  obtain ⟨covered, -, -⟩ := Corpus.ofRows_eq_ok_iff.mp written
  refine ⟨fun index => Json.escapeText (assigned index), (spellRow_ofEntry_iff
    (fun index => Json.isContent_escapeText (assigned index)) written shaped.cells_length
    shaped.selection_length).mpr ⟨fun index member => ?_, row, here, fun column active => ?_⟩⟩
  · exact Json.isStretch_escapeText (filled index ((wildcard_mem_ofEntry_iff covered).mp member))
  · obtain ⟨cell, text, isCell, isText, rfl⟩ := faces column active
    exact ⟨cell, _, isCell, isText, (Cell.spelled_eq_escape_filled fun _ _ => rfl).symm⟩

namespace Session

variable {session : Session}

/-- Whether no wildcard takes part in matching two entries. -/
def Unshared (session : Session) : Prop :=
  session.motif.entries.Pairwise fun entry later =>
    ∀ index, entry.Uses session.roles index → ¬ later.Uses session.roles index

/-- Whether the rows of a log are, one after the other, at distances that the links of a session
allow, and instances of its entries. -/
structure IsInstance (session : Session) (log : List (List String)) (chain : Match) : Prop where
  linked : chain.Linked (session.motif.entries.dropLast.map fun entry => entry.link.getD .any)
  instances : List.Forall₂ (fun entry i => ∃ row, log[i]? = some row ∧
    entry.HasInstance session.roles row) session.motif.entries chain

/-- Where no two entries use the same wildcard, a search misses no instance of the motif, if it
stays within its budget: it finds a match from the same row, which is the instance or comes before
it. -/
theorem Reachable.exists_listed_of_isInstance (reachable : session.Reachable)
    (unshared : session.Unshared) {log : List (List String)} {corpus : Corpus}
    (written : Corpus.ofRows session.headers session.roles log = .ok corpus)
    (few : log.length < Index.greatest) (within : session.StaysWithin corpus) :
    ∃ next results, session.search corpus = .ok next ∧ next.results = some results ∧
      ∀ chain, session.IsInstance log chain → ∃ found ∈ results.found.list,
        found.head? = chain.head? ∧ (found = chain ∨ found.Precedes chain) := by
  obtain ⟨covered, -, -⟩ := Corpus.ofRows_eq_ok_iff.mp written
  have compiled := reachable.compile_eq_ok covered
  have small : corpus.rowCount < Index.greatest := by
    rwa [Corpus.rowCount_ofRows written]
  refine ⟨_, _, bind_eq_ok_iff.mpr ⟨_, compiled, rfl⟩, rfl, ?_⟩
  rintro chain ⟨linked, instances⟩
  have spelled : List.Forall₂ (fun items i => ∃ value, SpellRow corpus value items i)
      ((Query.templates session.headers session.roles [] session.motif.entries).map
        EntryTemplate.items) chain := by
    rw [Query.map_items_templates, List.forall₂_map_left_iff]
    refine ((List.forall₂_and_left _ _).mpr ⟨reachable.sound.shaped, instances⟩).imp ?_
    rintro entry i ⟨shaped, row, isRow, isInstance⟩
    exact isInstance.exists_spellRow written shaped isRow
  refine Query.exists_listed_of_matchAlong? compiled small (within _ compiled) ?_ linked ?_
  · rw [← instances.length_eq]
    exact (Query.length_templates ..).symm
  · exact isSome_matchAlong?_of_unbound (Query.threaded_templates ..)
      (fun template => Query.bound_eq_nil_of_pairwise covered unshared) spelled []

/-! ### A wildcard that stands twice in a cell -/

/-- A session with two wildcards in one cell, one of them twice, and a third one in the second
entry. -/
def repeatedWildcard : Session where
  headers := [⟨"m", .string⟩]
  roles := [.content]
  motif :=
    { entries :=
        [⟨["b a-a"], [⟨[.wildcard 0 "b", .text " ", .wildcard 1 "a", .text "-", .wildcard 1 "a"]⟩],
          [true], some .any⟩,
        ⟨["c"], [⟨[.wildcard 2 "c"]⟩], [true], none⟩]
      wildcards := [⟨[⟨0, 0, 0⟩]⟩, ⟨[⟨0, 0, 2⟩, ⟨0, 0, 4⟩]⟩, ⟨[⟨1, 0, 0⟩]⟩] }
  options := {}
  results := none

private theorem unshared_repeatedWildcard : repeatedWildcard.Unshared := by
  refine .cons ?_ (List.pairwise_singleton ..)
  rintro later member index ⟨column, cell, -, isCell, content, holds⟩
    ⟨_, _, -, isLater, _, holdsLater⟩
  obtain rfl := List.mem_singleton.mp member
  obtain rfl := List.mem_singleton.mp (List.mem_of_getElem? isCell)
  obtain rfl := List.mem_singleton.mp (List.mem_of_getElem? isLater)
  obtain ⟨rfl, -⟩ := Segment.wildcard.inj (List.mem_singleton.mp holdsLater)
  simp at holds

/-- On the lines of two rows, the entry with the repeated wildcard needs no more than the budget. -/
private theorem staysWithin_repeatedWildcard {corpus : Corpus}
    (written : Corpus.ofRows repeatedWildcard.headers repeatedWildcard.roles [["y x-x"], ["z"]] =
      .ok corpus) : repeatedWildcard.StaysWithin corpus := by
  intro query compiled
  obtain ⟨-, -, -, -, rfl⟩ := Query.compile_eq_ok_iff.mp compiled
  refine Query.staysWithin_of_forall fun template member captures row line isLine => ?_
  rw [Corpus.line?_ofRows written] at isLine
  obtain ⟨texts, isRow, rfl⟩ := Option.map_eq_some_iff.mp isLine
  simp only [repeatedWildcard, Query.templates, List.mem_cons, List.not_mem_nil, or_false] at member
  rcases member with rfl | rfl
  · let pattern : LinePattern :=
      [.literal "\x7b", .literal "\"m\":", .literal "\"", .capture 0, .literal " ", .capture 1,
        .literal "-", .recalled 1, .literal "\"", .literal "\x7d"]
    have within : ∀ texts ∈ [["y x-x"], ["z"]], pattern.attempt Query.defaultBudget
        (String.ofList (Corpus.lineChars [⟨"m", .string⟩] [.content] texts)) ≠ .exhausted := by
      decide +kernel
    exact within texts (List.mem_of_getElem? isRow)
  · exact LinePattern.attempt_ne_exhausted rfl _ _

private theorem isInstance_repeatedWildcard :
    repeatedWildcard.IsInstance [["y x-x"], ["z"]] [0, 1] := by
  constructor
  · rintro (_ | i) link row next isLink isRow isNext
    · obtain rfl := Option.some.inj isLink
      obtain rfl := Option.some.inj isRow
      obtain rfl := Option.some.inj isNext
      change (1 : Int) ≤ 1 - 0
      decide
    · simp [repeatedWildcard] at isLink
  · let assigned (index : Nat) : String := if index = 0 then "y" else if index = 1 then "x" else "z"
    have filled (index : Nat) : assigned index ≠ "" := by
      unfold assigned
      split_ifs <;> decide
    refine .cons ⟨_, rfl, assigned, fun index _ => filled index, ?_⟩
      (.cons ⟨_, rfl, assigned, fun index _ => filled index, ?_⟩ .nil)
    all_goals
      rintro column ⟨selected, -⟩
      obtain rfl : column = 0 := by
        have inside := (List.getElem?_eq_some_iff.mp selected).1
        simpa using inside
      exact ⟨_, _, rfl, rfl, by decide⟩

/-- A row that fills the repeated wildcard with the same text twice is found with the row behind it.
-/
theorem search_finds_repeated_wildcard :
    ∃ (first second third fourth next : Session) (results : Results) (corpus : Corpus),
      start [⟨"m", .string⟩] [.content] [["b a-a"], ["c"]] {} = .ok first ∧
      first.apply (.createWildcard ⟨0, 0, ⟨0, 0, 1⟩⟩) = .ok (.updated second) ∧
      second.apply (.createWildcard ⟨0, 0, ⟨1, 1, 2⟩⟩) = .ok (.updated third) ∧
      third.apply (.useWildcard 1 ⟨0, 0, ⟨3, 1, 2⟩⟩) = .ok (.updated fourth) ∧
      fourth.apply (.createWildcard ⟨1, 0, ⟨0, 0, 1⟩⟩) = .ok (.updated repeatedWildcard) ∧
      Corpus.ofRows repeatedWildcard.headers repeatedWildcard.roles [["y x-x"], ["z"]] =
        .ok corpus ∧
      repeatedWildcard.search corpus = .ok next ∧ next.results = some results ∧
      ∃ found ∈ results.found.list,
        found.head? = some 0 ∧ (found = [0, 1] ∨ found.Precedes [0, 1]) := by
  obtain ⟨first, second, third, fourth, corpus, opened, isSecond, isThird, isFourth, applied,
      written⟩ : ∃ (first second third fourth : Session) (corpus : Corpus),
        start [⟨"m", .string⟩] [.content] [["b a-a"], ["c"]] {} = .ok first ∧
        first.apply (.createWildcard ⟨0, 0, ⟨0, 0, 1⟩⟩) = .ok (.updated second) ∧
        second.apply (.createWildcard ⟨0, 0, ⟨1, 1, 2⟩⟩) = .ok (.updated third) ∧
        third.apply (.useWildcard 1 ⟨0, 0, ⟨3, 1, 2⟩⟩) = .ok (.updated fourth) ∧
        fourth.apply (.createWildcard ⟨1, 0, ⟨0, 0, 1⟩⟩) = .ok (.updated repeatedWildcard) ∧
        Corpus.ofRows repeatedWildcard.headers repeatedWildcard.roles [["y x-x"], ["z"]] =
          .ok corpus :=
    ⟨_, _, _, _, _, rfl, rfl, rfl, rfl, rfl, rfl⟩
  have fits : TextsFit [["b a-a"], ["c"]] := by
    unfold TextsFit
    decide
  have reachable : repeatedWildcard.Reachable := by
    refine .apply (.apply (.apply (.apply (.start fits opened) ?_ isSecond) ?_ isThird) ?_ isFourth)
      ?_ applied
    all_goals exact trivial
  obtain ⟨next, results, searched, isResults, complete⟩ :=
    reachable.exists_listed_of_isInstance unshared_repeatedWildcard written (by decide)
      (staysWithin_repeatedWildcard written)
  obtain ⟨found, listed, same, before⟩ := complete [0, 1] isInstance_repeatedWildcard
  exact ⟨first, second, third, fourth, next, results, corpus, opened, isSecond, isThird, isFourth,
    applied, written, searched, isResults, found, listed, same, before⟩

end Session

end LogMotif
