import LogMotif.Proofs.Search.Chain

/-! # The earliest chains

A search is described by chains alone: for each row that starts a chain it lists the earliest one,
in ascending order of these rows, and it lists nothing else.
-/

namespace LogMotif

namespace Search

/-- Whether an answer is the earliest of the matches that have a property; there is none when the
answer is none. -/
def FirstOf (property : Match → Prop) : Option Match → Prop
  | none => ∀ found, ¬ property found
  | some found => property found ∧ ∀ other, property other → found = other ∨ found.Precedes other

/-- Trying ascending candidates in order finds the earliest match, if it finds the earliest behind
each candidate. -/
private theorem firstOf_findSome? {candidates : List Candidate}
    (ascending : candidates.Pairwise fun left right => left.1 < right.1)
    {property : Candidate → Match → Prop} {answer : Candidate → Option Match}
    (each : ∀ candidate ∈ candidates, FirstOf (property candidate) (answer candidate)) :
    FirstOf (fun found => ∃ candidate ∈ candidates, ∃ rest,
        found = candidate.1 :: rest ∧ property candidate rest)
      (candidates.findSome? fun candidate => (answer candidate).map (candidate.1 :: ·)) := by
  induction candidates with
  | nil => simp [FirstOf]
  | cons first candidates ih =>
    obtain ⟨later, ascending⟩ := List.pairwise_cons.mp ascending
    have here := each first List.mem_cons_self
    have behind := ih ascending fun candidate member => each candidate (List.mem_cons_of_mem _ member)
    rw [List.findSome?_cons]
    cases outcome : answer first with
    | some rest =>
      rw [outcome] at here
      refine ⟨⟨first, List.mem_cons_self, rest, rfl, here.1⟩, ?_⟩
      rintro other ⟨candidate, member, more, rfl, holds⟩
      rcases List.mem_cons.mp member with rfl | member
      · rcases here.2 more holds with rfl | before
        · exact .inl rfl
        · exact .inr (.cons before)
      · exact .inr (.rel (later candidate member))
    | none =>
      rw [outcome] at here
      -- The first candidate has no match, so the property only counts the others.
      have same : (fun found => ∃ candidate ∈ first :: candidates, ∃ rest,
          found = candidate.1 :: rest ∧ property candidate rest) =
          fun found => ∃ candidate ∈ candidates, ∃ rest,
            found = candidate.1 :: rest ∧ property candidate rest := by
        funext found
        simp only [List.mem_cons, exists_eq_or_imp, eq_iff_iff, or_iff_right_iff_imp]
        rintro ⟨rest, -, holds⟩
        exact absurd holds (here rest)
      rw [same]
      exact behind

theorem behind_sublist (stage : Stage) (previous : Nat) :
    (stage.behind previous).Sublist stage.candidates :=
  (List.takeWhile_sublist _).trans (List.dropWhile_sublist _)

/-- Rows continue a chain when the first of them is a candidate in the window of its link that its
entry matches, and the others continue behind it. -/
private theorem continues_cons_iff {budget : Nat} {corpus : Corpus}
    (few : corpus.rowCount < Index.greatest) {captured : List Nat} {items : List TemplateItem}
    {link : Link} {linked : List (EntryTemplate × Link)} {previous : Nat} {captures : Captures}
    (hold : captures.Hold captured) {found : Match} :
    let template := EntryTemplate.ofItems captured items
    Continues budget corpus ((template, link) :: linked) previous captures found ↔
      ∃ candidate ∈ (Stage.mk template (candidates corpus template) link).behind previous,
        ∃ rest, found = candidate.1 :: rest ∧ ∃ extended,
          template.captureLine? budget captures candidate.2 = some extended ∧
            Continues budget corpus linked candidate.1 extended rest := by
  intro template
  have ascending := pairwise_candidates corpus template
  constructor
  · rintro (_ | @⟨_, _, _, _, row, _, extended, rest, allowed, matched, continues⟩)
    obtain ⟨line, here, captures_eq⟩ := Option.bind_eq_some_iff.mp matched
    have inside := Corpus.lt_rowCount_of_line? here
    have passes := EntryTemplate.isSome_find?_of_captureLine? hold captures_eq
    refine ⟨(row, line), (mem_behind_iff ascending (by simp only; omega)).mpr
      ⟨mem_candidates_iff.mpr ⟨inside, here, passes⟩, allowed⟩, rest, rfl, extended, captures_eq,
      continues⟩
  · rintro ⟨⟨row, line⟩, member, rest, rfl, extended, captures_eq, continues⟩
    have inside : row < corpus.rowCount :=
      (mem_candidates_iff.mp ((behind_sublist _ _).subset member)).1
    obtain ⟨member, allowed⟩ := (mem_behind_iff ascending (by simp only; omega)).mp member
    obtain ⟨-, here, -⟩ := mem_candidates_iff.mp member
    refine .cons allowed ?_ continues
    rw [EntryTemplate.captureRow?, here]
    exact captures_eq

/-- The earliest continuation over all candidates is the earliest over all rows: a row that is no
candidate of an entry is not matched by it. -/
private theorem firstOf_earliest? {budget : Nat} {corpus : Corpus}
    (few : corpus.rowCount < Index.greatest) {captured : List Nat} {templates : List EntryTemplate}
    (threaded : Query.Threaded captured templates) {links : List Link} {previous : Nat}
    {captures : Captures} (hold : captures.Hold captured) :
    FirstOf (Continues budget corpus (templates.zip links) previous captures)
      (earliest? budget (stages corpus templates links) previous captures) := by
  induction threaded generalizing links previous captures with
  | nil captured =>
    refine ⟨.nil previous captures, ?_⟩
    rintro other ⟨⟩
    exact .inl rfl
  | @cons captured items rest _ ih =>
    cases links with
    | nil =>
      refine ⟨.nil previous captures, ?_⟩
      rintro other ⟨⟩
      exact .inl rfl
    | cons link links =>
      let template := EntryTemplate.ofItems captured items
      let stage : Stage := ⟨template, candidates corpus template, link⟩
      have each : ∀ candidate ∈ stage.behind previous,
          FirstOf (fun found => ∃ extended,
              template.captureLine? budget captures candidate.2 = some extended ∧
                Continues budget corpus (rest.zip links) candidate.1 extended found)
            ((template.captureLine? budget captures candidate.2).bind
              (earliest? budget (stages corpus rest links) candidate.1)) := by
        intro candidate _
        cases matched : template.captureLine? budget captures candidate.2 with
        | none => simp [FirstOf]
        | some extended =>
          have holdBehind := (EntryTemplate.spells_of_captureLine? hold matched).2.1
          simp only [Option.some.injEq, exists_eq_left', Option.bind_some]
          exact ih holdBehind
      have found := firstOf_findSome?
        ((pairwise_candidates corpus template).sublist (behind_sublist stage previous)) each
      have same : Continues budget corpus ((template :: rest).zip (link :: links)) previous captures =
          fun found => ∃ candidate ∈ stage.behind previous, ∃ more, found = candidate.1 :: more ∧
            ∃ extended, template.captureLine? budget captures candidate.2 = some extended ∧
              Continues budget corpus (rest.zip links) candidate.1 extended more :=
        funext fun found => propext (continues_cons_iff few hold)
      rw [same]
      simp only [Option.map_bind] at found
      exact found

end Search

theorem Match.Precedes.asymm {left right : Match} (before : left.Precedes right) :
    ¬ right.Precedes left :=
  List.lex_asymm Nat.lt_asymm before

instance : Std.Asymm Match.Precedes := ⟨fun _ _ => Match.Precedes.asymm⟩

namespace Query

section

variable {query : Query} {corpus : Corpus} {first : EntryTemplate} {templates : List EntryTemplate}

/-- Two earliest chains with one first row are the same. -/
theorem IsEarliestChain.eq {left right : Match} (isLeft : query.IsEarliestChain corpus left)
    (isRight : query.IsEarliestChain corpus right) (same : left.head? = right.head?) :
    left = right := by
  rcases isLeft.2 right isRight.1 same.symm with rfl | before
  · rfl
  · rcases isRight.2 left isLeft.1 same with rfl | after
    · rfl
    · exact absurd after before.asymm

/-- Behind a candidate of the first entry, the search finds the rest of the earliest chain. -/
private theorem firstOf_isChain (entries_eq : query.entries = first :: templates)
    (lengths : query.links.length = templates.length) (threaded : Threaded [] query.entries)
    (few : corpus.rowCount < Index.greatest) {row : Nat} {line : String}
    (here : corpus.line? row = some line) :
    Search.FirstOf (fun rest => query.IsChain corpus (row :: rest))
      ((first.captureLine? query.budget [] line).bind
        (Search.earliest? query.budget (Search.stages corpus templates query.links) row)) := by
  have chains : (fun rest => query.IsChain corpus (row :: rest)) = fun rest =>
      ∃ captures, first.captureLine? query.budget [] line = some captures ∧
        Continues query.budget corpus (templates.zip query.links) row captures rest := by
    funext rest
    rw [isChain_iff entries_eq lengths, eq_iff_iff]
    simp only [EntryTemplate.captureRow?, List.cons.injEq]
    constructor
    · rintro ⟨_, _, captures, ⟨rfl, rfl⟩, matched, continues⟩
      rw [here] at matched
      exact ⟨captures, matched, continues⟩
    · rintro ⟨captures, matched, continues⟩
      exact ⟨row, rest, captures, ⟨rfl, rfl⟩, by rw [here]; exact matched, continues⟩
  rw [chains]
  rw [entries_eq] at threaded
  obtain _ | @⟨_, items, _, threaded⟩ := threaded
  cases matched : (EntryTemplate.ofItems [] items).captureLine? query.budget [] line with
  | none => simp [Search.FirstOf]
  | some captures =>
    have hold := (EntryTemplate.spells_of_captureLine? Captures.hold_nil matched).2.1
    simp only [Option.some.injEq, exists_eq_left', Option.bind_some]
    exact Search.firstOf_earliest? few threaded hold

/-- A listed match is a candidate of the first entry with what is found behind it. -/
theorem mem_list_search_iff (entries_eq : query.entries = first :: templates) {chain : Match} :
    chain ∈ (query.search corpus).list ↔ ∃ row line rest,
      (row, line) ∈ Search.candidates corpus first ∧ chain = row :: rest ∧
        (first.captureLine? query.budget [] line).bind
          (Search.earliest? query.budget (Search.stages corpus templates query.links) row) =
            some rest := by
  rw [list_search entries_eq, List.mem_filterMap]
  simp only [Option.map_eq_some_iff, Prod.exists]
  constructor
  · rintro ⟨row, line, member, rest, found, rfl⟩
    exact ⟨row, line, rest, member, rfl, found⟩
  · rintro ⟨row, line, rest, member, rfl, found⟩
    exact ⟨row, line, member, rest, found, rfl⟩

theorem isEarliestChain_of_mem (entries_eq : query.entries = first :: templates)
    (lengths : query.links.length = templates.length) (threaded : Threaded [] query.entries)
    (few : corpus.rowCount < Index.greatest) {chain : Match}
    (listed : chain ∈ (query.search corpus).list) : query.IsEarliestChain corpus chain := by
  obtain ⟨row, line, rest, member, rfl, found⟩ := (mem_list_search_iff entries_eq).mp listed
  have earliest := firstOf_isChain entries_eq lengths threaded few
    (Search.mem_candidates_iff.mp member).2.1
  rw [found] at earliest
  refine ⟨earliest.1, fun other isChain same => ?_⟩
  obtain ⟨_, more, -, rfl, -⟩ := (isChain_iff entries_eq lengths).mp isChain
  obtain rfl : _ = row := by simpa using same
  rcases earliest.2 more isChain with rfl | before
  · exact .inl rfl
  · exact .inr (.cons before)

theorem exists_listed (entries_eq : query.entries = first :: templates)
    (lengths : query.links.length = templates.length) (threaded : Threaded [] query.entries)
    (few : corpus.rowCount < Index.greatest) {chain : Match}
    (isChain : query.IsChain corpus chain) :
    ∃ found ∈ (query.search corpus).list, found.head? = chain.head? := by
  obtain ⟨row, rest, captures, rfl, matched, -⟩ := (isChain_iff entries_eq lengths).mp isChain
  obtain ⟨line, here, matched⟩ := Option.bind_eq_some_iff.mp matched
  have earliest := firstOf_isChain entries_eq lengths threaded few here
  cases found : (first.captureLine? query.budget [] line).bind
      (Search.earliest? query.budget (Search.stages corpus templates query.links) row) with
  | none =>
    rw [found] at earliest
    exact absurd isChain (earliest rest)
  | some more =>
    refine ⟨row :: more, (mem_list_search_iff entries_eq).mpr ⟨row, line, more, ?_, rfl, found⟩, rfl⟩
    refine Search.mem_candidates_iff.mpr ⟨Corpus.lt_rowCount_of_line? here, here, ?_⟩
    rw [entries_eq] at threaded
    obtain _ | @⟨_, items, _, threaded⟩ := threaded
    exact EntryTemplate.isSome_find?_of_captureLine? Captures.hold_nil matched

private theorem pairwise_head_search (entries_eq : query.entries = first :: templates)
    (corpus : Corpus) :
    ((query.search corpus).list.filterMap List.head?).Pairwise (· < ·) := by
  rw [list_search entries_eq, List.filterMap_filterMap, List.pairwise_filterMap]
  refine (Search.pairwise_candidates corpus first).imp ?_
  intro candidate later before head isHead next isNext
  obtain ⟨_, isFound, isHead⟩ := Option.bind_eq_some_iff.mp isHead
  obtain ⟨_, isLater, isNext⟩ := Option.bind_eq_some_iff.mp isNext
  obtain ⟨_, -, rfl⟩ := Option.map_eq_some_iff.mp isFound
  obtain ⟨_, -, rfl⟩ := Option.map_eq_some_iff.mp isLater
  obtain rfl := Option.some.inj isHead
  obtain rfl := Option.some.inj isNext
  exact before

end

section

variable {headers : List Header} {roles : List ColumnRole} {motif : Motif} {budget : Nat}
  {query : Query} (compiled : compile headers roles motif budget = .ok query) {corpus : Corpus}

include compiled

theorem exists_listed_of_isChain (few : corpus.rowCount < Index.greatest) {chain : Match}
    (isChain : query.IsChain corpus chain) :
    ∃ found ∈ (query.search corpus).list, found.head? = chain.head? := by
  obtain ⟨first, templates, entries_eq, lengths, threaded⟩ := exists_entries_of_compile compiled
  exact exists_listed entries_eq lengths threaded few isChain

theorem mem_list_iff_isEarliestChain (few : corpus.rowCount < Index.greatest) {chain : Match} :
    chain ∈ (query.search corpus).list ↔ query.IsEarliestChain corpus chain := by
  obtain ⟨first, templates, entries_eq, lengths, threaded⟩ := exists_entries_of_compile compiled
  have sound {found : Match} (member : found ∈ (query.search corpus).list) :=
    isEarliestChain_of_mem entries_eq lengths threaded few member
  refine ⟨sound, fun earliest => ?_⟩
  obtain ⟨found, member, same⟩ := exists_listed_of_isChain compiled few earliest.1
  rwa [earliest.eq (sound member) same.symm]

theorem pairwise_head_of_compile (corpus : Corpus) :
    ((query.search corpus).list.filterMap List.head?).Pairwise (· < ·) := by
  obtain ⟨first, templates, entries_eq, -⟩ := exists_entries_of_compile compiled
  exact pairwise_head_search entries_eq corpus

/-- The matches are listed in ascending order. -/
theorem pairwise_precedes_of_compile (corpus : Corpus) :
    (query.search corpus).list.Pairwise Match.Precedes := by
  obtain ⟨first, templates, entries_eq, -⟩ := exists_entries_of_compile compiled
  rw [list_search entries_eq, List.pairwise_filterMap]
  refine (Search.pairwise_candidates corpus first).imp ?_
  intro candidate later before left isLeft right isRight
  obtain ⟨_, -, rfl⟩ := Option.map_eq_some_iff.mp isLeft
  obtain ⟨_, -, rfl⟩ := Option.map_eq_some_iff.mp isRight
  exact .rel before

end

/-- What a search finds, told by chains alone: in ascending order of their first rows, the earliest
chain from each row that starts one, and nothing else. -/
theorem search_eq_earliest_chains {headers : List Header} {roles : List ColumnRole} {motif : Motif}
    {budget : Nat} {query : Query} (compiled : compile headers roles motif budget = .ok query)
    {corpus : Corpus} (few : corpus.rowCount < Index.greatest) :
    (∀ chain, chain ∈ (query.search corpus).list ↔ query.IsEarliestChain corpus chain) ∧
      (∀ chain, query.IsChain corpus chain →
        ∃ found ∈ (query.search corpus).list, found.head? = chain.head?) ∧
      ((query.search corpus).list.filterMap List.head?).Pairwise (· < ·) ∧
      (∀ row, row ∈ (query.search corpus).rows ↔
        ∃ chain, query.IsEarliestChain corpus chain ∧ row ∈ chain) ∧
      (query.search corpus).rows.Pairwise (· < ·) := by
  have listed_iff {chain : Match} : chain ∈ (query.search corpus).list ↔
      query.IsEarliestChain corpus chain := mem_list_iff_isEarliestChain compiled few
  refine ⟨fun _ => listed_iff, fun _ => exists_listed_of_isChain compiled few,
    pairwise_head_of_compile compiled corpus, fun row => ?_, Matches.pairwise_rows _⟩
  simp only [Matches.mem_rows_iff, listed_iff]

/-- Two linked entries that share a wildcard, searched in a log of three rows. -/
theorem search_shared_wildcard_eq_earliest_chains :
    let entry (link : Option Link) : Entry := ⟨["a"], [⟨[.wildcard 0 "a"]⟩], [true], link⟩
    let corpus := Corpus.ofText "\x7b\"m\":\"a\"\x7d\n\x7b\"m\":\"b\"\x7d\n\x7b\"m\":\"a\"\x7d\n"
    let motif : Motif :=
      ⟨[entry (some (.atMost 2)), entry none], [⟨[⟨0, 0, 0⟩, ⟨1, 0, 0⟩]⟩]⟩
    ∃ query, compile [⟨"m", .string⟩] [.content] motif 10 = .ok query ∧
      corpus.rowCount < Index.greatest ∧
      ∀ chain, chain ∈ (query.search corpus).list ↔ query.IsEarliestChain corpus chain := by
  intro entry corpus motif
  have few : corpus.rowCount < Index.greatest := by
    have : corpus.rowCount = 3 := rfl
    rw [this]
    decide
  obtain ⟨query, compiled⟩ :
      ∃ query, compile [⟨"m", .string⟩] [.content] motif 10 = .ok query := ⟨_, rfl⟩
  exact ⟨query, compiled, few, (search_eq_earliest_chains compiled few).1⟩

end Query

end LogMotif
