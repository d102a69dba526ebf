import LogMotif.Proofs.Corpus.Lines
import LogMotif.Proofs.Search.Budget

/-! # Logs that grow

Rows written behind those of a log leave their lines as they are. So rows that are a chain remain
one, within the same budget, and the row from which something was found is found again. What is
found from it may change: where the new rows complete a chain that had come to nothing, that chain
may be the earlier one.
-/

namespace LogMotif

/-- Whether each line of a corpus is the line of the same row in another corpus. -/
def Corpus.GrowsTo (corpus grown : Corpus) : Prop :=
  ∀ row line, corpus.line? row = some line → grown.line? row = some line

/-- Rows written behind those of a log leave their lines as they are. -/
private theorem Corpus.growsTo_ofRows_append {headers : List Header} {roles : List ColumnRole}
    {rows added : List (List String)} {corpus grown : Corpus}
    (written : ofRows headers roles rows = .ok corpus)
    (writtenGrown : ofRows headers roles (rows ++ added) = .ok grown) : corpus.GrowsTo grown := by
  intro i line isLine
  rw [line?_ofRows written] at isLine
  obtain ⟨row, isRow, rfl⟩ := Option.map_eq_some_iff.mp isLine
  obtain ⟨inside, -⟩ := List.getElem?_eq_some_iff.mp isRow
  rw [line?_ofRows writtenGrown, List.getElem?_append_left inside, isRow, Option.map_some]

/-- Rows that can be written one by one can be written together. -/
private theorem Corpus.exists_ofRows_append {headers : List Header} {roles : List ColumnRole}
    {rows added : List (List String)} {corpus other : Corpus}
    (written : ofRows headers roles rows = .ok corpus)
    (writtenAdded : ofRows headers roles added = .ok other) :
    ∃ grown, ofRows headers roles (rows ++ added) = .ok grown := by
  obtain ⟨covered, fits, -⟩ := ofRows_eq_ok_iff.mp written
  obtain ⟨-, fitsAdded, -⟩ := ofRows_eq_ok_iff.mp writtenAdded
  exact ⟨_, ofRows_eq_ok_iff.mpr ⟨covered, List.forall_mem_append.mpr ⟨fits, fitsAdded⟩, rfl⟩⟩

variable {budget : Nat} {corpus grown : Corpus}

/-- What entries capture along some rows, they capture along them in a corpus that has grown. -/
private theorem captureAlong?_of_growsTo (grows : corpus.GrowsTo grown)
    {pairs : List (EntryTemplate × Nat)} {captures final : Captures}
    (along : captureAlong? budget corpus pairs captures = some final) :
    captureAlong? budget grown pairs captures = some final := by
  induction pairs generalizing captures with
  | nil => exact along
  | cons pair pairs ih =>
    obtain ⟨extended, matched, along⟩ := Option.bind_eq_some_iff.mp along
    obtain ⟨line, isLine, matched⟩ := Option.bind_eq_some_iff.mp matched
    have here : pair.1.captureRow? budget grown captures pair.2 = some extended :=
      Option.bind_eq_some_iff.mpr ⟨line, grows pair.2 line isLine, matched⟩
    exact Option.bind_eq_some_iff.mpr ⟨extended, here, ih along⟩

namespace Query

variable {query : Query}

/-- A chain remains one when the corpus grows. -/
private theorem IsChain.of_growsTo {chain : Match} (isChain : query.IsChain corpus chain)
    (grows : corpus.GrowsTo grown) : query.IsChain grown chain where
  length_eq := isChain.length_eq
  linked := isChain.linked
  matched := by
    obtain ⟨final, along⟩ := Option.isSome_iff_exists.mp isChain.matched
    exact Option.isSome_of_eq_some (captureAlong?_of_growsTo grows along)

/-- When rows are written behind those of a log, each match that was found is found again, or an
earlier one from the same row. The columns of the log need not be those the query was compiled for,
and nothing is asked of the budget. -/
theorem exists_listed_of_ofRows_append {headers columns : List Header}
    {roles kinds : List ColumnRole} {motif : Motif} {budget : Nat}
    (compiled : compile columns kinds motif budget = .ok query)
    {rows added : List (List String)} {other : Corpus}
    (written : Corpus.ofRows headers roles rows = .ok corpus)
    (writtenAdded : Corpus.ofRows headers roles added = .ok other)
    (few : rows.length + added.length < Index.greatest) :
    ∃ grown, Corpus.ofRows headers roles (rows ++ added) = .ok grown ∧
      ∀ chain ∈ (query.search corpus).list, ∃ found ∈ (query.search grown).list,
        found.head? = chain.head? ∧ (found = chain ∨ found.Precedes chain) := by
  obtain ⟨grown, writtenGrown⟩ := Corpus.exists_ofRows_append written writtenAdded
  refine ⟨grown, writtenGrown, fun chain listed => ?_⟩
  have fewRows : corpus.rowCount < Index.greatest := by
    rw [Corpus.rowCount_ofRows written]
    exact Nat.lt_of_le_of_lt (Nat.le_add_right ..) few
  have fewGrown : grown.rowCount < Index.greatest := by
    rwa [Corpus.rowCount_ofRows writtenGrown, List.length_append]
  obtain ⟨isChain, -⟩ := (mem_list_iff_isEarliestChain compiled fewRows).mp listed
  have remains := isChain.of_growsTo (Corpus.growsTo_ofRows_append written writtenGrown)
  obtain ⟨found, isListed, same⟩ := exists_listed_of_isChain compiled fewGrown remains
  have earliest := (mem_list_iff_isEarliestChain compiled fewGrown).mp isListed
  exact ⟨found, isListed, same, earliest.2 chain remains same.symm⟩

/-- Three entries of which the last two share a wildcard. The row that is written behind the log
completes a chain over its second row, which had come to nothing. -/
theorem exists_listed_of_completed_chain :
    let entry (cell : Cell) (link : Option Link) : Entry := ⟨["a"], [cell], [true], link⟩
    let motif : Motif :=
      { entries := [entry ⟨[.text "a"]⟩ (some .any), entry ⟨[.wildcard 0 "b"]⟩ (some .any),
          entry ⟨[.wildcard 0 "b", .text "!"]⟩ none]
        wildcards := [⟨[⟨1, 0, 0⟩, ⟨2, 0, 0⟩]⟩] }
    let rows : List (List String) := [["a"], ["x"], ["y"], ["y!"]]
    ∃ (query : Query) (corpus added grown : Corpus),
      compile [⟨"m", .string⟩] [.content] motif 10 = .ok query ∧
      Corpus.ofRows [⟨"m", .string⟩] [.content] rows = .ok corpus ∧
      Corpus.ofRows [⟨"m", .string⟩] [.content] [["x!"]] = .ok added ∧
      rows.length + 1 < Index.greatest ∧
      Corpus.ofRows [⟨"m", .string⟩] [.content] (rows ++ [["x!"]]) = .ok grown ∧
      ∃ chain ∈ (query.search corpus).list, chain.head? = some 0 ∧
        ∃ found ∈ (query.search grown).list,
          found.head? = chain.head? ∧ (found = chain ∨ found.Precedes chain) := by
  intro entry motif rows
  obtain ⟨query, corpus, added, compiled, written, writtenAdded⟩ :
      ∃ (query : Query) (corpus added : Corpus),
        compile [⟨"m", .string⟩] [.content] motif 10 = .ok query ∧
        Corpus.ofRows [⟨"m", .string⟩] [.content] rows = .ok corpus ∧
        Corpus.ofRows [⟨"m", .string⟩] [.content] [["x!"]] = .ok added :=
    ⟨_, _, _, rfl, rfl, rfl⟩
  have few : rows.length + 1 < Index.greatest := by decide
  have fewRows : corpus.rowCount < Index.greatest := by
    rw [Corpus.rowCount_ofRows written]
    decide
  obtain ⟨chain, listed, same⟩ :
      ∃ chain ∈ (query.search corpus).list, chain.head? = some 0 := by
    have query_eq := (compile_eq_ok_iff.mp compiled).2.2.2.2
    have within : query.StaysWithin corpus := by
      refine staysWithin_of_hasRecall_eq_false fun template member captures => ?_
      simp only [query_eq, motif, entry, templates, List.mem_cons, List.not_mem_nil, or_false]
        at member
      rcases member with rfl | rfl | rfl <;> rfl
    have linked : Match.Linked query.links [0, 2, 3] := by
      rw [query_eq]
      refine Match.linked_cons_cons.mpr ⟨?_, Match.linked_cons_cons.mpr ⟨?_, ?_⟩⟩
      · change (1 : Int) ≤ 2 - 0
        decide
      · change (1 : Int) ≤ 3 - 2
        decide
      · simp [Match.Linked]
    have matched : (matchAlong? corpus (query.entries.zip [0, 2, 3]) []).isSome := by
      rw [query_eq]
      change (matchAlong? corpus [(_, 0), (_, 2), (_, 3)] []).isSome
      simp only [matchAlong?, EntryTemplate.matchRow?, Corpus.line?_ofRows written]
      decide +kernel
    obtain ⟨chain, listed, same, -⟩ := exists_listed_of_matchAlong? compiled fewRows within
      (by rw [query_eq]; rfl) linked matched
    exact ⟨chain, listed, same⟩
  obtain ⟨grown, writtenGrown, found⟩ :=
    exists_listed_of_ofRows_append compiled written writtenAdded few
  exact ⟨query, corpus, added, grown, compiled, written, writtenAdded, few, writtenGrown, chain,
    listed, same, found chain listed⟩

end Query

end LogMotif
