import LogMotif.Proofs.Pattern.Headroom
import LogMotif.Proofs.Search.Budget
import LogMotif.Proofs.Search.Assignment

/-! # Searches with budget to spare

Within a larger budget an entry captures what it has captured, and it may match lines that it has
missed. So whatever a search finds remains a chain, with the same captures, and from the same row
the search finds it again or something earlier. A line on which the budget runs out is lost to the
search; it is not mistaken for another.
-/

namespace LogMotif

variable {budget more : Nat}

private theorem EntryTemplate.captureLine?_of_le (le : budget ≤ more) {template : EntryTemplate}
    {captures extended : Captures} {line : String}
    (matched : template.captureLine? budget captures line = some extended) :
    template.captureLine? more captures line = some extended := by
  obtain ⟨taken, found, rfl⟩ := captureLine?_eq_some_iff.mp matched
  exact captureLine?_eq_some_iff.mpr ⟨taken, LinePattern.attempt_eq_found_of_le found le, rfl⟩

private theorem EntryTemplate.captureRow?_of_le (le : budget ≤ more) {template : EntryTemplate}
    {corpus : Corpus} {captures extended : Captures} {row : Nat}
    (matched : template.captureRow? budget corpus captures row = some extended) :
    template.captureRow? more corpus captures row = some extended := by
  obtain ⟨line, isLine, matched⟩ := Option.bind_eq_some_iff.mp matched
  exact Option.bind_eq_some_iff.mpr ⟨line, isLine, captureLine?_of_le le matched⟩

private theorem captureAlong?_of_le (le : budget ≤ more) {corpus : Corpus}
    {pairs : List (EntryTemplate × Nat)} {captures final : Captures}
    (along : captureAlong? budget corpus pairs captures = some final) :
    captureAlong? more corpus pairs captures = some final := by
  induction pairs generalizing captures with
  | nil => exact along
  | cons pair pairs ih =>
    obtain ⟨extended, matched, along⟩ := Option.bind_eq_some_iff.mp along
    exact Option.bind_eq_some_iff.mpr
      ⟨extended, EntryTemplate.captureRow?_of_le le matched, ih along⟩

/-- Entries that match rows one after the other match as many of them as one likes. -/
private theorem isSome_captureAlong?_take {corpus : Corpus} {pairs : List (EntryTemplate × Nat)}
    {captures : Captures} (along : (captureAlong? budget corpus pairs captures).isSome) (k : Nat) :
    (captureAlong? budget corpus (pairs.take k) captures).isSome := by
  rw [← List.take_append_drop k pairs, captureAlong?_append] at along
  exact Option.isSome_of_isSome_bind along

namespace Search

/-- Trying more than before from ascending candidates finds what was found, or something earlier. -/
private theorem exists_findSome?_of_forall {candidates : List Candidate}
    (ascending : candidates.Pairwise fun left right => left.1 < right.1)
    {answer wider : Candidate → Option Match}
    (each : ∀ candidate ∈ candidates, ∀ rest, answer candidate = some rest →
      ∃ better : Match, wider candidate = some better ∧ (better = rest ∨ better.Precedes rest))
    {found : Match}
    (isFound : (candidates.findSome? fun candidate =>
      (answer candidate).map (candidate.1 :: ·)) = some found) :
    ∃ better : Match, (candidates.findSome? fun candidate =>
        (wider candidate).map (candidate.1 :: ·)) = some better ∧
      (better = found ∨ better.Precedes found) := by
  induction candidates with
  | nil => cases isFound
  | cons first candidates ih =>
    obtain ⟨later, ascending⟩ := List.pairwise_cons.mp ascending
    obtain ⟨here, each⟩ := List.forall_mem_cons.mp each
    rw [List.findSome?_cons] at isFound ⊢
    cases isWider : wider first with
    | some better =>
      refine ⟨first.1 :: better, rfl, ?_⟩
      cases outcome : answer first with
      | some rest =>
        rw [outcome] at isFound
        obtain rfl := Option.some.inj isFound
        obtain ⟨_, same, earlier⟩ := here rest outcome
        obtain rfl := Option.some.inj (isWider.symm.trans same)
        exact earlier.imp (congrArg _) .cons
      | none =>
        -- What was found starts at a later candidate.
        rw [outcome] at isFound
        obtain ⟨candidate, member, made⟩ := List.exists_of_findSome?_eq_some isFound
        obtain ⟨rest, -, rfl⟩ := Option.map_eq_some_iff.mp made
        exact .inr (.rel (later candidate member))
    | none =>
      cases outcome : answer first with
      | some rest =>
        obtain ⟨better, isBetter, -⟩ := here rest outcome
        cases isWider.symm.trans isBetter
      | none =>
        rw [outcome] at isFound
        exact ih ascending each isFound

/-- Within a larger budget the rows found behind a row are the same or earlier ones. -/
private theorem exists_earliest?_of_le (le : budget ≤ more) {corpus : Corpus}
    {templates : List EntryTemplate} {links : List Link} {previous : Nat} {captures : Captures}
    {rows : Match}
    (found : earliest? budget (stages corpus templates links) previous captures = some rows) :
    ∃ better : Match, earliest? more (stages corpus templates links) previous captures = some better ∧
      (better = rows ∨ better.Precedes rows) := by
  induction templates generalizing links previous captures rows with
  | nil => exact ⟨rows, found, .inl rfl⟩
  | cons template templates ih =>
    cases links with
    | nil => exact ⟨rows, found, .inl rfl⟩
    | cons link links =>
      let stage : Stage := ⟨template, candidates corpus template, link⟩
      have ascending := (pairwise_candidates corpus template).sublist
        (behind_sublist stage previous)
      have unfolded (limit : Nat) :
          earliest? limit (stages corpus (template :: templates) (link :: links)) previous captures =
            (stage.behind previous).findSome? fun candidate =>
              ((template.captureLine? limit captures candidate.2).bind
                (earliest? limit (stages corpus templates links) candidate.1)).map
                  (candidate.1 :: ·) := by
        simp only [Option.map_bind]
        rfl
      rw [unfolded] at found ⊢
      refine exists_findSome?_of_forall ascending (fun candidate _ rest here => ?_) found
      obtain ⟨extended, matched, behind⟩ := Option.bind_eq_some_iff.mp here
      obtain ⟨better, isBetter, earlier⟩ := ih behind
      exact ⟨better, Option.bind_eq_some_iff.mpr
        ⟨extended, EntryTemplate.captureLine?_of_le le matched, isBetter⟩, earlier⟩

end Search

namespace Query

/-- Two queries that are compiled from one motif differ in their budgets only. -/
private theorem alike_of_compile {headers : List Header} {roles : List ColumnRole} {motif : Motif}
    {query wider : Query} (compiled : compile headers roles motif budget = .ok query)
    (compiledWider : compile headers roles motif more = .ok wider) :
    query.budget = budget ∧ wider.budget = more ∧ wider.entries = query.entries ∧
      wider.links = query.links := by
  obtain ⟨-, -, -, -, rfl⟩ := compile_eq_ok_iff.mp compiled
  obtain ⟨-, -, -, -, rfl⟩ := compile_eq_ok_iff.mp compiledWider
  exact ⟨rfl, rfl, rfl, rfl⟩

section

variable {query wider : Query} {first : EntryTemplate} {templates : List EntryTemplate}
  {corpus : Corpus}

/-- From a row one match is listed at most. -/
private theorem eq_of_mem_list_search (entries_eq : query.entries = first :: templates)
    {left right : Match} (isLeft : left ∈ (query.search corpus).list)
    (isRight : right ∈ (query.search corpus).list) (same : left.head? = right.head?) :
    left = right := by
  obtain ⟨_, line, _, isCandidate, rfl, found⟩ := (mem_list_search_iff entries_eq).mp isLeft
  obtain ⟨_, other, _, isOther, rfl, foundOther⟩ := (mem_list_search_iff entries_eq).mp isRight
  obtain rfl := Option.some.inj same
  -- A row has one line, so what is found from it is determined.
  obtain ⟨-, isLine, -⟩ := Search.mem_candidates_iff.mp isCandidate
  obtain ⟨-, isOtherLine, -⟩ := Search.mem_candidates_iff.mp isOther
  obtain rfl := Option.some.inj (isLine.symm.trans isOtherLine)
  rw [Option.some.inj (found.symm.trans foundOther)]

/-- From a row from which a match is found, one is found within a larger budget: the same one, or
one that comes before it. -/
private theorem exists_listed_again (entries_eq : query.entries = first :: templates)
    (sameEntries : wider.entries = query.entries) (sameLinks : wider.links = query.links)
    (le : query.budget ≤ wider.budget) {chain : Match} (listed : chain ∈ (query.search corpus).list) :
    ∃ found ∈ (wider.search corpus).list, found.head? = chain.head? ∧
      (found = chain ∨ found.Precedes chain) := by
  obtain ⟨row, line, rest, isCandidate, rfl, found⟩ := (mem_list_search_iff entries_eq).mp listed
  obtain ⟨captures, captured, behind⟩ := Option.bind_eq_some_iff.mp found
  obtain ⟨better, isBetter, earlier⟩ := Search.exists_earliest?_of_le le behind
  have foundAgain : (first.captureLine? wider.budget [] line).bind
      (Search.earliest? wider.budget (Search.stages corpus templates wider.links) row) =
        some better := by
    rw [sameLinks]
    exact Option.bind_eq_some_iff.mpr
      ⟨captures, EntryTemplate.captureLine?_of_le le captured, isBetter⟩
  refine ⟨row :: better, ?_, rfl, earlier.imp (congrArg _) .cons⟩
  exact (mem_list_search_iff (sameEntries.trans entries_eq)).mpr
    ⟨row, line, better, isCandidate, rfl, foundAgain⟩

end

/-- When the budget is raised, each match that was found is still a chain, along which the entries
capture what they have captured. A match from the same row is found again: the same one, or one that
comes before it. -/
theorem exists_listed_of_le {headers : List Header} {roles : List ColumnRole} {motif : Motif}
    {query wider : Query} (compiled : compile headers roles motif budget = .ok query)
    (compiledWider : compile headers roles motif more = .ok wider) (le : budget ≤ more)
    (corpus : Corpus) {chain : Match} (listed : chain ∈ (query.search corpus).list) :
    wider.IsChain corpus chain ∧
      (∀ k, ∃ captures,
        captureAlong? budget corpus ((query.entries.zip chain).take k) [] = some captures ∧
          captureAlong? more corpus ((wider.entries.zip chain).take k) [] = some captures) ∧
      (∃ found ∈ (wider.search corpus).list, found.head? = chain.head?) ∧
      ∀ found ∈ (wider.search corpus).list, found.head? = chain.head? →
        found = chain ∨ found.Precedes chain := by
  obtain ⟨first, templates, entries_eq, lengths, -⟩ := exists_entries_of_compile compiled
  obtain ⟨rfl, rfl, sameEntries, sameLinks⟩ := alike_of_compile compiled compiledWider
  obtain ⟨length_eq, linked, matched⟩ := isChain_of_mem_list entries_eq lengths listed
  obtain ⟨again, isAgain, sameRow, earlier⟩ :=
    exists_listed_again entries_eq sameEntries sameLinks le listed
  refine ⟨⟨?_, ?_, ?_⟩, fun k => ?_, ⟨again, isAgain, sameRow⟩, fun found isFound same => ?_⟩
  · rwa [entryCount, sameEntries]
  · rwa [sameLinks]
  · obtain ⟨final, along⟩ := Option.isSome_iff_exists.mp matched
    rw [sameEntries]
    exact Option.isSome_of_eq_some (captureAlong?_of_le le along)
  · obtain ⟨captures, along⟩ := Option.isSome_iff_exists.mp (isSome_captureAlong?_take matched k)
    rw [sameEntries]
    exact ⟨captures, along, captureAlong?_of_le le along⟩
  · obtain rfl := eq_of_mem_list_search (sameEntries.trans entries_eq) isFound isAgain
      (same.trans sameRow.symm)
    exact earlier

/-- Two entries of which the second repeats a wildcard. That `abab` repeats a text is found only by
going back, so with nothing to spend the later row is found instead. -/
theorem exists_listed_of_raised_budget :
    let entry (cell : Cell) (link : Option Link) : Entry := ⟨["x"], [cell], [true], link⟩
    let motif : Motif :=
      { entries := [entry ⟨[.text "x"]⟩ (some .any),
          entry ⟨[.wildcard 0 "a", .wildcard 0 "a"]⟩ none]
        wildcards := [⟨[⟨1, 0, 0⟩, ⟨1, 0, 1⟩]⟩] }
    let corpus := Corpus.ofText
      "\x7b\"m\":\"x\"\x7d\n\x7b\"m\":\"abab\"\x7d\n\x7b\"m\":\"aa\"\x7d\n"
    ∃ query wider, compile [⟨"m", .string⟩] [.content] motif 0 = .ok query ∧
      compile [⟨"m", .string⟩] [.content] motif 1 = .ok wider ∧ 0 ≤ 1 ∧
      [0, 2] ∈ (query.search corpus).list ∧ wider.IsChain corpus [0, 2] ∧
      ∃ found ∈ (wider.search corpus).list, found.head? = some 0 ∧
        (found = [0, 2] ∨ found.Precedes [0, 2]) := by
  intro entry motif corpus
  obtain ⟨query, wider, compiled, compiledWider⟩ : ∃ query wider,
      compile [⟨"m", .string⟩] [.content] motif 0 = .ok query ∧
        compile [⟨"m", .string⟩] [.content] motif 1 = .ok wider := ⟨_, _, rfl, rfl⟩
  have few : corpus.rowCount < Index.greatest := by
    have : corpus.rowCount = 3 := rfl
    rw [this]
    decide
  have query_eq := (compile_eq_ok_iff.mp compiled).2.2.2.2
  have listed : [0, 2] ∈ (query.search corpus).list := by
    refine (mem_list_iff_isEarliestChain compiled few).mpr ⟨⟨?_, ?_, ?_⟩, fun other isChain same => ?_⟩
    · rw [query_eq]
      rfl
    · rw [query_eq]
      refine Match.linked_cons_cons.mpr ⟨?_, by simp [Match.Linked]⟩
      change (1 : Int) ≤ 2 - 0
      decide
    · rw [query_eq]
      decide +kernel
    · obtain ⟨length_eq, -, matched⟩ := isChain
      rw [query_eq] at length_eq matched
      obtain ⟨_, row, rfl⟩ := List.length_eq_two.mp length_eq
      obtain rfl := Option.some.inj same
      rcases row with _ | _ | _ | row
      · exact absurd matched (by decide +kernel)
      · exact absurd matched (by decide +kernel)
      · exact .inl rfl
      · exact .inr (.cons (.rel (by omega)))
  obtain ⟨isChain, -, ⟨found, isFound, same⟩, earlier⟩ :=
    exists_listed_of_le compiled compiledWider (by decide) corpus listed
  exact ⟨query, wider, compiled, compiledWider, by decide, listed, isChain, found, isFound, same,
    earlier found isFound same⟩

end Query

end LogMotif
