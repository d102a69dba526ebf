import LogMotif.Proofs.Search.Earliest
import LogMotif.Session

/-! # Searches that stay within their budget

A line on which the matching of an entry exceeds its budget counts as one that does not match, so a
search may miss chains, or list one that is not the earliest. Here the entries are matched without a
budget. Where none of the lines that a search tries exceeds it, whatever is matched without a budget
is found, unless something earlier is found from the same row.
-/

namespace LogMotif

/-- The captures behind an entry that matches a row of a log without a budget. -/
def EntryTemplate.matchRow? (template : EntryTemplate) (corpus : Corpus) (captures : Captures)
    (row : Nat) : Option Captures := (corpus.line? row).bind (template.matchLine? captures)

/-- The captures behind entries that match one row each without a budget, one after the other. -/
def matchAlong? (corpus : Corpus) : List (EntryTemplate × Nat) → Captures → Option Captures
  | [], captures => some captures
  | (template, row) :: rest, captures =>
    (template.matchRow? corpus captures row).bind (matchAlong? corpus rest)

namespace Match

private theorem Linked.of_append {links : List Link} {front back : Match}
    (linked : Linked links (front ++ back)) : Linked links front := by
  intro i link row next isLink isRow isNext
  obtain ⟨inside, -⟩ := List.getElem?_eq_some_iff.mp isRow
  obtain ⟨insideNext, -⟩ := List.getElem?_eq_some_iff.mp isNext
  refine linked i link row next isLink ?_ ?_
  · rwa [List.getElem?_append_left inside]
  · rwa [List.getElem?_append_left insideNext]

/-- What comes before the front of a match comes before all of it. -/
private theorem Precedes.append {left front : Match} (precedes : left.Precedes front)
    (back : Match) :
    left.Precedes (front ++ back) :=
  List.Lex.append_right _ back precedes

end Match

variable {budget : Nat} {corpus : Corpus}

private theorem EntryTemplate.matchRow?_of_captureRow? {template : EntryTemplate}
    {captures extended : Captures} {row : Nat}
    (matched : template.captureRow? budget corpus captures row = some extended) :
    template.matchRow? corpus captures row = some extended := by
  obtain ⟨line, isLine, matched⟩ := Option.bind_eq_some_iff.mp matched
  exact Option.bind_eq_some_iff.mpr ⟨line, isLine, matchLine?_of_captureLine? matched⟩

theorem matchAlong?_of_captureAlong? {pairs : List (EntryTemplate × Nat)}
    {captures final : Captures} (along : captureAlong? budget corpus pairs captures = some final) :
    matchAlong? corpus pairs captures = some final := by
  induction pairs generalizing captures with
  | nil => exact along
  | cons pair pairs ih =>
    obtain ⟨extended, matched, along⟩ := Option.bind_eq_some_iff.mp along
    exact Option.bind_eq_some_iff.mpr
      ⟨extended, EntryTemplate.matchRow?_of_captureRow? matched, ih along⟩

theorem captureAlong?_append (front back : List (EntryTemplate × Nat)) (captures : Captures) :
    captureAlong? budget corpus (front ++ back) captures =
      (captureAlong? budget corpus front captures).bind (captureAlong? budget corpus back) := by
  induction front generalizing captures with
  | nil => rfl
  | cons pair front ih =>
    rw [List.cons_append, captureAlong?, captureAlong?, Option.bind_assoc]
    exact Option.bind_congr fun extended _ => ih extended

namespace Query

/-- Whether a search tries to match the line of a row behind some rows: these are matched by the
entries in front, the row is a candidate of the next entry, all are at distances that the links
allow, and no match with the same first row has been found before. -/
structure Tries (query : Query) (corpus : Corpus) (rows : Match) (captures : Captures)
    (template : EntryTemplate) (row : Nat) (line : String) : Prop where
  isEntry : query.entries[rows.length]? = some template
  matched : captureAlong? query.budget corpus (query.entries.zip rows) [] = some captures
  linked : Match.Linked query.links (rows ++ [row])
  isCandidate : (row, line) ∈ Search.candidates corpus template
  pending : ∀ found ∈ (query.search corpus).list, found.head? = (rows ++ [row]).head? →
    ¬ found.Precedes (rows ++ [row])

/-- Whether no line that a search tries exceeds the budget. -/
def StaysWithin (query : Query) (corpus : Corpus) : Prop :=
  ∀ rows captures template row line, query.Tries corpus rows captures template row line →
    (template.linePattern (Search.boundValues template captures)).attempt query.budget line ≠
      .exhausted

variable {query : Query}

/-- A search stays within the budget if no entry exceeds it on any line. -/
theorem staysWithin_of_forall
    (enough : ∀ template ∈ query.entries, ∀ captures row line, corpus.line? row = some line →
      (template.linePattern (Search.boundValues template captures)).attempt query.budget line ≠
        .exhausted) : query.StaysWithin corpus := by
  intro rows captures template row line tries
  exact enough template (List.mem_of_getElem? tries.isEntry) captures row line
    (Search.mem_candidates_iff.mp tries.isCandidate).2.1

/-- A query of whose templates none recalls a text has no budget to exceed. -/
theorem staysWithin_of_hasRecall_eq_false
    (plain : ∀ template ∈ query.entries, ∀ captures,
      (template.linePattern (Search.boundValues template captures)).hasRecall = false) :
    query.StaysWithin corpus :=
  staysWithin_of_forall fun template member captures _ _ _ =>
    LinePattern.attempt_ne_exhausted (plain template member captures) _ _

/-- A row of a chain that is not found later than a listed match is tried, if the rows before it are
matched. -/
private theorem tries_of_linked {chain : Match} (linked : chain.Linked query.links)
    (pending : ∀ found ∈ (query.search corpus).list, found.head? = chain.head? →
      ¬ found.Precedes chain)
    {front rest : List EntryTemplate} {template : EntryTemplate}
    (entries_eq : query.entries = front ++ template :: rest) {rows more : Match} {row : Nat}
    (lengths : front.length = rows.length) (chain_eq : chain = rows ++ row :: more)
    {captures : Captures}
    (before : captureAlong? query.budget corpus (front.zip rows) [] = some captures) {line : String}
    (isCandidate : (row, line) ∈ Search.candidates corpus template) :
    query.Tries corpus rows captures template row line where
  isEntry := by
    rw [entries_eq, ← lengths]
    simp
  matched := by
    have zip_eq : query.entries.zip rows = front.zip rows := by
      rw [entries_eq, ← List.append_nil rows, List.zip_append lengths]
      simp
    rw [zip_eq, before]
  linked := by
    rw [chain_eq, List.append_cons] at linked
    exact linked.of_append
  isCandidate := isCandidate
  pending := by
    intro found listed same precedes
    refine pending found listed ?_ ?_
    · rw [same, chain_eq]
      cases rows <;> rfl
    · rw [chain_eq, List.append_cons]
      exact precedes.append more

/-- Entries that match the rows of a chain without a budget match them within the budget, if nothing
that is listed comes before the chain. -/
private theorem isSome_captureAlong?_of_matchAlong? (within : query.StaysWithin corpus)
    {chain : Match} (linked : chain.Linked query.links)
    (pending : ∀ found ∈ (query.search corpus).list, found.head? = chain.head? →
      ¬ found.Precedes chain)
    {captured : List Nat} {rest : List EntryTemplate} (threaded : Threaded captured rest)
    (front : List EntryTemplate) (rows : Match) {more : Match} {captures : Captures}
    (entries_eq : query.entries = front ++ rest) (lengths : front.length = rows.length)
    (chain_eq : chain = rows ++ more) (hold : captures.Hold captured)
    (before : captureAlong? query.budget corpus (front.zip rows) [] = some captures)
    (matched : (matchAlong? corpus (rest.zip more) captures).isSome) :
    (captureAlong? query.budget corpus (rest.zip more) captures).isSome := by
  induction threaded generalizing front rows more captures with
  | nil => rfl
  | @cons captured items rest _ ih =>
    cases more with
    | nil => rfl
    | cons row more =>
      let template := EntryTemplate.ofItems captured items
      obtain ⟨final, matched⟩ := Option.isSome_iff_exists.mp matched
      obtain ⟨extended, matched, behind⟩ := Option.bind_eq_some_iff.mp matched
      obtain ⟨line, isLine, matched⟩ := Option.bind_eq_some_iff.mp matched
      have isCandidate : (row, line) ∈ Search.candidates corpus template :=
        Search.mem_candidates_iff.mpr ⟨Corpus.lt_rowCount_of_line? isLine, isLine,
          EntryTemplate.isSome_find?_of_matchLine? hold matched⟩
      have tries := tries_of_linked linked pending entries_eq lengths chain_eq before isCandidate
      have captured_eq : template.captureRow? query.budget corpus captures row = some extended :=
        Option.bind_eq_some_iff.mpr ⟨line, isLine,
          EntryTemplate.captureLine?_of_matchLine? matched (within _ _ _ _ _ tries)⟩
      have holdBehind := (EntryTemplate.spells_of_matchLine? hold matched).2.1
      rw [List.zip_cons_cons, captureAlong?, captured_eq, Option.bind_some]
      refine ih (front ++ [template]) (rows ++ [row]) ?_ ?_ ?_ holdBehind ?_ ?_
      · rw [entries_eq, List.append_cons]
      · simp [lengths]
      · rw [chain_eq, List.append_cons]
      · rw [List.zip_append lengths, captureAlong?_append, before, Option.bind_some]
        simp [captureAlong?, captured_eq]
      · exact Option.isSome_of_eq_some behind

/-- What is matched without a budget is found, unless something earlier is found from the same row.
-/
theorem exists_listed_of_matchAlong? {headers : List Header} {roles : List ColumnRole}
    {motif : Motif} {budget : Nat} (compiled : compile headers roles motif budget = .ok query)
    (few : corpus.rowCount < Index.greatest) (within : query.StaysWithin corpus) {chain : Match}
    (length_eq : chain.length = query.entryCount) (linked : chain.Linked query.links)
    (matched : (matchAlong? corpus (query.entries.zip chain) []).isSome) :
    ∃ found ∈ (query.search corpus).list,
      found.head? = chain.head? ∧ (found = chain ∨ found.Precedes chain) := by
  by_cases earlier : ∃ found ∈ (query.search corpus).list,
      found.head? = chain.head? ∧ found.Precedes chain
  · obtain ⟨found, listed, same, precedes⟩ := earlier
    exact ⟨found, listed, same, .inr precedes⟩
  · have pending : ∀ found ∈ (query.search corpus).list, found.head? = chain.head? →
        ¬ found.Precedes chain :=
      fun found listed same precedes => earlier ⟨found, listed, same, precedes⟩
    obtain ⟨_, _, -, -, threaded⟩ := exists_entries_of_compile compiled
    have isChain : query.IsChain corpus chain := by
      refine ⟨length_eq, linked, ?_⟩
      exact isSome_captureAlong?_of_matchAlong? within linked pending threaded [] [] rfl rfl rfl
        Captures.hold_nil rfl matched
    obtain ⟨found, listed, same⟩ := exists_listed_of_isChain compiled few isChain
    have earliest := (mem_list_iff_isEarliestChain compiled few).mp listed
    exact ⟨found, listed, same, earliest.2 chain isChain same.symm⟩

end Query

/-- Whether no line that a search for the motif of a session tries exceeds the budget. -/
def Session.StaysWithin (session : Session) (corpus : Corpus) : Prop :=
  ∀ query, session.compile = .ok query → query.StaysWithin corpus

end LogMotif
