import LogMotif.Proofs.Search.Memory

/-! # Chains of rows

A chain of a query is a row for each entry, at distances that the links allow, such that each entry
matches its row behind what the entries before it have captured. A search is described by chains
alone: for each row that starts one it lists the earliest, and it lists nothing else. So it makes no
difference that only candidates are tried, that rows are sought in a window, and that the search
remembers what it has met.
-/

namespace LogMotif

/-- Whether a link allows a distance between the rows of two neighbouring entries. -/
def Link.Allows (distance : Int) : Link → Prop
  | any => 1 ≤ distance
  | exactly rows => distance = rows
  | atMost rows => 1 ≤ distance ∧ distance ≤ rows

/-- Whether each link allows the distance between the two rows it lies between. -/
def Match.Linked (links : List Link) (rows : Match) : Prop :=
  ∀ i link row next, links[i]? = some link → rows[i]? = some row → rows[i + 1]? = some next →
    link.Allows ((next : Int) - row)

/-- Whether a match comes before another in the order of their first different row. -/
def Match.Precedes (left right : Match) : Prop := List.Lex (· < ·) left right

/-- The captures behind an entry that matches a row of a log. -/
def EntryTemplate.captureRow? (template : EntryTemplate) (budget : Nat) (corpus : Corpus)
    (captures : Captures) (row : Nat) : Option Captures :=
  (corpus.line? row).bind (template.captureLine? budget captures)

/-- The captures behind entries that match one row each, one after the other. -/
def captureAlong? (budget : Nat) (corpus : Corpus) :
    List (EntryTemplate × Nat) → Captures → Option Captures
  | [], captures => some captures
  | (template, row) :: rest, captures =>
    (template.captureRow? budget corpus captures row).bind (captureAlong? budget corpus rest)

namespace Query

/-- Whether a list of rows is a chain of a query in a log. -/
structure IsChain (query : Query) (corpus : Corpus) (chain : Match) : Prop where
  length_eq : chain.length = query.entryCount
  linked : chain.Linked query.links
  matched : (captureAlong? query.budget corpus (query.entries.zip chain) []).isSome

/-- Whether a list of rows is the earliest of the chains with its first row. -/
def IsEarliestChain (query : Query) (corpus : Corpus) (chain : Match) : Prop :=
  query.IsChain corpus chain ∧ ∀ other, query.IsChain corpus other → other.head? = chain.head? →
    chain = other ∨ chain.Precedes other

end Query

/-! ### Windows -/

namespace Search

/-- A window holds no row at a distance that its link does not allow, also where it is cut off at the
greatest index. -/
theorem allows_of_window {link : Link} {previous row : Nat}
    (start : (link.window previous).1 ≤ row) (stop : row < (link.window previous).2) :
    link.Allows ((row : Int) - previous) := by
  cases link <;> simp only [Link.Allows, Link.window, Index.add] at * <;> omega

/-- The window of a link holds the rows at the distances it allows. -/
private theorem allows_iff_window {link : Link} {previous row : Nat}
    (small : row + 1 < Index.greatest) :
    link.Allows ((row : Int) - previous) ↔
      (link.window previous).1 ≤ row ∧ row < (link.window previous).2 := by
  cases link <;> simp only [Link.Allows, Link.window, Index.add] <;> omega

private theorem mem_dropWhile_iff {start : Nat} {candidates : List Candidate}
    {candidate : Candidate} (ascending : candidates.Pairwise fun left right => left.1 < right.1) :
    candidate ∈ candidates.dropWhile (·.1 < start) ↔
      candidate ∈ candidates ∧ start ≤ candidate.1 := by
  induction candidates with
  | nil => simp
  | cons first candidates ih =>
    obtain ⟨later, ascending⟩ := List.pairwise_cons.mp ascending
    rw [List.dropWhile_cons]
    split
    next early =>
      rw [ih ascending, List.mem_cons]
      constructor
      · exact fun ⟨member, reached⟩ => ⟨.inr member, reached⟩
      · rintro ⟨rfl | member, reached⟩
        · simp only [decide_eq_true_eq] at early
          omega
        · exact ⟨member, reached⟩
    next reached =>
      simp only [decide_eq_true_eq, Nat.not_lt] at reached
      refine ⟨fun member => ⟨member, ?_⟩, And.left⟩
      rcases List.mem_cons.mp member with rfl | member
      · exact reached
      · exact Nat.le_trans reached (Nat.le_of_lt (later candidate member))

private theorem mem_takeWhile_iff {stop : Nat} {candidates : List Candidate} {candidate : Candidate}
    (ascending : candidates.Pairwise fun left right => left.1 < right.1) :
    candidate ∈ candidates.takeWhile (·.1 < stop) ↔
      candidate ∈ candidates ∧ candidate.1 < stop := by
  induction candidates with
  | nil => simp
  | cons first candidates ih =>
    obtain ⟨later, ascending⟩ := List.pairwise_cons.mp ascending
    rw [List.takeWhile_cons]
    split
    next early =>
      rw [List.mem_cons, List.mem_cons, ih ascending]
      constructor
      · rintro (rfl | ⟨member, inside⟩)
        · exact ⟨.inl rfl, by simpa using early⟩
        · exact ⟨.inr member, inside⟩
      · rintro ⟨rfl | member, inside⟩
        · exact .inl rfl
        · exact .inr ⟨member, inside⟩
    next reached =>
      simp only [decide_eq_true_eq, Nat.not_lt] at reached
      simp only [List.not_mem_nil, List.mem_cons, false_iff, not_and, Nat.not_lt]
      rintro (rfl | member)
      · exact reached
      · exact Nat.le_trans reached (Nat.le_of_lt (later candidate member))

theorem mem_behind_iff_window {stage : Stage} {previous : Nat} {candidate : Candidate}
    (ascending : stage.candidates.Pairwise fun left right => left.1 < right.1) :
    candidate ∈ stage.behind previous ↔ candidate ∈ stage.candidates ∧
      (stage.link.window previous).1 ≤ candidate.1 ∧
        candidate.1 < (stage.link.window previous).2 := by
  unfold Stage.behind
  rw [mem_takeWhile_iff (ascending.sublist (List.dropWhile_sublist _)),
    mem_dropWhile_iff ascending, and_assoc]

theorem mem_behind_iff {stage : Stage} {previous : Nat} {candidate : Candidate}
    (ascending : stage.candidates.Pairwise fun left right => left.1 < right.1)
    (small : candidate.1 + 1 < Index.greatest) :
    candidate ∈ stage.behind previous ↔
      candidate ∈ stage.candidates ∧ stage.link.Allows ((candidate.1 : Int) - previous) := by
  rw [mem_behind_iff_window ascending, allows_iff_window small]

/-! ### Candidates -/

theorem mem_candidates_iff {corpus : Corpus} {template : EntryTemplate} {row : Nat}
    {line : String} :
    (row, line) ∈ candidates corpus template ↔
      row < corpus.rowCount ∧ corpus.line? row = some line ∧
        (template.prefilter.find? line).isSome := by
  simp only [candidates, EntryTemplate.candidateRows, List.mem_filterMap, List.mem_filter,
    List.mem_range, Option.map_eq_some_iff, Prod.mk.injEq]
  constructor
  · rintro ⟨_, ⟨inside, passes⟩, _, here, rfl, rfl⟩
    exact ⟨inside, here, by simpa [here] using passes⟩
  · rintro ⟨inside, here, passes⟩
    exact ⟨row, ⟨inside, by simpa [here] using passes⟩, line, here, rfl, rfl⟩

theorem pairwise_candidates (corpus : Corpus) (template : EntryTemplate) :
    (candidates corpus template).Pairwise fun left right => left.1 < right.1 := by
  rw [candidates, List.pairwise_filterMap]
  refine (List.pairwise_lt_range.sublist List.filter_sublist).imp ?_
  intro left right before first isFirst second isSecond
  obtain ⟨_, -, rfl⟩ := Option.map_eq_some_iff.mp isFirst
  obtain ⟨_, -, rfl⟩ := Option.map_eq_some_iff.mp isSecond
  exact before

end Search

theorem Corpus.lt_rowCount_of_line? {corpus : Corpus} {row : Nat} {line : String}
    (here : corpus.line? row = some line) : row < corpus.rowCount := by
  obtain ⟨_, found, -⟩ := Option.map_eq_some_iff.mp here
  obtain ⟨start, isStart, -⟩ := Option.bind_eq_some_iff.mp found
  exact (Array.getElem?_eq_some_iff.mp isStart).1

/-! ### Chains entry by entry -/

/-- Rows for linked entries behind a row, in front of which something has been captured. -/
inductive Continues (budget : Nat) (corpus : Corpus) :
    List (EntryTemplate × Link) → Nat → Captures → Match → Prop
  | nil (previous : Nat) (captures : Captures) : Continues budget corpus [] previous captures []
  | cons {template : EntryTemplate} {link : Link} {linked : List (EntryTemplate × Link)}
      {previous row : Nat} {captures extended : Captures} {rows : Match}
      (allowed : link.Allows ((row : Int) - previous))
      (matched : template.captureRow? budget corpus captures row = some extended)
      (continues : Continues budget corpus linked row extended rows) :
      Continues budget corpus ((template, link) :: linked) previous captures (row :: rows)

theorem Match.linked_cons_cons {link : Link} {links : List Link} {previous row : Nat}
    {rows : Match} :
    Match.Linked (link :: links) (previous :: row :: rows) ↔
      link.Allows ((row : Int) - previous) ∧ Match.Linked links (row :: rows) := by
  constructor
  · intro linked
    exact ⟨linked 0 link previous row rfl rfl rfl, fun i => linked (i + 1)⟩
  · rintro ⟨allowed, linked⟩ i other here next isLink isHere isNext
    cases i with
    | zero =>
      obtain rfl := Option.some.inj isLink
      obtain rfl := Option.some.inj isHere
      obtain rfl := Option.some.inj isNext
      exact allowed
    | succ i => exact linked i other here next isLink isHere isNext

private theorem continues_iff {budget : Nat} {corpus : Corpus} {templates : List EntryTemplate}
    {links : List Link} (lengths : links.length = templates.length) {previous : Nat}
    {captures : Captures} {rows : Match} :
    Continues budget corpus (templates.zip links) previous captures rows ↔
      rows.length = templates.length ∧ Match.Linked links (previous :: rows) ∧
        (captureAlong? budget corpus (templates.zip rows) captures).isSome := by
  induction templates generalizing links previous captures rows with
  | nil =>
    obtain rfl := List.length_eq_zero_iff.mp lengths
    constructor
    · rintro ⟨⟩
      exact ⟨rfl, by simp [Match.Linked], rfl⟩
    · rintro ⟨empty, -, -⟩
      obtain rfl := List.length_eq_zero_iff.mp empty
      exact .nil previous captures
  | cons template templates ih =>
    obtain ⟨link, links, rfl⟩ := List.exists_cons_of_length_eq_add_one lengths
    have lengths : links.length = templates.length := by simpa using lengths
    cases rows with
    | nil =>
      constructor
      · rintro ⟨⟩
      · rintro ⟨empty, -, -⟩
        simp at empty
    | cons row rows =>
      rw [Match.linked_cons_cons, List.length_cons, List.length_cons, Nat.add_right_cancel_iff,
        List.zip_cons_cons, List.zip_cons_cons, captureAlong?]
      constructor
      · rintro (_ | ⟨allowed, matched, continues⟩)
        obtain ⟨same, linked, along⟩ := (ih lengths).mp continues
        exact ⟨same, ⟨allowed, linked⟩, by rw [matched]; exact along⟩
      · rintro ⟨same, ⟨allowed, linked⟩, along⟩
        cases matched : template.captureRow? budget corpus captures row with
        | none => simp [matched] at along
        | some extended =>
          rw [matched] at along
          exact .cons allowed matched ((ih lengths).mpr ⟨same, linked, along⟩)

/-- A chain is a row that the first entry matches, continued through the other entries. -/
theorem Query.isChain_iff {query : Query} {corpus : Corpus} {first : EntryTemplate}
    {templates : List EntryTemplate} (entries_eq : query.entries = first :: templates)
    (lengths : query.links.length = templates.length) {chain : Match} :
    query.IsChain corpus chain ↔ ∃ row rest captures, chain = row :: rest ∧
      first.captureRow? query.budget corpus [] row = some captures ∧
        Continues query.budget corpus (templates.zip query.links) row captures rest := by
  simp only [continues_iff lengths]
  constructor
  · rintro ⟨length_eq, linked, matched⟩
    rw [entryCount, entries_eq] at length_eq
    obtain ⟨row, rest, rfl⟩ := List.exists_cons_of_length_eq_add_one length_eq
    rw [entries_eq, List.zip_cons_cons, captureAlong?] at matched
    cases here : first.captureRow? query.budget corpus [] row with
    | none => simp [here] at matched
    | some captures =>
      rw [here] at matched
      exact ⟨row, rest, captures, rfl, here, by simpa using length_eq, linked, matched⟩
  · rintro ⟨row, rest, captures, rfl, here, length_eq, linked, matched⟩
    refine ⟨by simp [entryCount, entries_eq, length_eq], linked, ?_⟩
    rw [entries_eq, List.zip_cons_cons, captureAlong?, here]
    exact matched

end LogMotif
