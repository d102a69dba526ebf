import LogMotif.Proofs.Query.Definitions
import LogMotif.Proofs.Search.Assignment
import LogMotif.Proofs.Search.Budget

/-! # The lines that a search matches

On its way a search matches entries on lines, each behind what has been captured so far. Here these
calls of `matchEntry` are listed in the order in which they are made: for each part of the search
there is the list of the calls that it makes. Whenever an entry is matched, each wildcard that it
binds has a captured text.
-/

namespace LogMotif

open LineItem (IsStretch)

namespace Search

/-- A call of `matchEntry`: an entry, counted with those behind it, and a line, behind some
captures. -/
structure Call where
  left : Nat
  template : EntryTemplate
  captures : Captures
  line : String
deriving DecidableEq, Repr

/-- The calls of `matchAt`, given those of `next`. -/
def matchAtCalls (budget left : Nat) (template : EntryTemplate) (captures : Captures)
    (nextCalls : Nat → Captures → Memory → List Call) : Candidate → Memory → List Call
  | (row, line), memory =>
    ⟨left, template, captures, line⟩ ::
      match matchEntry budget left template captures line memory with
      | (none, _) => []
      | (some extended, memory) => nextCalls row extended memory

/-- The calls of `tryEach`, given those of its step. -/
def tryEachCalls (step : Candidate → Memory → Option Match × Memory)
    (stepCalls : Candidate → Memory → List Call) : List Candidate → Memory → List Call
  | [], _ => []
  | candidate :: rest, memory =>
    stepCalls candidate memory ++
      match step candidate memory with
      | (some _, _) => []
      | (none, memory) => tryEachCalls step stepCalls rest memory

/-- The calls of `complete`. -/
def completeCalls (budget : Nat) : List Stage → Nat → Captures → Memory → List Call
  | [], _, _, _ => []
  | stage :: stages, previous, captures, memory =>
    if memory.deadEnds.contains (stages.length + 1, previous, captures) then []
    else
      let left := stages.length + 1
      tryEachCalls (matchAt budget left stage.template captures (complete budget stages))
        (matchAtCalls budget left stage.template captures (completeCalls budget stages))
        (stage.behind previous) memory

/-- The calls of `collect`, given those of its step. -/
def collectCalls (step : Candidate → Memory → Option Match × Memory)
    (stepCalls : Candidate → Memory → List Call) : List Candidate → Memory → List Call
  | [], _ => []
  | candidate :: rest, memory =>
    stepCalls candidate memory ++ collectCalls step stepCalls rest (step candidate memory).2

end Search

/-- The calls of `matchEntry` that a search makes, in their order. -/
def Query.calls (query : Query) (corpus : Corpus) : List Search.Call :=
  match query.entries with
  | [] => []
  | first :: templates =>
    let stages := Search.stages corpus templates query.links
    let left := stages.length + 1
    Search.collectCalls
      (Search.matchAt query.budget left first [] (Search.complete query.budget stages))
      (Search.matchAtCalls query.budget left first [] (Search.completeCalls query.budget stages))
      (Search.candidates corpus first) {}

namespace Search

/-- Whether a call matches an entry of a query, behind a captured text for each wildcard that the
entry binds. -/
structure Call.IsReady (templates : List EntryTemplate) (call : Call) : Prop where
  place : ∃ rest, call.template :: rest <:+ templates ∧ call.left = rest.length + 1
  captured : ∀ index ∈ call.template.bound,
    ∃ content, call.captures.lookup index = some content ∧ IsStretch content.toList

/-- The bound values of a call are what is captured for the wildcards that its entry binds. -/
private theorem Call.IsReady.map_some_boundValues {templates : List EntryTemplate} {call : Call}
    (ready : call.IsReady templates) :
    (boundValues call.template call.captures).map some =
      call.template.bound.map fun index => call.captures.lookup index := by
  rw [boundValues, List.map_map]
  refine List.map_congr_left fun index bound => ?_
  obtain ⟨content, found, -⟩ := ready.captured index bound
  rw [Function.comp_apply, found, Option.getD_some]

private theorem Call.IsReady.isStretch_of_mem_boundValues {templates : List EntryTemplate}
    {call : Call} (ready : call.IsReady templates) :
    ∀ value ∈ boundValues call.template call.captures, IsStretch value.toList := by
  intro value member
  obtain ⟨index, bound, rfl⟩ := List.mem_map.mp member
  obtain ⟨content, found, stretch⟩ := ready.captured index bound
  rwa [found, Option.getD_some]

/-- Whether a part of the search that starts with a sound memory makes no call that is not ready. -/
def AreReady (budget : Nat) (templates : List EntryTemplate) (all : List Stage)
    (calls : Memory → List Call) : Prop :=
  ∀ memory, memory.Sound budget templates all → ∀ call ∈ calls memory, call.IsReady templates

section

variable {budget : Nat} {templates : List EntryTemplate} {all : List Stage}
  {step : Candidate → Memory → Option Match × Memory}
  {stepCalls : Candidate → Memory → List Call} {answer : Candidate → Option Match}

private theorem areReady_tryEachCalls
    (returns : ∀ candidate, Returns budget templates all (step candidate) (answer candidate))
    (ready : ∀ candidate, AreReady budget templates all (stepCalls candidate))
    (candidates : List Candidate) :
    AreReady budget templates all (tryEachCalls step stepCalls candidates) := by
  induction candidates with
  | nil => exact fun _ _ => List.forall_mem_nil _
  | cons candidate candidates ih =>
    intro memory sound
    obtain ⟨-, soundLater⟩ := returns candidate memory sound
    refine List.forall_mem_append.mpr ⟨ready candidate memory sound, ?_⟩
    cases tried : step candidate memory with
    | mk found later =>
      rw [tried] at soundLater
      cases found with
      | some found => exact List.forall_mem_nil _
      | none => exact ih later soundLater

private theorem areReady_collectCalls
    (returns : ∀ candidate, Returns budget templates all (step candidate) (answer candidate))
    (ready : ∀ candidate, AreReady budget templates all (stepCalls candidate))
    (candidates : List Candidate) :
    AreReady budget templates all (collectCalls step stepCalls candidates) := by
  induction candidates with
  | nil => exact fun _ _ => List.forall_mem_nil _
  | cons candidate candidates ih =>
    intro memory sound
    exact List.forall_mem_append.mpr
      ⟨ready candidate memory sound, ih _ (returns candidate memory sound).2⟩

/-- An entry binds wildcards that were captured before it. On a line that it matches it captures
those that it defines, so that the entry behind it finds them. -/
private theorem areReady_matchAtCalls {captured : List Nat} {items : List TemplateItem}
    {rest : List EntryTemplate} (place : .ofItems captured items :: rest <:+ templates)
    {captures : Captures} (hold : captures.Hold captured)
    {nextCalls : Nat → Captures → Memory → List Call}
    (ready : ∀ row extended,
      extended.Hold (captured ++ (EntryTemplate.ofItems captured items).defined) →
        AreReady budget templates all (nextCalls row extended))
    (candidate : Candidate) :
    AreReady budget templates all
      (matchAtCalls budget (rest.length + 1) (.ofItems captured items) captures nextCalls
        candidate) := by
  intro memory sound
  obtain ⟨row, line⟩ := candidate
  have step := returns_matchEntry place captures line memory sound
  refine List.forall_mem_cons.mpr ⟨⟨⟨rest, place, rfl⟩, fun index bound => ?_⟩, ?_⟩
  · exact hold.exists_stretch index (EntryTemplate.mem_bound_iff.mp bound).2
  · cases matched : matchEntry budget (rest.length + 1) (.ofItems captured items) captures line
        memory with
    | mk result later =>
      rw [matched] at step
      obtain ⟨same, soundLater⟩ := step
      cases result with
      | none => exact List.forall_mem_nil _
      | some extended =>
        have holdBehind := (EntryTemplate.spells_of_captureLine? hold same.symm).2.1
        exact ready row extended holdBehind later soundLater

variable (budget) in
private theorem areReady_completeCalls {first : EntryTemplate} {stages : List Stage}
    (place : stages <:+ all) {captured : List Nat}
    (threaded : Query.Threaded captured (stages.map Stage.template)) (previous : Nat)
    {captures : Captures} (hold : captures.Hold captured) :
    AreReady budget (first :: all.map Stage.template) all
      (completeCalls budget stages previous captures) := by
  induction stages generalizing captured previous captures with
  | nil => exact fun _ _ => List.forall_mem_nil _
  | cons stage stages ih =>
    obtain ⟨template, candidates, link⟩ := stage
    obtain _ | @⟨_, items, _, threaded⟩ := threaded
    have behind := (List.suffix_cons _ _).trans place
    have here : .ofItems captured items :: stages.map Stage.template <:+
        first :: all.map Stage.template :=
      (place.map Stage.template).trans (List.suffix_cons _ _)
    have returnsBehind (row : Nat) (extended : Captures) :
        Returns budget (first :: all.map Stage.template) all (complete budget stages row extended)
          (earliest? budget stages row extended) := returns_complete behind row extended
    have returns := returns_matchAt here captures returnsBehind
    have ready := areReady_matchAtCalls here hold fun row extended holdBehind =>
      ih behind threaded row holdBehind
    rw [List.length_map] at returns ready
    intro memory sound
    rw [completeCalls]
    split
    next => exact List.forall_mem_nil _
    next => exact areReady_tryEachCalls returns ready _ memory sound

end

/-! ### The calls behind a match -/

/-- Whether a row is the line of a call for a template. -/
def Called (corpus : Corpus) (calls : List Call) (template : EntryTemplate) (row : Nat) : Prop :=
  ∃ call ∈ calls, call.template = template ∧ corpus.line? row = some call.line

private theorem Called.mono {corpus : Corpus} {calls more : List Call} {template : EntryTemplate}
    {row : Nat} (called : Called corpus calls template row) (subset : calls ⊆ more) :
    Called corpus more template row := by
  obtain ⟨call, member, same, isLine⟩ := called
  exact ⟨call, subset member, same, isLine⟩

section

variable {budget : Nat} {corpus : Corpus} {step : Candidate → Memory → Option Match × Memory}
  (stepCalls : Candidate → Memory → List Call) {candidates : List Candidate} {found : Match}

private theorem exists_subset_tryEachCalls {memory : Memory}
    (tried : (tryEach step candidates memory).1 = some found) :
    ∃ candidate ∈ candidates, ∃ before, (step candidate before).1 = some found ∧
      stepCalls candidate before ⊆ tryEachCalls step stepCalls candidates memory := by
  induction candidates generalizing memory with
  | nil => cases tried
  | cons candidate candidates ih =>
    rw [tryEach] at tried
    cases here : step candidate memory with
    | mk result later =>
      rw [here] at tried
      cases result with
      | some result =>
        refine ⟨candidate, List.mem_cons_self, memory, by rw [here]; exact tried, ?_⟩
        exact List.subset_append_left _ _
      | none =>
        obtain ⟨other, member, before, isFound, subset⟩ := ih tried
        refine ⟨other, List.mem_cons_of_mem _ member, before, isFound, ?_⟩
        rw [tryEachCalls, here]
        exact List.subset_append_of_subset_right _ subset

private theorem exists_subset_collectCalls {memory : Memory}
    (listed : found ∈ collect step candidates memory) :
    ∃ candidate ∈ candidates, ∃ before, (step candidate before).1 = some found ∧
      stepCalls candidate before ⊆ collectCalls step stepCalls candidates memory := by
  induction candidates generalizing memory with
  | nil => cases listed
  | cons candidate candidates ih =>
    rcases List.mem_append.mp listed with here | later
    · refine ⟨candidate, List.mem_cons_self, memory, Option.mem_toList.mp here, ?_⟩
      exact List.subset_append_left _ _
    · obtain ⟨other, member, before, isFound, subset⟩ := ih later
      exact ⟨other, List.mem_cons_of_mem _ member, before, isFound,
        List.subset_append_of_subset_right _ subset⟩

/-- What is found from a candidate are its row and the rows found behind it. -/
private theorem exists_subset_matchAtCalls {left : Nat} {template : EntryTemplate}
    {captures : Captures} {next : Nat → Captures → Memory → Option Match × Memory}
    (nextCalls : Nat → Captures → Memory → List Call) {candidate : Candidate}
    (isCandidate : candidate ∈ Search.candidates corpus template) {memory : Memory}
    (matched : (matchAt budget left template captures next candidate memory).1 = some found) :
    let calls := matchAtCalls budget left template captures nextCalls candidate memory
    ∃ row rest extended before, found = row :: rest ∧ Called corpus calls template row ∧
      (next row extended before).1 = some rest ∧ nextCalls row extended before ⊆ calls := by
  intro calls
  obtain ⟨row, line⟩ := candidate
  obtain ⟨-, isLine, -⟩ := mem_candidates_iff.mp isCandidate
  have called : Called corpus calls template row := ⟨_, List.mem_cons_self, rfl, isLine⟩
  rw [matchAt] at matched
  cases here : matchEntry budget left template captures line memory with
  | mk result later =>
    rw [here] at matched
    cases result with
    | none => cases matched
    | some extended =>
      obtain ⟨rest, isRest, rfl⟩ := Option.map_eq_some_iff.mp matched
      refine ⟨row, rest, extended, later, rfl, called, isRest, ?_⟩
      simp only [calls, matchAtCalls, here]
      exact List.subset_cons_self _ _

/-- Behind a row that is no dead end, what is found is what trying the candidates finds. -/
private theorem fst_complete_cons {stage : Stage} {stages : List Stage} {previous : Nat}
    {captures : Captures} {memory : Memory}
    (alive : ¬ memory.deadEnds.contains (stages.length + 1, previous, captures)) :
    (complete budget (stage :: stages) previous captures memory).1 =
      (tryEach (matchAt budget (stages.length + 1) stage.template captures (complete budget stages))
        (stage.behind previous) memory).1 := by
  rw [complete, if_neg alive]
  dsimp only
  split
  next found later tried => rw [tried]
  next later tried => rw [tried]

private theorem forall₂_called_completeCalls {templates : List EntryTemplate} {links : List Link}
    (lengths : links.length = templates.length) {previous : Nat} {captures : Captures}
    {memory : Memory}
    (completed : (complete budget (stages corpus templates links) previous captures memory).1 =
      some found) :
    List.Forall₂
      (Called corpus (completeCalls budget (stages corpus templates links) previous captures memory))
      templates found := by
  induction templates generalizing links previous captures memory found with
  | nil =>
    obtain rfl := Option.some.inj completed
    exact .nil
  | cons template templates ih =>
    cases links with
    | nil => cases lengths
    | cons link links =>
      let stage : Stage := ⟨template, Search.candidates corpus template, link⟩
      let others := stages corpus templates links
      change (complete budget (stage :: others) previous captures memory).1 = some found at completed
      change List.Forall₂
        (Called corpus (completeCalls budget (stage :: others) previous captures memory)) _ found
      by_cases dead : memory.deadEnds.contains (others.length + 1, previous, captures)
      · rw [complete, if_pos dead] at completed
        cases completed
      · rw [fst_complete_cons dead] at completed
        rw [completeCalls, if_neg dead]
        obtain ⟨candidate, member, before, isFound, subset⟩ := exists_subset_tryEachCalls
          (matchAtCalls budget (others.length + 1) template captures (completeCalls budget others))
          completed
        obtain ⟨row, rest, extended, later, rfl, called, isRest, subsetBehind⟩ :=
          exists_subset_matchAtCalls _ ((behind_sublist stage previous).subset member) isFound
        refine .cons (called.mono subset) ((ih (Nat.succ.inj lengths) isRest).imp ?_)
        exact fun _ _ called => called.mono (List.Subset.trans subsetBehind subset)

end

end Search

namespace Query

section

variable {query : Query} {first : EntryTemplate} {templates : List EntryTemplate}
  (entries_eq : query.entries = first :: templates)
  (lengths : query.links.length = templates.length)

include entries_eq lengths

private theorem isReady_of_threaded (threaded : Threaded [] query.entries) {corpus : Corpus} :
    ∀ call ∈ query.calls corpus, call.IsReady query.entries := by
  let stages := Search.stages corpus templates query.links
  have templates_eq : stages.map Search.Stage.template = templates := by
    simp only [stages, Search.stages, List.map_map]
    exact List.map_fst_zip (Nat.le_of_eq lengths.symm)
  intro call member
  rw [entries_eq] at threaded ⊢
  rw [calls, entries_eq] at member
  obtain _ | @⟨_, items, _, threaded⟩ := threaded
  have here : .ofItems [] items :: stages.map Search.Stage.template <:+
      .ofItems [] items :: stages.map Search.Stage.template := List.suffix_rfl
  have returnsBehind (row : Nat) (extended : Captures) :
      Search.Returns query.budget (.ofItems [] items :: stages.map Search.Stage.template) stages
        (Search.complete query.budget stages row extended)
        (Search.earliest? query.budget stages row extended) :=
    Search.returns_complete List.suffix_rfl row extended
  have returns := Search.returns_matchAt here [] returnsBehind
  have ready := Search.areReady_matchAtCalls here Captures.hold_nil fun row extended hold =>
    Search.areReady_completeCalls query.budget List.suffix_rfl (by rwa [templates_eq]) row hold
  rw [List.length_map] at returns ready
  have all := Search.areReady_collectCalls returns ready
    (Search.candidates corpus (.ofItems [] items)) {} (Search.sound_empty ..)
  rw [templates_eq] at all
  exact all call member

/-- Each row of a listed match is the line of a call for its entry. -/
theorem forall₂_called_of_mem_list {corpus : Corpus} {chain : Match}
    (listed : chain ∈ (query.search corpus).list) :
    List.Forall₂ (Search.Called corpus (query.calls corpus)) query.entries chain := by
  let stages := Search.stages corpus templates query.links
  rw [search, entries_eq] at listed
  rw [calls, entries_eq]
  obtain ⟨candidate, member, before, isFound, subset⟩ := Search.exists_subset_collectCalls
    (Search.matchAtCalls query.budget (stages.length + 1) first []
      (Search.completeCalls query.budget stages)) listed
  obtain ⟨row, rest, extended, later, rfl, called, isRest, subsetBehind⟩ :=
    Search.exists_subset_matchAtCalls _ member isFound
  refine .cons (called.mono subset)
    ((Search.forall₂_called_completeCalls lengths isRest).imp ?_)
  exact fun _ _ called => called.mono (List.Subset.trans subsetBehind subset)

end

section

variable {headers : List Header} {roles : List ColumnRole} {motif : Motif} {budget : Nat}
  {query : Query} (compiled : compile headers roles motif budget = .ok query) {corpus : Corpus}
  {call : Search.Call} (member : call ∈ query.calls corpus)

include compiled member

theorem isReady_of_mem_calls : call.IsReady query.entries := by
  obtain ⟨first, templates, entries_eq, lengths, threaded⟩ := exists_entries_of_compile compiled
  exact isReady_of_threaded entries_eq lengths threaded call member

/-- The texts that are put in the place of the wildcards that an entry binds are captured texts, in
every call that a search makes, and none of them is empty. So the text that `Search.boundValues` has
for a wildcard without a captured text is never used. -/
theorem map_some_boundValues_of_mem_calls :
    (Search.boundValues call.template call.captures).map some =
        call.template.bound.map (fun index => call.captures.lookup index) ∧
      "" ∉ Search.boundValues call.template call.captures := by
  have ready := isReady_of_mem_calls compiled member
  refine ⟨ready.map_some_boundValues, fun empty => ?_⟩
  exact (ready.isStretch_of_mem_boundValues "" empty).1 rfl

end

/-- Each wildcard that takes part in matching is defined by one entry, the first that uses it; the
later ones that use it bind it. So whenever a search matches an entry, there is a captured text for
each wildcard that the entry binds, and none of these texts is empty. -/
theorem ne_empty_of_mem_calls {headers : List Header} {roles : List ColumnRole} {motif : Motif}
    {budget : Nat} {query : Query} (compiled : compile headers roles motif budget = .ok query) :
    (∀ (i : Nat) entry, motif.entries[i]? = some entry →
      ∃ template, query.entries[i]? = some template ∧
        entry.Lists roles
          (fun index => ∀ earlier ∈ motif.entries.take i, ¬ earlier.Uses roles index)
          template.defined ∧
        entry.Lists roles (fun index => ∃ earlier ∈ motif.entries.take i, earlier.Uses roles index)
          template.bound) ∧
      (∀ index, (∃ entry ∈ motif.entries, entry.Uses roles index) → index < query.wildcardCount ∧
        ∃! i : Nat, ∃ template, query.entries[i]? = some template ∧ index ∈ template.defined) ∧
      ∀ corpus, ∀ call ∈ query.calls corpus,
        (∃ i, i + call.left = query.entryCount ∧ query.entries[i]? = some call.template) ∧
          ∀ index ∈ call.template.bound,
            ∃ content, call.captures.lookup index = some content ∧ content ≠ "" := by
  refine ⟨fun _ _ => lists_of_compile compiled, fun index used => ⟨?_, ?_⟩,
    fun corpus call member => ⟨?_, fun index bound => ?_⟩⟩
  · exact lt_wildcardCount_of_uses compiled used
  · exact existsUnique_defined compiled used
  all_goals
    obtain ⟨⟨rest, ⟨front, split_eq⟩, left_eq⟩, captured⟩ := isReady_of_mem_calls compiled member
  · refine ⟨front.length, ?_, ?_⟩
    · rw [entryCount, ← split_eq, left_eq, List.length_append, List.length_cons]
    · rw [← split_eq]
      simp
  · obtain ⟨content, isContent, stretch⟩ := captured index bound
    refine ⟨content, isContent, ?_⟩
    rintro rfl
    exact stretch.1 rfl

/-- Two entries that share a wildcard, of which the first has another one in a cell that is not
selected. -/
theorem ne_empty_of_mem_calls_shared_wildcard :
    let motif : Motif :=
      ⟨[⟨["a", "b"], [⟨[.wildcard 0 "a"]⟩, ⟨[.wildcard 1 "b"]⟩], [true, false], some .any⟩,
        ⟨["a!", "b"], [⟨[.wildcard 0 "a", .text "!"]⟩, ⟨[.text "b"]⟩], [true, true], none⟩],
      [⟨[⟨0, 0, 0⟩, ⟨1, 0, 0⟩]⟩, ⟨[⟨0, 1, 0⟩]⟩]⟩
    let corpus := Corpus.ofText
      "\x7b\"m\":\"x\",\"n\":\"c\"\x7d\n\x7b\"m\":\"x!\",\"n\":\"b\"\x7d\n"
    ∃ query, compile [⟨"m", .string⟩, ⟨"n", .string⟩] [.content, .content] motif 10 = .ok query ∧
      ∃ call ∈ query.calls corpus, call.template.bound = [0] ∧
        ∃ content, call.captures.lookup 0 = some content ∧ content ≠ "" := by
  intro motif corpus
  obtain ⟨query, compiled⟩ : ∃ query,
      compile [⟨"m", .string⟩, ⟨"n", .string⟩] [.content, .content] motif 10 = .ok query := ⟨_, rfl⟩
  have query_eq := (compile_eq_ok_iff.mp compiled).2.2.2.2
  have few : corpus.rowCount < Index.greatest := by
    have : corpus.rowCount = 2 := rfl
    rw [this]
    decide
  obtain ⟨chain, listed⟩ : ∃ chain, chain ∈ (query.search corpus).list := by
    have within : query.StaysWithin corpus := by
      refine staysWithin_of_hasRecall_eq_false fun template member captures => ?_
      simp only [query_eq, motif, templates, List.mem_cons, List.not_mem_nil, or_false] at member
      rcases member with rfl | rfl <;> rfl
    have linked : Match.Linked query.links [0, 1] := by
      rw [query_eq]
      refine Match.linked_cons_cons.mpr ⟨?_, by simp [Match.Linked]⟩
      change (1 : Int) ≤ 1 - 0
      decide
    have matched : (matchAlong? corpus (query.entries.zip [0, 1]) []).isSome := by
      rw [query_eq]
      decide +kernel
    obtain ⟨chain, listed, -⟩ := exists_listed_of_matchAlong? compiled few within
      (by rw [query_eq]; rfl) linked matched
    exact ⟨chain, listed⟩
  obtain ⟨first, templates, entries_eq, lengths, -⟩ := exists_entries_of_compile compiled
  have called := forall₂_called_of_mem_list entries_eq lengths listed
  rw [query_eq] at called
  obtain _ | ⟨-, _ | ⟨⟨call, member, same, -⟩, -⟩⟩ := called
  rw [← query_eq] at member
  have bound : call.template.bound = [0] := by
    rw [same]
    rfl
  obtain ⟨-, -, ready⟩ := ne_empty_of_mem_calls compiled
  exact ⟨query, compiled, call, member, bound, (ready corpus call member).2 0 (by simp [bound])⟩

end Query

end LogMotif
