import LogMotif.Proofs.Search.Capturing

/-! # What the search remembers

The search hands one memory of dead ends and of built line patterns through all first rows. The
memory is sound when each remembered state has no completion and each remembered pattern is the one
that would be built. Every part of the search keeps it sound, and then answers as if nothing had
been remembered: `earliest?` is the search for the remaining entries without a memory.
-/

namespace LogMotif

namespace Search

/-- The earliest rows for the remaining entries behind a row, found without a memory. -/
def earliest? (budget : Nat) : List Stage → Nat → Captures → Option Match
  | [], _, _ => some []
  | stage :: stages, previous, captures =>
    (stage.behind previous).findSome? fun candidate =>
      (stage.template.captureLine? budget captures candidate.2).bind fun extended =>
        (earliest? budget stages candidate.1 extended).map (candidate.1 :: ·)

/-- What may be remembered in a search through the given templates, of which all but the first have
a stage. -/
structure Memory.Sound (budget : Nat) (templates : List EntryTemplate) (all : List Stage)
    (memory : Memory) : Prop where
  /-- No match can be completed from a dead end. -/
  dead : ∀ stages, stages <:+ all → ∀ previous captures,
    memory.deadEnds.contains (stages.length, previous, captures) →
      earliest? budget stages previous captures = none
  /-- A remembered pattern is that of the template and the values under which it is found. -/
  built : ∀ template rest, template :: rest <:+ templates → ∀ values pattern,
    memory.patterns[(rest.length + 1, values)]? = some pattern →
      pattern = template.linePattern values

theorem sound_empty (budget : Nat) (templates : List EntryTemplate) (all : List Stage) :
    Memory.Sound budget templates all {} :=
  ⟨by simp, by simp⟩

/-- Whether a part of the search gives an answer and keeps the memory sound. -/
def Returns {α : Type} (budget : Nat) (templates : List EntryTemplate) (all : List Stage)
    (run : Memory → α × Memory) (answer : α) : Prop :=
  ∀ memory, memory.Sound budget templates all →
    (run memory).1 = answer ∧ (run memory).2.Sound budget templates all

private theorem eq_of_isSuffix_of_length_eq {α : Type} {left right whole : List α}
    (first : left <:+ whole) (second : right <:+ whole) (same : left.length = right.length) :
    left = right :=
  (List.suffix_of_suffix_length_le first second (Nat.le_of_eq same)).eq_of_length same

section

variable {budget : Nat} {templates : List EntryTemplate} {all : List Stage}

/-- A pattern is given back as it would be built, whether it was remembered or not. -/
private theorem returns_patternFor {template : EntryTemplate} {rest : List EntryTemplate}
    (place : template :: rest <:+ templates) (values : List String) :
    Returns budget templates all (·.patternFor (rest.length + 1) template values)
      (template.linePattern values) := by
  intro memory sound
  cases known : memory.patterns[(rest.length + 1, values)]? with
  | some pattern =>
    simp only [Memory.patternFor, known]
    exact ⟨sound.built template rest place values pattern known, sound⟩
  | none =>
    simp only [Memory.patternFor, known]
    refine ⟨trivial, sound.dead, ?_⟩
    intro other more otherPlace otherValues pattern found
    rw [Std.HashMap.getElem?_insert] at found
    split at found
    next here =>
      obtain ⟨left, rfl⟩ := Prod.mk.inj (eq_of_beq here)
      have same := eq_of_isSuffix_of_length_eq place otherPlace (by simpa using left)
      obtain ⟨rfl, rfl⟩ := List.cons.inj same
      exact (Option.some.inj found).symm
    next => exact sound.built other more otherPlace otherValues pattern found

theorem returns_matchEntry {template : EntryTemplate} {rest : List EntryTemplate}
    (place : template :: rest <:+ templates) (captures : Captures) (line : String) :
    Returns budget templates all (matchEntry budget (rest.length + 1) template captures line)
      (template.captureLine? budget captures line) := by
  intro memory sound
  have step := returns_patternFor place (boundValues template captures) memory sound
  cases built : memory.patternFor (rest.length + 1) template (boundValues template captures) with
  | mk pattern later =>
    simp only [built] at step
    obtain ⟨rfl, soundLater⟩ := step
    simp only [matchEntry, built, EntryTemplate.captureLine?]
    cases (template.linePattern (boundValues template captures)).attempt budget line <;>
      exact ⟨rfl, soundLater⟩

/-- Matching an entry on a candidate and going on from there answers as the two steps do. -/
theorem returns_matchAt {template : EntryTemplate} {rest : List EntryTemplate}
    (place : template :: rest <:+ templates) (captures : Captures)
    {next : Nat → Captures → Memory → Option Match × Memory}
    {answer : Nat → Captures → Option Match}
    (returns : ∀ row extended,
      Returns budget templates all (next row extended) (answer row extended))
    (candidate : Candidate) :
    Returns budget templates all
      (matchAt budget (rest.length + 1) template captures next candidate)
      ((template.captureLine? budget captures candidate.2).bind fun extended =>
        (answer candidate.1 extended).map (candidate.1 :: ·)) := by
  intro memory sound
  obtain ⟨row, line⟩ := candidate
  have step := returns_matchEntry place captures line memory sound
  cases matched : matchEntry budget (rest.length + 1) template captures line memory with
  | mk extended later =>
    simp only [matched] at step
    obtain ⟨same, soundLater⟩ := step
    simp only [matchAt, matched, ← same]
    cases extended with
    | none => exact ⟨rfl, soundLater⟩
    | some extended =>
      obtain ⟨rest_eq, soundLast⟩ := returns row extended later soundLater
      exact ⟨by rw [Option.bind_some, ← rest_eq], soundLast⟩

/-- Trying candidates in order answers with the first success. -/
private theorem returns_tryEach {step : Candidate → Memory → Option Match × Memory}
    {answer : Candidate → Option Match}
    (returns : ∀ candidate, Returns budget templates all (step candidate) (answer candidate))
    (candidates : List Candidate) :
    Returns budget templates all (tryEach step candidates) (candidates.findSome? answer) := by
  induction candidates with
  | nil => exact fun memory sound => ⟨rfl, sound⟩
  | cons candidate candidates ih =>
    intro memory sound
    have first := returns candidate memory sound
    cases tried : step candidate memory with
    | mk found later =>
      simp only [tried] at first
      obtain ⟨same, soundLater⟩ := first
      simp only [tryEach, tried, List.findSome?_cons, ← same]
      cases found with
      | none => exact ih later soundLater
      | some found => exact ⟨rfl, soundLater⟩

private theorem Memory.Sound.markDead {memory : Memory} (sound : memory.Sound budget templates all)
    {stages : List Stage} (place : stages <:+ all) {previous : Nat} {captures : Captures}
    (fails : earliest? budget stages previous captures = none) :
    (memory.markDead (stages.length, previous, captures)).Sound budget templates all := by
  refine ⟨?_, sound.built⟩
  intro others otherPlace row held known
  simp only [Memory.markDead, Std.HashSet.contains_insert, Bool.or_eq_true] at known
  rcases known with here | before
  · simp only [beq_iff_eq, Prod.mk.injEq] at here
    obtain ⟨same, rfl, rfl⟩ := here
    rwa [← eq_of_isSuffix_of_length_eq place otherPlace same]
  · exact sound.dead others otherPlace row held before

/-- Neither dead ends nor remembered patterns change what completes a match. -/
theorem returns_complete {first : EntryTemplate} {stages : List Stage} (place : stages <:+ all)
    (previous : Nat) (captures : Captures) :
    Returns budget (first :: all.map Stage.template) all (complete budget stages previous captures)
      (earliest? budget stages previous captures) := by
  induction stages generalizing previous captures with
  | nil => exact fun memory sound => ⟨rfl, sound⟩
  | cons stage stages ih =>
    intro memory sound
    by_cases dead : memory.deadEnds.contains (stages.length + 1, previous, captures)
    · have fails := sound.dead (stage :: stages) place previous captures dead
      simp only [complete, dead, if_true, fails]
      exact ⟨trivial, sound⟩
    · have behind := ih ((List.suffix_cons _ _).trans place)
      have here : stage.template :: stages.map Stage.template <:+
          first :: all.map Stage.template :=
        (place.map Stage.template).trans (List.suffix_cons _ _)
      have tried := returns_tryEach (returns_matchAt here captures behind)
        (stage.behind previous) memory sound
      rw [List.length_map] at tried
      simp only [complete, dead, Bool.false_eq_true, if_false]
      cases outcome : tryEach (matchAt budget (stages.length + 1) stage.template captures
          (complete budget stages)) (stage.behind previous) memory with
      | mk found later =>
        simp only [outcome] at tried
        obtain ⟨same, soundLater⟩ := tried
        cases found with
        | some found => exact ⟨by rw [earliest?, ← same], soundLater⟩
        | none => exact ⟨by rw [earliest?, ← same], soundLater.markDead place same.symm⟩

/-- Collecting matches over all first rows answers for each row as if it were the only one. -/
private theorem collect_eq_filterMap {step : Candidate → Memory → Option Match × Memory}
    {answer : Candidate → Option Match}
    (returns : ∀ candidate, Returns budget templates all (step candidate) (answer candidate))
    (candidates : List Candidate) {memory : Memory} (sound : memory.Sound budget templates all) :
    collect step candidates memory = candidates.filterMap answer := by
  induction candidates generalizing memory with
  | nil => rfl
  | cons candidate candidates ih =>
    obtain ⟨same, soundLater⟩ := returns candidate memory sound
    change (step candidate memory).1.toList ++ collect step candidates (step candidate memory).2 = _
    rw [ih soundLater, same, List.filterMap_cons]
    cases answer candidate <;> rfl

end

end Search

/-- A search answers as it would without a memory. -/
theorem Query.list_search {query : Query} {first : EntryTemplate} {templates : List EntryTemplate}
    (entries_eq : query.entries = first :: templates) (corpus : Corpus) :
    (query.search corpus).list = (Search.candidates corpus first).filterMap fun candidate =>
      ((first.captureLine? query.budget [] candidate.2).bind
        (Search.earliest? query.budget (Search.stages corpus templates query.links)
          candidate.1)).map (candidate.1 :: ·) := by
  let stages := Search.stages corpus templates query.links
  have place : first :: stages.map Search.Stage.template <:+
      first :: stages.map Search.Stage.template := List.suffix_rfl
  have behind : ∀ row captures,
      Search.Returns query.budget (first :: stages.map Search.Stage.template) stages
        (Search.complete query.budget stages row captures)
        (Search.earliest? query.budget stages row captures) :=
    fun row captures => Search.returns_complete List.suffix_rfl row captures
  have returns := Search.returns_matchAt place [] behind
  rw [List.length_map] at returns
  rw [search, entries_eq]
  simp only [Option.map_bind]
  exact Search.collect_eq_filterMap returns _ (Search.sound_empty ..)

end LogMotif
