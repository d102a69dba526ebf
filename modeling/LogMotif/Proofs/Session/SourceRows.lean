import LogMotif.Proofs.Search.Recapture
import LogMotif.Proofs.Session.Retouching

/-! # Motifs and their own rows

A session is opened on rows of a log, in their order, and retouched. A search of that log finds the
rows again, provided that every wildcard replaced one text and that the entry which meets a wildcard
first captures that text on its own row. Without the second proviso the rows may be missed: an entry
captures as little as it can, and later entries are bound to what it has captured.
-/

namespace LogMotif

namespace Session

variable {first session : Session}

/-- The entries of a retouched session are made from the rows on which it was opened. -/
private theorem Retouched.isMadeFrom (retouched : first.Retouched session) {headers : List Header}
    {roles : List ColumnRole} {rows : List (List String)} {options : SessionOptions}
    (opened : Session.start headers roles rows options = .ok first) :
    List.Forall₂ Entry.IsMadeFrom rows session.motif.entries := by
  obtain ⟨-, -, -, rfl⟩ := start_eq_ok_iff.mp opened
  exact forall₂_trans (fun made reshaped => made.reshaped reshaped) (Entry.isMadeFrom_ofRows roles rows)
    retouched.keeps.2.2.2

/-- The entries of a retouched session are made from the rows of the log that were picked. -/
theorem Retouched.isMadeFrom_picks (retouched : first.Retouched session) {headers : List Header}
    {roles : List ColumnRole} {log rows : List (List String)} {options : SessionOptions}
    {picks : List Nat} {corpus : Corpus} (written : Corpus.ofRows headers roles log = .ok corpus)
    (picked : List.Forall₂ (fun pick row => log[pick]? = some row) picks rows)
    (opened : Session.start headers roles rows options = .ok first) :
    List.Forall₂ (fun entry pick => entry.IsShaped headers.length ∧ log[pick]? = some entry.source)
      session.motif.entries picks := by
  refine List.Forall₂.flip (forall₂_trans ?_ picked (retouched.isMadeFrom opened))
  intro pick row entry here made
  have width := (Corpus.ofRows_eq_ok_iff.mp written).2.1 row (List.mem_of_getElem? here)
  exact ⟨width ▸ made.shaped, made.source_eq.symm ▸ here⟩

/-- A retouched session compiles, and its links allow all distances. -/
private theorem Retouched.exists_compile_eq_ok (retouched : first.Retouched session)
    {headers : List Header} {roles : List ColumnRole} {rows : List (List String)}
    {options : SessionOptions} (opened : Session.start headers roles rows options = .ok first) :
    ∃ query, session.compile = .ok query ∧ (∀ link ∈ query.links, link = .any) ∧
      query.entries.map EntryTemplate.items =
        session.motif.entries.map (TemplateItem.ofEntry headers roles) := by
  have made := retouched.isMadeFrom opened
  obtain ⟨covered, filled, fitting, rfl⟩ := start_eq_ok_iff.mp opened
  obtain ⟨headers_eq, roles_eq, -, -⟩ := retouched.keeps
  have consistent : session.motif.inconsistency? = none := by
    have shaped : ∀ entry ∈ (Motif.ofRows roles rows).entries, entry.IsShaped headers.length :=
      fun _ => Entry.isShaped_of_mem_ofRows fitting
    refine retouched.inconsistency?_eq_none ?_
    exact Session.inconsistency?_eq_none shaped (Motif.booked_ofRows roles rows)
  have origin {entry : Entry} (member : entry ∈ session.motif.entries) :
      ∃ row ∈ rows, entry.IsMadeFrom row := exists_of_forall₂_of_mem made member
  refine ⟨_, Query.compile_eq_ok_iff.mpr ⟨?_, ?_, ?_, consistent, rfl⟩, ?_, ?_⟩
  · rw [headers_eq, roles_eq]
    exact covered
  · intro empty
    rw [empty] at made
    exact filled (List.forall₂_nil_right_iff.mp made)
  · intro entry member
    obtain ⟨row, isRow, made⟩ := origin member
    rw [made.shaped.cells_length, fitting row isRow, headers_eq]
  · intro link member
    obtain ⟨entry, inEntries, rfl⟩ := List.mem_map.mp member
    obtain ⟨row, -, made⟩ := origin (List.dropLast_subset _ inEntries)
    exact made.free
  · rw [Query.map_items_templates, headers_eq, roles_eq]

/-- The rows on which a session was opened are found again in their log, however the session was
retouched, if each wildcard replaced one text throughout, and if each entry, attempted at its own row
with these texts for the wildcards bound to earlier entries, stays within the budget and captures
these texts for the wildcards that later entries are bound to. -/
theorem Retouched.search_finds_source_rows (retouched : first.Retouched session)
    {headers : List Header} {roles : List ColumnRole} {log rows : List (List String)}
    {options : SessionOptions} {picks : List Nat} {corpus : Corpus} {replaced : Nat → String}
    (written : Corpus.ofRows headers roles log = .ok corpus) (few : log.length < Index.greatest)
    (ascending : picks.Pairwise (· < ·))
    (picked : List.Forall₂ (fun pick row => log[pick]? = some row) picks rows)
    (opened : Session.start headers roles rows options = .ok first)
    (replaces : ∀ entry ∈ session.motif.entries, entry.Replaces replaced)
    (recaptures : ∀ query, session.compile = .ok query →
      query.Recaptures corpus (fun index => Json.escapeText (replaced index)) picks) :
    ∃ next results, session.search corpus = .ok next ∧ next.results = some results ∧
      ∃ chain ∈ results.found.list, chain.head? = picks.head? := by
  obtain ⟨query, compiled, free, items_eq⟩ := retouched.exists_compile_eq_ok opened
  obtain ⟨_, _, entries_eq, lengths, threaded⟩ := Query.exists_entries_of_compile compiled
  have sources := retouched.isMadeFrom_picks written picked opened
  have spelled : List.Forall₂ (TemplateItem.SpellRow corpus fun index =>
      Json.escapeText (replaced index)) (query.entries.map EntryTemplate.items) picks := by
    rw [items_eq, List.forall₂_map_left_iff]
    refine ((List.forall₂_and_left _ _).mpr ⟨replaces, sources⟩).imp ?_
    rintro entry pick ⟨replaces, shaped, here⟩
    exact Entry.spellRow_source written shaped replaces here
  have isChain := Query.isChain_of_recaptures threaded free ascending spelled (recaptures query compiled)
  have small : corpus.rowCount < Index.greatest := by
    rw [Corpus.rowCount_ofRows written]
    exact few
  obtain ⟨found, listed, same⟩ := Query.exists_listed entries_eq lengths threaded small isChain
  exact ⟨_, _, bind_eq_ok_iff.mpr ⟨query, compiled, rfl⟩, rfl, found, listed, same⟩

/-- A session on two of three rows, in which one wildcard stands for a number in both. -/
theorem search_finds_rows_of_shared_number :
    ∃ (first session next : Session) (results : Results) (corpus : Corpus),
      Corpus.ofRows [⟨"m", .string⟩] [.content] [["id=7"], ["8"], ["7"]] = .ok corpus ∧
      start [⟨"m", .string⟩] [.content] [["id=7"], ["7"]] {} = .ok first ∧
      first.Retouched session ∧
      (∀ entry ∈ session.motif.entries, entry.Replaces fun _ => "7") ∧
      session.search corpus = .ok next ∧ next.results = some results ∧
      ∃ chain ∈ results.found.list, chain.head? = some 0 := by
  obtain ⟨first, created, session, opened, isCreated, isUsed, rfl⟩ :
      ∃ first created session : Session,
        start [⟨"m", .string⟩] [.content] [["id=7"], ["7"]] {} = .ok first ∧
          first.apply (.createWildcard ⟨0, 0, ⟨0, 3, 4⟩⟩) = .ok (.updated created) ∧
          created.apply (.useWildcard 0 ⟨1, 0, ⟨0, 0, 1⟩⟩) = .ok (.updated session) ∧
          session = ⟨[⟨"m", .string⟩], [.content],
            ⟨[⟨["id=7"], [⟨[.text "id=", .wildcard 0 "7"]⟩], [true], some .any⟩,
              ⟨["7"], [⟨[.wildcard 0 "7"]⟩], [true], none⟩],
              [⟨[⟨0, 0, 1⟩, ⟨1, 0, 0⟩]⟩]⟩, {}, none⟩ :=
    ⟨_, _, _, rfl, rfl, rfl, rfl⟩
  have retouched :=
    Retouched.apply (.apply .refl (by exact trivial) isCreated) (by exact trivial) isUsed
  obtain ⟨corpus, written⟩ : ∃ corpus, Corpus.ofRows [⟨"m", .string⟩] [.content]
      [["id=7"], ["8"], ["7"]] = .ok corpus := ⟨_, rfl⟩
  obtain ⟨query, compiled, -, -⟩ := retouched.exists_compile_eq_ok opened
  obtain ⟨-, -, -, -, query_eq⟩ := Query.compile_eq_ok_iff.mp compiled
  let front : EntryTemplate :=
    ⟨[.literal "\x7b", .literal "\"m\":", .literal "\"", .literal "id=", .wildcard 0,
      .literal "\"", .literal "\x7d"], [], [0]⟩
  let back : EntryTemplate :=
    ⟨[.literal "\x7b", .literal "\"m\":", .literal "\"", .wildcard 0, .literal "\"",
      .literal "\x7d"], [0], []⟩
  have entries_eq : query.entries = [front, back] := by
    rw [query_eq]
    rfl
  have replaces : ∀ entry ∈
      [Entry.mk ["id=7"] [⟨[.text "id=", .wildcard 0 "7"]⟩] [true] (some .any),
        ⟨["7"], [⟨[.wildcard 0 "7"]⟩], [true], none⟩], entry.Replaces fun _ => "7" := by
    decide
  have line? (i : Nat) := Corpus.line?_ofRows written i
  have recaptures : query.Recaptures corpus (fun _ => Json.escapeText "7") [0, 2] := by
    constructor
    all_goals
      simp only [entries_eq, List.zip_cons_cons, List.zip_nil_left, List.mem_cons,
        List.not_mem_nil, or_false, Prod.mk.injEq, EntryTemplate.attemptRow?, line?]
    · rintro _ _ (⟨rfl, rfl⟩ | ⟨rfl, rfl⟩) exhausted
      all_goals exact LinePattern.attempt_ne_exhausted rfl _ _ (Option.some.inj exhausted)
    · rintro _ _ taken (⟨rfl, rfl⟩ | ⟨rfl, rfl⟩) found index isDefined -
      · obtain rfl : [(0, "7")] = taken :=
          Option.some.inj (LinePattern.match?_of_attempt_eq_found (Option.some.inj found))
        obtain rfl := List.mem_singleton.mp isDefined
        rfl
      · cases isDefined
  have ascending : ([0, 2] : List Nat).Pairwise (· < ·) := by decide
  have picked : List.Forall₂ (fun (pick : Nat) (row : List String) =>
      [["id=7"], ["8"], ["7"]][pick]? = some row) [0, 2] [["id=7"], ["7"]] :=
    .cons rfl (.cons rfl .nil)
  obtain ⟨next, results, searched, isResults, chain, listed, head⟩ :=
    retouched.search_finds_source_rows written (by decide) ascending picked opened replaces
      fun other isOther => by
        obtain rfl := Except.ok.inj (isOther.symm.trans compiled)
        exact recaptures
  exact ⟨first, _, next, results, corpus, written, opened, retouched, replaces, searched, isResults,
    chain, listed, head⟩

/-- Two wildcards in one cell, the first of which stands for the other row as well. The first entry
captures less text for it than it replaced, so the rows are not found again. -/
theorem search_misses_source_rows :
    ∃ (first session next : Session) (results : Results) (corpus : Corpus),
      Corpus.ofRows [⟨"m", .string⟩] [.content] [["axbxc"], ["axb"]] = .ok corpus ∧
      start [⟨"m", .string⟩] [.content] [["axbxc"], ["axb"]] {} = .ok first ∧
      first.Retouched session ∧
      (∀ entry ∈ session.motif.entries,
        entry.Replaces fun index => if index = 0 then "axb" else "c") ∧
      (∀ query, session.compile = .ok query → ∀ template ∈ query.entries, ∀ captures line,
        (template.linePattern (Search.boundValues template captures)).attempt query.budget line ≠
          .exhausted) ∧
      session.search corpus = .ok next ∧ next.results = some results ∧ results.found.list = [] := by
  obtain ⟨first, created, again, session, opened, isCreated, isAgain, isUsed, session_eq⟩ :
      ∃ first created again session : Session,
        start [⟨"m", .string⟩] [.content] [["axbxc"], ["axb"]] {} = .ok first ∧
          first.apply (.createWildcard ⟨0, 0, ⟨0, 0, 3⟩⟩) = .ok (.updated created) ∧
          created.apply (.createWildcard ⟨0, 0, ⟨1, 1, 2⟩⟩) = .ok (.updated again) ∧
          again.apply (.useWildcard 0 ⟨1, 0, ⟨0, 0, 3⟩⟩) = .ok (.updated session) ∧
          session = ⟨[⟨"m", .string⟩], [.content],
            ⟨[⟨["axbxc"], [⟨[.wildcard 0 "axb", .text "x", .wildcard 1 "c"]⟩], [true], some .any⟩,
              ⟨["axb"], [⟨[.wildcard 0 "axb"]⟩], [true], none⟩],
              [⟨[⟨0, 0, 0⟩, ⟨1, 0, 0⟩]⟩, ⟨[⟨0, 0, 2⟩]⟩]⟩, {}, none⟩ :=
    ⟨_, _, _, _, rfl, rfl, rfl, rfl, rfl⟩
  have retouched : first.Retouched session :=
    .apply (.apply (.apply .refl (by exact trivial) isCreated) (by exact trivial) isAgain)
      (by exact trivial) isUsed
  obtain ⟨query, compiled, -, -⟩ := retouched.exists_compile_eq_ok opened
  obtain ⟨-, -, -, -, query_eq⟩ := Query.compile_eq_ok_iff.mp compiled
  obtain ⟨corpus, written⟩ : ∃ corpus,
      Corpus.ofRows [⟨"m", .string⟩] [.content] [["axbxc"], ["axb"]] = .ok corpus := ⟨_, rfl⟩
  subst session_eq
  let front : EntryTemplate :=
    ⟨[.literal "\x7b", .literal "\"m\":", .literal "\"", .wildcard 0, .literal "x", .wildcard 1,
      .literal "\"", .literal "\x7d"], [], [0, 1]⟩
  let back : EntryTemplate :=
    ⟨[.literal "\x7b", .literal "\"m\":", .literal "\"", .wildcard 0, .literal "\"",
      .literal "\x7d"], [0], []⟩
  have entries_eq : query.entries = [front, back] := by
    rw [query_eq]
    rfl
  refine ⟨first, _, _, _, corpus, written, opened, retouched, ?_, ?_,
    bind_eq_ok_iff.mpr ⟨query, compiled, rfl⟩, rfl, ?_⟩
  · decide
  · intro other isOther
    obtain rfl := Except.ok.inj (isOther.symm.trans compiled)
    rw [entries_eq]
    simp only [List.forall_mem_cons, List.not_mem_nil, false_imp_iff, implies_true, and_true]
    exact ⟨fun _ => LinePattern.attempt_ne_exhausted rfl _,
      fun _ => LinePattern.attempt_ne_exhausted rfl _⟩
  · refine List.eq_nil_iff_forall_not_mem.mpr fun chain listed => ?_
    have line? (i : Nat) : corpus.line? i = ([["axbxc"], ["axb"]][i]?).map fun row =>
        String.ofList (Corpus.lineChars [⟨"m", .string⟩] [.content] row) :=
      Corpus.line?_ofRows written i
    have few : corpus.rowCount < Index.greatest := by
      rw [Corpus.rowCount_ofRows written]
      decide
    obtain ⟨_, _, cons_eq, lengths, threaded⟩ := Query.exists_entries_of_compile compiled
    have isChain := (Query.isEarliestChain_of_mem cons_eq lengths threaded few listed).1
    obtain ⟨i, j, rfl⟩ : ∃ i j, chain = [i, j] := by
      have length_eq := isChain.length_eq
      rw [Query.entryCount, entries_eq] at length_eq
      exact List.length_eq_two.mp length_eq
    have matched := isChain.matched
    rw [entries_eq] at matched
    obtain ⟨final, matched⟩ := Option.isSome_iff_exists.mp matched
    obtain ⟨extended, atFirst, matched⟩ := Option.bind_eq_some_iff.mp matched
    obtain ⟨_, atSecond, -⟩ := Option.bind_eq_some_iff.mp matched
    obtain ⟨line, isLine, atFirst⟩ := Option.bind_eq_some_iff.mp atFirst
    obtain ⟨other, isOther, atSecond⟩ := Option.bind_eq_some_iff.mp atSecond
    have before : i < j := by
      have allowed := isChain.linked 0 .any i j (by rw [query_eq]; rfl) rfl rfl
      simp only [Link.Allows] at allowed
      omega
    have inside : j < 2 := by
      rw [line?] at isOther
      obtain ⟨row, isRow, -⟩ := Option.map_eq_some_iff.mp isOther
      exact (List.getElem?_eq_some_iff.mp isRow).1
    obtain ⟨rfl, rfl⟩ : i = 0 ∧ j = 1 := by omega
    rw [line?] at isLine isOther
    obtain rfl := Option.some.inj isLine
    obtain rfl := Option.some.inj isOther
    obtain ⟨taken, found, rfl⟩ := EntryTemplate.captureLine?_eq_some_iff.mp atFirst
    obtain rfl : [(0, "a"), (1, "bxc")] = taken :=
      Option.some.inj (LinePattern.match?_of_attempt_eq_found found)
    obtain ⟨_, found, -⟩ := EntryTemplate.captureLine?_eq_some_iff.mp atSecond
    have missed : (back.linePattern ["a"]).match? "\x7b\"m\":\"axb\"\x7d" = some _ :=
      LinePattern.match?_of_attempt_eq_found found
    cases missed

end Session

end LogMotif
