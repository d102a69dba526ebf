import LogMotif.Proofs.Query.Display
import LogMotif.Proofs.Search.Budget
import LogMotif.Proofs.Session.Compiling

/-! # What a session shows for its motif

The pattern of a motif is shown so that the search can be done elsewhere. In a reachable session no
link is set to a distance of zero, so the pattern matches the lines of every match that the session
lists, with the same texts for the wildcards.
-/

namespace LogMotif

namespace Session

variable {session : Session}

/-- The links of what a reachable session compiles to are not set to a distance of zero. -/
theorem Reachable.links_ne_exactly_zero (reachable : session.Reachable) {query : Query}
    (compiled : session.compile = .ok query) : ∀ link ∈ query.links, link ≠ .exactly 0 := by
  obtain ⟨links, linked, fitting⟩ := reachable.exists_linkedBy
  obtain ⟨-, -, -, -, rfl⟩ := Query.compile_eq_ok_iff.mp compiled
  rintro link member rfl
  rw [linked.dropLast_eq] at member
  rcases fitting _ member with valid | bounded
  · simp [Link.isValid] at valid
  · exact Link.noConfusion bounded

/-- The pattern of a reachable session matches the lines of every match that its search lists. -/
theorem Reachable.showsMatch_of_listed (reachable : session.Reachable) {log : List (List String)}
    {corpus : Corpus} (written : Corpus.ofRows session.headers session.roles log = .ok corpus) :
    ∃ query next results, session.compile = .ok query ∧ session.search corpus = .ok next ∧
      next.results = some results ∧
      ∀ chain ∈ results.found.list, query.ShowsMatch corpus chain := by
  obtain ⟨covered, -, -⟩ := Corpus.ofRows_eq_ok_iff.mp written
  obtain ⟨query, compiled⟩ : ∃ query, session.compile = .ok query :=
    ⟨_, reachable.compile_eq_ok covered⟩
  exact ⟨query, _, _, compiled, bind_eq_ok_iff.mpr ⟨query, compiled, rfl⟩, rfl, fun chain =>
    Query.showsMatch_of_mem_list compiled (reachable.links_ne_exactly_zero compiled) written⟩

/-- Two entries that share a wildcard and stand two rows apart, in a log with a line between two
lines that they match. -/
theorem showsMatch_of_distant_rows :
    ∃ (first created used session next : Session) (results : Results) (corpus : Corpus)
      (query : Query),
      start [⟨"m", .string⟩] [.content] [["a1"], ["a2"]] {} = .ok first ∧
      first.apply (.createWildcard ⟨0, 0, ⟨0, 0, 1⟩⟩) = .ok (.updated created) ∧
      created.apply (.useWildcard 0 ⟨1, 0, ⟨0, 0, 1⟩⟩) = .ok (.updated used) ∧
      used.apply (.setLink 0 (.exactly 2)) = .ok (.updated session) ∧
      Corpus.ofRows session.headers session.roles [["x1"], ["y2"], ["x2"]] = .ok corpus ∧
      session.compile = .ok query ∧
      query.source =
        "(?m)^\\\x7b\"m\":\"(?P<w0>(?:[^\"\\\\\\n]|\\\\.)+?)1\"\\\x7d\\n" ++
          "(?:[^\\n]*\\n)\x7b1\x7d" ++ "\\\x7b\"m\":\"\\k<w0>2\"\\\x7d\\n" ∧
      session.search corpus = .ok next ∧ next.results = some results ∧
      ∃ chain ∈ results.found.list, query.ShowsMatch corpus chain := by
  let session : Session :=
    { headers := [⟨"m", .string⟩]
      roles := [.content]
      motif :=
        { entries :=
            [⟨["a1"], [⟨[.wildcard 0 "a", .text "1"]⟩], [true], some (.exactly 2)⟩,
              ⟨["a2"], [⟨[.wildcard 0 "a", .text "2"]⟩], [true], none⟩]
          wildcards := [⟨[⟨0, 0, 0⟩, ⟨1, 0, 0⟩]⟩] }
      options := {}
      results := none }
  obtain ⟨first, created, used, corpus, opened, isCreated, isUsed, applied, written⟩ :
      ∃ (first created used : Session) (corpus : Corpus),
        start [⟨"m", .string⟩] [.content] [["a1"], ["a2"]] {} = .ok first ∧
        first.apply (.createWildcard ⟨0, 0, ⟨0, 0, 1⟩⟩) = .ok (.updated created) ∧
        created.apply (.useWildcard 0 ⟨1, 0, ⟨0, 0, 1⟩⟩) = .ok (.updated used) ∧
        used.apply (.setLink 0 (.exactly 2)) = .ok (.updated session) ∧
        Corpus.ofRows session.headers session.roles [["x1"], ["y2"], ["x2"]] = .ok corpus :=
    ⟨_, _, _, _, rfl, rfl, rfl, rfl, rfl⟩
  have fits : TextsFit [["a1"], ["a2"]] := by
    unfold TextsFit
    decide
  have reachable : session.Reachable := by
    refine .apply (.apply (.apply (.start fits opened) ?_ isCreated) ?_ isUsed) ?_ applied
    all_goals exact trivial
  obtain ⟨query, next, results, compiled, searched, isResults, shown⟩ :=
    reachable.showsMatch_of_listed written
  obtain ⟨-, -, -, -, query_eq⟩ := Query.compile_eq_ok_iff.mp compiled
  have within : query.StaysWithin corpus := by
    refine Query.staysWithin_of_hasRecall_eq_false fun template member captures => ?_
    simp only [query_eq, session, Query.templates, List.mem_cons, List.not_mem_nil, or_false]
      at member
    rcases member with rfl | rfl <;> rfl
  have linked : Match.Linked query.links [0, 2] := by
    rw [query_eq]
    refine Match.linked_cons_cons.mpr ⟨?_, by simp [Match.Linked]⟩
    change (2 : Int) - 0 = 2
    decide
  have matched : (matchAlong? corpus (query.entries.zip [0, 2]) []).isSome := by
    rw [query_eq]
    change (matchAlong? corpus [(_, 0), (_, 2)] []).isSome
    simp only [matchAlong?, EntryTemplate.matchRow?, Corpus.line?_ofRows written]
    decide +kernel
  have few : corpus.rowCount < Index.greatest := by
    rw [Corpus.rowCount_ofRows written]
    decide
  obtain ⟨chain, listed, -⟩ := Query.exists_listed_of_matchAlong? compiled few within
    (by rw [query_eq]; rfl) linked matched
  obtain ⟨_, again, found⟩ := bind_eq_ok_iff.mp searched
  obtain rfl := Except.ok.inj (compiled.symm.trans again)
  obtain rfl := Except.ok.inj found
  obtain rfl := Option.some.inj isResults
  exact ⟨first, created, used, session, _, _, corpus, query, opened, isCreated, isUsed, applied,
    written, compiled, by rw [query_eq]; decide +kernel, searched, rfl, chain, listed,
    shown chain listed⟩

end Session

end LogMotif
