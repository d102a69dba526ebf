import LogMotif.Proofs.Search.Relaxation
import LogMotif.Proofs.Session.Form
import LogMotif.Proofs.Session.Refusals

/-! # Sessions that are relaxed

A session is relaxed when a link is set to one that allows every distance the old one allowed, or
when a cell that holds no wildcard is deselected. Such an action is never refused, and a search
behind it finds something from every row from which it was found before.
-/

namespace LogMotif

namespace Session

variable {session : Session} {action : Action}

/-- Whether an action relaxes the motif of a session: it sets a link to a valid one that allows every
distance the old one allowed, or it deselects a cell that holds no wildcard. -/
inductive Relaxes (session : Session) : Action → Prop
  | setLink {entry : Nat} {found : Entry} {old link : Link}
      (isEntry : session.motif.entries[entry]? = some found) (isLink : found.link = some old)
      (valid : link.isValid) (widens : old.WidensTo link) : Relaxes session (.setLink entry link)
  | deselect {entry cell : Nat} {found : Entry} {content : Cell}
      (isEntry : session.motif.entries[entry]? = some found)
      (isCell : found.cells[cell]? = some content) (selected : found.selection[cell]? = some true)
      (plain : content.hasWildcards = false) : Relaxes session (.toggleCell entry cell false)

/-- An action that relaxes a session succeeds and relaxes its entries. -/
private theorem Reachable.exists_apply_of_relaxes (reachable : session.Reachable)
    (relaxes : session.Relaxes action) :
    ∃ motif, session.apply action = .ok (.updated (session.withMotif motif)) ∧
      List.Forall₂ (Entry.RelaxesTo session.headers session.roles) session.motif.entries
        motif.entries := by
  have kept (entry : Entry) : entry.RelaxesTo session.headers session.roles entry :=
    entry.relaxesTo_of_widensTo _ _ fun _ => id
  rw [reachable.sound.apply_eq_perform]
  cases relaxes with
  | @setLink entry found old link isEntry isLink valid widens =>
    obtain ⟨links, linked, -⟩ := reachable.exists_linkedBy
    have inside : entry < session.motif.entries.length := (List.getElem?_eq_some_iff.mp isEntry).1
    have notLast : entry + 1 ≠ session.motif.entries.length := by
      rw [Ne, ← linked.link_eq_none_iff isEntry, isLink]
      exact Option.some_ne_none old
    have hasSuccessor : entry + 1 < session.motif.entries.length := by omega
    have edited := Motif.setLink_eq_ok_iff.mpr ⟨hasSuccessor, valid, rfl⟩
    refine ⟨_, bind_eq_ok_iff.mpr ⟨_, edited, rfl⟩, forall₂_modify kept fun other isOther => ?_⟩
    obtain rfl := Option.some.inj (isEntry.symm.trans isOther)
    refine found.relaxesTo_of_widensTo _ _ ?_
    rwa [isLink]
  | @deselect entry cell found content isEntry isCell selected plain =>
    have member := List.mem_of_getElem? isEntry
    have shaped := reachable.sound.shaped found member
    have inside : cell < session.roles.length := by
      rw [← reachable.covered, ← shaped.selection_length]
      exact (List.getElem?_eq_some_iff.mp selected).1
    have selectable : (session.roles[cell]?).any ColumnRole.inCorpus := by
      have notRule (isRule : session.roles[cell]? = some .rule) : False :=
        reachable.sparesRules member cell isRule selected
      rw [List.getElem?_eq_getElem inside] at notRule ⊢
      cases role : session.roles[cell] with
      | rule => exact (notRule (congrArg some role)).elim
      | timestamp | content => rfl
    have exists_cell : (Motif.cellAt? session.motif.entries entry cell).isSome := by
      rw [Motif.cellAt?, isEntry, Option.bind_some, isCell]
      rfl
    have edited : session.motif.toggleCell session.roles entry cell false = .ok _ :=
      Motif.toggleCell_eq_ok_iff.mpr ⟨exists_cell, rfl⟩
    rw [if_pos selectable] at edited
    refine ⟨_, bind_eq_ok_iff.mpr ⟨_, edited, rfl⟩, forall₂_modify kept fun other isOther => ?_⟩
    obtain rfl := Option.some.inj (isEntry.symm.trans isOther)
    exact Entry.relaxesTo_of_deselect _ _ isCell selected plain

/-- An action that relaxes a reachable session succeeds. Behind it a search, if it stays within its
budget, finds each match again that was found before, or an earlier one from the same row. -/
theorem Reachable.exists_found_of_relaxes (reachable : session.Reachable)
    (relaxes : session.Relaxes action) :
    ∃ relaxed, session.apply action = .ok (.updated relaxed) ∧
      ∀ corpus : Corpus, corpus.rowCount < Index.greatest → relaxed.StaysWithin corpus →
        ∃ before after results resultsAfter,
          session.search corpus = .ok before ∧ before.results = some results ∧
          relaxed.search corpus = .ok after ∧ after.results = some resultsAfter ∧
          ∀ chain ∈ results.found.list, ∃ found ∈ resultsAfter.found.list,
            found.head? = chain.head? ∧ (found = chain ∨ found.Precedes chain) := by
  obtain ⟨motif, applied, related⟩ := reachable.exists_apply_of_relaxes relaxes
  have fits : action.Fits := by cases relaxes <;> exact trivial
  have next := reachable.apply fits applied
  refine ⟨_, applied, fun corpus few within => ?_⟩
  have compiled := reachable.compile_eq_ok reachable.covered
  have compiledNext := next.compile_eq_ok next.covered
  refine ⟨_, _, _, _, bind_eq_ok_iff.mpr ⟨_, compiled, rfl⟩, rfl,
    bind_eq_ok_iff.mpr ⟨_, compiledNext, rfl⟩, rfl, fun chain listed => ?_⟩
  exact Query.exists_listed_of_relaxes compiled compiledNext related few
    (within _ compiledNext) listed

/-- Two entries that share a wildcard, with a second column of plain text, one right behind the
other. The link is widened, or the text in the second column of the first entry is deselected. -/
theorem exists_found_behind_wider_link_and_deselected_cell :
    ∃ (first created used session : Session) (corpus : Corpus),
      start [⟨"m", .string⟩, ⟨"k", .string⟩] [.content, .content]
        [["a1", "x"], ["a2", "y"]] {} = .ok first ∧
      first.apply (.createWildcard ⟨0, 0, ⟨0, 0, 1⟩⟩) = .ok (.updated created) ∧
      created.apply (.useWildcard 0 ⟨1, 0, ⟨0, 0, 1⟩⟩) = .ok (.updated used) ∧
      used.apply (.setLink 0 (.exactly 1)) = .ok (.updated session) ∧
      Corpus.ofRows session.headers session.roles [["b1", "x"], ["b2", "y"]] = .ok corpus ∧
      ∀ action ∈ [Action.setLink 0 (.atMost 2), Action.toggleCell 0 1 false],
        session.Relaxes action ∧
        ∃ relaxed, session.apply action = .ok (.updated relaxed) ∧ relaxed.StaysWithin corpus ∧
          ∃ before after results resultsAfter,
            session.search corpus = .ok before ∧ before.results = some results ∧
            relaxed.search corpus = .ok after ∧ after.results = some resultsAfter ∧
            ∃ chain ∈ results.found.list, chain.head? = some 0 ∧
              ∃ found ∈ resultsAfter.found.list, found.head? = chain.head? := by
  let entries (link : Link) (flag : Bool) : List Entry :=
    [⟨["a1", "x"], [⟨[.wildcard 0 "a", .text "1"]⟩, ⟨[.text "x"]⟩], [true, flag], some link⟩,
      ⟨["a2", "y"], [⟨[.wildcard 0 "a", .text "2"]⟩, ⟨[.text "y"]⟩], [true, true], none⟩]
  let made (link : Link) (flag : Bool) : Session :=
    { headers := [⟨"m", .string⟩, ⟨"k", .string⟩]
      roles := [.content, .content]
      motif := ⟨entries link flag, [⟨[⟨0, 0, 0⟩, ⟨1, 0, 0⟩]⟩]⟩
      options := {}
      results := none }
  let session := made (.exactly 1) true
  obtain ⟨first, created, used, corpus, opened, isCreated, isUsed, applied, written⟩ :
      ∃ (first created used : Session) (corpus : Corpus),
        start [⟨"m", .string⟩, ⟨"k", .string⟩] [.content, .content]
          [["a1", "x"], ["a2", "y"]] {} = .ok first ∧
        first.apply (.createWildcard ⟨0, 0, ⟨0, 0, 1⟩⟩) = .ok (.updated created) ∧
        created.apply (.useWildcard 0 ⟨1, 0, ⟨0, 0, 1⟩⟩) = .ok (.updated used) ∧
        used.apply (.setLink 0 (.exactly 1)) = .ok (.updated session) ∧
        Corpus.ofRows session.headers session.roles [["b1", "x"], ["b2", "y"]] = .ok corpus :=
    ⟨_, _, _, _, rfl, rfl, rfl, rfl, rfl⟩
  have fits : TextsFit [["a1", "x"], ["a2", "y"]] := by
    unfold TextsFit
    decide
  have reachable : session.Reachable := by
    refine .apply (.apply (.apply (.start fits opened) ?_ isCreated) ?_ isUsed) ?_ applied
    all_goals exact trivial
  have few : corpus.rowCount < Index.greatest := by
    rw [Corpus.rowCount_ofRows written]
    decide
  have within (link : Link) (flag : Bool) : (made link flag).StaysWithin corpus := by
    intro query compiled
    obtain ⟨-, -, -, -, rfl⟩ := Query.compile_eq_ok_iff.mp compiled
    refine Query.staysWithin_of_hasRecall_eq_false fun template member captures => ?_
    simp only [made, entries, Query.templates, List.mem_cons, List.not_mem_nil, or_false] at member
    cases flag <;> rcases member with rfl | rfl <;> rfl
  obtain ⟨query, compiled⟩ : ∃ query, session.compile = .ok query :=
    ⟨_, reachable.compile_eq_ok reachable.covered⟩
  obtain ⟨-, -, -, -, query_eq⟩ := Query.compile_eq_ok_iff.mp compiled
  obtain ⟨chain, listed, isFirst⟩ :
      ∃ chain ∈ (query.search corpus).list, chain.head? = some 0 := by
    have linked : Match.Linked query.links [0, 1] := by
      rw [query_eq]
      refine Match.linked_cons_cons.mpr ⟨?_, by simp [Match.Linked]⟩
      change (1 : Int) - 0 = 1
      decide
    have matched : (matchAlong? corpus (query.entries.zip [0, 1]) []).isSome := by
      rw [query_eq]
      change (matchAlong? corpus [(_, 0), (_, 1)] []).isSome
      simp only [matchAlong?, EntryTemplate.matchRow?, Corpus.line?_ofRows written]
      decide +kernel
    obtain ⟨chain, listed, same, -⟩ := Query.exists_listed_of_matchAlong? compiled few
      (within (.exactly 1) true query compiled) (by rw [query_eq]; rfl) linked matched
    exact ⟨chain, listed, same⟩
  have finds {action : Action} (link : Link) (flag : Bool) (relaxes : session.Relaxes action)
      (isMade : session.apply action = .ok (.updated (made link flag))) :
      ∃ relaxed, session.apply action = .ok (.updated relaxed) ∧ relaxed.StaysWithin corpus ∧
        ∃ before after results resultsAfter,
          session.search corpus = .ok before ∧ before.results = some results ∧
          relaxed.search corpus = .ok after ∧ after.results = some resultsAfter ∧
          ∃ chain ∈ results.found.list, chain.head? = some 0 ∧
            ∃ found ∈ resultsAfter.found.list, found.head? = chain.head? := by
    obtain ⟨relaxed, isRelaxed, search⟩ := reachable.exists_found_of_relaxes relaxes
    obtain rfl := Transition.updated.inj (Except.ok.inj (isMade.symm.trans isRelaxed))
    obtain ⟨before, after, results, resultsAfter, searched, isResults, searchedAfter, isAfter,
      found⟩ := search corpus few (within link flag)
    obtain ⟨_, again, isFound⟩ := bind_eq_ok_iff.mp searched
    obtain rfl := Except.ok.inj (compiled.symm.trans again)
    obtain rfl := Except.ok.inj isFound
    obtain rfl := Option.some.inj isResults
    obtain ⟨later, isLater, same, -⟩ := found chain listed
    exact ⟨_, isMade, within link flag, _, after, _, resultsAfter, searched, rfl, searchedAfter,
      isAfter, chain, listed, isFirst, later, isLater, same⟩
  refine ⟨first, created, used, session, corpus, opened, isCreated, isUsed, applied, written, ?_⟩
  have isEntry : session.motif.entries[0]? = some (entries (.exactly 1) true)[0] := rfl
  have widened : session.Relaxes (.setLink 0 (.atMost 2)) := by
    refine .setLink isEntry rfl rfl fun distance allowed => ?_
    obtain rfl : distance = 1 := allowed
    exact ⟨by decide, by decide⟩
  have deselected : session.Relaxes (.toggleCell 0 1 false) := .deselect isEntry rfl rfl rfl
  simp only [List.forall_mem_cons, List.not_mem_nil, false_imp_iff, implies_true, and_true]
  exact ⟨⟨widened, finds (.atMost 2) true widened rfl⟩,
    deselected, finds (.exactly 1) false deselected rfl⟩

end Session

end LogMotif
