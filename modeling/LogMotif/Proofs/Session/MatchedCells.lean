import LogMotif.Proofs.Search.Recapture
import LogMotif.Proofs.Session.Bookkeeping

/-! # The cells of a match

A listed match is meant to be the motif with one text filled in for each wildcard. Matching works on
what texts are written as, and takes it unit by unit: a backslash with the character behind it, or a
plain character. A control character that is written in hexadecimal digits takes five units, so a
wildcard may end inside of it and stand for no text. Where each wildcard has a matched cell without
such characters, the match is as it is meant to be; where they are let in, it need not be.
-/

namespace LogMotif

open LineItem (IsContent IsStretch)

namespace Session

/-- Whether the matched rows are the entries of a session with given texts for the wildcards, as far
as their cells take part in matching. -/
def FilledBy (session : Session) (log : List (List String)) (chain : Match)
    (assigned : Nat → String) : Prop :=
  List.Forall₂ (fun entry i => ∃ row, log[i]? = some row ∧
    entry.Faces session.roles row fun cell text => text = cell.filled assigned)
      session.motif.entries chain

/-- Whether each wildcard that takes part in matching stands in a cell that is matched by a text all
of whose characters have a property. -/
def EachStandsOver (session : Session) (log : List (List String)) (chain : Match)
    (property : Char → Prop) : Prop :=
  ∀ index, (∃ entry ∈ session.motif.entries, entry.Uses session.roles index) →
    ∃ entry i row column cell text, (entry, i) ∈ session.motif.entries.zip chain ∧
      log[i]? = some row ∧ entry.IsActive session.roles column ∧
      entry.cells[column]? = some cell ∧ cell.Holds index ∧ row[column]? = some text ∧
      ∀ c ∈ text.toList, property c

private theorem EachStandsOver.imp {session : Session} {log : List (List String)} {chain : Match}
    {property weaker : Char → Prop} (stands : session.EachStandsOver log chain property)
    (implies : ∀ c, property c → weaker c) : session.EachStandsOver log chain weaker := by
  intro index used
  obtain ⟨entry, i, row, column, cell, text, here, isRow, active, isCell, holds, isText, each⟩ :=
    stands index used
  exact ⟨entry, i, row, column, cell, text, here, isRow, active, isCell, holds, isText,
    fun c member => implies c (each c member)⟩

variable {session next : Session} {log : List (List String)} {corpus : Corpus} {results : Results}
  {chain : Match}

/-- Along a listed match there is one stretch for each wildcard with which the cells of the entries
stand for what the matched texts are written as. -/
private theorem Sound.exists_faces_of_listed (sound : session.Sound)
    (written : Corpus.ofRows session.headers session.roles log = .ok corpus)
    (searched : session.search corpus = .ok next) (isResults : next.results = some results)
    (listed : chain ∈ results.found.list) :
    ∃ value : Nat → String, (∀ index, IsContent (value index).toList) ∧
      (∀ index, (∃ entry ∈ session.motif.entries, entry.Uses session.roles index) →
        value index ≠ "") ∧
      List.Forall₂ (fun entry i => entry ∈ session.motif.entries ∧ ∃ row, log[i]? = some row ∧
        entry.Faces session.roles row fun cell text =>
          Json.escape text.toList = cell.spelled value) session.motif.entries chain := by
  obtain ⟨query, compiled, searched⟩ := bind_eq_ok_iff.mp searched
  obtain rfl := Except.ok.inj searched
  obtain rfl := Option.some.inj isResults
  obtain ⟨_, _, entries_eq, lengths, threaded⟩ := Query.exists_entries_of_compile compiled
  obtain ⟨value, contents, spelled⟩ :=
    Query.exists_spellRow_of_mem_list entries_eq lengths threaded listed
  obtain ⟨covered, -, -, -, query_eq⟩ := Query.compile_eq_ok_iff.mp compiled
  rw [query_eq, Query.map_items_templates, List.forall₂_map_left_iff] at spelled
  have spelledEach : List.Forall₂ (fun entry i => entry ∈ session.motif.entries ∧
      TemplateItem.SpellRow corpus value
        (TemplateItem.ofEntry session.headers session.roles entry) i) session.motif.entries chain :=
    (List.forall₂_and_left _ _).mpr ⟨fun _ member => member, spelled⟩
  refine ⟨value, contents, ?_, spelledEach.imp ?_⟩
  · rintro index ⟨entry, member, uses⟩ empty
    obtain ⟨i, -, stretches, -⟩ := exists_of_forall₂_of_mem spelled.flip member
    exact (stretches index ((Entry.wildcard_mem_ofEntry_iff covered).mpr uses)).1 (by rw [empty]; rfl)
  · rintro entry i ⟨member, spells⟩
    have shaped := sound.shaped entry member
    exact ⟨member, ((Entry.spellRow_ofEntry_iff contents written shaped.cells_length
      shaped.selection_length).mp spells).2⟩

/-- A match is the motif with texts filled in, if each wildcard stands over a text whose characters
are each written as one unit. -/
private theorem Sound.exists_filledBy (sound : session.Sound)
    (written : Corpus.ofRows session.headers session.roles log = .ok corpus)
    (searched : session.search corpus = .ok next) (isResults : next.results = some results)
    (listed : chain ∈ results.found.list)
    (units : session.EachStandsOver log chain fun c => ¬ Json.WrittenInHex c) :
    ∃ assigned : Nat → String, (∀ index, assigned index ≠ "") ∧
      session.FilledBy log chain assigned := by
  obtain ⟨value, contents, filled, faced⟩ :=
    sound.exists_faces_of_listed written searched isResults listed
  have word (index : Nat) : ∃ word : String, word ≠ "" ∧
      ((∃ entry ∈ session.motif.entries, entry.Uses session.roles index) →
        value index = Json.escapeText word) := by
    by_cases used : ∃ entry ∈ session.motif.entries, entry.Uses session.roles index
    · obtain ⟨entry, i, row, column, cell, text, here, isRow, active, isCell, holds, isText, units⟩ :=
        units index used
      obtain ⟨-, _, sameRow, faces⟩ := (List.forall₂_iff_zip.mp faced).2 here
      obtain rfl := Option.some.inj (isRow.symm.trans sameRow)
      obtain ⟨_, _, sameCell, sameText, spelled⟩ := faces column active
      obtain rfl := Option.some.inj (isCell.symm.trans sameCell)
      obtain rfl := Option.some.inj (isText.symm.trans sameText)
      obtain ⟨word, word_ne, isWord⟩ := holds.exists_word contents units spelled (filled index used)
      exact ⟨word, word_ne, fun _ => isWord⟩
    · exact ⟨"?", by decide, fun uses => absurd uses used⟩
  obtain ⟨assigned, words⟩ := Classical.axiomOfChoice word
  refine ⟨assigned, fun index => (words index).1, faced.imp ?_⟩
  rintro entry i ⟨member, row, isRow, faces⟩
  refine ⟨row, isRow, fun column active => ?_⟩
  obtain ⟨cell, text, isCell, isText, spelled⟩ := faces column active
  refine ⟨cell, text, isCell, isText, ?_⟩
  rw [Cell.spelled_eq_escape_filled fun index holds =>
    (words index).2 ⟨entry, member, column, cell, active, isCell, holds⟩] at spelled
  exact String.toList_inj.mp (Json.escape_injective spelled)

/-! ### Characters that are written in hexadecimal digits -/

/-- A session on one row, in which two wildcards stand on either side of two zeros. -/
def zerosBetween : Session where
  headers := [⟨"m", .string⟩]
  roles := [.content]
  motif :=
    { entries :=
        [⟨["a00b"], [⟨[.wildcard 0 "a", .text "00", .wildcard 1 "b"]⟩], [true], none⟩]
      wildcards := [⟨[⟨0, 0, 0⟩]⟩, ⟨[⟨0, 0, 2⟩]⟩] }
  options := {}
  results := none

private theorem reachable_zerosBetween : zerosBetween.Reachable := by
  obtain ⟨first, created, opened, isCreated, applied⟩ : ∃ first created : Session,
      start [⟨"m", .string⟩] [.content] [["a00b"]] {} = .ok first ∧
        first.apply (.createWildcard ⟨0, 0, ⟨0, 0, 1⟩⟩) = .ok (.updated created) ∧
        created.apply (.createWildcard ⟨0, 0, ⟨1, 2, 3⟩⟩) = .ok (.updated zerosBetween) :=
    ⟨_, _, rfl, rfl, rfl⟩
  have fits : TextsFit [["a00b"]] := by
    unfold TextsFit
    decide
  exact .apply (.apply (.start fits opened) (by exact trivial) isCreated) (by exact trivial) applied

/-- No text of one character has two zeros between two texts. -/
private theorem not_filledBy_zerosBetween (c : Char) (assigned : Nat → String) :
    ¬ zerosBetween.FilledBy [[String.ofList [c]]] [0] assigned := by
  intro filled
  obtain _ | ⟨⟨row, isRow, faces⟩, -⟩ := filled
  obtain rfl := Option.some.inj isRow
  obtain ⟨cell, text, isCell, isText, text_eq⟩ := faces 0 ⟨rfl, .content, rfl, rfl⟩
  obtain rfl := Option.some.inj isCell
  obtain rfl := Option.some.inj isText
  have lengths := congrArg String.length text_eq
  have zeros : "00".length = 2 := rfl
  simp only [Cell.filled, Segment.filled, List.map_cons, List.map_nil, String.join_cons,
    String.join_nil, String.length_append, String.length_ofList, List.length_singleton, zeros]
    at lengths
  omega

private theorem eq_zero_of_getElem?_singleton {α : Type} {item other : α} {i : Nat}
    (here : [item][i]? = some other) : i = 0 := by
  have inside := (List.getElem?_eq_some_iff.mp here).1
  simpa using inside

private theorem eachStandsOver_zerosBetween (c : Char) :
    zerosBetween.EachStandsOver [[String.ofList [c]]] [0] (· = c) := by
  rintro index ⟨entry, member, column, cell, active, isCell, holds⟩
  obtain rfl := List.mem_singleton.mp member
  obtain rfl := eq_zero_of_getElem?_singleton isCell
  exact ⟨_, 0, [String.ofList [c]], 0, cell, String.ofList [c], List.mem_cons_self, rfl, active, isCell,
    holds, rfl, by simp⟩

/-- What a character that is written in hexadecimal digits is written as has two zeros between two
stretches, so the character is matched. -/
private theorem exists_listed_zerosBetween {c : Char} (inHex : Json.WrittenInHex c) :
    ∃ (next : Session) (corpus : Corpus) (results : Results),
      Corpus.ofRows zerosBetween.headers zerosBetween.roles [[String.ofList [c]]] = .ok corpus ∧
      zerosBetween.search corpus = .ok next ∧ next.results = some results ∧
      [0] ∈ results.found.list := by
  obtain ⟨corpus, written⟩ : ∃ corpus,
      Corpus.ofRows zerosBetween.headers zerosBetween.roles [[String.ofList [c]]] = .ok corpus :=
    ⟨_, rfl⟩
  obtain ⟨query, compiled⟩ : ∃ query, zerosBetween.compile = .ok query := ⟨_, rfl⟩
  obtain ⟨_, _, cons_eq, lengths, threaded⟩ := Query.exists_entries_of_compile compiled
  obtain ⟨-, -, -, -, query_eq⟩ := Query.compile_eq_ok_iff.mp compiled
  let template : EntryTemplate :=
    ⟨[.literal "\x7b", .literal "\"m\":", .literal "\"", .wildcard 0, .literal "00", .wildcard 1,
      .literal "\"", .literal "\x7d"], [], [0, 1]⟩
  have entries_eq : query.entries = [template] := by
    rw [query_eq]
    rfl
  have links_eq : query.links = [] := by
    rw [query_eq]
    rfl
  let digits : List Char := [Json.hexDigit (c.toNat / 16), Json.hexDigit (c.toNat % 16)]
  let value : Nat → String := fun index => if index = 0 then "\\u" else String.ofList digits
  have stretches (index : Nat) : IsStretch (value index).toList := by
    by_cases zero : index = 0
    · simp only [value, if_pos zero]
      exact ⟨by decide, .escaped (by decide) .nil⟩
    · simp only [value, if_neg zero, String.toList_ofList, digits]
      refine ⟨by simp, .plain (Json.isPlain_hexDigit ?_) (.plain (Json.isPlain_hexDigit ?_) .nil)⟩
      · have := inHex.1
        omega
      · omega
  have spelled : List.Forall₂ (TemplateItem.SpellRow corpus value)
      (query.entries.map EntryTemplate.items) [0] := by
    rw [query_eq, Query.map_items_templates]
    refine .cons ((Entry.spellRow_ofEntry_iff (fun index => (stretches index).2) written rfl rfl).mpr
      ⟨fun index _ => stretches index, _, rfl, ?_⟩) .nil
    rintro column ⟨selected, -⟩
    obtain rfl := eq_zero_of_getElem?_singleton selected
    refine ⟨_, _, rfl, rfl, ?_⟩
    change Json.escape (String.ofList [c]).toList =
      "\\u".toList ++ (Json.escape "00".toList ++ ((String.ofList digits).toList ++ []))
    have one : (String.ofList [c]).toList = [c] := String.toList_ofList
    have two : (String.ofList digits).toList = digits := String.toList_ofList
    rw [one, two, Json.escape_cons, Json.escapeChar_of_writtenInHex inHex]
    rfl
  have recaptures : query.Recaptures corpus value [0] := by
    constructor
    all_goals
      simp only [entries_eq, List.zip_cons_cons, List.zip_nil_left, List.mem_singleton,
        Prod.mk.injEq, exists_eq_left]
    · rintro _ _ ⟨rfl, rfl⟩ exhausted
      obtain ⟨line, -, exhausted⟩ := Option.map_eq_some_iff.mp exhausted
      exact LinePattern.attempt_ne_exhausted rfl _ _ exhausted
    · rintro _ _ _ - - index - bound
      cases bound
  have isChain := Query.isChain_of_recaptures threaded (by simp [links_eq]) (by simp) spelled recaptures
  have few : corpus.rowCount < Index.greatest := by
    rw [Corpus.rowCount_ofRows written]
    exact (by decide : 1 < Index.greatest)
  obtain ⟨found, listed, head⟩ := Query.exists_listed cons_eq lengths threaded few isChain
  have length_eq := (Query.isEarliestChain_of_mem cons_eq lengths threaded few listed).1.length_eq
  rw [Query.entryCount, entries_eq] at length_eq
  obtain ⟨i, rfl⟩ := List.length_eq_one_iff.mp length_eq
  obtain rfl := Option.some.inj head
  exact ⟨_, corpus, _, written, bind_eq_ok_iff.mpr ⟨query, compiled, rfl⟩, rfl, listed⟩

/-- Matches are motifs with texts filled in exactly where no character that is written in hexadecimal
digits is let in. For characters with a property, each listed match in which every wildcard stands
over a text of such characters has a text for each wildcard, not empty and the same in all entries,
with which all its cells that take part in matching are filled; and this holds for no property of a
character that is written in hexadecimal digits. -/
theorem matches_filled_iff_not_writtenInHex (property : Char → Prop) :
    (∀ (session next : Session) (log : List (List String)) (corpus : Corpus) (results : Results),
      session.Reachable → Corpus.ofRows session.headers session.roles log = .ok corpus →
        session.search corpus = .ok next → next.results = some results →
          ∀ chain ∈ results.found.list, session.EachStandsOver log chain property →
            ∃ assigned : Nat → String, (∀ index, assigned index ≠ "") ∧
              session.FilledBy log chain assigned) ↔
      ∀ c, property c → ¬ Json.WrittenInHex c := by
  constructor
  · intro filled c holds inHex
    obtain ⟨next, corpus, results, written, searched, isResults, listed⟩ :=
      exists_listed_zerosBetween inHex
    obtain ⟨assigned, -, filledBy⟩ := filled zerosBetween next _ corpus results
      reachable_zerosBetween written searched isResults [0] listed
      ((eachStandsOver_zerosBetween c).imp fun _ same => same ▸ holds)
    exact not_filledBy_zerosBetween c assigned filledBy
  · intro units session next log corpus results reachable written searched isResults chain listed stands
    exact reachable.sound.exists_filledBy written searched isResults listed (stands.imp units)

/-- A row of one control character is matched by a session with two wildcards and two zeros between
them, and no texts for the wildcards make the character of it. -/
theorem match_of_control_character_unfilled :
    ∃ (first created session next : Session) (corpus : Corpus) (results : Results),
      start [⟨"m", .string⟩] [.content] [["a00b"]] {} = .ok first ∧
      first.apply (.createWildcard ⟨0, 0, ⟨0, 0, 1⟩⟩) = .ok (.updated created) ∧
      created.apply (.createWildcard ⟨0, 0, ⟨1, 2, 3⟩⟩) = .ok (.updated session) ∧
      session.Reachable ∧
      Corpus.ofRows session.headers session.roles [["\x01"]] = .ok corpus ∧
      session.search corpus = .ok next ∧ next.results = some results ∧
      [0] ∈ results.found.list ∧ ∀ assigned, ¬ session.FilledBy [["\x01"]] [0] assigned := by
  obtain ⟨next, corpus, results, written, searched, isResults, listed⟩ :=
    exists_listed_zerosBetween (by decide : Json.WrittenInHex '\x01')
  exact ⟨_, _, zerosBetween, next, corpus, results, rfl, rfl, rfl, reachable_zerosBetween, written,
    searched, isResults, listed, not_filledBy_zerosBetween '\x01'⟩

end Session

end LogMotif
