import LogMotif.Proofs.Corpus.Encoding
import LogMotif.Proofs.Search.Alike
import LogMotif.Proofs.Session.Compiling

/-! # Columns that are ignored

A column in which no cell takes part in matching has no influence on a search, whatever stands
there: quotes, backslashes, or text that looks like that of another column. Such a cell stands for
any string, and no string reaches beyond its own quotes.
-/

namespace LogMotif

open LineItem (IsContent)

namespace AgreeOn

variable {columns : Nat → Prop} {left right : List (List String)}

theorem symm (agree : AgreeOn columns left right) : AgreeOn columns right left :=
  agree.flip.imp fun _ _ same column reads => (same column reads).symm

private theorem getElem? (agree : AgreeOn columns left right) {i : Nat} {row : List String}
    (here : left[i]? = some row) : ∃ other, right[i]? = some other ∧
      ∀ column, columns column → row[column]? = other[column]? :=
  exists_of_forall₂_of_getElem? agree.flip here

end AgreeOn

/-- A row that an entry spells is spelled in any log that agrees in the columns that take part in
matching the entry. -/
private theorem Entry.spellRow_of_agreeOn {headers : List Header} {roles : List ColumnRole}
    {columns : Nat → Prop} {left right : List (List String)} (agree : AgreeOn columns left right)
    {leftCorpus rightCorpus : Corpus}
    (writtenLeft : Corpus.ofRows headers roles left = .ok leftCorpus)
    (writtenRight : Corpus.ofRows headers roles right = .ok rightCorpus) {entry : Entry}
    (shaped : entry.IsShaped headers.length)
    (reads : ∀ column, entry.IsActive roles column → columns column) {value : Nat → String}
    {i : Nat} (spelled : TemplateItem.SpellRow leftCorpus value
      (TemplateItem.ofEntry headers roles entry) i) :
    TemplateItem.SpellRow rightCorpus value (TemplateItem.ofEntry headers roles entry) i := by
  obtain ⟨given, contents, same⟩ :=
    TemplateItem.exists_content_values fun index member => (spelled.1 index member).2
  obtain ⟨stretches, row, isRow, faces⟩ := (spellRow_ofEntry_iff contents writtenLeft
    shaped.cells_length shaped.selection_length).mp (spelled.congr same)
  obtain ⟨other, isOther, texts⟩ := agree.getElem? isRow
  have spelledOther : TemplateItem.SpellRow rightCorpus given
      (TemplateItem.ofEntry headers roles entry) i := by
    refine (spellRow_ofEntry_iff contents writtenRight shaped.cells_length
      shaped.selection_length).mpr ⟨stretches, other, isOther, fun column active => ?_⟩
    rw [← texts column (reads column active)]
    exact faces column active
  exact spelledOther.congr fun index member => (same index member).symm

namespace Session

/-- Whether a column takes part in matching some entry. -/
def Reads (session : Session) (column : Nat) : Prop :=
  ∃ entry ∈ session.motif.entries, entry.IsActive session.roles column

variable {session : Session}

private theorem Sound.looksAlike_of_agreeOn (sound : session.Sound)
    {left right : List (List String)} (agree : AgreeOn session.Reads left right)
    {leftCorpus rightCorpus : Corpus}
    (writtenLeft : Corpus.ofRows session.headers session.roles left = .ok leftCorpus)
    (writtenRight : Corpus.ofRows session.headers session.roles right = .ok rightCorpus)
    {query : Query} (compiled : session.compile = .ok query) :
    query.LooksAlike leftCorpus rightCorpus := by
  obtain ⟨-, -, -, -, rfl⟩ := Query.compile_eq_ok_iff.mp compiled
  rw [Query.LooksAlike, Query.map_items_templates]
  rintro items member value row
  obtain ⟨entry, inEntries, rfl⟩ := List.mem_map.mp member
  have shaped := sound.shaped entry inEntries
  have reads (column : Nat) (active : entry.IsActive session.roles column) : session.Reads column :=
    ⟨entry, inEntries, active⟩
  exact ⟨Entry.spellRow_of_agreeOn agree writtenLeft writtenRight shaped reads,
    Entry.spellRow_of_agreeOn agree.symm writtenRight writtenLeft shaped reads⟩

/-- A search finds the same in two logs that differ only in columns that take part in matching no
entry, if it stays within its budget in both. -/
theorem Reachable.search_eq_of_agreeOn (reachable : session.Reachable)
    {left right : List (List String)} (agree : AgreeOn session.Reads left right)
    {leftCorpus rightCorpus : Corpus}
    (writtenLeft : Corpus.ofRows session.headers session.roles left = .ok leftCorpus)
    (writtenRight : Corpus.ofRows session.headers session.roles right = .ok rightCorpus)
    (few : left.length < Index.greatest) (withinLeft : session.StaysWithin leftCorpus)
    (withinRight : session.StaysWithin rightCorpus) :
    ∃ next results, session.search leftCorpus = .ok next ∧ session.search rightCorpus = .ok next ∧
      next.results = some results := by
  obtain ⟨covered, -, -⟩ := Corpus.ofRows_eq_ok_iff.mp writtenLeft
  obtain ⟨query, compiled⟩ : ∃ query, session.compile = .ok query :=
    ⟨_, reachable.compile_eq_ok covered⟩
  have alike := reachable.sound.looksAlike_of_agreeOn agree writtenLeft writtenRight compiled
  have fewLeft : leftCorpus.rowCount < Index.greatest := by
    rwa [Corpus.rowCount_ofRows writtenLeft]
  have fewRight : rightCorpus.rowCount < Index.greatest := by
    rwa [Corpus.rowCount_ofRows writtenRight, ← agree.length_eq]
  have same := Query.search_eq_of_looksAlike compiled fewLeft fewRight alike
    (withinLeft query compiled) (withinRight query compiled)
  refine ⟨_, _, bind_eq_ok_iff.mpr ⟨query, compiled, rfl⟩, bind_eq_ok_iff.mpr ⟨query, compiled, ?_⟩,
    rfl⟩
  rw [same]
  rfl

/-- Two logs whose rows differ in a timestamp: in one of them it has quotes and a backslash, and
looks like a member of its own line. -/
theorem search_ignores_timestamp :
    ∃ (first created session next : Session) (results : Results) (left right : Corpus),
      start [⟨"m", .string⟩, ⟨"t", .string⟩] [.content, .timestamp]
        [["ab", "1"], ["ac", "2"]] {} = .ok first ∧
      first.apply (.createWildcard ⟨0, 0, ⟨0, 0, 1⟩⟩) = .ok (.updated created) ∧
      created.apply (.useWildcard 0 ⟨1, 0, ⟨0, 0, 1⟩⟩) = .ok (.updated session) ∧
      Corpus.ofRows session.headers session.roles [["xb", "3"], ["xc", "4"]] = .ok left ∧
      Corpus.ofRows session.headers session.roles
        [["xb", "\\\",\"m\":\"yc"], ["xc", ""]] = .ok right ∧
      session.search left = .ok next ∧ session.search right = .ok next ∧
      next.results = some results := by
  let session : Session :=
    { headers := [⟨"m", .string⟩, ⟨"t", .string⟩]
      roles := [.content, .timestamp]
      motif :=
        { entries :=
            [⟨["ab", "1"], [⟨[.wildcard 0 "a", .text "b"]⟩, ⟨[.text "1"]⟩], [true, false],
                some .any⟩,
              ⟨["ac", "2"], [⟨[.wildcard 0 "a", .text "c"]⟩, ⟨[.text "2"]⟩], [true, false], none⟩]
          wildcards := [⟨[⟨0, 0, 0⟩, ⟨1, 0, 0⟩]⟩] }
      options := {}
      results := none }
  obtain ⟨first, created, left, right, opened, isCreated, applied, writtenLeft, writtenRight⟩ :
      ∃ (first created : Session) (left right : Corpus),
        start [⟨"m", .string⟩, ⟨"t", .string⟩] [.content, .timestamp]
          [["ab", "1"], ["ac", "2"]] {} = .ok first ∧
        first.apply (.createWildcard ⟨0, 0, ⟨0, 0, 1⟩⟩) = .ok (.updated created) ∧
        created.apply (.useWildcard 0 ⟨1, 0, ⟨0, 0, 1⟩⟩) = .ok (.updated session) ∧
        Corpus.ofRows session.headers session.roles [["xb", "3"], ["xc", "4"]] = .ok left ∧
        Corpus.ofRows session.headers session.roles
          [["xb", "\\\",\"m\":\"yc"], ["xc", ""]] = .ok right :=
    ⟨_, _, _, _, rfl, rfl, rfl, rfl, rfl⟩
  have fits : TextsFit [["ab", "1"], ["ac", "2"]] := by
    unfold TextsFit
    decide
  have reachable : session.Reachable :=
    .apply (.apply (.start fits opened) (by exact trivial) isCreated) (by exact trivial) applied
  have reads (column : Nat) (reads : session.Reads column) : column = 0 := by
    obtain ⟨entry, member, selected, -⟩ := reads
    have selection : entry.selection = [true, false] := by
      simp only [session, List.mem_cons, List.not_mem_nil, or_false] at member
      rcases member with rfl | rfl <;> rfl
    rw [selection] at selected
    match column with
    | 0 => rfl
    | 1 => simp at selected
  have agree : AgreeOn session.Reads [["xb", "3"], ["xc", "4"]]
      [["xb", "\\\",\"m\":\"yc"], ["xc", ""]] := by
    refine .cons (fun column isRead => ?_) (.cons (fun column isRead => ?_) .nil)
    all_goals
      rw [reads column isRead]
      rfl
  have within (corpus : Corpus) : session.StaysWithin corpus := by
    intro query compiled
    obtain ⟨-, -, -, -, rfl⟩ := Query.compile_eq_ok_iff.mp compiled
    refine Query.staysWithin_of_hasRecall_eq_false fun template member captures => ?_
    simp only [session, Query.templates, List.mem_cons, List.not_mem_nil, or_false] at member
    rcases member with rfl | rfl <;> rfl
  obtain ⟨next, results, searched⟩ := reachable.search_eq_of_agreeOn agree writtenLeft writtenRight
    (by decide) (within left) (within right)
  exact ⟨first, created, session, next, results, left, right, opened, isCreated, applied,
    writtenLeft, writtenRight, searched⟩

end Session

end LogMotif
