import LogMotif.Proofs.Motif.Consistency
import LogMotif.Proofs.Query.Compilation
import LogMotif.Proofs.Query.Lines

/-! # Which entry defines a wildcard

Of the wildcards in the cells of an entry that take part in matching, the template of the entry
binds those that an earlier entry has in such a cell, and defines the others. It lists both in the
order in which they are met. So each wildcard that takes part in matching is defined by one entry,
which is the first that has it in such a cell.
-/

namespace LogMotif

namespace Entry

/-- The wildcards in the cells of an entry that take part in matching, in the order in which they
stand there. -/
def activeWildcards (roles : List ColumnRole) (entry : Entry) : List Nat :=
  (roles.zip (entry.cells.zip entry.selection)).flatMap fun (role, cell, selected) =>
    if role.inCorpus && selected then cell.segments.filterMap Segment.wildcard? else []

/-- Whether a list holds the wildcards that an entry uses and that have a property, each once, in the
order in which they are met first. -/
structure Lists (roles : List ColumnRole) (entry : Entry) (property : Nat → Prop)
    (listed : List Nat) : Prop where
  mem_iff : ∀ index, index ∈ listed ↔ entry.Uses roles index ∧ property index
  nodup : listed.Nodup
  ascending : listed.Pairwise fun left right =>
    (entry.activeWildcards roles).idxOf left < (entry.activeWildcards roles).idxOf right

end Entry

namespace TemplateItem

private theorem filterMap_wildcard?_ofCell (selected : Bool) (cell : Cell) :
    (ofCell selected cell).filterMap wildcard? =
      if selected then cell.segments.filterMap Segment.wildcard? else [] := by
  have ofSegment_wildcard? : wildcard? ∘ ofSegment = Segment.wildcard? := by
    funext segment
    cases segment <;> rfl
  cases selected with
  | false => rfl
  | true =>
    simp [ofCell, List.filterMap_cons, wildcard?, List.filterMap_map, ofSegment_wildcard?]

private theorem filterMap_wildcard?_ofMembers_eq_flatMap (isFirst : Bool)
    (columns : List (Header × ColumnRole × Cell × Bool)) :
    (ofMembers isFirst columns).filterMap wildcard? =
      columns.flatMap fun (_, role, cell, selected) =>
        if role.inCorpus && selected then cell.segments.filterMap Segment.wildcard? else [] := by
  induction columns generalizing isFirst with
  | nil => rfl
  | cons column columns ih =>
    obtain ⟨header, role, cell, selected⟩ := column
    rw [ofMembers, List.flatMap_cons, ← ih false]
    by_cases written : role.inCorpus
    · simp [written, List.filterMap_cons, wildcard?, filterMap_wildcard?_ofCell]
    · simp [written, ih]

/-- The wildcards in the template of an entry come in the order in which they stand in the cells that
take part in matching. -/
private theorem filterMap_wildcard?_ofEntry {headers : List Header} {roles : List ColumnRole}
    (covered : headers.length = roles.length) (entry : Entry) :
    (ofEntry headers roles entry).filterMap wildcard? = entry.activeWildcards roles := by
  have columns : (headers.zip (roles.zip (entry.cells.zip entry.selection))).map Prod.snd =
      roles.zip (entry.cells.zip entry.selection) := by
    refine List.map_snd_zip ?_
    rw [covered, List.length_zip]
    exact Nat.min_le_left ..
  rw [Entry.activeWildcards, ← columns, List.flatMap_map]
  simp [ofEntry, List.filterMap_cons, wildcard?, filterMap_wildcard?_ofMembers_eq_flatMap]

end TemplateItem

namespace Entry

variable {headers : List Header} {roles : List ColumnRole}

/-- What is kept of the wildcards in the template of an entry stays in the order in which they are
met. -/
private theorem lists_filter_active (covered : headers.length = roles.length) (entry : Entry)
    {property : Nat → Prop} {keep : Nat → Bool} (keep_iff : ∀ index, keep index ↔ property index) :
    entry.Lists roles property
      ((TemplateItem.active (TemplateItem.ofEntry headers roles entry)).filter keep) := by
  refine ⟨fun index => ?_, (TemplateItem.nodup_active _).filter _, ?_⟩
  · rw [List.mem_filter, TemplateItem.mem_active_iff, wildcard_mem_ofEntry_iff covered, keep_iff]
  · rw [← TemplateItem.filterMap_wildcard?_ofEntry covered]
    exact (pairwise_idxOf_firstPlaces _).filter keep

/-- Whether an entry in a list is the first to use a wildcard. -/
structure UsesFirst (roles : List ColumnRole) (entries : List Entry) (index i : Nat)
    (entry : Entry) : Prop where
  isEntry : entries[i]? = some entry
  uses : entry.Uses roles index
  first : ∀ earlier ∈ entries.take i, ¬ earlier.Uses roles index

private theorem exists_usesFirst {entries : List Entry} {index : Nat}
    (used : ∃ entry ∈ entries, entry.Uses roles index) :
    ∃ i entry, UsesFirst roles entries index i entry := by
  induction entries with
  | nil => simp at used
  | cons entry entries ih =>
    by_cases here : entry.Uses roles index
    · exact ⟨0, entry, rfl, here, by simp⟩
    · obtain ⟨i, later, isLater, uses, first⟩ := ih (by simpa [here] using used)
      exact ⟨i + 1, later, isLater, uses, by simpa [here] using first⟩

/-- One entry only is the first. -/
private theorem UsesFirst.eq {entries : List Entry} {index i j : Nat} {entry other : Entry}
    (left : UsesFirst roles entries index i entry) (right : UsesFirst roles entries index j other) :
    i = j := by
  have inFront {i j : Nat} {entry : Entry} (isEntry : entries[i]? = some entry) (before : i < j) :
      entry ∈ entries.take j := by
    refine List.mem_of_getElem? (i := i) ?_
    rw [List.getElem?_take_of_lt before, isEntry]
  rcases Nat.lt_trichotomy i j with before | same | behind
  · exact absurd left.uses (right.first entry (inFront left.isEntry before))
  · exact same
  · exact absurd right.uses (left.first other (inFront right.isEntry behind))

end Entry

namespace Query

variable {headers : List Header} {roles : List ColumnRole} {motif : Motif} {budget : Nat}
  {query : Query} (compiled : compile headers roles motif budget = .ok query)

include compiled

/-- The template of an entry defines the wildcards that no earlier entry uses, and binds those that
an earlier entry uses. -/
theorem lists_of_compile {i : Nat} {entry : Entry} (isEntry : motif.entries[i]? = some entry) :
    ∃ template, query.entries[i]? = some template ∧
      entry.Lists roles (fun index => ∀ earlier ∈ motif.entries.take i, ¬ earlier.Uses roles index)
        template.defined ∧
      entry.Lists roles (fun index => ∃ earlier ∈ motif.entries.take i, earlier.Uses roles index)
        template.bound := by
  obtain ⟨covered, -, -, -, rfl⟩ := compile_eq_ok_iff.mp compiled
  have inside : i < (templates headers roles [] motif.entries).length := by
    rw [length_templates]
    exact (List.getElem?_eq_some_iff.mp isEntry).1
  have isTemplate := List.getElem?_eq_getElem inside
  obtain ⟨_, known, same, made, known_iff⟩ := exists_ofItems_of_getElem?_templates isTemplate
  obtain rfl := Option.some.inj (isEntry.symm.trans same)
  rw [made] at isTemplate
  have earlier_iff (index : Nat) : index ∈ known ↔
      ∃ earlier ∈ motif.entries.take i, earlier.Uses roles index := by
    simp only [known_iff, List.not_mem_nil, false_or, Entry.wildcard_mem_ofEntry_iff covered]
  exact ⟨_, isTemplate, entry.lists_filter_active covered (by simp [earlier_iff]),
    entry.lists_filter_active covered (by simp [earlier_iff])⟩

theorem length_entries_of_compile : query.entries.length = motif.entries.length := by
  obtain ⟨-, -, -, -, rfl⟩ := compile_eq_ok_iff.mp compiled
  exact length_templates headers roles [] motif.entries

/-- Of the entries that use a wildcard, the first defines it, and no other one does. -/
theorem existsUnique_defined {index : Nat} (used : ∃ entry ∈ motif.entries, entry.Uses roles index) :
    ∃! i : Nat, ∃ template, query.entries[i]? = some template ∧ index ∈ template.defined := by
  obtain ⟨i, entry, isFirst⟩ := Entry.exists_usesFirst used
  obtain ⟨template, isTemplate, lists, -⟩ := lists_of_compile compiled isFirst.isEntry
  refine ⟨i, ⟨template, isTemplate, (lists.mem_iff index).mpr ⟨isFirst.uses, isFirst.first⟩⟩, ?_⟩
  rintro j ⟨other, isOther, defined⟩
  have inside : j < motif.entries.length := by
    rw [← length_entries_of_compile compiled]
    exact (List.getElem?_eq_some_iff.mp isOther).1
  have isDefiner := List.getElem?_eq_getElem inside
  obtain ⟨_, same, lists, -⟩ := lists_of_compile compiled isDefiner
  obtain rfl := Option.some.inj (isOther.symm.trans same)
  obtain ⟨uses, first⟩ := (lists.mem_iff index).mp defined
  exact Entry.UsesFirst.eq ⟨isDefiner, uses, first⟩ isFirst

/-- Captures have room for each wildcard that is used. -/
theorem lt_wildcardCount_of_uses {index : Nat}
    (used : ∃ entry ∈ motif.entries, entry.Uses roles index) : index < query.wildcardCount := by
  obtain ⟨-, -, -, agree, rfl⟩ := compile_eq_ok_iff.mp compiled
  have agrees := (Motif.inconsistency?_eq_none_iff.mp agree).toAgrees
  obtain ⟨entry, member, column, cell, -, isCell, content, holds⟩ := used
  obtain ⟨i, isEntry⟩ := List.mem_iff_getElem?.mp member
  obtain ⟨k, isSegment⟩ := List.mem_iff_getElem?.mp holds
  have here : Motif.wildcardAt? motif.entries ⟨i, column, k⟩ = some index := by
    simp [Motif.wildcardAt?, isEntry, isCell, isSegment, Segment.wildcard?]
  exact agrees.lt_length here

end Query

end LogMotif
