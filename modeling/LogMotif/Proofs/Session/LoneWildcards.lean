import LogMotif.Proofs.Session.SourceRows

/-! # Wildcards alone in a cell

Where a wildcard is the only one in a cell that has no text yet, the text of the cell leaves one text
for it. So an entry captures for it, on its own row, what it replaced. If every wildcard that later
entries use is alone in this way in the entry that captures it, nothing else has to be known of the
captures: the entries capture their own rows again.
-/

namespace LogMotif

open LineItem (IsContent)

namespace Cell

variable {left right : Nat → String} {index : Nat}

/-- Texts that differ in one wildcard only make lengths that differ by its occurrences. -/
private theorem length_flatMap_spelled {segments : List Segment}
    (others : ∀ other content, .wildcard other content ∈ segments → other ≠ index →
      left other = right other) :
    (segments.flatMap (Segment.spelled left)).length +
        (segments.filterMap Segment.wildcard?).count index * (right index).toList.length =
      (segments.flatMap (Segment.spelled right)).length +
        (segments.filterMap Segment.wildcard?).count index * (left index).toList.length := by
  induction segments with
  | nil => simp
  | cons segment segments ih =>
    have behind := ih fun other content member =>
      others other content (List.mem_cons_of_mem segment member)
    simp only [List.flatMap_cons, List.length_append, List.filterMap_cons]
    cases segment with
    | text content =>
      simp only [Segment.spelled, Segment.wildcard?]
      omega
    | wildcard other content =>
      simp only [Segment.spelled, Segment.wildcard?]
      by_cases same : other = index
      · rw [same, List.count_cons_self, Nat.add_mul, Nat.add_mul]
        omega
      · rw [others other content List.mem_cons_self same, List.count_cons_of_ne (by simpa using same)]
        omega

/-- Texts that differ in one wildcard only, and make the same of a cell in which it stands, do not
differ. -/
private theorem Holds.eq_of_spelled_eq {cell : Cell} (holds : cell.Holds index)
    (others : ∀ other, cell.Holds other → other ≠ index → left other = right other)
    (same : cell.spelled left = cell.spelled right) : left index = right index := by
  obtain ⟨segments⟩ := cell
  obtain ⟨content, member⟩ := holds
  have others (other : Nat) (content : String) (member : .wildcard other content ∈ segments) :
      other ≠ index → left other = right other := others other ⟨content, member⟩
  have lengths := length_flatMap_spelled others
  have occurs : 0 < (segments.filterMap Segment.wildcard?).count index :=
    List.count_pos_iff.mpr (List.mem_filterMap.mpr ⟨_, member, rfl⟩)
  simp only [spelled] at same
  rw [same, Nat.add_left_cancel_iff] at lengths
  have length_eq := (Nat.eq_of_mul_eq_mul_left occurs lengths).symm
  have each (segment : Segment) (inCell : segment ∈ segments) :
      (segment.spelled left).length = (segment.spelled right).length := by
    cases segment with
    | text content => rfl
    | wildcard other content =>
      by_cases same : other = index
      · rw [same]
        exact length_eq
      · rw [Segment.spelled, Segment.spelled, others other content inCell same]
  obtain ⟨front, back, rfl⟩ := List.append_of_mem member
  have frontLength : (front.flatMap (Segment.spelled left)).length =
      (front.flatMap (Segment.spelled right)).length := by
    rw [List.length_flatMap, List.length_flatMap]
    refine congrArg List.sum (List.map_congr_left fun segment inFront => ?_)
    exact each segment (List.mem_append_left _ inFront)
  simp only [List.flatMap_append, List.flatMap_cons] at same
  obtain ⟨-, rest⟩ := List.append_inj same frontLength
  exact String.toList_inj.mp (List.append_inj rest length_eq).1

end Cell

namespace Entry

/-- Whether a wildcard stands in a cell of an entry that takes part in matching, in which every other
wildcard is among the given ones. -/
def HoldsAlone (roles : List ColumnRole) (known : Nat → Prop) (entry : Entry) (index : Nat) : Prop :=
  ∃ column cell, entry.IsActive roles column ∧ entry.cells[column]? = some cell ∧
    cell.Holds index ∧ ∀ other, cell.Holds other → other ≠ index → known other

/-- On its own row, an entry captures for a wildcard that it holds alone the text it replaced. -/
private theorem lookup_eq_of_holdsAlone {headers : List Header} {roles : List ColumnRole}
    {log : List (List String)} {corpus : Corpus}
    (written : Corpus.ofRows headers roles log = .ok corpus) {replaced : Nat → String}
    {entry : Entry} (shaped : entry.IsShaped headers.length) (replaces : entry.Replaces replaced)
    {i : Nat} (here : log[i]? = some entry.source) {captured : List Nat} {budget : Nat}
    {taken : Captures} {index : Nat} (new : index ∉ captured)
    (alone : entry.HoldsAlone roles (· ∈ captured) index)
    (found : (EntryTemplate.ofItems captured (TemplateItem.ofEntry headers roles entry)).attemptRow?
      budget corpus (fun index => Json.escapeText (replaced index)) i = some (.found taken)) :
    taken.lookup index = some (Json.escapeText (replaced index)) := by
  obtain ⟨covered, -, -⟩ := Corpus.ofRows_eq_ok_iff.mp written
  have contents (index : Nat) : IsContent (Json.escapeText (replaced index)).toList :=
    Json.isContent_escapeText (replaced index)
  have own := spellRow_source written shaped replaces here
  obtain ⟨text, textContents, text_eq, defined, again⟩ :=
    EntryTemplate.exists_spellRow_of_attemptRow? contents own.1 found
  obtain ⟨-, row, isRow, faces⟩ := (spellRow_ofEntry_iff contents written shaped.cells_length
    shaped.selection_length).mp own
  obtain ⟨-, _, sameRow, facesAgain⟩ := (spellRow_ofEntry_iff textContents written
    shaped.cells_length shaped.selection_length).mp again
  obtain rfl := Option.some.inj (isRow.symm.trans sameRow)
  obtain ⟨column, cell, active, isCell, holds, others⟩ := alone
  obtain ⟨_, _, sameCell, isText, spelled⟩ := faces column active
  obtain rfl := Option.some.inj (isCell.symm.trans sameCell)
  obtain ⟨_, _, sameCell, sameText, spelledAgain⟩ := facesAgain column active
  obtain rfl := Option.some.inj (isCell.symm.trans sameCell)
  obtain rfl := Option.some.inj (isText.symm.trans sameText)
  have same : text index = Json.escapeText (replaced index) :=
    holds.eq_of_spelled_eq (fun other inCell differs => text_eq other (others other inCell differs))
      (spelledAgain.symm.trans spelled)
  have uses : entry.Uses roles index := ⟨column, cell, active, isCell, holds⟩
  rw [← same]
  exact defined index
    (EntryTemplate.mem_defined_iff.mpr ⟨(wildcard_mem_ofEntry_iff covered).mpr uses, new⟩)

end Entry

/-- A template that binds a wildcard is made from an entry behind the first that uses it. -/
private theorem exists_uses_of_mem_bound {headers : List Header} {roles : List ColumnRole}
    (covered : headers.length = roles.length) {entries : List Entry} {k index : Nat}
    (unused : ∀ earlier ∈ entries.take k, ¬ earlier.Uses roles index)
    (bound : ∃ later ∈ Query.templates headers roles [] entries, index ∈ later.bound) :
    ∃ later ∈ entries.drop (k + 1), later.Uses roles index := by
  obtain ⟨_, inTemplates, isBound⟩ := bound
  obtain ⟨l, isTemplate⟩ := List.mem_iff_getElem?.mp inTemplates
  obtain ⟨later, known, isLater, rfl, known_iff⟩ :=
    Query.exists_ofItems_of_getElem?_templates isTemplate
  simp only [Entry.wildcard_mem_ofEntry_iff covered, List.not_mem_nil, false_or] at known_iff
  obtain ⟨inItems, isKnown⟩ := EntryTemplate.mem_bound_iff.mp isBound
  obtain ⟨earlier, inFront, uses⟩ := (known_iff index).mp isKnown
  have behind : k + 1 ≤ l := by
    by_contra notBehind
    exact unused earlier (List.take_subset_take_left entries (by omega) inFront) uses
  have isBehind : (entries.drop (k + 1))[l - (k + 1)]? = some later := by
    rw [List.getElem?_drop, Nat.add_sub_cancel' behind]
    exact isLater
  exact ⟨later, List.mem_of_getElem? isBehind, (Entry.wildcard_mem_ofEntry_iff covered).mp inItems⟩

/-- The rows on which a session was opened are captured again within the budget, if every wildcard
that several entries use is held alone by the first of them: in some cell that takes part in
matching, it is the only one that no entry before uses. -/
theorem Session.Retouched.recaptures_of_holdsAlone {first session : Session}
    (retouched : first.Retouched session) {headers : List Header} {roles : List ColumnRole}
    {log rows : List (List String)} {options : SessionOptions} {picks : List Nat} {corpus : Corpus}
    {replaced : Nat → String} (written : Corpus.ofRows headers roles log = .ok corpus)
    (picked : List.Forall₂ (fun pick row => log[pick]? = some row) picks rows)
    (opened : Session.start headers roles rows options = .ok first)
    (replaces : ∀ entry ∈ session.motif.entries, entry.Replaces replaced) {query : Query}
    (compiled : session.compile = .ok query)
    (within : ∀ template row, (template, row) ∈ query.entries.zip picks →
      template.attemptRow? query.budget corpus (fun index => Json.escapeText (replaced index)) row ≠
        some .exhausted)
    (alone : ∀ k entry index, session.motif.entries[k]? = some entry → entry.Uses roles index →
      (∀ earlier ∈ session.motif.entries.take k, ¬ earlier.Uses roles index) →
        (∃ later ∈ session.motif.entries.drop (k + 1), later.Uses roles index) →
          entry.HoldsAlone roles
            (fun other => ∃ earlier ∈ session.motif.entries.take k, earlier.Uses roles other) index) :
    query.Recaptures corpus (fun index => Json.escapeText (replaced index)) picks := by
  refine ⟨within, ?_⟩
  intro template pick taken member found index isDefined again
  obtain ⟨k, here⟩ := List.mem_iff_getElem?.mp member
  obtain ⟨isTemplate, isPick⟩ := List.getElem?_zip_eq_some.mp here
  have entries_eq : query.entries = Query.templates headers roles [] session.motif.entries := by
    obtain ⟨-, -, -, -, query_eq⟩ := Query.compile_eq_ok_iff.mp compiled
    obtain ⟨headers_eq, roles_eq, -, -⟩ := retouched.keeps
    obtain ⟨-, -, -, rfl⟩ := Session.start_eq_ok_iff.mp opened
    rw [query_eq, headers_eq, roles_eq]
  obtain ⟨covered, -, -⟩ := Corpus.ofRows_eq_ok_iff.mp written
  rw [entries_eq] at isTemplate again
  obtain ⟨entry, known, isEntry, rfl, known_iff⟩ :=
    Query.exists_ofItems_of_getElem?_templates isTemplate
  simp only [Entry.wildcard_mem_ofEntry_iff covered, List.not_mem_nil, false_or] at known_iff
  obtain ⟨inItems, new⟩ := EntryTemplate.mem_defined_iff.mp isDefined
  obtain ⟨_, sameEntry, shaped, isSource⟩ :=
    exists_of_forall₂_of_getElem? (retouched.isMadeFrom_picks written picked opened) isPick
  obtain rfl := Option.some.inj (isEntry.symm.trans sameEntry)
  have unused (earlier : Entry) (inFront : earlier ∈ session.motif.entries.take k) :
      ¬ earlier.Uses roles index :=
    fun uses => new ((known_iff index).mpr ⟨earlier, inFront, uses⟩)
  have usedLater := exists_uses_of_mem_bound covered unused again
  have uses := (Entry.wildcard_mem_ofEntry_iff covered).mp inItems
  obtain ⟨column, cell, active, isCell, holds, others⟩ :=
    alone k entry index isEntry uses unused usedLater
  refine Entry.lookup_eq_of_holdsAlone written shaped (replaces entry (List.mem_of_getElem? isEntry))
    isSource new ⟨column, cell, active, isCell, holds, ?_⟩ found
  exact fun other inCell differs => (known_iff other).mpr (others other inCell differs)

end LogMotif
