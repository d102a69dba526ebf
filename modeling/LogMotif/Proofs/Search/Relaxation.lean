import LogMotif.Proofs.Motif.Shape
import LogMotif.Proofs.Search.Alike

/-! # Motifs that ask for less

A motif is relaxed by deselecting cells that hold no wildcard, and by links that allow more
distances. A deselected cell stands for any string, so more lines may be matched. On a line that was
matched before, the other cells stand for what they stood for: a plain cell has no part in what is
captured. So rows that are a chain remain one.
-/

namespace LogMotif

open LineItem (IsContent IsStretch)
open TemplateItem (Spells)

/-! ### Cells without wildcards -/

namespace Cell

variable {cell : Cell}

private theorem wildcard?_of_plain (plain : cell.hasWildcards = false) {segment : Segment}
    (member : segment ∈ cell.segments) : segment.wildcard? = none := by
  simpa using List.any_eq_false.mp plain segment member

/-- A cell without wildcards stands for the same whatever the wildcards stand for. -/
private theorem spelled_eq_of_plain (plain : cell.hasWildcards = false)
    (value other : Nat → String) :
    cell.spelled value = cell.spelled other := by
  refine List.flatMap_congr fun segment member => ?_
  cases segment with
  | text content => rfl
  | wildcard index content => cases wildcard?_of_plain plain member

end Cell

namespace TemplateItem

private theorem wildcard?_ofSegment (segment : Segment) :
    (ofSegment segment).wildcard? = segment.wildcard? := by
  cases segment <;> rfl

/-- A cell without wildcards brings none into a template. -/
private theorem filterMap_wildcard?_ofCell_of_plain {cell : Cell}
    (plain : cell.hasWildcards = false) (selected : Bool) :
    (ofCell selected cell).filterMap wildcard? = [] := by
  rw [List.filterMap_eq_nil_iff]
  intro item member
  cases selected with
  | false =>
    obtain rfl := List.mem_singleton.mp member
    rfl
  | true =>
    rcases List.mem_append.mp member with front | closing
    · rcases List.mem_cons.mp front with rfl | inside
      · rfl
      · obtain ⟨segment, inCell, rfl⟩ := List.mem_map.mp inside
        rw [wildcard?_ofSegment, Cell.wildcard?_of_plain plain inCell]
    · obtain rfl := List.mem_singleton.mp closing
      rfl

end TemplateItem

/-! ### Columns -/

/-- A column of an entry, with its cell and whether the cell is selected. -/
abbrev EntryColumn := Header × ColumnRole × Cell × Bool

/-- Whether a column has the same flag in two entries, or its cell holds no wildcard and is not
selected in the second. -/
inductive EntryColumn.RelaxesTo : EntryColumn → EntryColumn → Prop
  | intro {header : Header} {role : ColumnRole} {cell : Cell} {selected flag : Bool}
      (relaxed : flag = selected ∨ cell.hasWildcards = false ∧ flag = false) :
      RelaxesTo (header, role, cell, selected) (header, role, cell, flag)

namespace TemplateItem

section

variable {value : Nat → String} {isFirst : Bool} {header : Header} {role : ColumnRole} {cell : Cell}
  {selected : Bool} {columns : List EntryColumn} {items : List TemplateItem}
  (written : role.inCorpus)

include written

/-- What stands on a line for the members of an entry begins with the name of the first column that
is written, and a string. -/
private theorem exists_content_of_spells (contents : ∀ index, IsContent (value index).toList)
    {text : List Char} (spelled :
      Spells value (ofMembers isFirst ((header, role, cell, selected) :: columns) ++ items) text) :
    ∃ content rest, IsContent content ∧
      text = ((if isFirst then "" else ",") ++ Json.quote header.name ++ ":").toList ++
        '"' :: (content ++ '"' :: rest) := by
  rw [ofMembers, if_pos written, List.cons_append, List.append_assoc] at spelled
  obtain ⟨_, _, rfl, rfl, behind⟩ := spells_cons_iff.mp spelled
  obtain ⟨content, rest, stands, rfl, -⟩ := spells_ofCell_iff.mp behind
  exact ⟨content, rest, stands.isContent contents, rfl⟩

private theorem spells_ofMembers_cons_iff (contents : ∀ index, IsContent (value index).toList)
    {content rest : List Char} (isContent : IsContent content) :
    Spells value (ofMembers isFirst ((header, role, cell, selected) :: columns) ++ items)
        (((if isFirst then "" else ",") ++ Json.quote header.name ++ ":").toList ++
          '"' :: (content ++ '"' :: rest)) ↔
      (selected → content = cell.spelled value) ∧
        Spells value (ofMembers false columns ++ items) rest := by
  rw [ofMembers, if_pos written, List.cons_append, List.append_assoc, spells_literal_cons_iff,
    spells_ofCell_append_iff isContent contents]

end

section

variable {columns relaxed : List EntryColumn}
  (relaxes : List.Forall₂ EntryColumn.RelaxesTo columns relaxed)

include relaxes

/-- The wildcards of an entry are left in their order. -/
private theorem filterMap_wildcard?_ofMembers (isFirst : Bool) :
    (ofMembers isFirst relaxed).filterMap wildcard? =
      (ofMembers isFirst columns).filterMap wildcard? := by
  induction relaxes generalizing isFirst with
  | nil => rfl
  | cons here _ ih =>
    obtain @⟨header, role, cell, selected, flag, relaxed⟩ := here
    have same : (ofCell flag cell).filterMap wildcard? =
        (ofCell selected cell).filterMap wildcard? := by
      rcases relaxed with rfl | ⟨plain, -⟩
      · rfl
      · rw [filterMap_wildcard?_ofCell_of_plain plain, filterMap_wildcard?_ofCell_of_plain plain]
    simp only [ofMembers]
    split
    next => simp only [List.filterMap_cons, List.filterMap_append, wildcard?, same, ih]
    next => exact ih isFirst

/-- On a line that an entry spells for some texts of the wildcards, cells that are deselected make no
difference to which other texts the wildcards may have. -/
private theorem spells_ofMembers_iff_of_relaxes {first value : Nat → String}
    (contentsFirst : ∀ index, IsContent (first index).toList)
    (contents : ∀ index, IsContent (value index).toList) {isFirst : Bool} {items : List TemplateItem}
    {text : List Char} (spelled : Spells first (ofMembers isFirst columns ++ items) text) :
    Spells value (ofMembers isFirst relaxed ++ items) text ↔
      Spells value (ofMembers isFirst columns ++ items) text := by
  induction relaxes generalizing isFirst text with
  | nil => rfl
  | cons here _ ih =>
    obtain @⟨header, role, cell, selected, flag, relaxed⟩ := here
    by_cases written : role.inCorpus
    · obtain ⟨content, rest, isContent, rfl⟩ := exists_content_of_spells written contentsFirst spelled
      obtain ⟨stood, behind⟩ := (spells_ofMembers_cons_iff written contentsFirst isContent).mp spelled
      rw [spells_ofMembers_cons_iff written contents isContent,
        spells_ofMembers_cons_iff written contents isContent, ih behind]
      refine and_congr_left fun _ => ?_
      rcases relaxed with rfl | ⟨plain, rfl⟩
      · rfl
      · rw [Cell.spelled_eq_of_plain plain value first]
        exact ⟨fun _ => stood, fun _ isTrue => nomatch isTrue⟩
    · rw [ofMembers, if_neg written] at spelled ⊢
      rw [ofMembers, if_neg written]
      exact ih spelled

end

end TemplateItem

/-! ### Entries -/

/-- Whether a link allows every distance that another one allows. -/
def Link.WidensTo (link wider : Link) : Prop :=
  ∀ distance : Int, link.Allows distance → wider.Allows distance

/-- Whether an entry asks for no more than another one: it has the same columns, but for cells
without wildcards that are not selected, and a link that allows as much. -/
structure Entry.RelaxesTo (headers : List Header) (roles : List ColumnRole) (entry relaxed : Entry) :
    Prop where
  columns : List.Forall₂ EntryColumn.RelaxesTo
    (headers.zip (roles.zip (entry.cells.zip entry.selection)))
    (headers.zip (roles.zip (relaxed.cells.zip relaxed.selection)))
  link : (entry.link.getD .any).WidensTo (relaxed.link.getD .any)

/-- An entry whose link is replaced by one that allows as much is relaxed. -/
theorem Entry.relaxesTo_of_widensTo (headers : List Header) (roles : List ColumnRole) (entry : Entry)
    {wider : Option Link} (widens : (entry.link.getD .any).WidensTo (wider.getD .any)) :
    entry.RelaxesTo headers roles { entry with link := wider } where
  columns := List.forall₂_same.mpr fun _ _ => ⟨.inl rfl⟩
  link := widens

private theorem zip_modify_right {α β : Type} (left : List α) (right : List β) (i : Nat)
    (change : β → β) :
    left.zip (right.modify i change) = (left.zip right).modify i (.map id change) := by
  induction left generalizing right i with
  | nil => simp
  | cons first left ih =>
    cases right with
    | nil => simp
    | cons item right =>
      cases i with
      | zero => rfl
      | succ i => exact congrArg ((first, item) :: ·) (ih right i)

/-- An entry in which a cell without wildcards is deselected is relaxed. -/
theorem Entry.relaxesTo_of_deselect (headers : List Header) (roles : List ColumnRole) {entry : Entry}
    {cell : Nat} {content : Cell} (isCell : entry.cells[cell]? = some content)
    (selected : entry.selection[cell]? = some true) (plain : content.hasWildcards = false) :
    entry.RelaxesTo headers roles { entry with selection := entry.selection.modify cell not } := by
  refine ⟨?_, fun _ => id⟩
  rw [zip_modify_right, zip_modify_right, zip_modify_right]
  refine forall₂_modify (fun _ => ⟨.inl rfl⟩) fun column isColumn => ?_
  obtain ⟨header, role, other, flag⟩ := column
  simp only [List.getElem?_zip_eq_some] at isColumn
  obtain ⟨-, -, isOther, isFlag⟩ := isColumn
  obtain rfl := Option.some.inj (isOther.symm.trans isCell)
  obtain rfl := Option.some.inj (isFlag.symm.trans selected)
  exact ⟨.inr ⟨plain, rfl⟩⟩

section

variable {headers : List Header} {roles : List ColumnRole} {entry relaxed : Entry}
  (relaxes : entry.RelaxesTo headers roles relaxed)

include relaxes

namespace TemplateItem

private theorem active_ofEntry_of_relaxes :
    active (ofEntry headers roles relaxed) = active (ofEntry headers roles entry) := by
  simp only [active, ofEntry, List.filterMap_cons, List.filterMap_append, wildcard?,
    filterMap_wildcard?_ofMembers relaxes.columns]

private theorem wildcard_mem_ofEntry_iff_of_relaxes {index : Nat} :
    wildcard index ∈ ofEntry headers roles relaxed ↔ wildcard index ∈ ofEntry headers roles entry := by
  rw [← mem_active_iff, active_ofEntry_of_relaxes relaxes, mem_active_iff]

/-- On a line that an entry spells for some content, the relaxed entry is spelled by the same texts.
-/
private theorem spells_ofEntry_iff_of_relaxes {first value : Nat → String}
    (contentsFirst : ∀ index, wildcard index ∈ ofEntry headers roles entry →
      IsContent (first index).toList)
    (contents : ∀ index, wildcard index ∈ ofEntry headers roles entry →
      IsContent (value index).toList)
    {text : List Char} (spelled : Spells first (ofEntry headers roles entry) text) :
    Spells value (ofEntry headers roles relaxed) text ↔
      Spells value (ofEntry headers roles entry) text := by
  obtain ⟨_, isContentFirst, sameFirst⟩ := exists_content_values contentsFirst
  obtain ⟨given, isContent, same⟩ := exists_content_values contents
  have spelled_iff : Spells given (ofEntry headers roles relaxed) text ↔
      Spells given (ofEntry headers roles entry) text := by
    obtain ⟨_, _, rfl, rfl, behind⟩ := spells_cons_iff.mp (spelled.congr sameFirst)
    rw [ofEntry, ofEntry, spells_literal_cons_iff, spells_literal_cons_iff,
      spells_ofMembers_iff_of_relaxes relaxes.columns isContentFirst isContent behind]
  have sameRelaxed (index : Nat) (member : wildcard index ∈ ofEntry headers roles relaxed) :
      value index = given index :=
    same index ((wildcard_mem_ofEntry_iff_of_relaxes relaxes).mp member)
  constructor
  · intro spells
    exact (spelled_iff.mp (spells.congr sameRelaxed)).congr fun index member =>
      (same index member).symm
  · intro spells
    exact (spelled_iff.mpr (spells.congr same)).congr fun index member =>
      (sameRelaxed index member).symm

end TemplateItem

namespace EntryTemplate

variable {captured : List Nat} {values : List String} {line : String} {first assigned : Nat → String}

private theorem ofItems_of_relaxes (captured : List Nat) :
    ofItems captured (TemplateItem.ofEntry headers roles relaxed) =
      { items := TemplateItem.ofEntry headers roles relaxed
        bound := (ofItems captured (TemplateItem.ofEntry headers roles entry)).bound
        defined := (ofItems captured (TemplateItem.ofEntry headers roles entry)).defined } := by
  simp only [ofItems, TemplateItem.active_ofEntry_of_relaxes relaxes]

/-- On a line that an entry matches, the same texts fill the relaxed entry. -/
private theorem fills_iff_of_relaxes
    (length_eq : values.length =
      (ofItems captured (TemplateItem.ofEntry headers roles entry)).bound.length)
    (given : ∀ content ∈ values, IsStretch content.toList)
    (filled : (ofItems captured (TemplateItem.ofEntry headers roles entry)).Fills values line first) :
    (ofItems captured (TemplateItem.ofEntry headers roles entry)).Fills values line assigned ↔
      (ofItems captured (TemplateItem.ofEntry headers roles relaxed)).Fills values line assigned := by
  rw [ofItems_of_relaxes relaxes]
  refine and_congr_right fun stretches => (TemplateItem.spells_ofEntry_iff_of_relaxes relaxes
    (fun index member => ?_) (fun index member => ?_) filled.2).symm
  · exact (isStretch_valueFor length_eq given filled.1 member).2
  · exact (isStretch_valueFor length_eq given stretches member).2

/-- What an entry captures on a line, the relaxed entry captures there. -/
private theorem matchLine?_of_relaxes {captures extended : Captures} (hold : captures.Hold captured)
    (matched : (ofItems captured (TemplateItem.ofEntry headers roles entry)).matchLine? captures
      line = some extended) :
    (ofItems captured (TemplateItem.ofEntry headers roles relaxed)).matchLine? captures line =
      some extended := by
  let template := ofItems captured (TemplateItem.ofEntry headers roles entry)
  have length_eq := length_boundValues template captures
  have given := isStretch_of_mem_boundValues (TemplateItem.ofEntry headers roles entry) hold
  have bound_eq : (ofItems captured (TemplateItem.ofEntry headers roles relaxed)).bound =
      template.bound := by rw [ofItems_of_relaxes relaxes]
  have defined_eq : (ofItems captured (TemplateItem.ofEntry headers roles relaxed)).defined =
      template.defined := by rw [ofItems_of_relaxes relaxes]
  obtain ⟨taken, found, rfl⟩ := Option.map_eq_some_iff.mp matched
  obtain ⟨first, filled, -⟩ := exists_fills_of_match? length_eq found
  have foundToo := match?_eq_some_of_fills_iff length_eq (by rw [bound_eq, length_eq]) defined_eq
    (fun assigned => fills_iff_of_relaxes relaxes length_eq given filled) found
  rw [matchLine?, Search.boundValues, bound_eq, defined_eq]
  exact Option.map_eq_some_iff.mpr ⟨taken, foundToo, rfl⟩

end EntryTemplate

end

/-- Along the rows that entries match, relaxed entries capture the same. -/
private theorem matchAlong?_of_relaxes {headers : List Header} {roles : List ColumnRole}
    {corpus : Corpus} {entries relaxed : List Entry}
    (relaxes : List.Forall₂ (Entry.RelaxesTo headers roles) entries relaxed) {captured : List Nat}
    {captures final : Captures} (hold : captures.Hold captured) {rows : Match}
    (along : matchAlong? corpus ((Query.templates headers roles captured entries).zip rows)
      captures = some final) :
    matchAlong? corpus ((Query.templates headers roles captured relaxed).zip rows) captures =
      some final := by
  induction relaxes generalizing captured captures rows with
  | nil => exact along
  | @cons entry other entries relaxed here _ ih =>
    cases rows with
    | nil => exact along
    | cons row rows =>
      obtain ⟨extended, matched, along⟩ := Option.bind_eq_some_iff.mp along
      obtain ⟨line, isLine, matched⟩ := Option.bind_eq_some_iff.mp matched
      have holdBehind := (EntryTemplate.spells_of_matchLine? hold matched).2.1
      have matchedToo := EntryTemplate.matchLine?_of_relaxes here hold matched
      refine Option.bind_eq_some_iff.mpr
        ⟨extended, Option.bind_eq_some_iff.mpr ⟨line, isLine, matchedToo⟩, ?_⟩
      rw [EntryTemplate.ofItems_of_relaxes here]
      exact ih holdBehind along

/-! ### Motifs -/

private theorem Match.Linked.of_widensTo {links wider : List Link}
    (widens : List.Forall₂ Link.WidensTo links wider) {rows : Match} (linked : rows.Linked links) :
    rows.Linked wider := by
  intro i link row next isLink isRow isNext
  obtain ⟨old, isOld, allows⟩ := exists_of_forall₂_of_getElem? widens isLink
  exact allows _ (linked i old row next isOld isRow isNext)

private theorem forall₂_dropLast {α β : Type} {relation : α → β → Prop} {left : List α}
    {right : List β} (related : List.Forall₂ relation left right) :
    List.Forall₂ relation left.dropLast right.dropLast := by
  rw [List.dropLast_eq_take, List.dropLast_eq_take, related.length_eq]
  exact List.forall₂_take _ related

namespace Query

/-- When the entries of a motif are relaxed, each match that was found is found again, or an
earlier one from the same row. -/
theorem exists_listed_of_relaxes {headers : List Header} {roles : List ColumnRole}
    {motif relaxed : Motif} {budget more : Nat} {query wider : Query}
    (compiled : compile headers roles motif budget = .ok query)
    (compiledWider : compile headers roles relaxed more = .ok wider)
    (relaxes : List.Forall₂ (Entry.RelaxesTo headers roles) motif.entries relaxed.entries)
    {corpus : Corpus} (few : corpus.rowCount < Index.greatest) (within : wider.StaysWithin corpus)
    {chain : Match} (listed : chain ∈ (query.search corpus).list) :
    ∃ found ∈ (wider.search corpus).list,
      found.head? = chain.head? ∧ (found = chain ∨ found.Precedes chain) := by
  obtain ⟨isChain, -⟩ := (mem_list_iff_isEarliestChain compiled few).mp listed
  obtain ⟨final, along⟩ := Option.isSome_iff_exists.mp isChain.matched
  obtain ⟨-, -, -, -, rfl⟩ := compile_eq_ok_iff.mp compiled
  obtain ⟨-, -, -, -, rfl⟩ := compile_eq_ok_iff.mp compiledWider
  have widens : List.Forall₂ Link.WidensTo
      (motif.entries.dropLast.map fun entry => entry.link.getD .any)
      (relaxed.entries.dropLast.map fun entry => entry.link.getD .any) := by
    rw [List.forall₂_map_left_iff, List.forall₂_map_right_iff]
    exact (forall₂_dropLast relaxes).imp fun _ _ => Entry.RelaxesTo.link
  refine exists_listed_of_matchAlong? compiledWider few within ?_ (isChain.linked.of_widensTo widens)
    ?_
  · rw [isChain.length_eq, entryCount, entryCount, length_templates, length_templates,
      relaxes.length_eq]
  · exact Option.isSome_of_eq_some
      (matchAlong?_of_relaxes relaxes Captures.hold_nil (matchAlong?_of_captureAlong? along))

end Query

end LogMotif
