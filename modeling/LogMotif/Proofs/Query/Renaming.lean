import Mathlib.Data.List.Forall2
import Mathlib.Data.Set.Finite.Lattice
import LogMotif.Proofs.Pattern.Renaming
import LogMotif.Proofs.Query.Lines
import LogMotif.Proofs.Search.Capturing

/-! # Renamed wildcards in a motif

Two entries may differ in the numbers of their wildcards and in all that takes no part in matching.
If one renaming leads from the cells of the first that take part in matching to those of the second,
it leads from the template of the first to that of the second as well, and from what the first
captures on a line to what the second captures there.
-/

namespace LogMotif

namespace TemplateItem

/-- An item with its wildcard renamed. -/
def rename (change : Nat → Nat) : TemplateItem → TemplateItem
  | wildcard index => wildcard (change index)
  | item => item

variable {change : Nat → Nat}

private theorem generalize_rename (item : TemplateItem) :
    (item.rename change).generalize = item.generalize := by
  cases item <;> rfl

private theorem active_rename (injective : change.Injective) (items : List TemplateItem) :
    active (items.map (rename change)) = (active items).map change := by
  have wildcards : (items.map (rename change)).filterMap wildcard? =
      (items.filterMap wildcard?).map change := by
    rw [List.filterMap_map, List.map_filterMap]
    refine List.filterMap_congr fun item _ => ?_
    cases item <;> rfl
  rw [active, wildcards]
  exact firstPlaces_map injective _

/-- Where renamed wildcards have the same values, the pattern made from a renamed template is the
renamed pattern. -/
private theorem instantiate_rename (injective : change.Injective)
    {value? renamed? : Nat → Option String} (same : ∀ index, renamed? (change index) = value? index)
    (seen : List Nat) (items : List TemplateItem) :
    instantiate renamed? (seen.map change) (items.map (rename change)) =
      ((instantiate value? seen items).1.rename change,
        (instantiate value? seen items).2.map change) := by
  induction items generalizing seen with
  | nil => rfl
  | cons item items ih =>
    cases item with
    | literal content => simp only [List.map_cons, rename, instantiate, ih, LinePattern.rename,
        LineItem.rename]
    | anyString => simp only [List.map_cons, rename, instantiate, ih, LinePattern.rename,
        LineItem.rename]
    | wildcard index =>
      have met : change index ∈ seen.map change ↔ index ∈ seen :=
        List.mem_map_of_injective injective
      have ihMore := ih (index :: seen)
      rw [List.map_cons] at ihMore ⊢
      simp only [rename, instantiate, same, met]
      cases value? index with
      | some content => simp only [ih, LinePattern.rename, List.map_cons, LineItem.rename]
      | none =>
        by_cases before : index ∈ seen
        · simp only [before, if_true, ih, LinePattern.rename, List.map_cons, LineItem.rename]
        · simp only [before, if_false, ihMore, LinePattern.rename, List.map_cons, LineItem.rename]

end TemplateItem

namespace EntryTemplate

/-- A template with its wildcards renamed. -/
def rename (change : Nat → Nat) (template : EntryTemplate) : EntryTemplate where
  items := template.items.map (TemplateItem.rename change)
  bound := template.bound.map change
  defined := template.defined.map change

variable {change : Nat → Nat}

private theorem ofItems_rename (injective : change.Injective) (captured : List Nat)
    (items : List TemplateItem) :
    ofItems (captured.map change) (items.map (TemplateItem.rename change)) =
      (ofItems captured items).rename change := by
  have met (index : Nat) : change index ∈ captured.map change ↔ index ∈ captured :=
    List.mem_map_of_injective injective
  simp only [ofItems, rename, TemplateItem.active_rename injective, List.filter_map,
    Function.comp_def, met]

private theorem prefilter_rename (template : EntryTemplate) :
    (template.rename change).prefilter = template.prefilter := by
  simp only [prefilter, rename, List.map_map, Function.comp_def, TemplateItem.generalize_rename]

theorem candidateRows_rename (template : EntryTemplate) (corpus : Corpus) :
    (template.rename change).candidateRows corpus = template.candidateRows corpus := by
  simp only [candidateRows, prefilter_rename]

private theorem boundValue?_rename (injective : change.Injective) (template : EntryTemplate)
    (values : List String) (index : Nat) :
    (template.rename change).boundValue? values (change index) =
      template.boundValue? values index := by
  have same : (template.bound.map change).idxOf? (change index) = template.bound.idxOf? index := by
    induction template.bound with
    | nil => rfl
    | cons first bound ih =>
      simp only [List.map_cons, List.idxOf?_cons, ih, beq_iff_eq, injective.eq_iff]
  simp only [boundValue?, rename, same]

private theorem linePattern_rename (injective : change.Injective) (template : EntryTemplate)
    (values : List String) :
    (template.rename change).linePattern values = (template.linePattern values).rename change := by
  have step := TemplateItem.instantiate_rename injective
    (boundValue?_rename injective template values) [] template.items
  exact congrArg Prod.fst step

private theorem boundValues_rename (injective : change.Injective) (template : EntryTemplate)
    (captures : Captures) :
    Search.boundValues (template.rename change) (captures.rename change) =
      Search.boundValues template captures := by
  simp only [Search.boundValues, rename, List.map_map, Function.comp_def,
    captures.lookup_rename injective]

/-- A renamed entry captures on a line what the entry does, under the changed names. -/
theorem captureLine?_rename (injective : change.Injective) (template : EntryTemplate)
    (budget : Nat) (captures : Captures) (line : String) :
    (template.rename change).captureLine? budget (captures.rename change) line =
      (template.captureLine? budget captures line).map (Captures.rename change) := by
  rw [captureLine?, captureLine?, boundValues_rename injective, linePattern_rename injective,
    LinePattern.attempt_rename injective]
  cases (template.linePattern (Search.boundValues template captures)).attempt budget line with
  | failed left => rfl
  | exhausted => rfl
  | found taken =>
    have kept : (taken.rename change).filter (·.1 ∈ (template.rename change).defined) =
        Captures.rename change (taken.filter (·.1 ∈ template.defined)) := by
      rw [Captures.rename, List.filter_map]
      refine congrArg (List.map _) (List.filter_congr fun piece _ => ?_)
      exact decide_eq_decide.mpr (List.mem_map_of_injective injective)
    simp only [Outcome.map, kept, Option.map_some]
    rw [Captures.rename, Captures.rename, Captures.rename, List.map_append]

end EntryTemplate

/-! ### Motifs that differ in the numbers of their wildcards -/

/-- Whether a renaming of wildcards leads from a segment to another, whatever the texts that the
wildcards were put over. -/
inductive Segment.RenamesTo (change : Nat → Nat) : Segment → Segment → Prop
  | text (content : String) : RenamesTo change (.text content) (.text content)
  | wildcard (index : Nat) (content other : String) :
      RenamesTo change (.wildcard index content) (.wildcard (change index) other)

/-- Whether a renaming of wildcards leads from the segments of a cell to those of another. -/
def Cell.RenamesTo (change : Nat → Nat) (cell renamed : Cell) : Prop :=
  List.Forall₂ (Segment.RenamesTo change) cell.segments renamed.segments

/-- Whether two entries are selected alike in the columns written to the searchable text, and a
renaming of wildcards leads from the selected cells of the first to those of the second. -/
structure Entry.RenamesTo (roles : List ColumnRole) (change : Nat → Nat)
    (entry renamed : Entry) : Prop where
  selection_eq : ∀ (column : Nat) (role : ColumnRole), roles[column]? = some role → role.inCorpus →
    entry.selection[column]? = renamed.selection[column]?
  cells : ∀ column, entry.IsActive roles column → ∀ cell other,
    entry.cells[column]? = some cell → renamed.cells[column]? = some other →
      cell.RenamesTo change other

namespace TemplateItem

variable {change : Nat → Nat}

private theorem ofSegment_of_renamesTo {segment renamed : Segment}
    (renames : segment.RenamesTo change renamed) :
    ofSegment renamed = (ofSegment segment).rename change := by
  cases renames <;> rfl

private theorem ofCell_of_renamesTo {selected : Bool} {cell renamed : Cell}
    (renames : selected → cell.RenamesTo change renamed) :
    ofCell selected renamed = (ofCell selected cell).map (rename change) := by
  cases selected with
  | false => rfl
  | true =>
    have segments : renamed.segments.map ofSegment =
        (cell.segments.map ofSegment).map (rename change) := by
      rw [← List.forall₂_eq_eq_eq, List.forall₂_map_left_iff, List.map_map, List.forall₂_map_right_iff]
      exact (renames rfl).flip.imp fun _ _ => ofSegment_of_renamesTo
    simp only [ofCell, if_true, segments, List.map_append, List.map_cons, List.map_nil, rename]

private theorem ofMembers_eq_nil {columns : List (Header × ColumnRole × Cell × Bool)}
    (unwritten : ∀ column ∈ columns, ¬ column.2.1.inCorpus) (isFirst : Bool) :
    ofMembers isFirst columns = [] := by
  induction columns with
  | nil => rfl
  | cons column columns ih =>
    rw [ofMembers, if_neg (unwritten column List.mem_cons_self)]
    exact ih fun other member => unwritten other (List.mem_cons_of_mem _ member)

/-- Columns without a flag have no member. -/
private theorem ofMembers_zip_eq_nil {headers : List Header} {roles : List ColumnRole}
    {cells : List Cell} {flags : List Bool}
    (unflagged : ∀ (column : Nat) (role : ColumnRole), roles[column]? = some role →
      role.inCorpus → flags[column]? = none)
    (isFirst : Bool) :
    ofMembers isFirst (headers.zip (roles.zip (cells.zip flags))) = [] := by
  refine ofMembers_eq_nil (fun ⟨header, role, cell, flag⟩ member written => ?_) isFirst
  obtain ⟨column, here⟩ := List.mem_iff_getElem?.mp member
  simp only [List.getElem?_zip_eq_some] at here
  obtain ⟨-, isRole, -, isFlag⟩ := here
  simp [unflagged column role isRole written] at isFlag

private theorem ofMembers_of_renamesTo (headers : List Header) {roles : List ColumnRole}
    {cells others : List Cell} {flags marks : List Bool} (same_length : cells.length = others.length)
    (selection_eq : ∀ (column : Nat) (role : ColumnRole), roles[column]? = some role →
      role.inCorpus → flags[column]? = marks[column]?)
    (renames : ∀ (column : Nat) (role : ColumnRole) (cell other : Cell),
      roles[column]? = some role → role.inCorpus → flags[column]? = some true →
        cells[column]? = some cell → others[column]? = some other → cell.RenamesTo change other)
    (isFirst : Bool) :
    ofMembers isFirst (headers.zip (roles.zip (others.zip marks))) =
      (ofMembers isFirst (headers.zip (roles.zip (cells.zip flags)))).map (rename change) := by
  induction roles generalizing headers cells others flags marks isFirst with
  | nil => simp [ofMembers]
  | cons role roles ih =>
    cases headers with
    | nil => rfl
    | cons header headers =>
      cases cells with
      | nil =>
        obtain rfl := List.length_eq_zero_iff.mp same_length.symm
        rfl
      | cons cell cells =>
        obtain ⟨other, others, rfl⟩ := List.exists_cons_of_length_eq_add_one same_length.symm
        cases flags with
        | nil =>
          exact ofMembers_zip_eq_nil (fun column role isRole written =>
            (selection_eq column role isRole written).symm) isFirst
        | cons flag flags =>
          cases marks with
          | nil =>
            rw [ofMembers_zip_eq_nil selection_eq isFirst]
            rfl
          | cons mark marks =>
            have behind := ih headers (Nat.succ.inj same_length)
              (fun column => selection_eq (column + 1)) fun column => renames (column + 1)
            simp only [List.zip_cons_cons, ofMembers]
            by_cases written : role.inCorpus
            · obtain rfl : flag = mark := Option.some.inj (selection_eq 0 role rfl written)
              have here : ofCell flag other = (ofCell flag cell).map (rename change) :=
                ofCell_of_renamesTo fun selected =>
                  renames 0 role cell other rfl written (congrArg some selected) rfl rfl
              simp only [if_pos written, here, behind, List.map_cons, List.map_append, rename]
            · simp only [if_neg written, behind]

/-- A renaming that leads from one entry to another leads from the template of the one to that of the
other. -/
private theorem ofEntry_of_renamesTo (headers : List Header) {roles : List ColumnRole}
    {entry renamed : Entry} (same_length : entry.cells.length = renamed.cells.length)
    (renames : entry.RenamesTo roles change renamed) :
    ofEntry headers roles renamed = (ofEntry headers roles entry).map (rename change) := by
  have members := ofMembers_of_renamesTo headers same_length renames.selection_eq
    (fun column role cell other isRole written selected =>
      renames.cells column ⟨selected, role, isRole, written⟩ cell other) true
  rw [ofEntry, ofEntry, members, List.map_cons, List.map_append]
  rfl

end TemplateItem

theorem Query.templates_of_renamesTo {change : Nat → Nat} (injective : change.Injective)
    {headers : List Header} {roles : List ColumnRole} {entries others : List Entry}
    (fits : ∀ entry ∈ entries, entry.cells.length = headers.length)
    (fitsOthers : ∀ entry ∈ others, entry.cells.length = headers.length)
    (renames : List.Forall₂ (Entry.RenamesTo roles change) entries others) (captured : List Nat) :
    templates headers roles (captured.map change) others =
      (templates headers roles captured entries).map (EntryTemplate.rename change) := by
  induction renames generalizing captured with
  | nil => rfl
  | cons first _ ih =>
    obtain ⟨fit, fits⟩ := List.forall_mem_cons.mp fits
    obtain ⟨fitOther, fitsOthers⟩ := List.forall_mem_cons.mp fitsOthers
    have items := TemplateItem.ofEntry_of_renamesTo headers (fit.trans fitOther.symm) first
    simp only [templates, items, EntryTemplate.ofItems_rename injective, List.map_cons]
    rw [← ih fits fitsOthers, List.map_append]
    rfl

/-! ### Renamings that differ elsewhere -/

theorem Cell.RenamesTo.congr {change other : Nat → Nat} {cell renamed : Cell}
    (renames : cell.RenamesTo change renamed)
    (same : ∀ index, cell.Holds index → change index = other index) :
    cell.RenamesTo other renamed := by
  have held := (List.forall₂_and_left _ _).mpr ⟨fun _ member => member, renames⟩
  refine held.imp ?_
  rintro _ _ ⟨member, content | ⟨index, content, covered⟩⟩
  · exact .text content
  · rw [same index ⟨content, member⟩]
    exact .wildcard index content covered

/-- Only what a renaming makes of the wildcards that take part in matching counts. -/
theorem Entry.RenamesTo.congr {roles : List ColumnRole} {change other : Nat → Nat}
    {entry renamed : Entry} (renames : entry.RenamesTo roles change renamed)
    (same : ∀ index, entry.Uses roles index → change index = other index) :
    entry.RenamesTo roles other renamed := by
  refine ⟨renames.selection_eq, fun column active cell next isCell isNext => ?_⟩
  exact (renames.cells column active cell next isCell isNext).congr fun index holds =>
    same index ⟨column, cell, active, isCell, holds⟩

/-- A renaming that is one to one on finitely many wildcards is so on all, when it is changed on the
others only. -/
theorem exists_injective_of_injOn {change : Nat → Nat} {used : Set Nat} (finite : used.Finite)
    (injective : used.InjOn change) :
    ∃ other : Nat → Nat, other.Injective ∧ ∀ index ∈ used, change index = other index := by
  classical
  obtain ⟨bound, below⟩ := (finite.image change).bddAbove
  have below {index : Nat} (isUsed : index ∈ used) : change index ≤ bound :=
    below (Set.mem_image_of_mem change isUsed)
  refine ⟨fun index => if index ∈ used then change index else bound + 1 + index, ?_,
    fun index isUsed => (if_pos isUsed).symm⟩
  intro left right same
  by_cases isLeft : left ∈ used <;> by_cases isRight : right ∈ used <;>
    simp only [isLeft, isRight, if_true, if_false] at same
  · exact injective isLeft isRight same
  · have := below isLeft
    omega
  · have := below isRight
    omega
  · omega

end LogMotif
