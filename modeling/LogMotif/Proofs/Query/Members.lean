import LogMotif.Proofs.Query.Lines

/-! # The line that an entry describes

The template of an entry spells an object on one line, with a member for each column that is written
to the searchable text. The name of a member is the header of its column. Its string is what the
cell of a selected column stands for, and any string where the column is not selected.
-/

namespace LogMotif

open TemplateItem (Spells)

namespace Entry

/-- The columns of an entry that are written to the searchable text, each with its cell and whether
it is selected. -/
def columns (headers : List Header) (roles : List ColumnRole) (entry : Entry) :
    List (Header × ColumnRole × Cell × Bool) :=
  (headers.zip (roles.zip (entry.cells.zip entry.selection))).filter (·.2.1.inCorpus)

/-- Whether a text is the member of a line for a column. -/
def IsMember (value : Nat → String) : Header × ColumnRole × Cell × Bool → String → Prop
  | (header, _, cell, selected), member => ∃ content, cell.StandsFor value selected content ∧
    member = Json.quote header.name ++ ":" ++ "\"" ++ String.ofList content ++ "\""

/-- Whether a text is the line of an entry, where `value` gives the text of each wildcard. -/
def IsLine (headers : List Header) (roles : List ColumnRole) (value : Nat → String) (entry : Entry)
    (line : String) : Prop :=
  ∃ members, List.Forall₂ (IsMember value) (entry.columns headers roles) members ∧
    line = "\x7b" ++ String.intercalate "," members ++ "\x7d"

end Entry

namespace TemplateItem

variable {value : Nat → String}

/-- The characters of members with a comma in front of all but the first. -/
def joined (isFirst : Bool) (members : List String) : List Char :=
  if isFirst then (String.intercalate "," members).toList
  else members.flatMap fun member => ',' :: member.toList

@[simp]
theorem joined_nil (isFirst : Bool) : joined isFirst [] = [] := by
  cases isFirst <;> rfl

theorem joined_cons (isFirst : Bool) (member : String) (members : List String) :
    joined isFirst (member :: members) =
      (if isFirst then "" else ",").toList ++ (member.toList ++ joined false members) := by
  cases isFirst
  · rfl
  · exact Corpus.toList_intercalate_cons "," member members

/-- The members of an entry in front of what follows them. -/
private theorem spells_ofMembers_iff {columns : List (Header × ColumnRole × Cell × Bool)}
    {isFirst : Bool} {items : List TemplateItem} {text : List Char} :
    Spells value (ofMembers isFirst columns ++ items) text ↔ ∃ members rest,
      List.Forall₂ (Entry.IsMember value) (columns.filter (·.2.1.inCorpus)) members ∧
        text = joined isFirst members ++ rest ∧ Spells value items rest := by
  induction columns generalizing isFirst text with
  | nil =>
    constructor
    · exact fun spells => ⟨[], text, .nil, by rw [joined_nil, List.nil_append], spells⟩
    · rintro ⟨_, rest, ⟨⟩, rfl, spells⟩
      rwa [joined_nil, List.nil_append]
  | cons column columns ih =>
    obtain ⟨header, role, cell, selected⟩ := column
    by_cases written : role.inCorpus
    · have line_eq (content : List Char) (members : List String) (rest : List Char) :
          ((if isFirst then "" else ",") ++ Json.quote header.name ++ ":").toList ++
              '"' :: (content ++ '"' :: (joined false members ++ rest)) =
            joined isFirst ((Json.quote header.name ++ ":" ++ "\"" ++ String.ofList content ++ "\"")
              :: members) ++ rest := by
        simp [joined_cons]
      rw [ofMembers, if_pos written, List.filter_cons, if_pos written, List.cons_append,
        List.append_assoc, spells_cons_iff]
      simp only [spells_ofCell_iff, ih]
      constructor
      · rintro ⟨_, _, rfl, rfl, content, _, stands, rfl, members, rest, related, rfl, spells⟩
        exact ⟨_, rest, .cons ⟨content, stands, rfl⟩ related, line_eq content members rest, spells⟩
      · rintro ⟨_, rest, _ | ⟨⟨content, stands, rfl⟩, related⟩, rfl, spells⟩
        exact ⟨_, _, (line_eq content _ rest).symm, rfl, content, _, stands, rfl, _, rest, related,
          rfl, spells⟩
    · rw [ofMembers, if_neg written, List.filter_cons, if_neg written, ih]

/-- The template of an entry spells the lines of the entry. -/
theorem spells_ofEntry_iff_isLine {headers : List Header} {roles : List ColumnRole} {entry : Entry}
    {line : String} :
    Spells value (ofEntry headers roles entry) line.toList ↔
      entry.IsLine headers roles value line := by
  have closed_iff {text : List Char} : Spells value [literal "\x7d"] text ↔ text = ['}'] := by
    rw [spells_cons_iff]
    constructor
    · rintro ⟨_, _, rfl, rfl, ⟨⟩⟩
      rfl
    · rintro rfl
      exact ⟨['}'], [], rfl, rfl, .nil⟩
  have line_eq (members : List String) :
      ("\x7b" ++ String.intercalate "," members ++ "\x7d").toList =
        '{' :: (joined true members ++ ['}']) := by
    simp [joined]
  rw [ofEntry, spells_cons_iff]
  simp only [spells_ofMembers_iff, closed_iff]
  constructor
  · rintro ⟨_, _, same, rfl, members, _, related, rfl, rfl⟩
    exact ⟨members, related, String.toList_inj.mp (same.trans (line_eq members).symm)⟩
  · rintro ⟨members, related, rfl⟩
    exact ⟨['{'], _, line_eq members, rfl, members, ['}'], related, rfl, rfl⟩

end TemplateItem

end LogMotif
