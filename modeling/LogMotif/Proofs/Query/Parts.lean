import LogMotif.Proofs.Pattern.Groups
import LogMotif.Proofs.Query.Members

/-! # The parts of a pattern

The pattern of an entry, and that of the whole query, is put together from parts: the names of the
columns, the text segments of the selected cells, wildcards, and what stands between them. Each part
has a written form and the pieces that are read of it. A part that comes from a text is read as the
characters of that text, whatever they are.
-/

namespace LogMotif

/-- A part of a pattern, by what it comes from. -/
inductive PatternPart where
  | lineStart
  | lineEnd
  | lineFeed
  /-- Punctuation between the names and the strings of a line. -/
  | mark (text : String)
  /-- The name of a column. -/
  | header (name : String)
  /-- A text segment of a selected cell. -/
  | text (content : String)
  /-- The string of a cell that is not selected. -/
  | anyString
  | wildcard (index : Nat)
  /-- The lines between the lines of two entries. -/
  | gap (link : Link)
deriving DecidableEq, Repr

namespace PatternPart

/-- The text that a part stands for, if it comes from one: names and segments are written as JSON. -/
def content? : PatternPart → Option String
  | mark written => some written
  | header name => some (Json.escapeText name)
  | text content => some (Json.escapeText content)
  | _ => none

/-- How a part is written, and what is read of it. A wildcard with a given value stands for this value,
and any other one for a group or a recall. -/
inductive Writes (given : Nat → String → Prop) : PatternPart → String → List Regex → Prop
  | content {part : PatternPart} {content : String} (stands : part.content? = some content) :
      Writes given part (Regex.escapeText content) (Regex.characters content)
  | value {index : Nat} {content : String} (isGiven : given index content) :
      Writes given (.wildcard index) (Regex.escapeText content) (Regex.characters content)
  | group {index : Nat} (free : ∀ content, ¬ given index content) :
      Writes given (.wildcard index) ("(?P<w" ++ toString index ++ ">(?:[^\"\\\\\\n]|\\\\.)+?)")
        [.capture index .stringValue]
  | recalled {index : Nat} (free : ∀ content, ¬ given index content) :
      Writes given (.wildcard index) ("\\k<w" ++ toString index ++ ">") [.recalled index]
  | anyString : Writes given .anyString "\"(?:[^\"\\\\\\n]|\\\\.)*\""
      (Regex.characters "\"" ++
        (.repeated .stringUnit .zeroOrMore .greedy :: Regex.characters "\""))
  | lineStart : Writes given .lineStart "^" [.lineStart]
  | lineEnd : Writes given .lineEnd "$" [.lineEnd]
  | lineFeed : Writes given .lineFeed "\\n" [.lineFeed]
  | gap (link : Link) : Writes given (.gap link) (Query.gap link).source
      (if Query.gap link = .empty then [] else [Query.gap link])

/-- How parts are written one after the other, and what is read of them. -/
inductive Assembles (given : Nat → String → Prop) :
    List PatternPart → String → List Regex → Prop
  | nil : Assembles given [] "" []
  | cons {part : PatternPart} {parts : List PatternPart} {written behind : String}
      {pieces others : List Regex} (writes : part.Writes given written pieces)
      (rest : Assembles given parts behind others) :
      Assembles given (part :: parts) (written ++ behind) (pieces ++ others)

/-- Whether a pattern consists of parts: it is written part by part, read as the pieces of its parts,
and names its groups apart. -/
def Compose (given : Nat → String → Prop) (parts : List PatternPart) (multiLine : Bool)
    (source : String) : Prop :=
  ∃ written pieces, Assembles given parts written pieces ∧
    source = (if multiLine then "(?m)" else "") ++ written ∧
    Regex.ofSource? source = some (multiLine, Regex.sequence pieces) ∧
    (Regex.sequence pieces).NamesGroups

/-! ### The parts of entries -/

def ofSegment : Segment → PatternPart
  | .text content => text content
  | .wildcard index _ => wildcard index

/-- The parts of the string of a cell. -/
def ofCell (selected : Bool) (cell : Cell) : List PatternPart :=
  if selected then mark "\"" :: cell.segments.map ofSegment ++ [mark "\""] else [anyString]

/-- The parts of the member of a line for a column. -/
def ofColumn : Header × ColumnRole × Cell × Bool → List PatternPart
  | (column, _, cell, selected) =>
    mark "\"" :: header column.name :: mark "\":" :: ofCell selected cell

/-- The parts of the line of an entry: its members, with commas between them. -/
def ofEntry (headers : List Header) (roles : List ColumnRole) (entry : Entry) : List PatternPart :=
  mark "\x7b" ::
    (List.intercalate [mark ","] ((entry.columns headers roles).map ofColumn) ++ [mark "\x7d"])

/-- The parts of the lines of entries, with the lines that may lie between them. -/
def ofEntries (headers : List Header) (roles : List ColumnRole) : List Entry → List PatternPart
  | [] => []
  | [last] => ofEntry headers roles last ++ [lineFeed]
  | entry :: next :: rest =>
    ofEntry headers roles entry ++
      lineFeed :: gap (entry.link.getD .any) :: ofEntries headers roles (next :: rest)

/-! ### Templates -/

variable {given : Nat → String → Prop} {parts : List PatternPart}

theorem Assembles.append {front back : List PatternPart} {written behind : String}
    {pieces others : List Regex} (first : Assembles given front written pieces)
    (second : Assembles given back behind others) :
    Assembles given (front ++ back) (written ++ behind) (pieces ++ others) := by
  induction first with
  | nil => simpa using second
  | cons writes _ ih =>
    rw [List.cons_append, String.append_assoc, List.append_assoc]
    exact .cons writes ih

theorem Assembles.single {part : PatternPart} {written : String} {pieces : List Regex}
    (writes : part.Writes given written pieces) : Assembles given [part] written pieces := by
  simpa using Assembles.cons writes .nil

private theorem Assembles.item {front : List PatternPart} {item : LineItem} {pattern : LinePattern}
    (writes : Assembles given front item.regex.source item.pieces)
    (rest : Assembles given parts pattern.written pattern.pieces) :
    Assembles given (front ++ parts) (LinePattern.written (item :: pattern))
      (LinePattern.pieces (item :: pattern)) := by
  rw [LinePattern.written_cons, LinePattern.pieces_cons]
  exact writes.append rest

private theorem Writes.of_capture {index : Nat} (free : ∀ content, ¬ given index content) :
    Writes given (.wildcard index) (LineItem.regex (.capture index)).source
      (LineItem.pieces (.capture index)) := by
  have inside : Regex.stringValue.source = "(?:[^\"\\\\\\n]|\\\\.)+?" := by decide +kernel
  have written : (LineItem.regex (.capture index)).source =
      "(?P<w" ++ toString index ++ ">(?:[^\"\\\\\\n]|\\\\.)+?)" := by
    rw [LineItem.regex, Regex.source, inside, Regex.captureName, ← String.toList_inj]
    simp
  rw [written]
  exact .group free

private theorem Writes.of_recalled {index : Nat} (free : ∀ content, ¬ given index content) :
    Writes given (.wildcard index) (LineItem.regex (.recalled index)).source
      (LineItem.pieces (.recalled index)) := by
  have written : (LineItem.regex (.recalled index)).source = "\\k<w" ++ toString index ++ ">" := by
    rw [LineItem.regex, Regex.source, Regex.captureName, ← String.append_assoc]
    rfl
  rw [written]
  exact .recalled free

/-- Whether a template is written from parts, whichever wildcards have values and have been met. -/
def Make (parts : List PatternPart) (items : List TemplateItem) : Prop :=
  ∀ (value? : Nat → Option String) (seen : List Nat),
    Assembles (fun index content => value? index = some content) parts
      (LinePattern.written (TemplateItem.instantiate value? seen items).1)
      (LinePattern.pieces (TemplateItem.instantiate value? seen items).1)

private theorem make_nil : Make [] [] := fun _ _ => .nil

/-- A literal text is put together from parts that stand for its stretches. -/
private theorem make_literal {front : List PatternPart} {content : String}
    (stands : ∀ given, Assembles given front (Regex.escapeText content) (Regex.characters content))
    {items : List TemplateItem} (make : Make parts items) :
    Make (front ++ parts) (.literal content :: items) :=
  fun value? seen => .item (stands _) (make value? seen)

private theorem make_anyString {items : List TemplateItem} (make : Make parts items) :
    Make (.anyString :: parts) (.anyString :: items) :=
  fun value? seen => .item (.single .anyString) (make value? seen)

private theorem make_wildcard (index : Nat) {items : List TemplateItem} (make : Make parts items) :
    Make (.wildcard index :: parts) (.wildcard index :: items) := by
  intro value? seen
  cases bound : value? index with
  | some content =>
    rw [TemplateItem.instantiate_bound seen bound]
    exact .item (.single (.value bound)) (make value? seen)
  | none =>
    have free : ∀ content, value? index ≠ some content := by simp [bound]
    by_cases known : index ∈ seen
    · rw [TemplateItem.instantiate_recalled bound known]
      exact .item (.single (.of_recalled free)) (make value? seen)
    · rw [TemplateItem.instantiate_capture bound known]
      exact .item (.single (.of_capture free)) (make value? (index :: seen))

private theorem make_segments (segments : List Segment) {items : List TemplateItem}
    (make : Make parts items) :
    Make (segments.map ofSegment ++ parts) (segments.map TemplateItem.ofSegment ++ items) := by
  induction segments with
  | nil => exact make
  | cons segment segments ih =>
    cases segment with
    | text content => exact make_literal (fun _ => .single (.content rfl)) ih
    | wildcard index => exact make_wildcard index ih

private theorem make_mark (written : String) {items : List TemplateItem} (make : Make parts items) :
    Make (mark written :: parts) (.literal written :: items) :=
  make_literal (fun _ => .single (.content rfl)) make

private theorem make_ofCell (selected : Bool) (cell : Cell) {items : List TemplateItem}
    (make : Make parts items) :
    Make (ofCell selected cell ++ parts) (TemplateItem.ofCell selected cell ++ items) := by
  cases selected with
  | false => exact make_anyString make
  | true =>
    have inside := make_mark "\"" (make_segments cell.segments (make_mark "\"" make))
    simpa [ofCell, TemplateItem.ofCell] using inside

/-- The name of a member, in front of which there may be a comma. -/
private theorem assembles_name (isFirst : Bool) (name : String) :
    Assembles given ((if isFirst then [] else [mark ","]) ++ [mark "\"", header name, mark "\":"])
      (Regex.escapeText ((if isFirst then "" else ",") ++ Json.quote name ++ ":"))
      (Regex.characters ((if isFirst then "" else ",") ++ Json.quote name ++ ":")) := by
  have separator : Assembles given (if isFirst then [] else [mark ","])
      (Regex.escapeText (if isFirst then "" else ","))
      (Regex.characters (if isFirst then "" else ",")) := by
    cases isFirst with
    | true => exact .nil
    | false => exact .single (.content rfl)
  have behind : Assembles given [mark "\"", header name, mark "\":"]
      (Regex.escapeText "\"" ++ (Regex.escapeText (Json.escapeText name) ++ Regex.escapeText "\":"))
      (Regex.characters "\"" ++
        (Regex.characters (Json.escapeText name) ++ Regex.characters "\":")) :=
    .cons (.content rfl) (.cons (.content rfl) (.single (.content rfl)))
  have quoted : "\"" ++ (Json.escapeText name ++ "\":") = Json.quote name ++ ":" := by
    rw [← String.toList_inj]
    simp [Json.quote]
  have both := separator.append behind
  simp only [← Regex.escapeText_append, ← Regex.characters_append, quoted] at both
  rw [String.append_assoc]
  exact both

/-- The parts of members, with a comma in front of all but the first. -/
def joined (isFirst : Bool) (members : List (List PatternPart)) : List PatternPart :=
  if isFirst then List.intercalate [mark ","] members else members.flatMap (mark "," :: ·)

theorem joined_cons (isFirst : Bool) (member : List PatternPart)
    (members : List (List PatternPart)) :
    joined isFirst (member :: members) =
      (if isFirst then [] else [mark ","]) ++ (member ++ joined false members) := by
  cases isFirst with
  | false => rfl
  | true =>
    simp only [joined, if_true, List.nil_append]
    induction members generalizing member with
    | nil => simp [List.intercalate]
    | cons next members ih =>
      have step : List.intercalate [mark ","] (member :: next :: members) =
          member ++ mark "," :: List.intercalate [mark ","] (next :: members) := by
        simp [List.intercalate]
      simp [step, ih]

private theorem make_ofMembers (columns : List (Header × ColumnRole × Cell × Bool)) (isFirst : Bool)
    {items : List TemplateItem} (make : Make parts items) :
    Make (joined isFirst ((columns.filter (·.2.1.inCorpus)).map ofColumn) ++ parts)
      (TemplateItem.ofMembers isFirst columns ++ items) := by
  induction columns generalizing isFirst with
  | nil => cases isFirst <;> exact make
  | cons column columns ih =>
    obtain ⟨column, role, cell, selected⟩ := column
    rw [TemplateItem.ofMembers, List.filter_cons]
    split
    next =>
      have member := make_literal (fun _ => assembles_name isFirst column.name)
        (make_ofCell selected cell (ih false))
      simpa [joined_cons, ofColumn] using member
    next => exact ih isFirst

/-- The template of an entry is written from the parts of the entry. -/
theorem make_ofEntry (headers : List Header) (roles : List ColumnRole) (entry : Entry) :
    Make (ofEntry headers roles entry) (TemplateItem.ofEntry headers roles entry) := by
  have members := make_ofMembers (headers.zip (roles.zip (entry.cells.zip entry.selection))) true
    (make_mark "\x7d" make_nil)
  exact make_mark "\x7b" members

end PatternPart

end LogMotif
