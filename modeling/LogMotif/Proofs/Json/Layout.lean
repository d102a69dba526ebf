import LogMotif.Proofs.Corpus.Lines
import LogMotif.Proofs.Json.Writing

/-! # Values in any layout

Blanks may stand between the tokens of a written value: in front of an item and behind it, round a
colon, and between brackets. A value is read back from any layout, if its numbers are natural
numbers that fit a word and if no more brackets are open in it at once than the reader allows. One
layout has no blanks; another has an item on each line, with two blanks a level.
-/

namespace LogMotif.Json

namespace Value

/-- Induction over the values inside a value. -/
@[elab_as_elim, induction_eliminator]
theorem induct {motive : Value → Prop} (null : motive null) (bool : ∀ flag, motive (bool flag))
    (number : ∀ found, motive (number found)) (string : ∀ text, motive (string text))
    (array : ∀ items, (∀ item ∈ items, motive item) → motive (array items))
    (object : ∀ members, (∀ member ∈ members, motive member.2) → motive (object members))
    (value : Value) : motive value := by
  match value with
  | .null => exact null
  | .bool flag => exact bool flag
  | .number found => exact number found
  | .string text => exact string text
  | .array items =>
    exact array items fun item inItems => induct null bool number string array object item
  | .object members =>
    exact object members fun (_, inner) inMembers =>
      induct null bool number string array object inner
termination_by sizeOf value
decreasing_by
  · have smaller := List.sizeOf_lt_of_mem inItems
    simp only [Value.array.sizeOf_spec]
    omega
  · have smaller := List.sizeOf_lt_of_mem inMembers
    simp only [Value.object.sizeOf_spec, Prod.mk.sizeOf_spec] at smaller ⊢
    omega

/-- Whether a value can be read back from its written form when so many brackets may be open at
once: its numbers are natural numbers that fit a word. -/
inductive IsPlain : Nat → Value → Prop
  | bool (depth : Nat) (value : Bool) : IsPlain depth (.bool value)
  | ofNat (depth : Nat) {n : Nat} (le : n ≤ Read.greatestSignificand) : IsPlain depth (.ofNat n)
  | string (depth : Nat) (value : String) : IsPlain depth (.string value)
  | array {depth : Nat} {items : List Value} (each : ∀ item ∈ items, IsPlain depth item) :
      IsPlain (depth + 1) (.array items)
  | object {depth : Nat} {members : List (String × Value)}
      (each : ∀ member ∈ members, IsPlain depth member.2) : IsPlain (depth + 1) (.object members)

/-- Whether a text is a value with blanks between its tokens. -/
inductive LaidOut : Value → List Char → Prop
  | null : LaidOut .null null.chars
  | bool (value : Bool) : LaidOut (.bool value) (Value.bool value).chars
  | number (value : Number) : LaidOut (.number value) (Value.number value).chars
  | string (value : String) : LaidOut (.string value) (Value.string value).chars
  | array {pieces : List (Value × List Char)} {items : List Value} {text : List Char}
      (items_eq : items = pieces.map Prod.fst) (each : ∀ piece ∈ pieces, LaidOut piece.1 piece.2)
      (separated : Separated true (pieces.map Prod.snd) text) :
      LaidOut (.array items) ('[' :: (text ++ [']']))
  | object {fields : List Field} {members : List (String × Value)} {text : List Char}
      (members_eq : members = fields.map Field.member)
      (each : ∀ field ∈ fields, LaidOut field.value field.content)
      (separated : Separated true (fields.map Field.text) text) :
      LaidOut (.object members) ('{' :: (text ++ ['}']))

theorem LaidOut.eq_chars {text : String} {form : List Char}
    (laidOut : (Value.string text).LaidOut form) :
    form = (Value.string text).chars := by
  cases laidOut with
  | string => rfl

/-- Whether a text is a value, with blanks between its tokens and on both sides of it. -/
def HasText (value : Value) (text : String) : Prop :=
  ∃ lead form trail, text.toList = lead ++ (form ++ trail) ∧
    (∀ c ∈ lead ++ trail, isSpace c) ∧ value.LaidOut form

end Value

namespace Read

variable {text rest : List Char}

/-! ### Reading -/

/-- Blanks may be put in front of what is read behind blanks. -/
private theorem takes_blanks_append {α : Type} {blanks : List Char}
    (spaces : ∀ c ∈ blanks, isSpace c) {next : Unit → Read α} {value : α}
    (ahead : ∀ c ∈ (text ++ rest).head?, isSpace c = false)
    (takes : (skipBlanks >>= next).Takes text rest value) :
    (skipBlanks >>= next).Takes (blanks ++ text) rest value := by
  have stays (position : Position) :
      Source.skipBlanks ⟨text ++ rest, position⟩ = ⟨text ++ rest, position⟩ := by
    cases whole : text ++ rest with
    | nil => rfl
    | cons c more =>
      rw [Source.skipBlanks, Source.skipBlanks.go, if_neg (by simp [ahead c (by rw [whole]; rfl)])]
  have behind : (next ()).Takes text rest value := by
    intro position
    obtain ⟨stop, taken⟩ := takes position
    obtain ⟨_, middle, skipped, taken⟩ := bind_eq_ok_iff.mp taken
    obtain rfl : middle = ⟨text ++ rest, position⟩ :=
      (Prod.mk.inj (Except.ok.inj skipped)).2.symm.trans (stays position)
    exact ⟨stop, taken⟩
  exact (takes_skipBlanks spaces ahead).bind behind

private theorem begins_of_laidOut {depth : Nat} {found : Value} (plain : found.IsPlain depth)
    (laidOut : found.LaidOut text) : Begins text := by
  cases plain with
  | bool depth flag =>
    cases laidOut with
    | bool => cases flag <;> exact ⟨_, _, rfl, by decide⟩
  | @ofNat depth n le =>
    cases laidOut with
    | number =>
      obtain ⟨first, more, same, digit⟩ := exists_toDigits_eq_cons n
      refine ⟨first, more, (Value.chars_ofNat n).trans same, isSpace_eq_false_of_isDigit digit, ?_⟩
      rintro rfl
      exact absurd digit (by decide)
  | string depth text =>
    cases laidOut with
    | string => exact ⟨'"', _, Value.chars_string text, by decide⟩
  | array =>
    cases laidOut with
    | array => exact ⟨'[', _, rfl, by decide⟩
  | object =>
    cases laidOut with
    | object => exact ⟨'{', _, rfl, by decide⟩

private theorem takes_value_blanks {depth : Nat} {found : Value} {blanks : List Char}
    (spaces : ∀ c ∈ blanks, isSpace c) (begins : Begins text)
    (takes : (value .strict depth).Takes text rest found) :
    (value .strict depth).Takes (blanks ++ text) rest found := by
  have ahead : ∀ c ∈ (text ++ rest).head?, isSpace c = false := by
    obtain ⟨c, more, rfl, visible, -⟩ := begins
    rintro _ ⟨⟩
    exact visible
  cases depth with
  | zero => exact takes_blanks_append spaces ahead takes
  | succ depth => exact takes_blanks_append spaces ahead takes

/-- A plain value is read back from any layout. -/
theorem takes_value {depth : Nat} {found : Value} (plain : found.IsPlain depth)
    (laidOut : found.LaidOut text) (bounded : Bounded rest) :
    (value .strict depth).Takes text rest found := by
  induction plain generalizing text rest with
  | bool depth flag =>
    cases laidOut with
    | bool => exact takes_value_bool depth flag rest
  | ofNat depth le =>
    cases laidOut with
    | number => exact takes_value_ofNat depth le bounded
  | string depth text =>
    cases laidOut with
    | string => exact takes_value_string depth text rest
  | @array depth items each ih =>
    cases laidOut with
    | @array pieces _ _ items_eq laid separated =>
      subst items_eq
      have inItems {piece : Value × List Char} (member : piece ∈ pieces) :
          piece.1 ∈ pieces.map Prod.fst := List.mem_map_of_mem member
      refine takes_skipBlanks_bind (by rintro _ ⟨⟩; decide) (takes_peek_bind ?_)
      refine (takes_listOf (takes_itemsToEnd (fun piece member => ?_) (fun piece member rest => ?_)
        separated rest)).bind_nil (takes_pure _ _)
      · exact begins_of_laidOut (each _ (inItems member)) (laid piece member)
      · exact ih _ (inItems member) (laid piece member)
  | @object depth members each ih =>
    cases laidOut with
    | @object fields _ _ members_eq laid separated =>
      subst members_eq
      have inMembers {field : Field} (member : field ∈ fields) :
          field.member ∈ fields.map Field.member := List.mem_map_of_mem member
      refine takes_skipBlanks_bind (by rintro _ ⟨⟩; decide) (takes_peek_bind ?_)
      refine (takes_objectOf (takes_membersWith (fun field member rest bounded => ?_)
        separated rest)).bind_nil (takes_pure _ _)
      exact takes_value_blanks field.leads
        (begins_of_laidOut (each _ (inMembers member)) (laid field member))
        (ih _ (inMembers member) (laid field member) bounded)

/-- The value of a member is read behind its key. -/
theorem takes_tail_value {depth : Nat} {field : Field} {α : Type} {next : Value → Read α}
    {result : α} (plain : field.value.IsPlain depth) (laidOut : field.value.LaidOut field.content)
    (bounded : Bounded rest) (done : (next field.value).Takes [] rest result) :
    (do colon; next (← value .strict depth)).Takes field.tail rest result := by
  have taken := takes_value_blanks field.leads (begins_of_laidOut plain laidOut)
    (takes_value plain laidOut bounded)
  exact takes_tail (taken.bind_nil done)

end Read

namespace Value

theorem ofText_of_hasText {value : Value} (plain : value.IsPlain nestingLimit) {text : String}
    (written : value.HasText text) : ofText text = .ok value := by
  obtain ⟨lead, form, trail, text_eq, blanks, laidOut⟩ := written
  obtain ⟨leads, trails⟩ := List.forall_mem_append.mp blanks
  have bounded : Read.Bounded trail := by
    rw [← List.append_nil trail]
    exact Read.bounded_append trails nofun
  have whole := Read.takes_value_blanks leads (Read.begins_of_laidOut plain laidOut)
    (Read.takes_value plain laidOut bounded)
  exact whole.run_of_blanks (text_eq.trans (List.append_assoc _ _ _).symm) trails

/-! ### Items written alike -/

private theorem laidOut_array_map (write : Value → List Char) {items : List Value}
    {text : List Char} (each : ∀ item ∈ items, item.LaidOut (write item))
    (separated : Separated true (items.map write) text) :
    (array items).LaidOut ('[' :: (text ++ [']'])) := by
  let piece (item : Value) : Value × List Char := (item, write item)
  have items_eq : items = (items.map piece).map Prod.fst := by
    rw [List.map_map]
    exact (List.map_id items).symm
  have texts_eq : items.map write = (items.map piece).map Prod.snd := by
    rw [List.map_map]
    rfl
  rw [texts_eq] at separated
  refine .array items_eq (fun found inPieces => ?_) separated
  obtain ⟨item, inItems, rfl⟩ := List.mem_map.mp inPieces
  exact each item inItems

private theorem laidOut_object_map (write : Value → List Char) {lead : List Char}
    (leads : ∀ c ∈ lead, isSpace c) {members : List (String × Value)} {text : List Char}
    (each : ∀ member ∈ members, member.2.LaidOut (write member.2))
    (separated : Separated true (members.map fun member =>
      (quote member.1).toList ++ ':' :: (lead ++ write member.2)) text) :
    (object members).LaidOut ('{' :: (text ++ ['}'])) := by
  let field (member : String × Value) : Field :=
    ⟨member.1, member.2, [], lead, write member.2, nofun, leads⟩
  have members_eq : members = (members.map field).map Field.member := by
    rw [List.map_map]
    exact (List.map_id members).symm
  have texts_eq : (members.map fun member =>
      (quote member.1).toList ++ ':' :: (lead ++ write member.2)) =
        (members.map field).map Field.text := by
    rw [List.map_map]
    rfl
  rw [texts_eq] at separated
  refine .object members_eq (fun found inFields => ?_) separated
  obtain ⟨member, inMembers, rfl⟩ := List.mem_map.mp inFields
  exact each member inMembers

/-! ### Without blanks -/

theorem compactItems_eq_map (items : List Value) : compactItems items = items.map compact := by
  induction items with
  | nil => rfl
  | cons item items ih => rw [compactItems, ih, List.map_cons]

theorem compactMembers_eq_map (members : List (String × Value)) :
    compactMembers members = members.map fun member => quote member.1 ++ ":" ++ compact member.2 := by
  induction members with
  | nil => rfl
  | cons member members ih => rw [compactMembers, ih, List.map_cons]

theorem separated_intercalate (items : List String) :
    Separated true (items.map String.toList) (String.intercalate "," items).toList := by
  cases items with
  | nil => exact .nil (List.forall_mem_nil _)
  | cons item items =>
    have none : ∀ c ∈ ([] : List Char), isSpace c := List.forall_mem_nil _
    have both : Separated true (item.toList :: items.map String.toList) _ :=
      .cons (.first none) (separated_flatMap none none (items.map String.toList))
    rw [Corpus.toList_intercalate_cons]
    simpa [List.flatMap_map] using both

theorem chars_array (items : List Value) : (array items).chars =
    '[' :: ((String.intercalate "," (compactItems items)).toList ++ [']']) := by
  rw [chars, compact, String.toList_append, String.toList_append]
  rfl

theorem chars_object (members : List (String × Value)) : (object members).chars =
    '{' :: ((String.intercalate "," (compactMembers members)).toList ++ ['}']) := by
  rw [chars, compact, String.toList_append, String.toList_append]
  rfl

/-- A value without blanks is laid out. -/
theorem laidOut_chars (value : Value) : value.LaidOut value.chars := by
  induction value with
  | null => exact .null
  | bool flag => exact .bool flag
  | number found => exact .number found
  | string text => exact .string text
  | array items ih =>
    have texts_eq : (compactItems items).map String.toList = items.map chars := by
      rw [compactItems_eq_map, List.map_map]
      rfl
    have separated := separated_intercalate (compactItems items)
    rw [texts_eq] at separated
    rw [chars_array]
    exact laidOut_array_map chars ih separated
  | object members ih =>
    have texts_eq : (compactMembers members).map String.toList =
        members.map fun member => (quote member.1).toList ++ ':' :: ([] ++ member.2.chars) := by
      rw [compactMembers_eq_map, List.map_map]
      exact List.map_congr_left fun member _ => by simp [chars]
    have separated := separated_intercalate (compactMembers members)
    rw [texts_eq] at separated
    rw [chars_object]
    exact laidOut_object_map chars (List.forall_mem_nil _) ih separated

theorem hasText_compact (value : Value) : value.HasText value.compact :=
  ⟨[], _, [], (List.append_nil _).symm, List.forall_mem_nil _, laidOut_chars value⟩

/-! ### One item a line -/

private theorem prettyItems_eq_map (margin : String) (items : List Value) :
    prettyItems margin items = items.map (prettyAt margin) := by
  induction items with
  | nil => rfl
  | cons item items ih => rw [prettyItems, ih, List.map_cons]

private theorem prettyMembers_eq_map (margin : String) (members : List (String × Value)) :
    prettyMembers margin members =
      members.map fun member => quote member.1 ++ ": " ++ prettyAt margin member.2 := by
  induction members with
  | nil => rfl
  | cons member members ih => rw [prettyMembers, ih, List.map_cons]

private theorem isSpace_of_mem_deeper {margin : String} (spaces : ∀ c ∈ margin.toList, isSpace c) :
    ∀ c ∈ (margin ++ "  ").toList, isSpace c := by
  have deeper : "  ".toList.all isSpace := by decide
  rw [String.toList_append]
  exact List.forall_mem_append.mpr ⟨spaces, List.all_eq_true.mp deeper⟩

/-- Inside its brackets, a container has its items apart from each other. -/
private theorem exists_separated_layOut {margin : String} (spaces : ∀ c ∈ margin.toList, isSpace c)
    (opening closing : String) (items : List String) :
    ∃ text, (layOut opening closing margin items).toList =
        opening.toList ++ (text ++ closing.toList) ∧
      Separated true (items.map String.toList) text := by
  have leads : ∀ c ∈ '\n' :: (margin ++ "  ").toList, isSpace c :=
    List.forall_mem_cons.mpr ⟨by decide, isSpace_of_mem_deeper spaces⟩
  have trails : ∀ c ∈ '\n' :: margin.toList, isSpace c :=
    List.forall_mem_cons.mpr ⟨by decide, spaces⟩
  cases items with
  | nil => exact ⟨[], by simp [layOut], .nil nofun⟩
  | cons item items =>
    refine ⟨_, ?_, .cons (.first leads) (separated_flatMap leads trails (items.map String.toList))⟩
    rw [layOut, if_neg (by simp), List.map_cons]
    simp only [String.toList_append, Corpus.toList_intercalate_cons, List.flatMap_map]
    simp

/-- A value with one item a line is laid out. -/
theorem laidOut_prettyAt {margin : String} (spaces : ∀ c ∈ margin.toList, isSpace c)
    (value : Value) : value.LaidOut (value.prettyAt margin).toList := by
  induction value generalizing margin with
  | null =>
    rw [prettyAt]
    exact .null
  | bool flag =>
    rw [prettyAt]
    exact .bool flag
  | number found =>
    rw [prettyAt]
    exact .number found
  | string text =>
    rw [prettyAt]
    exact .string text
  | array items ih =>
    obtain ⟨text, text_eq, separated⟩ :=
      exists_separated_layOut spaces "[" "]" (prettyItems (margin ++ "  ") items)
    rw [prettyItems_eq_map, List.map_map] at separated
    rw [prettyAt, text_eq]
    exact laidOut_array_map (fun item => (item.prettyAt (margin ++ "  ")).toList)
      (fun item inItems => ih item inItems (isSpace_of_mem_deeper spaces)) separated
  | object members ih =>
    have blank : ∀ c ∈ [' '], isSpace c := List.forall_mem_singleton.mpr (by decide)
    obtain ⟨text, text_eq, separated⟩ :=
      exists_separated_layOut spaces "\x7b" "\x7d" (prettyMembers (margin ++ "  ") members)
    have texts_eq : (prettyMembers (margin ++ "  ") members).map String.toList =
        members.map fun member => (quote member.1).toList ++
          ':' :: ([' '] ++ (member.2.prettyAt (margin ++ "  ")).toList) := by
      rw [prettyMembers_eq_map, List.map_map]
      exact List.map_congr_left fun member _ => by simp
    rw [texts_eq] at separated
    rw [prettyAt, text_eq]
    exact laidOut_object_map (fun value => (value.prettyAt (margin ++ "  ")).toList) blank
      (fun member inMembers => ih member inMembers (isSpace_of_mem_deeper spaces)) separated

theorem hasText_pretty (value : Value) : value.HasText value.pretty := by
  have laid : value.LaidOut (value.prettyAt "").toList := laidOut_prettyAt (by simp) value
  exact ⟨[], _, [], (List.append_nil _).symm, List.forall_mem_nil _, laid⟩

end Value

end LogMotif.Json
