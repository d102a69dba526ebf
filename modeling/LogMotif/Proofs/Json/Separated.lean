import LogMotif.Proofs.Json.Reading
import LogMotif.Proofs.Outcomes

/-! # Items apart from each other

The items of a list and the members of an object stand apart from each other: with blanks in front,
and a comma in front of all but the first. They are read one by one, wherever blanks stand. A number
is read up to what ends it, so each item is read in front of that.
-/

namespace LogMotif.Json

/-- What stands in front of an item: blanks, and in front of all but the first a comma. -/
inductive Gap : Bool → List Char → Prop
  | first {lead : List Char} (leads : ∀ c ∈ lead, isSpace c) : Gap true lead
  | next {trail lead : List Char} (trails : ∀ c ∈ trail, isSpace c)
      (leads : ∀ c ∈ lead, isSpace c) : Gap false (trail ++ ',' :: lead)

/-- Items one behind the other, with what stands in front of each, and blanks behind the last. -/
inductive Separated : Bool → List (List Char) → List Char → Prop
  | nil {isFirst : Bool} {blanks : List Char} (spaces : ∀ c ∈ blanks, isSpace c) :
      Separated isFirst [] blanks
  | cons {isFirst : Bool} {front item back : List Char} {items : List (List Char)}
      (gap : Gap isFirst front) (behind : Separated false items back) :
      Separated isFirst (item :: items) (front ++ (item ++ back))

/-- A member of an object as it is written: with blanks on both sides of the colon, and with the
text of its value. -/
structure Field where
  key : String
  value : Value
  trail : List Char
  lead : List Char
  content : List Char
  trails : ∀ c ∈ trail, isSpace c
  leads : ∀ c ∈ lead, isSpace c

namespace Field

/-- The member that is written. -/
def member (field : Field) : String × Value := (field.key, field.value)

/-- What is written behind the key. -/
def tail (field : Field) : List Char :=
  (field.trail ++ [':']) ++ (field.lead ++ field.content)

/-- What is written of the member. -/
def text (field : Field) : List Char := (quote field.key).toList ++ field.tail

end Field

private theorem Separated.exists_of_cons {isFirst : Bool} {item text : List Char}
    {items : List (List Char)} (separated : Separated isFirst (item :: items) text) :
    ∃ front back, text = front ++ (item ++ back) ∧ Gap isFirst front ∧
      Separated false items back := by
  cases separated with
  | cons gap behind => exact ⟨_, _, rfl, gap, behind⟩

private theorem Separated.length_le {isFirst : Bool} {items : List (List Char)} {text : List Char}
    (separated : Separated isFirst items text) (filled : ∀ item ∈ items, item ≠ []) :
    items.length ≤ text.length := by
  induction separated with
  | nil => exact Nat.zero_le _
  | cons gap behind ih =>
    obtain ⟨here, filled⟩ := List.forall_mem_cons.mp filled
    have one := List.length_pos_iff.mpr here
    have others := ih filled
    simp only [List.length_append, List.length_cons]
    omega

/-- Items with the same blanks behind each comma. -/
theorem separated_flatMap {lead blanks : List Char} (leads : ∀ c ∈ lead, isSpace c)
    (spaces : ∀ c ∈ blanks, isSpace c) (items : List (List Char)) :
    Separated false items (items.flatMap (fun item => ',' :: (lead ++ item)) ++ blanks) := by
  induction items with
  | nil => exact .nil spaces
  | cons item items ih =>
    have gap : Gap false ([] ++ ',' :: lead) := .next nofun leads
    have both : Separated false (item :: items) _ := .cons gap ih
    simpa using both

namespace Read

variable {α σ ε : Type} {isFirst : Bool} {front text rounds rest : List Char}

/-! ### What stands behind an item -/

/-- What ends a number: the comma in front of the next item, a closing bracket, or a blank. -/
def bounds : List Char := [',', ']', '}', ' ', '\n', '\t', '\r']

private theorem mem_bounds_of_isSpace {c : Char} (space : isSpace c) : c ∈ bounds := by
  simp only [isSpace, Bool.or_eq_true, beq_iff_eq] at space
  rcases space with ((rfl | rfl) | rfl) | rfl <;> decide

/-- Whether what stands behind an item ends a number, as the end of the text does. -/
def Bounded (rest : List Char) : Prop := ∀ c ∈ rest.head?, c ∈ bounds

theorem bounded_cons {c : Char} (ends : c ∈ bounds) (rest : List Char) : Bounded (c :: rest) := by
  rintro _ ⟨⟩
  exact ends

theorem bounded_append {blanks : List Char} (spaces : ∀ c ∈ blanks, isSpace c)
    (bounded : Bounded rest) : Bounded (blanks ++ rest) := by
  cases blanks with
  | nil => exact bounded
  | cons c blanks => exact bounded_cons (mem_bounds_of_isSpace (spaces c List.mem_cons_self)) _

/-- Behind an item stands what ends a number. -/
private theorem bounded_of_separated {texts : List (List Char)}
    (separated : Separated false texts text) (bounded : Bounded rest) : Bounded (text ++ rest) := by
  cases separated with
  | nil spaces => exact bounded_append spaces bounded
  | cons gap behind =>
    cases gap with
    | next trails leads =>
      rw [List.append_assoc, List.append_assoc]
      exact bounded_append trails (bounded_cons (by decide) _)

/-! ### Lists -/

private theorem takes_nextItem_end {blanks : List Char} (spaces : ∀ c ∈ blanks, isSpace c)
    (isFirst : Bool) (rest : List Char) : (nextItem isFirst).Takes blanks (']' :: rest) false :=
  (takes_skipBlanks spaces (by rintro _ ⟨⟩; decide)).bind_nil (takes_peek_bind (takes_pure false _))

/-- Whether a text begins with a character that shows that there is an item. -/
def Begins (text : List Char) : Prop :=
  ∃ c rest, text = c :: rest ∧ isSpace c = false ∧ c ≠ ']'

private theorem takes_nextItem_first {lead rest : List Char} (leads : ∀ c ∈ lead, isSpace c)
    (begins : Begins rest) : (nextItem true).Takes lead rest true := by
  obtain ⟨c, rest, rfl, visible, notEnd⟩ := begins
  refine (takes_skipBlanks leads (by rintro _ ⟨⟩; exact visible)).bind_nil (takes_peek_bind ?_)
  simp only [List.nil_append, List.head?_cons, if_true]
  exact takes_pure true _

private theorem takes_nextItem_comma {trail lead rest : List Char} (trails : ∀ c ∈ trail, isSpace c)
    (leads : ∀ c ∈ lead, isSpace c) (begins : Begins rest) :
    (nextItem false).Takes (trail ++ ',' :: lead) rest true := by
  obtain ⟨c, rest, rfl, visible, notEnd⟩ := begins
  refine (takes_skipBlanks trails (by rintro _ ⟨⟩; decide)).bind (takes_peek_bind ?_)
  refine takes_advance_bind ((takes_skipBlanks leads (by rintro _ ⟨⟩; exact visible)).bind_nil ?_)
  refine takes_peek_bind ?_
  simp only [List.nil_append, List.head?_cons]
  exact takes_pure true _

private theorem begins_append (begins : Begins text) (rest : List Char) :
    Begins (text ++ rest) := by
  obtain ⟨c, more, rfl, visible⟩ := begins
  exact ⟨c, more ++ rest, rfl, visible⟩

private theorem takes_nextItem (gap : Gap isFirst front) (begins : Begins rest) :
    (nextItem isFirst).Takes front rest true := by
  cases gap with
  | first leads => exact takes_nextItem_first leads begins
  | next trails leads => exact takes_nextItem_comma trails leads begins

variable {item : Read α} {pieces : List (α × List Char)}

/-- The items of a list are read one by one, whatever the blanks round them. -/
private theorem takes_items (begins : ∀ piece ∈ pieces, Begins piece.2)
    (each : ∀ piece ∈ pieces, ∀ rest, Bounded rest → item.Takes piece.2 rest piece.1)
    (separated : Separated isFirst (pieces.map Prod.snd) text)
    (enough : pieces.length < rounds.length) (rest : List Char) :
    (items item rounds isFirst).Takes text (']' :: rest) (pieces.map Prod.fst) := by
  obtain ⟨round, rounds, rfl⟩ := List.exists_cons_of_length_pos (Nat.zero_lt_of_lt enough)
  have bounded : Bounded (']' :: rest) := bounded_cons (by decide) rest
  induction pieces generalizing isFirst text round rounds with
  | nil =>
    cases separated with
    | nil spaces => exact (takes_nextItem_end spaces isFirst rest).bind_nil (takes_pure [] _)
  | cons piece pieces ih =>
    obtain ⟨starts, begins⟩ := List.forall_mem_cons.mp begins
    obtain ⟨here, each⟩ := List.forall_mem_cons.mp each
    simp only [List.length_cons, Nat.add_lt_add_iff_right] at enough
    obtain ⟨next, rounds, rfl⟩ := List.exists_cons_of_length_pos (Nat.zero_lt_of_lt enough)
    obtain ⟨front, back, rfl, gap, behind⟩ := separated.exists_of_cons
    have start := begins_append starts (back ++ ']' :: rest)
    rw [← List.append_assoc] at start
    exact (takes_nextItem gap start).bind
      ((here _ (bounded_of_separated behind bounded)).bind
        ((ih begins each behind next rounds enough).bind_nil (takes_pure _ _)))

theorem takes_itemsToEnd (begins : ∀ piece ∈ pieces, Begins piece.2)
    (each : ∀ piece ∈ pieces, ∀ rest, Bounded rest → item.Takes piece.2 rest piece.1)
    (separated : Separated true (pieces.map Prod.snd) text) (rest : List Char) :
    (itemsToEnd item true).Takes text (']' :: rest) (pieces.map Prod.fst) := by
  have filled : ∀ text ∈ pieces.map Prod.snd, text ≠ [] := by
    intro text member
    obtain ⟨piece, inPieces, rfl⟩ := List.mem_map.mp member
    obtain ⟨c, more, same, -⟩ := begins piece inPieces
    rw [same]
    exact List.cons_ne_nil _ _
  have enough : pieces.length < (text ++ ']' :: rest).length := by
    have := separated.length_le filled
    simp only [List.length_map, List.length_append, List.length_cons] at this ⊢
    omega
  exact takes_items begins each separated enough rest

theorem takes_listOf {body : Read α} {value : α} (takes : body.Takes text (']' :: rest) value) :
    (listOf body).Takes ('[' :: (text ++ [']'])) rest value :=
  takes_enclosed Source.closeList '[' rfl takes

/-! ### Objects -/

/-- A key is read with what stands in front of it. -/
private theorem takes_nextKey (gap : Gap isFirst front) (key : String) (rest : List Char) :
    (nextKey .strict isFirst).Takes (front ++ (quote key).toList) rest (some key) := by
  have quoted : (quote key).toList = '"' :: (Json.escape key.toList ++ ['"']) := toList_quote key
  have named : (string .strict >>= fun key => pure (some key)).Takes
      (Json.escape key.toList ++ ['"']) rest (some key) :=
    (takes_string key rest).bind_nil (takes_pure (some key) rest)
  rw [quoted]
  cases gap with
  | first leads =>
    refine (takes_skipBlanks leads (by rintro _ ⟨⟩; decide)).bind (takes_peek_bind ?_)
    exact takes_peek_bind (takes_advance_bind named)
  | next trails leads =>
    rw [List.append_assoc]
    refine (takes_skipBlanks trails (by rintro _ ⟨⟩; decide)).bind (takes_peek_bind ?_)
    refine takes_advance_bind ((takes_skipBlanks leads (by rintro _ ⟨⟩; decide)).bind ?_)
    exact takes_peek_bind (takes_advance_bind named)

private theorem takes_nextKey_end {blanks : List Char} (spaces : ∀ c ∈ blanks, isSpace c)
    (isFirst : Bool) (rest : List Char) :
    (nextKey .strict isFirst).Takes blanks ('}' :: rest) none :=
  (takes_skipBlanks spaces (by rintro _ ⟨⟩; decide)).bind_nil (takes_peek_bind (takes_pure none _))

private theorem takes_colon {blanks : List Char} (spaces : ∀ c ∈ blanks, isSpace c)
    (rest : List Char) : colon.Takes (blanks ++ [':']) rest () := by
  refine (takes_skipBlanks spaces (by rintro _ ⟨⟩; decide)).bind (takes_peek_bind ?_)
  exact fun position => ⟨position.after ':', rfl⟩

/-- What stands behind a key is read by what reads the value behind the colon. -/
theorem takes_tail {field : Field} {read : Read α} {value : α}
    (takes : read.Takes (field.lead ++ field.content) rest value) :
    (colon >>= fun _ => read).Takes field.tail rest value :=
  (takes_colon field.trails _).bind takes

variable {member : σ → String → Read σ} {step : σ → String × Value → Except ε σ}
  {fields : List Field}

/-- The members of an object are read one by one, whatever the blanks round them, as long as each
can be taken in. -/
private theorem takes_members
    (each : ∀ field ∈ fields, ∀ state next, step state field.member = .ok next →
      ∀ rest, Bounded rest → (member state field.key).Takes field.tail rest next)
    (separated : Separated isFirst (fields.map Field.text) text)
    (enough : fields.length < rounds.length) {state result : σ}
    (done : (fields.map Field.member).foldlM step state = .ok result) (rest : List Char) :
    (members .strict member rounds isFirst state).Takes text ('}' :: rest) result := by
  obtain ⟨round, rounds, rfl⟩ := List.exists_cons_of_length_pos (Nat.zero_lt_of_lt enough)
  have bounded : Bounded ('}' :: rest) := bounded_cons (by decide) rest
  induction fields generalizing isFirst text round rounds state with
  | nil =>
    obtain rfl := Except.ok.inj done
    cases separated with
    | nil spaces => exact (takes_nextKey_end spaces isFirst rest).bind_nil (takes_pure _ _)
  | cons field fields ih =>
    obtain ⟨here, each⟩ := List.forall_mem_cons.mp each
    simp only [List.length_cons, Nat.add_lt_add_iff_right] at enough
    obtain ⟨another, rounds, rfl⟩ := List.exists_cons_of_length_pos (Nat.zero_lt_of_lt enough)
    rw [List.map_cons, List.foldlM_cons] at done
    obtain ⟨next, stepped, done⟩ := LogMotif.bind_eq_ok_iff.mp done
    obtain ⟨front, back, rfl, gap, behind⟩ := separated.exists_of_cons
    rw [Field.text, List.append_assoc, ← List.append_assoc]
    exact (takes_nextKey gap field.key _).bind
      ((here state next stepped _ (bounded_of_separated behind bounded)).bind
        (ih each behind done another rounds enough))

theorem takes_membersToEnd
    (each : ∀ field ∈ fields, ∀ state next, step state field.member = .ok next →
      ∀ rest, Bounded rest → (member state field.key).Takes field.tail rest next)
    (separated : Separated true (fields.map Field.text) text) {state result : σ}
    (done : (fields.map Field.member).foldlM step state = .ok result) (rest : List Char) :
    (membersToEnd .strict member state).Takes text ('}' :: rest) result := by
  have filled : ∀ text ∈ fields.map Field.text, text ≠ [] := by
    intro text member
    obtain ⟨field, -, rfl⟩ := List.mem_map.mp member
    rw [Field.text, toList_quote]
    exact List.cons_ne_nil _ _
  have enough : fields.length < (text ++ '}' :: rest).length := by
    have := separated.length_le filled
    simp only [List.length_map, List.length_append, List.length_cons] at this ⊢
    omega
  exact takes_members each separated enough done rest

/-- The members of an object are read with their values in their order. -/
theorem takes_membersWith {value : Read Value}
    (each : ∀ field ∈ fields, ∀ rest, Bounded rest →
      value.Takes (field.lead ++ field.content) rest field.value)
    (separated : Separated true (fields.map Field.text) text) (rest : List Char) :
    (membersWith .strict value).Takes text ('}' :: rest) (fields.map Field.member) := by
  let step (read : List (String × Value)) (member : String × Value) :
      Except Empty (List (String × Value)) := pure (member :: read)
  have eachMember : ∀ field ∈ fields, ∀ read next, step read field.member = .ok next →
      ∀ rest, Bounded rest →
        (do colon; return (field.key, ← value) :: read).Takes field.tail rest next := by
    rintro field inFields read _ ⟨⟩ rest bounded
    exact takes_tail ((each field inFields rest bounded).bind_nil (takes_pure _ rest))
  have folded : (fields.map Field.member).foldlM step [] =
      .ok (fields.map Field.member).reverse := by
    have reversed : (fields.map Field.member).foldl (fun read member => member :: read) [] =
        (fields.map Field.member).reverse := by simp
    rw [List.foldlM_pure, reversed]
    rfl
  refine (takes_membersToEnd eachMember separated folded rest).bind_nil ?_
  simp only [List.reverse_reverse]
  exact takes_pure _ _

end Read

end LogMotif.Json
