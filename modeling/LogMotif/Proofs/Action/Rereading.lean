import LogMotif.Proofs.Action.Words
import LogMotif.Proofs.Json.ReplayValue

/-! # Actions that are read again

A list of actions is written as an array of the values that stand for them. It is read again as the
same list, if the numbers in the actions fit a word. Whatever the form in which actions are read,
their numbers fit a word, so they can be written and read again.
-/

namespace LogMotif.Action

open Json

/-! ### Reading what was written -/

private theorem takes_readKind (kind : Kind) {lead : List Char} (leads : ∀ c ∈ lead, isSpace c)
    (rest : List Char) : readKind.Takes (lead ++ (Value.string kind.name).chars) rest kind := by
  have start : Read.startOfValue.Takes lead ((Value.string kind.name).chars ++ rest) (some '"') :=
    Read.takes_startOfValue leads (by rw [Value.chars_string]; rfl) rfl
  refine start.bind ?_
  rw [Value.chars_string]
  refine Read.takes_advance_bind ((Read.takes_string kind.name rest).bind_nil ?_)
  rw [Kind.ofName_name]
  exact Read.takes_pure kind rest

/-- Take in a member of an action, of which the kind is told once. -/
def takeIn (kind : Kind) (read : Members) (member : String × Value) : Except Unit Members :=
  if member.1 = "action" then
    if read.1.isSome then .error () else .ok (some kind, read.2)
  else .ok (read.1, member :: read.2)

private theorem foldlM_takeIn (kind : Kind) {members : List (String × Value)}
    (others : ∀ member ∈ members, member.1 ≠ "action") (read : List (String × Value)) :
    members.foldlM (takeIn kind) (some kind, read) = .ok (some kind, members.reverse ++ read) := by
  induction members generalizing read with
  | nil => rfl
  | cons member members ih =>
    obtain ⟨here, others⟩ := List.forall_mem_cons.mp others
    rw [List.foldlM_cons, takeIn, if_neg here]
    refine (ih others _).trans ?_
    simp

variable {depth : Nat} {kind : Kind}

private theorem takes_readMember {field : Field} (laidOut : field.value.LaidOut field.content)
    (named : field.key = "action" → field.value = .string kind.name)
    (plain : field.key ≠ "action" → field.value.IsPlain depth) {read next : Members}
    (taken : takeIn kind read field.member = .ok next) {rest : List Char}
    (bounded : Read.Bounded rest) :
    (readMember depth read field.key).Takes field.tail rest next := by
  obtain ⟨kind?, members⟩ := read
  unfold readMember
  by_cases isAction : field.key = "action"
  · simp only [takeIn, Field.member, if_pos isAction] at taken
    simp only [if_pos isAction]
    rw [named isAction] at laidOut
    cases kind? with
    | some => cases taken
    | none =>
      obtain rfl := Except.ok.inj taken
      have found := takes_readKind kind field.leads rest
      rw [← laidOut.eq_chars] at found
      exact Read.takes_tail (found.bind_nil (Read.takes_pure _ rest))
  · simp only [takeIn, Field.member, if_neg isAction] at taken
    obtain rfl := Except.ok.inj taken
    simp only [if_neg isAction]
    exact Read.takes_tail_value (plain isAction) laidOut bounded (Read.takes_pure _ rest)

private theorem action_notMem_fields (kind : Kind) : "action" ∉ kind.fields := by
  cases kind <;> decide

/-- The members of an action are read as its kind and the values of its fields. -/
private theorem takes_readMembers {fields : List Field} {members : List (String × Value)}
    (members_eq : ("action", .string kind.name) :: members = fields.map Field.member)
    (others : ∀ member ∈ members, member.1 ≠ "action" ∧ member.2.IsPlain depth)
    (laid : ∀ field ∈ fields, field.value.LaidOut field.content) {text : List Char}
    (separated : Separated true (fields.map Field.text) text) (rest : List Char) :
    (readMembers depth).Takes text ('}' :: rest) (kind, .object members) := by
  have each : ∀ field ∈ fields, ∀ read next, takeIn kind read field.member = .ok next →
      ∀ rest, Read.Bounded rest → (readMember depth read field.key).Takes field.tail rest next := by
    intro field inFields read next taken rest bounded
    have isMember : field.member ∈ ("action", .string kind.name) :: members := by
      rw [members_eq]
      exact List.mem_map_of_mem inFields
    rcases List.mem_cons.mp isMember with same | inMembers
    · obtain ⟨key_eq, value_eq⟩ := Prod.mk.inj same
      exact takes_readMember (laid field inFields) (fun _ => value_eq) (absurd key_eq) taken bounded
    · obtain ⟨other, plain⟩ := others _ inMembers
      exact takes_readMember (laid field inFields) (fun same => absurd same other) (fun _ => plain)
        taken bounded
  have done : (fields.map Field.member).foldlM (takeIn kind) (none, []) =
      .ok (some kind, members.reverse) := by
    have behind := foldlM_takeIn kind (fun member inMembers => (others member inMembers).1) []
    rw [List.append_nil] at behind
    rw [← members_eq, List.foldlM_cons]
    exact behind
  refine (Read.takes_membersToEnd each separated done rest).bind_nil ?_
  simp only [List.reverse_reverse]
  exact Read.takes_pure _ _

/-- An action that is written as an object is found in the members that are read. -/
private theorem takes_read_of_members {kind : Kind} {content : Value} {text rest : List Char}
    (takes : (readMembers depth).Takes text ('}' :: rest) (kind, content)) {action : Action}
    (isAction : ofFields kind content = .ok action) :
    (read depth).Takes ('{' :: (text ++ ['}'])) rest action := by
  refine Read.takes_startOfValue_bind rfl ((Read.takes_objectOf takes).bind_nil ?_)
  simp only [isAction]
  exact Read.takes_pure action rest

/-- An action is read from any layout, if two more brackets may be open inside of it. -/
theorem takes_read {action : Action} (inWords : action.InWords) {text : List Char}
    (laidOut : action.toValue.LaidOut text) (rest : List Char) :
    (read (depth + 2)).Takes text rest action := by
  unfold toValue at laidOut
  cases laidOut with
  | object members_eq laid separated =>
    refine takes_read_of_members (takes_readMembers members_eq (fun member inMembers => ?_) laid
      separated rest) (ofFields_fieldValues action)
    obtain ⟨inFields, inValues⟩ := List.of_mem_zip inMembers
    refine ⟨?_, isPlain_fieldValues depth inWords _ inValues⟩
    rintro same
    exact action_notMem_fields action.kind (same ▸ inFields)

/-- The text that a list of actions is written as. -/
def listText (actions : List Action) : String := (Value.array (actions.map toValue)).compact

theorem listOfText_listText {actions : List Action} (inWords : ∀ action ∈ actions, action.InWords) :
    listOfText (listText actions) = .ok actions := by
  let piece (action : Action) : Action × List Char := (action, action.toValue.chars)
  have texts_eq : (Value.compactItems (actions.map toValue)).map String.toList =
      (actions.map piece).map Prod.snd := by
    rw [Value.compactItems_eq_map, List.map_map, List.map_map, List.map_map]
    rfl
  have separated := Value.separated_intercalate (Value.compactItems (actions.map toValue))
  rw [texts_eq] at separated
  have begins : ∀ found ∈ actions.map piece, Read.Begins found.2 := by
    intro found inPieces
    obtain ⟨action, -, rfl⟩ := List.mem_map.mp inPieces
    exact ⟨'{', _, Value.chars_object _, by decide⟩
  have each : ∀ found ∈ actions.map piece, ∀ rest, Read.Bounded rest →
      (read (nestingLimit - 2)).Takes found.2 rest found.1 := by
    intro found inPieces rest _
    obtain ⟨action, inActions, rfl⟩ := List.mem_map.mp inPieces
    exact takes_read (inWords action inActions) (Value.laidOut_chars _) rest
  have actions_eq : (actions.map piece).map Prod.fst = actions := by
    rw [List.map_map]
    exact List.map_id actions
  have list := Read.takes_listOf (Read.takes_itemsToEnd begins each separated [])
  rw [actions_eq] at list
  have text_eq : (listText actions).toList = _ := Value.chars_array (actions.map toValue)
  refine Read.Takes.run ?_
  rw [text_eq]
  exact Read.takes_startOfValue_bind rfl list

/-- Every list of actions whose numbers fit a word is read again from its written form. So is every
list that was read, in whatever form it had been written. -/
theorem listOfText_listText_eq_ok :
    (∀ actions : List Action, (∀ action ∈ actions, action.InWords) →
      listOfText (listText actions) = .ok actions) ∧
    ∀ text actions, listOfText text = .ok actions →
      listOfText (listText actions) = .ok actions := by
  refine ⟨fun actions => listOfText_listText, fun text actions isRead => ?_⟩
  exact listOfText_listText (inWords_of_listOfText isRead)

/-- The greatest distance, and a text in other forms: an array, members in another order, one that
means nothing and one left out. -/
theorem listOfText_listText_eq_ok_other_forms :
    let farthest := [appendRows [["a\"\\\n"]], setLink 0 (.atMost Index.greatest)]
    let text := "[[\"remove_entry\", 3], \x7b\"cell\": 1, \"note\": [], \"entry\": 0, " ++
      "\"action\": \"toggle_cell\"\x7d]"
    let actions := [removeEntry 3, toggleCell 0 1 false]
    listOfText (listText farthest) = .ok farthest ∧ listOfText text = .ok actions ∧
      listText actions ≠ text ∧ listOfText (listText actions) = .ok actions := by
  intro farthest text actions
  have inWords : ∀ action ∈ farthest, action.InWords := by
    simp [farthest, InWords, numbers, Link.numbers]
  have isRead : listOfText text = .ok actions := by
    subst text
    rfl
  exact ⟨listOfText_listText_eq_ok.1 farthest inWords, isRead, by decide +kernel,
    listOfText_listText_eq_ok.2 text actions isRead⟩

end LogMotif.Action
