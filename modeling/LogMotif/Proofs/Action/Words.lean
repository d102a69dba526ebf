import LogMotif.Proofs.Action.Values
import LogMotif.Proofs.Json.Words

/-! # The numbers of actions that are read

Whatever the form in which an action is written, each of its numbers is one of the numbers that were
read, so it fits a word.
-/

namespace LogMotif

open Json

private theorem Link.forall_le_of_ofName {name : String} {value? : Option Value}
    (inWords : ∀ value ∈ value?, value.InWords) {link : Link}
    (isLink : ofName name value? = .ok link) : ∀ n ∈ link.numbers, n ≤ Index.greatest := by
  unfold ofName at isLink
  dsimp only at isLink
  split at isLink
  case h_1 =>
    split at isLink
    case h_1 | h_2 | h_3 =>
      obtain rfl := Except.ok.inj isLink
      exact List.forall_mem_nil _
    case h_4 => cases isLink
  case h_2 | h_3 =>
    obtain ⟨rows, isNumber, rfl⟩ := map_eq_ok_iff.mp isLink
    refine List.forall_mem_singleton.mpr ?_
    cases value? with
    | none => cases isNumber
    | some value => exact Value.le_of_toNat (inWords value rfl) isNumber
  case h_4 => cases isLink

private theorem Link.forall_le_of_ofValue {value : Value} (inWords : value.InWords) {link : Link}
    (isLink : ofValue value = .ok link) : ∀ n ∈ link.numbers, n ≤ Index.greatest := by
  unfold ofValue at isLink
  split at isLink
  next => exact forall_le_of_ofName (by rintro _ ⟨⟩) isLink
  next =>
    cases inWords with
    | object all => exact forall_le_of_ofName (by rintro _ ⟨⟩; exact all _ List.mem_cons_self) isLink
  next => cases isLink
  next => cases isLink

private theorem Selection.forall_le_of_ofValue {value : Value} (inWords : value.InWords)
    {selection : Selection} (isSelection : ofValue value = .ok selection) :
    ∀ n ∈ selection.numbers, n ≤ Index.greatest := by
  obtain ⟨numbers, areNumbers, same⟩ := bind_eq_ok_iff.mp isSelection
  have all := forall_le_of_toNats inWords areNumbers
  split at same
  next =>
    obtain rfl := Except.ok.inj same
    exact all
  next => cases same

namespace Action

/-- Whether the numbers in a draft fit a word. -/
structure Draft.InWords (draft : Draft) : Prop where
  numbers : ∀ pair ∈ draft.numbers, pair.2 ≤ Index.greatest
  link : ∀ link ∈ draft.link, ∀ n ∈ link.numbers, n ≤ Index.greatest
  selection : ∀ selection ∈ draft.selection, ∀ n ∈ selection.numbers, n ≤ Index.greatest

private theorem Draft.inWords_of_put {draft next : Draft} (here : draft.InWords) {field : String}
    {value : Value} (inWords : value.InWords) (put : draft.put field value = .ok next) :
    next.InWords := by
  unfold Draft.put at put
  split at put
  next =>
    obtain ⟨rows, -, rfl⟩ := map_eq_ok_iff.mp put
    exact ⟨here.numbers, here.link, here.selection⟩
  next =>
    obtain ⟨link, isLink, rfl⟩ := map_eq_ok_iff.mp put
    refine ⟨here.numbers, ?_, here.selection⟩
    rintro _ ⟨⟩
    exact Link.forall_le_of_ofValue inWords isLink
  next =>
    obtain ⟨selection, isSelection, rfl⟩ := map_eq_ok_iff.mp put
    refine ⟨here.numbers, here.link, ?_⟩
    rintro _ ⟨⟩
    exact Selection.forall_le_of_ofValue inWords isSelection
  next =>
    obtain ⟨exclusive, -, rfl⟩ := map_eq_ok_iff.mp put
    exact ⟨here.numbers, here.link, here.selection⟩
  next =>
    obtain ⟨n, isNumber, rfl⟩ := map_eq_ok_iff.mp put
    refine ⟨List.forall_mem_cons.mpr ⟨?_, here.numbers⟩, here.link, here.selection⟩
    exact Value.le_of_toNat inWords isNumber

private theorem Draft.inWords_of_finish {draft : Draft} (inWords : draft.InWords) {kind : Kind}
    {form : RecordForm} {action : Action} (finished : draft.finish kind form = .ok action) :
    action.InWords := by
  have number {name : String} {n : Nat}
      (isThere : kind.shape.require form name (draft.numbers.lookup name) = .ok n) :
      n ≤ Index.greatest :=
    inWords.numbers _ (mem_of_lookup (RecordShape.eq_some_of_require isThere))
  have selection {selection : Selection}
      (isThere : kind.shape.require form "selection" draft.selection = .ok selection) :
      ∀ n ∈ selection.numbers, n ≤ Index.greatest :=
    inWords.selection selection (RecordShape.eq_some_of_require isThere)
  cases kind with
  | appendRows =>
    obtain ⟨rows, -, same⟩ := bind_eq_ok_iff.mp finished
    obtain rfl := Except.ok.inj same
    exact List.forall_mem_nil _
  | removeEntry | toggleLink =>
    obtain ⟨entry, isEntry, same⟩ := bind_eq_ok_iff.mp finished
    obtain rfl := Except.ok.inj same
    exact List.forall_mem_singleton.mpr (number isEntry)
  | toggleCell =>
    obtain ⟨entry, isEntry, finished⟩ := bind_eq_ok_iff.mp finished
    obtain ⟨cell, isCell, same⟩ := bind_eq_ok_iff.mp finished
    obtain rfl := Except.ok.inj same
    simp [Action.InWords, Action.numbers, number isEntry, number isCell]
  | setLink =>
    obtain ⟨entry, isEntry, finished⟩ := bind_eq_ok_iff.mp finished
    obtain ⟨link, isLink, same⟩ := bind_eq_ok_iff.mp finished
    obtain rfl := Except.ok.inj same
    refine List.forall_mem_cons.mpr ⟨number isEntry, ?_⟩
    exact inWords.link link (RecordShape.eq_some_of_require isLink)
  | createWildcard =>
    obtain ⟨found, isSelection, same⟩ := bind_eq_ok_iff.mp finished
    obtain rfl := Except.ok.inj same
    exact selection isSelection
  | useWildcard =>
    obtain ⟨wildcard, isWildcard, finished⟩ := bind_eq_ok_iff.mp finished
    obtain ⟨found, isSelection, same⟩ := bind_eq_ok_iff.mp finished
    obtain rfl := Except.ok.inj same
    exact List.forall_mem_cons.mpr ⟨number isWildcard, selection isSelection⟩
  | createWildcardOverText =>
    obtain ⟨entry, isEntry, finished⟩ := bind_eq_ok_iff.mp finished
    obtain ⟨cell, isCell, finished⟩ := bind_eq_ok_iff.mp finished
    obtain ⟨start, isStart, finished⟩ := bind_eq_ok_iff.mp finished
    obtain ⟨stop, isStop, same⟩ := bind_eq_ok_iff.mp finished
    obtain rfl := Except.ok.inj same
    simp [Action.InWords, Action.numbers, number isEntry, number isCell, number isStart,
      number isStop]
  | useWildcardOverText =>
    obtain ⟨wildcard, isWildcard, finished⟩ := bind_eq_ok_iff.mp finished
    obtain ⟨entry, isEntry, finished⟩ := bind_eq_ok_iff.mp finished
    obtain ⟨cell, isCell, finished⟩ := bind_eq_ok_iff.mp finished
    obtain ⟨start, isStart, finished⟩ := bind_eq_ok_iff.mp finished
    obtain ⟨stop, isStop, same⟩ := bind_eq_ok_iff.mp finished
    obtain rfl := Except.ok.inj same
    simp [Action.InWords, Action.numbers, number isWildcard, number isEntry, number isCell,
      number isStart, number isStop]
  | removeWildcard =>
    obtain ⟨entry, isEntry, finished⟩ := bind_eq_ok_iff.mp finished
    obtain ⟨cell, isCell, finished⟩ := bind_eq_ok_iff.mp finished
    obtain ⟨segment, isSegment, same⟩ := bind_eq_ok_iff.mp finished
    obtain rfl := Except.ok.inj same
    simp [Action.InWords, Action.numbers, number isEntry, number isCell, number isSegment]

private theorem inWords_of_ofFields {kind : Kind} {content : Value} (inWords : content.InWords)
    {action : Action} (isAction : ofFields kind content = .ok action) : action.InWords := by
  obtain ⟨⟨draft, form⟩, isRead, isAction⟩ := bind_eq_ok_iff.mp isAction
  obtain ⟨found, finished, isAction⟩ := bind_eq_ok_iff.mp isAction
  obtain ⟨-, -, same⟩ := bind_eq_ok_iff.mp isAction
  obtain rfl := Except.ok.inj same
  have empty : ({} : Draft).InWords := ⟨List.forall_mem_nil _, nofun, nofun⟩
  exact Draft.inWords_of_finish (RecordShape.keeps_of_read Draft.InWords
    (fun _ _ _ _ here inWords put => Draft.inWords_of_put here inWords put) empty inWords isRead)
    finished

/-! ### Reading -/

variable (depth : Nat)

private theorem yields_readMembers : (readMembers depth).Yields fun found => found.2.InWords := by
  have each (read : Members) (key : String) (here : ∀ member ∈ read.2, member.2.InWords) :
      (readMember depth read key).Yields fun read => ∀ member ∈ read.2, member.2.InWords := by
    obtain ⟨kind?, members⟩ := read
    unfold readMember
    dsimp only
    split
    next =>
      refine Read.yields_ite_bind (Read.yields_bind fun _ => ?_)
      exact Read.yields_bind fun kind => Read.yields_pure here
    next =>
      refine Read.yields_bind fun _ => (Read.yields_value .strict depth).bind fun value inWords => ?_
      exact Read.yields_pure (List.forall_mem_cons.mpr ⟨inWords, here⟩)
  refine (Read.yields_membersToEnd _ .strict each (List.forall_mem_nil _)).bind fun read all => ?_
  split
  next =>
    refine Read.yields_pure (.object fun member inMembers => ?_)
    exact all member (List.mem_reverse.mp inMembers)
  next => exact Read.yields_mismatched _

private theorem yields_readElements : (readElements depth).Yields fun found => found.2.InWords := by
  refine Read.yields_bind fun more => ?_
  split
  next =>
    refine Read.yields_bind fun kind => ?_
    exact ((Read.yields_value .strict depth).itemsToEnd false).bind fun _ all =>
      Read.yields_pure (.array all)
  next => exact Read.yields_mismatched _

/-- The numbers of an action that is read fit a word. -/
private theorem yields_read : (read depth).Yields InWords := by
  have nothing : Read.Yields (Read.unexpected expectation) fun found : Kind × Value =>
      found.2.InWords := Read.yields_unexpected _
  refine Read.yields_bind fun c? => ?_
  split
  on_goal 1 => refine (yields_readElements depth).listOf.bind fun found inWords => ?_
  on_goal 2 => refine (yields_readMembers depth).objectOf.bind fun found inWords => ?_
  on_goal 3 => refine nothing.bind fun found inWords => ?_
  all_goals
    obtain ⟨kind, content⟩ := found
    dsimp only
    split
    next isAction => exact Read.yields_pure (inWords_of_ofFields inWords isAction)
    next => exact Read.yields_mismatched _

theorem inWords_of_listOfText {text : String} {actions : List Action}
    (isRead : listOfText text = .ok actions) : ∀ action ∈ actions, action.InWords := by
  obtain ⟨left, taken, -⟩ := Read.run_eq_ok_iff.mp isRead
  obtain ⟨c?, start, -, taken⟩ := Read.bind_eq_ok_iff.mp taken
  split at taken
  next => exact ((yields_read _).itemsToEnd true).listOf _ _ _ taken
  next => exact absurd taken (Read.unexpected_ne_ok _ _ _)

end Action

end LogMotif
