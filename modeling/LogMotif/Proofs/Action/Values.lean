import LogMotif.Action.Reader
import LogMotif.Proofs.Json.Layout
import LogMotif.Proofs.Outcomes

/-! # Actions as values

The value that stands for an action has its fields under their names, so the action is found in it
again. Where the numbers of the action fit a word, so do those of the value.
-/

namespace LogMotif

open Json

namespace Json

theorem Value.toTexts_ofStrings (texts : List String) : (ofStrings texts).toTexts = .ok texts := by
  have each (text : String) : (string text).toText = .ok text := rfl
  exact mapM_map_eq_ok each texts

theorem Value.isPlain_ofStrings (depth : Nat) (texts : List String) :
    (ofStrings texts).IsPlain (depth + 1) := by
  refine .array fun item member => ?_
  obtain ⟨text, -, rfl⟩ := List.mem_map.mp member
  exact .string depth text

private theorem Value.toRows_array (rows : List (List String)) :
    (Value.array (rows.map .ofStrings)).toRows = .ok rows :=
  mapM_map_eq_ok toTexts_ofStrings rows

end Json

/-- The numbers in a link. -/
def Link.numbers : Link → List Nat
  | any => []
  | exactly rows => [rows]
  | atMost rows => [rows]

/-- The numbers in a selection. -/
def Selection.numbers (selection : Selection) : List Nat :=
  [selection.entry, selection.cell, selection.range.segment, selection.range.start,
    selection.range.stop]

namespace Action

/-- The numbers in an action. -/
def numbers : Action → List Nat
  | appendRows _ => []
  | removeEntry entry => [entry]
  | toggleCell entry cell _ => [entry, cell]
  | toggleLink entry => [entry]
  | setLink entry link => entry :: link.numbers
  | createWildcard selection => selection.numbers
  | useWildcard wildcard selection => wildcard :: selection.numbers
  | createWildcardOverText entry cell start stop => [entry, cell, start, stop]
  | useWildcardOverText wildcard entry cell start stop => [wildcard, entry, cell, start, stop]
  | removeWildcard entry cell segment => [entry, cell, segment]

/-- Whether the numbers in an action fit a word. -/
def InWords (action : Action) : Prop := ∀ n ∈ action.numbers, n ≤ Index.greatest

theorem Kind.ofName_name (kind : Kind) : Kind.ofName kind.name = .ok kind := by
  cases kind <;> rfl

private theorem ofFields_appendRows (rows : Value) :
    ofFields .appendRows (.object [("rows", rows)]) = rows.toRows.map appendRows := by
  have put : (Kind.shape .appendRows).putMember ({}, []) ("rows", rows) =
      (rows.toRows.map fun rows => { rows := some rows }).map (·, ["rows"]) := rfl
  have read : RecordShape.read (Kind.shape .appendRows) {} (.object [("rows", rows)]) =
      rows.toRows.map fun rows => ({ rows := some rows }, .map) := by
    rw [RecordShape.read, List.foldlM_cons, put]
    cases rows.toRows <;> rfl
  rw [ofFields, read]
  cases rows.toRows <;> rfl

/-- An action is found in the values of its fields. -/
theorem ofFields_fieldValues (action : Action) :
    ofFields action.kind (.object (action.kind.fields.zip action.fieldValues)) = .ok action := by
  cases action with
  | appendRows rows =>
    refine (ofFields_appendRows _).trans ?_
    rw [Value.toRows_array]
    rfl
  | setLink entry link => cases link <;> rfl
  | removeEntry | toggleCell | toggleLink | createWildcard | useWildcard | createWildcardOverText
  | useWildcardOverText | removeWildcard => rfl

/-! ### The values of the fields -/

private theorem isPlain_rows (depth : Nat) (rows : List (List String)) :
    (Value.array (rows.map .ofStrings)).IsPlain (depth + 2) := by
  refine .array fun item member => ?_
  obtain ⟨texts, -, rfl⟩ := List.mem_map.mp member
  exact Value.isPlain_ofStrings depth texts

private theorem isPlain_link (depth : Nat) {link : Link}
    (inWords : ∀ n ∈ link.numbers, n ≤ Index.greatest) :
    link.toValue.IsPlain (depth + 1) := by
  cases link with
  | any => exact .string _ _
  | exactly rows | atMost rows =>
    refine .object (List.forall_mem_singleton.mpr (.ofNat _ ?_))
    exact inWords rows (List.mem_singleton_self rows)

private theorem isPlain_selection (depth : Nat) {selection : Selection}
    (inWords : ∀ n ∈ selection.numbers, n ≤ Index.greatest) :
    selection.toValue.IsPlain (depth + 1) := by
  refine .object fun member inMembers => ?_
  have values_eq : [Value.ofNat selection.entry, .ofNat selection.cell,
      .ofNat selection.range.segment, .ofNat selection.range.start,
      .ofNat selection.range.stop] = selection.numbers.map .ofNat := rfl
  rw [values_eq] at inMembers
  obtain ⟨n, isNumber, same⟩ := List.mem_map.mp (List.of_mem_zip inMembers).2
  rw [← same]
  exact .ofNat depth (inWords n isNumber)

/-- The values of the fields of an action can be read back where two more brackets may be open. -/
theorem isPlain_fieldValues (depth : Nat) {action : Action} (inWords : action.InWords) :
    ∀ value ∈ action.fieldValues, value.IsPlain (depth + 2) := by
  have each : ∀ value ∈ action.numbers.map Value.ofNat, value.IsPlain (depth + 2) := by
    intro value member
    obtain ⟨n, isNumber, rfl⟩ := List.mem_map.mp member
    exact .ofNat _ (inWords n isNumber)
  cases action with
  | appendRows rows => exact List.forall_mem_singleton.mpr (isPlain_rows depth rows)
  | toggleCell entry cell exclusive =>
    exact List.forall_mem_append.mpr ⟨each, List.forall_mem_singleton.mpr (.bool _ exclusive)⟩
  | setLink entry link =>
    obtain ⟨here, inWords⟩ := List.forall_mem_cons.mp inWords
    exact List.forall_mem_cons.mpr
      ⟨.ofNat _ here, List.forall_mem_singleton.mpr (isPlain_link _ inWords)⟩
  | createWildcard selection => exact List.forall_mem_singleton.mpr (isPlain_selection _ inWords)
  | useWildcard wildcard selection =>
    obtain ⟨here, inWords⟩ := List.forall_mem_cons.mp inWords
    exact List.forall_mem_cons.mpr
      ⟨.ofNat _ here, List.forall_mem_singleton.mpr (isPlain_selection _ inWords)⟩
  | removeEntry | toggleLink | createWildcardOverText | useWildcardOverText | removeWildcard =>
    exact each

end Action

end LogMotif
