import Mathlib.Logic.Function.Basic
import LogMotif.Proofs.Pattern.Attempt

/-! # Renamed wildcards in a line pattern

The names under which a line pattern captures and recalls texts play no part in how it is matched.
When they are changed one to one, each attempt takes the same choices and ends in the same way, at
the same cost, with the same texts under the changed names.
-/

namespace LogMotif

/-- An outcome with its result replaced. -/
def Outcome.map {α β : Type} (f : α → β) : Outcome α → Outcome β
  | .found result => .found (f result)
  | .failed left => .failed left
  | .exhausted => .exhausted

namespace Attempt

variable {α β : Type} (f : α → β)

/-- An attempt with its result replaced. -/
def map (attempt : Attempt α) : Attempt β := fun budget => (attempt budget).map f

private theorem map_fail : map f fail = fail := rfl

private theorem map_ofOption (answer : Option α) :
    map f (ofOption answer) = ofOption (answer.map f) := by
  cases answer <;> rfl

private theorem map_orElse (first second : Attempt α) :
    map f (orElse first second) = orElse (map f first) (map f second) := by
  funext budget
  simp only [map, orElse]
  cases first budget with
  | found result => rfl
  | exhausted => rfl
  | failed left => cases left <;> rfl

private theorem map_andThen (text? : Option (List Char)) (next : List Char → Attempt α) :
    map f (andThen text? next) = andThen text? fun text => map f (next text) := by
  cases text? <;> rfl

private theorem map_ite (condition : Prop) [Decidable condition] (first second : Attempt α) :
    map f (if condition then first else second) =
      if condition then map f first else map f second := apply_ite ..

private theorem map_greedyUnits (next : List Char → Attempt α) (text : List Char) :
    map f (greedyUnits next text) = greedyUnits (fun rest => map f (next rest)) text := by
  fun_induction greedyUnits next text with
  | case1 c rest ih => rw [greedyUnits, map_orElse, map_orElse, map_ite, ih, map_fail]
  | case2 c rest notEscape ih =>
    rw [greedyUnits.eq_2 _ _ _ notEscape, map_orElse, map_orElse, map_ite, ih, map_fail]
  | case3 => rw [greedyUnits, map_orElse, map_orElse, map_fail]

private theorem map_frugalUnits (next : Nat → List Char → Attempt α) (taken : Nat)
    (text : List Char) :
    map f (frugalUnits next taken text) =
      frugalUnits (fun taken rest => map f (next taken rest)) taken text := by
  fun_induction frugalUnits next taken text with
  | case1 taken c rest ih => rw [frugalUnits, map_orElse, map_ite, map_orElse, ih, map_fail]
  | case2 taken c rest notEscape ih =>
    rw [frugalUnits.eq_2 _ _ _ _ notEscape, map_orElse, map_ite, map_orElse, ih, map_fail]
  | case3 => rw [frugalUnits, map_orElse, map_fail]

end Attempt

/-- Texts captured under renamed wildcards. -/
def Captures.rename (change : Nat → Nat) (captures : Captures) : Captures :=
  captures.map (Prod.map change id)

/-- Pieces captured under renamed wildcards. -/
def Pieces.rename (change : Nat → Nat) (pieces : Pieces) : Pieces :=
  pieces.map (Prod.map change id)

variable {change : Nat → Nat}

/-- What is found under a renamed wildcard is what was found under the wildcard. -/
private theorem lookup_map_rename {α : Type} (injective : change.Injective) (pairs : List (Nat × α))
    (wildcard : Nat) :
    (pairs.map (Prod.map change id)).lookup (change wildcard) = pairs.lookup wildcard := by
  induction pairs with
  | nil => rfl
  | cons first pairs ih =>
    have same : (change wildcard == change first.1) = (wildcard == first.1) := by
      rw [Bool.eq_iff_iff, beq_iff_eq, beq_iff_eq, injective.eq_iff]
    rw [List.map_cons, Prod.map, List.lookup_cons, List.lookup_cons, ih, same]
    rfl

theorem Captures.lookup_rename (injective : change.Injective) (captures : Captures)
    (wildcard : Nat) :
    (captures.rename change).lookup (change wildcard) = captures.lookup wildcard :=
  lookup_map_rename injective captures wildcard

private theorem Pieces.captures_rename (pieces : Pieces) :
    (pieces.rename change).captures = pieces.captures.rename change := by
  simp [captures, rename, Captures.rename]

namespace LineItem

/-- An item with its wildcard renamed. -/
def rename (change : Nat → Nat) : LineItem → LineItem
  | capture wildcard => capture (change wildcard)
  | recalled wildcard => recalled (change wildcard)
  | item => item

private theorem ends_rename (injective : change.Injective) (captures : Captures) (text : List Char)
    (item : LineItem) :
    (item.rename change).ends (captures.rename change) text = item.ends captures text := by
  cases item with
  | recalled wildcard => simp only [rename, ends, captures.lookup_rename injective]
  | _ => rfl

private theorem record_rename (captures : Captures) (text : List Char) (taken : Nat)
    (item : LineItem) :
    (item.rename change).record (captures.rename change) text taken =
      (item.record captures text taken).rename change := by
  cases item with
  | capture wildcard => simp [rename, record, Captures.rename]
  | _ => rfl

end LineItem

namespace LinePattern

/-- A line pattern with its wildcards renamed. -/
def rename (change : Nat → Nat) (pattern : LinePattern) : LinePattern :=
  pattern.map (LineItem.rename change)

private theorem hasRecall_rename (change : Nat → Nat) (pattern : LinePattern) :
    (pattern.rename change).hasRecall = pattern.hasRecall := by
  rw [hasRecall, rename, List.any_map, hasRecall]
  congr 1
  funext item
  cases item <;> rfl

private theorem matchFrom?_rename (injective : change.Injective) (pattern : LinePattern)
    (captures : Captures) (text : List Char) :
    matchFrom? (pattern.rename change) (captures.rename change) text =
      (matchFrom? pattern captures text).map (Captures.rename change) := by
  induction pattern generalizing captures text with
  | nil => cases text <;> rfl
  | cons item pattern ih =>
    rw [rename, List.map_cons, ← rename, matchFrom?, matchFrom?,
      LineItem.ends_rename injective, List.map_findSome?]
    congr 1
    funext found
    obtain ⟨taken, rest⟩ := found
    simp only [LineItem.record_rename, ih, Function.comp_apply]

/-- Without recalls, matching in step with the items does not depend on the names either. -/
private theorem findFrom?_rename (injective : change.Injective) {pattern : LinePattern}
    (plain : pattern.hasRecall = false) (captures : Captures) (text : List Char) :
    findFrom? (pattern.rename change) (.mk fun _ => captures.rename change) text =
      (findFrom? pattern (.mk fun _ => captures) text).map (Captures.rename change) := by
  rw [findFrom?_eq_matchFrom? plain,
    findFrom?_eq_matchFrom? ((hasRecall_rename change pattern).trans plain)]
  exact matchFrom?_rename injective pattern captures text

private theorem attemptFrom_rename (injective : change.Injective) (pattern : LinePattern)
    (pieces : Pieces) (text : List Char) :
    attemptFrom (pattern.rename change) (pieces.rename change) text =
      (attemptFrom pattern pieces text).map (Captures.rename change) := by
  have unrecalled (pattern : LinePattern) (plain : pattern.hasRecall = false) (pieces : Pieces)
      (text : List Char) :
      Attempt.ofOption (findFrom? (pattern.rename change)
          (.mk fun _ => (pieces.rename change).captures) text) =
        (Attempt.ofOption (findFrom? pattern (.mk fun _ => pieces.captures) text)).map
          (Captures.rename change) := by
    rw [pieces.captures_rename, findFrom?_rename injective plain, Attempt.map_ofOption]
  induction pattern generalizing pieces text with
  | nil => exact unrecalled [] rfl pieces text
  | cons item pattern ih =>
    have still := hasRecall_rename change (item :: pattern)
    rw [rename, List.map_cons, ← rename] at still ⊢
    unfold attemptFrom
    rw [still]
    split
    next =>
      cases item with
      | literal content => simp only [LineItem.rename, Attempt.map_andThen, ← ih]
      | anyString =>
        simp only [LineItem.rename, Attempt.map_andThen, Attempt.map_greedyUnits, ← ih]
      | stretch => simp only [LineItem.rename, Attempt.map_frugalUnits, ih]
      | capture wildcard =>
        rw [Attempt.map_frugalUnits]
        refine congrArg (Attempt.frugalUnits · 0 text) ?_
        funext taken rest
        rw [← ih, Pieces.rename, Pieces.rename, List.map_append]
        rfl
      | recalled wildcard =>
        simp only [LineItem.rename, Pieces.rename, lookup_map_rename injective, Attempt.map_andThen,
          ← ih]
    next plain => exact unrecalled _ (Bool.eq_false_iff.mpr plain) pieces text

/-- An attempt at a line ends in the same way under other names. -/
theorem attempt_rename (injective : change.Injective) (pattern : LinePattern) (budget : Nat)
    (line : String) :
    (pattern.rename change).attempt budget line =
      (pattern.attempt budget line).map (Captures.rename change) :=
  congrFun (attemptFrom_rename injective pattern [] line.toList) budget

end LinePattern

end LogMotif
