import LogMotif.Proofs.Pattern.Meaning
import LogMotif.Proofs.Pattern.Source

/-! # What is read matches the same

What is read from the written form of an expression is put together from single characters, and
brackets leave no trace in it. It matches what the expression matches.
-/

namespace LogMotif

namespace Regex

variable (multiLine : Bool)

theorem matches_sequence_cons (piece : Regex) (pieces : List Regex) :
    (sequence (piece :: pieces)).Matches multiLine =
      Relation.Comp (piece.Matches multiLine) ((sequence pieces).Matches multiLine) := by
  cases pieces with
  | nil => exact Relation.comp_eq.symm
  | cons => rfl

private theorem matches_sequence_append (front back : List Regex) :
    (sequence (front ++ back)).Matches multiLine =
      Relation.Comp ((sequence front).Matches multiLine) ((sequence back).Matches multiLine) := by
  induction front with
  | nil => exact Relation.eq_comp.symm
  | cons piece front ih =>
    rw [List.cons_append, matches_sequence_cons, ih, matches_sequence_cons, Relation.comp_assoc]

namespace Level

/-- What the current alternative of a level matches. -/
def MatchesLast (level : Level) : Place → Place → Prop :=
  (sequence level.pieces.reverse).Matches multiLine

private theorem matchesLast_push (level : Level) (piece : Regex) :
    (level.push piece).MatchesLast multiLine =
      Relation.Comp (level.MatchesLast multiLine) (piece.Matches multiLine) := by
  rw [MatchesLast, push, List.reverse_cons, matches_sequence_append]
  rfl

/-- A level matches what one of its alternatives does. -/
private theorem matches_regex_iff (level : Level) {start stop : Place} :
    level.regex.Matches multiLine start stop ↔
      (∃ alternative ∈ level.alternatives, alternative.Matches multiLine start stop) ∨
        level.MatchesLast multiLine start stop := by
  obtain ⟨alternatives, pieces⟩ := level
  simp only [regex, MatchesLast]
  generalize sequence pieces.reverse = last
  induction alternatives generalizing last with
  | nil => simp
  | cons front alternatives ih =>
    simp only [List.foldl_cons, ih, List.mem_cons, exists_eq_or_imp, Matches]
    exact or_left_comm.trans or_assoc.symm

/-- At the start of a further alternative, those in front match what has been read. -/
private theorem exists_mem_alternatives_next {level : Level} {start stop : Place} :
    (∃ alternative ∈ level.next.alternatives, alternative.Matches multiLine start stop) ↔
      level.regex.Matches multiLine start stop := by
  rw [matches_regex_iff, or_comm]
  simp only [next, List.mem_cons, exists_eq_or_imp]
  rfl

/-- Whether a level has come from another by more of the current alternative. -/
structure Extends (step : Place → Place → Prop) (level behind : Level) : Prop where
  alternatives : behind.alternatives = level.alternatives
  matchesLast : behind.MatchesLast multiLine = Relation.Comp (level.MatchesLast multiLine) step

variable {multiLine}

private theorem extends_push (level : Level) (piece : Regex) :
    level.Extends multiLine (piece.Matches multiLine) (level.push piece) :=
  ⟨rfl, level.matchesLast_push multiLine piece⟩

private theorem extends_push_of_eq (level : Level) {piece regex : Regex}
    (same : piece.Matches multiLine = regex.Matches multiLine) :
    level.Extends multiLine (regex.Matches multiLine) (level.push piece) :=
  same ▸ level.extends_push piece

private theorem Extends.trans {level middle behind : Level} {one other : Place → Place → Prop}
    (first : level.Extends multiLine one middle) (second : middle.Extends multiLine other behind) :
    level.Extends multiLine (Relation.Comp one other) behind :=
  ⟨second.alternatives.trans first.alternatives, by
    rw [second.matchesLast, first.matchesLast, Relation.comp_assoc]⟩

/-- A text is matched as its characters one after the other. -/
private theorem extends_literal (level : Level) (content : List Char) :
    level.Extends multiLine (Place.Passes content)
      (content.foldl (fun level c => level.push (.literal (String.singleton c))) level) := by
  induction content generalizing level with
  | nil => exact ⟨rfl, by rw [Place.passes_nil, Relation.comp_eq]; rfl⟩
  | cons c content ih =>
    have first : level.Extends multiLine _ _ := level.extends_push (.literal (String.singleton c))
    rw [Matches, String.toList_singleton] at first
    rw [← List.singleton_append, Place.passes_append]
    exact first.trans (ih _)

/-- Where an expression has been read behind complete alternatives, these match and so does it. -/
def Offers (multiLine : Bool) (level : Level) (regex : Regex) (behind : Level) : Prop :=
  ∀ start stop, behind.regex.Matches multiLine start stop ↔
    (∃ alternative ∈ level.alternatives, alternative.Matches multiLine start stop) ∨
      regex.Matches multiLine start stop

private theorem Extends.offers {level behind : Level} {regex : Regex} (fresh : level.pieces = [])
    (extended : level.Extends multiLine (regex.Matches multiLine) behind) :
    level.Offers multiLine regex behind := by
  intro start stop
  have nothing : level.MatchesLast multiLine = Eq := by
    rw [MatchesLast, fresh]
    rfl
  rw [matches_regex_iff, extended.alternatives, extended.matchesLast, nothing, Relation.eq_comp]

private theorem matches_of_offers {regex : Regex} {behind : Level}
    (offers : ({} : Level).Offers multiLine regex behind) :
    behind.regex.Matches multiLine = regex.Matches multiLine := by
  funext start stop
  simpa using offers start stop

end Level

variable {multiLine}

/-- Whether an expression is read back: unless it is a choice, its written form extends the
alternative in which it is read, and at the start of one it is an alternative of its own. -/
structure IsReadBack (multiLine : Bool) (regex : Regex) : Prop where
  extended : regex.isChoice = false → ∀ level : Level,
    level.Extends multiLine (regex.Matches multiLine) (level.add regex)
  offered : ∀ level : Level, level.pieces = [] → level.Offers multiLine regex (level.add regex)

namespace IsReadBack

variable {regex : Regex}

private theorem of_extends (extended : ∀ level : Level,
    level.Extends multiLine (regex.Matches multiLine) (level.add regex)) :
    regex.IsReadBack multiLine :=
  ⟨fun _ => extended, fun level fresh => (extended level).offers fresh⟩

/-- What is read by itself matches the same. -/
private theorem matches_add (readBack : regex.IsReadBack multiLine) :
    (Level.add {} regex).regex.Matches multiLine = regex.Matches multiLine :=
  Level.matches_of_offers (readBack.offered {} rfl)

/-- As a part of a sequence, an expression is read as one piece if it is a choice. -/
private theorem extends_part (readBack : regex.IsReadBack multiLine) (level : Level) :
    level.Extends multiLine (regex.Matches multiLine)
      (if regex.isChoice then level.push (Level.add {} regex).regex else level.add regex) := by
  split
  next => exact level.extends_push_of_eq readBack.matches_add
  next sequential => exact readBack.extended (Bool.eq_false_iff.mpr sequential) level

end IsReadBack

/-- Every expression is read back. -/
theorem isReadBack (regex : Regex) : regex.IsReadBack multiLine := by
  induction regex with
  | empty => exact .of_extends fun level => ⟨rfl, Relation.comp_eq.symm⟩
  | literal content => exact .of_extends fun level => level.extends_literal content.toList
  | append first second ihFirst ihSecond =>
    exact .of_extends fun level => (ihFirst.extends_part level).trans (ihSecond.extends_part _)
  | either first second ihFirst ihSecond =>
    refine ⟨fun sequential => Bool.noConfusion sequential, fun level fresh start stop => ?_⟩
    rw [Level.add, ihSecond.offered (level.add first).next rfl, Level.exists_mem_alternatives_next,
      ihFirst.offered level fresh, or_assoc]
    rfl
  | repeated operand repetition appetite ih =>
    exact .of_extends fun level => level.extends_push_of_eq (by simp only [Matches, ih.matches_add])
  | capture wildcard operand ih =>
    exact .of_extends fun level => level.extends_push_of_eq (by simp only [Matches, ih.matches_add])
  | _ => exact .of_extends fun level => level.extends_push _

/-- Whether a text, read as an expression, matches another that has `passed` in front of it and `rest`
behind it, and its groups take the given texts. -/
def SourceCovers (source : String) (passed text rest : List Char) (groups : Nat → Option String) :
    Prop :=
  ∃ multiLine regex, ofSource? source = some (multiLine, regex) ∧
    regex.Covers multiLine passed text rest (fun _ => none) groups

/-- The written form of an expression is read as one that matches the same. -/
theorem sourceCovers_iff {regex : Regex} (writable : regex.isWritable) {passed text rest : List Char}
    {groups : Nat → Option String} :
    SourceCovers ("(?m)" ++ regex.source) passed text rest groups ↔
      regex.Covers true passed text rest (fun _ => none) groups := by
  have same : (Level.add {} regex).regex.Matches true = regex.Matches true :=
    regex.isReadBack.matches_add
  simp [SourceCovers, ofSource?_source writable, Covers, same]

end Regex

end LogMotif
