import Mathlib.Logic.Function.Basic
import Mathlib.Logic.Relation
import LogMotif.Proofs.Pattern.Content

/-! # What regular expressions match

An expression leads from one place in a text to another, past the part of the text that it matches.
A place also tells which text each group has taken last, so that a group can be recalled. Only
whether there is a way to match matters here: greedy and frugal repetitions match the same.
-/

namespace LogMotif

/-- Whether an operand may be repeated so often. -/
def Repetition.Allows (count : Nat) : Repetition → Prop
  | zeroOrMore => True
  | oneOrMore => 1 ≤ count
  | exactly times => count = times
  | upTo times => count ≤ times

namespace Regex

open LineItem (IsContent IsStretch)

/-- A place in a text: what has been passed, what is left, and what the group of each wildcard has
taken. -/
structure Place where
  passed : List Char
  rest : List Char
  groups : Nat → Option String

namespace Place

/-- Whether a text lies between two places, on which no group has taken anything. -/
inductive Passes (text : List Char) : Place → Place → Prop
  | intro (passed rest : List Char) (groups : Nat → Option String) :
      Passes text ⟨passed, text ++ rest, groups⟩ ⟨passed ++ text, rest, groups⟩

/-- The place at which the group of a wildcard has taken a text. -/
def take (place : Place) (wildcard : Nat) (taken : List Char) : Place :=
  { place with groups := Function.update place.groups wildcard (some (String.ofList taken)) }

/-- Whether a place is at the start of a text, or of a line if these count. -/
def AtStart (multiLine : Bool) (place : Place) : Prop :=
  place.passed = [] ∨ multiLine ∧ place.passed.getLast? = some '\n'

/-- Whether a place is at the end of a text, or of a line if these count. -/
def AtEnd (multiLine : Bool) (place : Place) : Prop :=
  place.rest = [] ∨ multiLine ∧ place.rest.head? = some '\n'

theorem passes_nil : Passes [] = Eq := by
  funext start stop
  refine propext ⟨?_, ?_⟩
  · rintro ⟨passed, rest, groups⟩
    simp
  · rintro rfl
    have here : Passes [] _ _ := .intro start.passed start.rest start.groups
    rwa [List.append_nil] at here

theorem passes_append (front back : List Char) :
    Passes (front ++ back) = Relation.Comp (Passes front) (Passes back) := by
  funext start stop
  refine propext ⟨?_, ?_⟩
  · rintro ⟨passed, rest, groups⟩
    rw [List.append_assoc, ← List.append_assoc passed]
    exact ⟨_, .intro passed (back ++ rest) groups, .intro (passed ++ front) rest groups⟩
  · rintro ⟨_, first, ⟨_, rest, groups⟩⟩
    cases first with
    | intro passed =>
      rw [← List.append_assoc, List.append_assoc passed]
      exact .intro passed rest groups

end Place

/-- A step taken so many times. -/
def Times (step : Place → Place → Prop) : Nat → Place → Place → Prop
  | 0 => Eq
  | count + 1 => Relation.Comp step (Times step count)

/-- Whether an expression matches what lies between two places. -/
def Matches (multiLine : Bool) : Regex → Place → Place → Prop
  | empty => Eq
  | literal content => Place.Passes content.toList
  | lineFeed => Place.Passes ['\n']
  | noneOf excluded => fun start stop => ∃ c, c ∉ excluded ∧ Place.Passes [c] start stop
  | anyInLine => fun start stop => ∃ c, c ≠ '\n' ∧ Place.Passes [c] start stop
  | append first second => Relation.Comp (first.Matches multiLine) (second.Matches multiLine)
  | either first second => fun start stop =>
    first.Matches multiLine start stop ∨ second.Matches multiLine start stop
  | repeated operand repetition _ => fun start stop =>
    ∃ count, repetition.Allows count ∧ Times (operand.Matches multiLine) count start stop
  | capture wildcard operand => fun start stop =>
    ∃ inside taken, operand.Matches multiLine start inside ∧
      inside.passed = start.passed ++ taken ∧ stop = inside.take wildcard taken
  | recalled wildcard => fun start stop =>
    ∃ content, start.groups wildcard = some content ∧ Place.Passes content.toList start stop
  | lineStart => fun start stop => start.AtStart multiLine ∧ start = stop
  | lineEnd => fun start stop => start.AtEnd multiLine ∧ start = stop

/-- Whether an expression matches a text that has `passed` in front of it and `rest` behind it, where
the groups have taken `groups` before and `after` behind it. -/
def Covers (multiLine : Bool) (regex : Regex) (passed text rest : List Char)
    (groups after : Nat → Option String) : Prop :=
  regex.Matches multiLine ⟨passed, text ++ rest, groups⟩ ⟨passed ++ text, rest, after⟩

variable {multiLine : Bool} {first second operand : Regex} {passed front back text rest : List Char}
  {groups between after : Nat → Option String}

theorem covers_empty : empty.Covers multiLine passed [] rest groups groups := by
  simp [Covers, Matches]

theorem covers_literal (content : String) :
    (literal content).Covers multiLine passed content.toList rest groups groups := .intro ..

theorem covers_lineFeed : lineFeed.Covers multiLine passed ['\n'] rest groups groups := .intro ..

theorem covers_noneOf {c : Char} {excluded : List Char} (other : c ∉ excluded) :
    (noneOf excluded).Covers multiLine passed [c] rest groups groups := ⟨c, other, .intro ..⟩

theorem covers_anyInLine {c : Char} (inLine : c ≠ '\n') :
    anyInLine.Covers multiLine passed [c] rest groups groups := ⟨c, inLine, .intro ..⟩

theorem covers_lineStart (start : passed = [] ∨ multiLine ∧ passed.getLast? = some '\n') :
    lineStart.Covers multiLine passed [] rest groups groups := ⟨start, by simp⟩

theorem Covers.append (one : first.Covers multiLine passed front (back ++ rest) groups between)
    (other : second.Covers multiLine (passed ++ front) back rest between after) :
    (append first second).Covers multiLine passed (front ++ back) rest groups after := by
  rw [Covers, List.append_assoc] at *
  exact ⟨_, one, other⟩

theorem Covers.capture (inside : operand.Covers multiLine passed text rest groups after)
    (wildcard : Nat) : (capture wildcard operand).Covers multiLine passed text rest groups
      (Function.update after wildcard (some (String.ofList text))) :=
  ⟨_, text, inside, rfl, rfl⟩

theorem covers_recalled {wildcard : Nat} {content : String}
    (taken : groups wildcard = some content) :
    (recalled wildcard).Covers multiLine passed content.toList rest groups groups :=
  ⟨content, taken, .intro ..⟩

/-- A repetition covers texts that its operand covers one after the other. -/
theorem covers_repeated {repetition : Repetition} {appetite : Appetite} {parts : List (List Char)}
    (allowed : repetition.Allows parts.length)
    (each : ∀ part ∈ parts, ∀ passed rest, operand.Covers multiLine passed part rest groups groups) :
    (repeated operand repetition appetite).Covers multiLine passed parts.flatten rest groups
      groups := by
  refine ⟨parts.length, allowed, ?_⟩
  clear allowed
  induction parts generalizing passed with
  | nil => simp [Times]
  | cons part parts ih =>
    have here := each part List.mem_cons_self passed (parts.flatten ++ rest)
    have behind := @ih (passed ++ part) fun other member => each other (List.mem_cons_of_mem _ member)
    rw [List.append_assoc] at behind
    rw [List.flatten_cons, List.append_assoc]
    exact ⟨_, here, behind⟩

/-! ### Strings -/

/-- String content is a sequence of units, of which each is matched. -/
private theorem exists_units (multiLine : Bool) (groups : Nat → Option String) {text : List Char}
    (content : IsContent text) :
    ∃ units : List (List Char), text = units.flatten ∧ ∀ unit ∈ units, ∀ passed rest,
      stringUnit.Covers multiLine passed unit rest groups groups := by
  induction content with
  | nil => exact ⟨[], rfl, by simp⟩
  | @plain c text unit _ ih =>
    obtain ⟨units, rfl, each⟩ := ih
    refine ⟨[c] :: units, rfl, List.forall_mem_cons.mpr ⟨fun passed rest => .inl ?_, each⟩⟩
    exact covers_noneOf (by simp [LineItem.ne_of_isPlain unit])
  | @escaped c text unit _ ih =>
    obtain ⟨units, rfl, each⟩ := ih
    refine ⟨['\\', c] :: units, rfl, List.forall_mem_cons.mpr ⟨fun passed rest => .inr ?_, each⟩⟩
    exact (covers_literal "\\").append (covers_anyInLine unit)

theorem covers_stringValue (stretch : IsStretch text) :
    stringValue.Covers multiLine passed text rest groups groups := by
  obtain ⟨units, rfl, each⟩ := exists_units multiLine groups stretch.2
  refine covers_repeated (List.length_pos_iff.mpr ?_) each
  rintro rfl
  exact stretch.1 rfl

theorem covers_anyString {content : List Char} (isContent : IsContent content) :
    anyString.Covers multiLine passed ('"' :: (content ++ ['"'])) rest groups groups := by
  obtain ⟨units, rfl, each⟩ := exists_units multiLine groups isContent
  exact (covers_literal "\"").append
    ((covers_repeated (by exact trivial) each).append ((covers_literal "\"").append covers_empty))

/-- A line that holds no line feed but the one at its end. -/
theorem covers_anyLine {line : List Char} (inLine : '\n' ∉ line) :
    anyLine.Covers multiLine passed (line ++ ['\n']) rest groups groups := by
  refine Covers.append ?_ covers_lineFeed
  have characters : line = (line.map fun c => [c]).flatten := by
    rw [← List.flatMap_def, List.flatMap_singleton']
  rw [characters]
  refine covers_repeated (by exact trivial) fun part member passed rest => ?_
  obtain ⟨c, inside, rfl⟩ := List.mem_map.mp member
  exact covers_noneOf fun feed => inLine (List.mem_singleton.mp feed ▸ inside)

end Regex

end LogMotif
