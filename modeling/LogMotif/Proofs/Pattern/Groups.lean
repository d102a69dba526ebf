import LogMotif.Proofs.Pattern.Pieces

/-! # The groups that a pattern names

A group takes the name of a wildcard where it is opened, and a recall names it again. Written without
fault, no name is given to two groups, and what is recalled is a group that has been closed before.
-/

namespace LogMotif

/-- A place where an expression names a group. -/
inductive GroupMark where
  | opened (wildcard : Nat)
  | closed (wildcard : Nat)
  | recalled (wildcard : Nat)
deriving DecidableEq, Repr

namespace Regex

/-- Where an expression names groups, in the order in which it is written. -/
def groupMarks : Regex → List GroupMark
  | capture wildcard operand => .opened wildcard :: operand.groupMarks ++ [.closed wildcard]
  | recalled wildcard => [.recalled wildcard]
  | append first second | either first second => first.groupMarks ++ second.groupMarks
  | repeated operand .. => operand.groupMarks
  | _ => []

/-- Whether an expression gives each name to one group at most, and recalls it behind that group
only. -/
structure NamesGroups (regex : Regex) : Prop where
  once : ∀ wildcard, regex.groupMarks.count (.opened wildcard) ≤ 1
  behind : ∀ front wildcard back, regex.groupMarks = front ++ .recalled wildcard :: back →
    .closed wildcard ∈ front

theorem groupMarks_sequence (pieces : List Regex) :
    (sequence pieces).groupMarks = pieces.flatMap groupMarks := by
  induction pieces with
  | nil => rfl
  | cons piece pieces ih =>
    cases pieces with
    | nil => simp [sequence]
    | cons =>
      rw [List.flatMap_cons, ← ih]
      rfl

theorem flatMap_groupMarks_characters (text : String) :
    (characters text).flatMap groupMarks = [] := by
  simp [characters, groupMarks]

end Regex

namespace GroupMark

/-- Marks of groups, where some wildcards are known in front of them: a wildcard that is not known gets
a group, and only one that is known is recalled. Behind each group its wildcard is known. -/
inductive Introduces : List Nat → List GroupMark → List Nat → Prop
  | nil (known : List Nat) : Introduces known [] known
  | group {known after : List Nat} {wildcard : Nat} {marks : List GroupMark}
      (new : wildcard ∉ known) (rest : Introduces (wildcard :: known) marks after) :
      Introduces known (.opened wildcard :: .closed wildcard :: marks) after
  | recalled {known after : List Nat} {wildcard : Nat} {marks : List GroupMark}
      (isKnown : wildcard ∈ known) (rest : Introduces known marks after) :
      Introduces known (.recalled wildcard :: marks) after

namespace Introduces

variable {known middle after : List Nat} {marks others : List GroupMark} {wildcard : Nat}

theorem append (first : Introduces known marks middle) (second : Introduces middle others after) :
    Introduces known (marks ++ others) after := by
  induction first with
  | nil => exact second
  | group new _ ih => exact .group new (ih second)
  | recalled isKnown _ ih => exact .recalled isKnown (ih second)

private theorem opened_not_mem (introduces : Introduces known marks after)
    (isKnown : wildcard ∈ known) :
    .opened wildcard ∉ marks := by
  induction introduces with
  | nil => exact List.not_mem_nil
  | @group _ _ other _ new _ ih =>
    have differs : wildcard ≠ other := by
      rintro rfl
      exact new isKnown
    simpa [differs] using ih (List.mem_cons_of_mem other isKnown)
  | recalled _ _ ih => simpa using ih isKnown

/-- No wildcard gets two groups. -/
private theorem count_opened_le (introduces : Introduces known marks after) :
    marks.count (.opened wildcard) ≤ 1 := by
  induction introduces with
  | nil => exact Nat.zero_le 1
  | @group _ _ other _ _ rest ih =>
    by_cases same : other = wildcard
    · subst same
      have later := List.count_eq_zero_of_not_mem (rest.opened_not_mem List.mem_cons_self)
      simp [later]
    · simpa [List.count_cons, same] using ih
  | recalled _ _ ih => simpa [List.count_cons] using ih

/-- What is recalled was known, or its group is closed in front. -/
private theorem closed_mem (introduces : Introduces known marks after) {front back : List GroupMark}
    (split : marks = front ++ .recalled wildcard :: back) :
    wildcard ∈ known ∨ .closed wildcard ∈ front := by
  induction introduces generalizing front with
  | nil => simp at split
  | @group _ _ other _ _ _ ih =>
    obtain _ | ⟨_, _ | ⟨_, front⟩⟩ := front
    · simp at split
    · simp at split
    · simp only [List.cons_append, List.cons.injEq] at split
      obtain ⟨rfl, rfl, split⟩ := split
      rcases ih split with isKnown | inFront
      · rcases List.mem_cons.mp isKnown with rfl | before
        · exact .inr (by simp)
        · exact .inl before
      · exact .inr (by simp [inFront])
  | recalled isKnown _ ih =>
    obtain _ | ⟨_, front⟩ := front
    · obtain ⟨⟨⟩, rfl⟩ := List.cons.inj split
      exact .inl isKnown
    · obtain ⟨rfl, behind⟩ := List.cons.inj (split.trans List.cons_append)
      exact (ih behind).imp_right (List.mem_cons_of_mem _)

/-- Pieces that introduce their groups one after the other make a sequence that names them apart. -/
theorem namesGroups {pieces : List Regex}
    (introduces : Introduces [] (pieces.flatMap Regex.groupMarks) after) :
    (Regex.sequence pieces).NamesGroups := by
  rw [← Regex.groupMarks_sequence] at introduces
  exact ⟨fun _ => introduces.count_opened_le, fun front wildcard back split =>
    (introduces.closed_mem split).resolve_left List.not_mem_nil⟩

end Introduces

end GroupMark

end LogMotif
