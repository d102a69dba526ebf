import Mathlib.Data.List.Lex
import LogMotif.Proofs.Pattern.Attempt

/-! # Which reading is found

Of all the ways to read a line, matching finds the one whose first captured stretch is shortest,
among those the one whose second is, and so on. Only stretches leave a choice: every other item can
take the front of a text in one way at most.
-/

namespace LogMotif

namespace Captures

/-- How long the captured texts are. -/
def lengths (captures : Captures) : List Nat := captures.map (·.2.length)

private theorem lengths_append (front back : Captures) :
    lengths (front ++ back) = lengths front ++ lengths back := List.map_append

end Captures

namespace LineItem

/-- The wildcard that an item captures. -/
def captured? : LineItem → Option Nat
  | capture wildcard => some wildcard
  | _ => none

/-- The ends of stretches are found in ascending order. -/
theorem pairwise_stretchEnds (taken : Nat) (text : List Char) :
    (stretchEnds taken text).Pairwise fun left right => left.1 < right.1 := by
  have behind {start : Nat} {text : List Char} :
      ∀ way ∈ stretchEnds start text, start < way.1 := by
    rintro ⟨reached, rest⟩ member
    obtain ⟨stretch, isStretch, -, rfl⟩ := mem_stretchEnds_iff.mp member
    have filled := List.length_pos_iff.mpr isStretch.1
    simp only
    omega
  fun_induction stretchEnds taken text with
  | case1 => exact .nil
  | case2 taken c rest inLine ih => exact .cons behind ih
  | case3 taken c rest notEscape plain ih => exact .cons behind ih
  | case4 => exact .nil
  | case5 => exact .nil

end LineItem

namespace LinePattern

open LineItem

/-- The wildcards that a pattern captures, in the order of the line. -/
def captured (pattern : LinePattern) : List Nat := pattern.filterMap captured?

/-- A reading adds a capture for each wildcard that the pattern captures. -/
theorem Reads.exists_more {pattern : LinePattern} {captures result : Captures} {text : List Char}
    (reads : Reads pattern captures text result) :
    ∃ more, result = captures ++ more ∧ more.map Prod.fst = pattern.captured := by
  induction reads with
  | nil => exact ⟨[], by simp, rfl⟩
  | @cons item pattern captures result taken rest _ _ ih =>
    obtain ⟨more, rfl, same⟩ := ih
    cases item with
    | capture wildcard =>
      exact ⟨(wildcard, String.ofList taken) :: more, by simp [keep], by
        rw [List.map_cons, same]; rfl⟩
    | literal | anyString | stretch | recalled => exact ⟨more, rfl, same⟩

/-- Whether captures are those of a given reading, or shorter where they differ first. -/
def Shortest (best other : Captures) : Prop :=
  best = other ∨ List.Lex (· < ·) best.lengths other.lengths

/-- Behind a capture that is shorter, it does not matter how long the others are. -/
private theorem Shortest.of_lt (captures : Captures) {wildcard : Nat} {short long : List Char}
    (shorter : short.length < long.length) (more others : Captures) :
    Shortest (captures ++ [(wildcard, String.ofList short)] ++ more)
      (captures ++ [(wildcard, String.ofList long)] ++ others) := by
  refine .inr ?_
  simp only [Captures.lengths_append, List.append_assoc]
  refine List.Lex.append_left _ (.rel ?_) _
  simpa using shorter

/-- A capture takes the shortest stretch from which the rest matches. -/
private theorem exists_of_matchFrom?_capture {wildcard : Nat} {pattern : LinePattern}
    {captures best : Captures} {text : List Char}
    (found : matchFrom? (.capture wildcard :: pattern) captures text = some best) :
    ∃ short left, text = short ++ left ∧
      matchFrom? pattern (captures ++ [(wildcard, String.ofList short)]) left = some best ∧
      ∀ stretch rest, IsStretch stretch → text = stretch ++ rest → stretch.length < short.length →
        matchFrom? pattern (captures ++ [(wildcard, String.ofList stretch)]) rest = none := by
  have found : (stretchEnds 0 text).findSome? (fun way => matchFrom? pattern
      (record captures text way.1 (.capture wildcard)) way.2) = some best := found
  obtain ⟨before, ⟨reached, left⟩, after, ways, here, failed⟩ :=
    List.findSome?_eq_some_iff.mp found
  have way : (reached, left) ∈ stretchEnds 0 text := by simp [ways]
  obtain ⟨short, -, rfl, length_eq⟩ := mem_stretchEnds_iff.mp way
  rw [Nat.zero_add] at length_eq
  subst length_eq
  rw [record_append] at here
  refine ⟨short, left, rfl, here, fun stretch rest isStretch cut shorter => ?_⟩
  have other : (stretch.length, rest) ∈ stretchEnds 0 (short ++ left) :=
    mem_stretchEnds_iff.mpr ⟨stretch, isStretch, cut, (Nat.zero_add _).symm⟩
  -- The ways in front of the one that matches are those that take less.
  have early : (stretch.length, rest) ∈ before := by
    have ascending := pairwise_stretchEnds 0 (short ++ left)
    rw [ways] at other ascending
    rcases List.mem_append.mp other with early | late
    · exact early
    rcases List.mem_cons.mp late with same | late
    · have := (Prod.mk.inj same).1
      omega
    · have := (List.pairwise_cons.mp (List.pairwise_append.mp ascending).2.1).1 _ late
      simp only at this
      omega
  have isNone := failed _ early
  simp only at isNone
  rwa [cut, record_append] at isNone

/-- What matching finds is shortest among all readings. -/
theorem Reads.shortest {pattern : LinePattern} (named : .stretch ∉ pattern)
    {captures other : Captures} {text : List Char} (reads : Reads pattern captures text other)
    {best : Captures} (found : matchFrom? pattern captures text = some best) :
    Shortest best other := by
  induction reads generalizing best with
  | nil captures => exact .inl (Option.some.inj found).symm
  | @cons item pattern captures other taken rest takes reads ih =>
    have ih {best : Captures} := @ih (mt (List.mem_cons_of_mem item) named) best
    cases item with
    | literal content =>
      rw [matchFrom?_literal, behind?_eq_some_iff.mpr (congrArg (· ++ rest) takes)] at found
      exact ih found
    | anyString =>
      obtain ⟨content, isContent, rfl⟩ := takes
      have closed : behindString? ('"' :: (content ++ ['"']) ++ rest) = some rest :=
        behindString?_eq_some_iff.mpr ⟨content, isContent, by simp⟩
      rw [matchFrom?_anyString, closed] at found
      exact ih found
    | recalled wildcard =>
      obtain ⟨content, captured, rfl⟩ := takes
      rw [matchFrom?_recalled, captured, Option.bind_some, behind?_eq_some_iff.mpr rfl] at found
      exact ih found
    | stretch => exact absurd List.mem_cons_self named
    | capture wildcard =>
      obtain ⟨short, left, cut, here, failed⟩ := exists_of_matchFrom?_capture found
      rcases Nat.lt_trichotomy taken.length short.length with shorter | same | longer
      · have isSome := reads.isSome_matchFrom?
        rw [keep, failed taken rest takes rfl shorter] at isSome
        simp at isSome
      · obtain ⟨rfl, rfl⟩ := List.append_inj cut same
        exact ih here
      · obtain ⟨more, rfl, -⟩ := (reads_of_matchFrom? here).exists_more
        obtain ⟨others, rfl, -⟩ := reads.exists_more
        exact Shortest.of_lt captures longer more others

end LinePattern

end LogMotif
