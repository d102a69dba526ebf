import LogMotif.Proofs.Pattern.Attempt

/-! # Attempts with budget to spare

An attempt that ends within its budget ends in the same way within any larger one, and what was
added is left over. So only the lines on which a budget runs out can be told apart by it. This is
shown for each way of combining attempts.
-/

namespace LogMotif

namespace Attempt

variable {α : Type}

/-- Whether an attempt that ends within a budget ends alike with more, of which nothing is used. -/
def Steady (attempt : Attempt α) : Prop :=
  ∀ budget headroom, match attempt budget with
    | .found result => attempt (budget + headroom) = .found result
    | .failed left => attempt (budget + headroom) = .failed (left + headroom)
    | .exhausted => True

private theorem steady_fail : (fail : Attempt α).Steady := fun _ _ => rfl

private theorem steady_ofOption (answer : Option α) : (ofOption answer).Steady := by
  cases answer with
  | none => exact steady_fail
  | some result => exact fun _ _ => rfl

private theorem Steady.orElse {first second : Attempt α} (one : first.Steady)
    (other : second.Steady) :
    (orElse first second).Steady := by
  intro budget headroom
  have one := one budget headroom
  unfold Attempt.orElse
  generalize first budget = outcome at one
  cases outcome with
  | found result => simp only [one]
  | exhausted => trivial
  | failed left =>
    cases left with
    | zero => trivial
    | succ left =>
      simp only [Nat.succ_add] at one
      simp only [one]
      exact other left headroom

private theorem steady_andThen {text? : Option (List Char)} {next : List Char → Attempt α}
    (steady : ∀ text, (next text).Steady) : (andThen text? next).Steady := by
  cases text? with
  | none => exact steady_fail
  | some text => exact steady text

private theorem steady_frugalUnits {next : Nat → List Char → Attempt α}
    (steady : ∀ taken rest, (next taken rest).Steady) (taken : Nat) (text : List Char) :
    (frugalUnits next taken text).Steady := by
  fun_induction LineItem.stretchEnds taken text with
  | case1 taken rest =>
    rw [frugalUnits, if_pos rfl]
    exact steady_fail.orElse steady_fail
  | case2 taken c rest inLine ih =>
    rw [frugalUnits, if_neg inLine]
    exact steady_fail.orElse ((steady (taken + 2) rest).orElse ih)
  | case3 taken c rest notEscape plain ih =>
    rw [frugalUnits.eq_2 _ _ _ _ notEscape, if_pos plain]
    exact ((steady (taken + 1) rest).orElse ih).orElse steady_fail
  | case4 taken c rest notEscape notPlain =>
    rw [frugalUnits.eq_2 _ _ _ _ notEscape, if_neg notPlain]
    exact steady_fail.orElse steady_fail
  | case5 => exact steady_fail.orElse steady_fail

private theorem steady_greedyUnits {next : List Char → Attempt α}
    (steady : ∀ rest, (next rest).Steady) (text : List Char) : (greedyUnits next text).Steady := by
  fun_induction LineItem.skipContent text with
  | case1 rest =>
    rw [greedyUnits, if_pos rfl]
    exact (steady_fail.orElse steady_fail).orElse (steady ('\\' :: '\n' :: rest))
  | case2 c rest inLine ih =>
    rw [greedyUnits, if_neg inLine]
    exact (steady_fail.orElse ih).orElse (steady ('\\' :: c :: rest))
  | case3 c rest notEscape plain ih =>
    rw [greedyUnits.eq_2 _ _ _ notEscape, if_pos plain]
    exact (ih.orElse steady_fail).orElse (steady (c :: rest))
  | case4 c rest notEscape notPlain =>
    rw [greedyUnits.eq_2 _ _ _ notEscape, if_neg notPlain]
    exact (steady_fail.orElse steady_fail).orElse (steady (c :: rest))
  | case5 => exact (steady_fail.orElse steady_fail).orElse (steady [])

end Attempt

namespace LinePattern

open Attempt

private theorem steady_attemptFrom (pattern : LinePattern) (pieces : Pieces) (text : List Char) :
    (attemptFrom pattern pieces text).Steady := by
  induction pattern generalizing pieces text with
  | nil => exact steady_ofOption _
  | cons item pattern ih =>
    unfold attemptFrom
    split
    next =>
      cases item with
      | literal content => exact steady_andThen (ih pieces)
      | anyString =>
        exact steady_andThen fun inside =>
          steady_greedyUnits (fun rest => steady_andThen (ih pieces)) inside
      | stretch => exact steady_frugalUnits (fun _ rest => ih pieces rest) 0 text
      | capture wildcard => exact steady_frugalUnits (fun _ rest => ih _ rest) 0 text
      | recalled wildcard => exact steady_andThen (ih pieces)
    next => exact steady_ofOption _

/-- What an attempt finds within a budget it finds within a larger one. -/
theorem attempt_eq_found_of_le {pattern : LinePattern} {budget more : Nat} {line : String}
    {taken : Captures} (found : pattern.attempt budget line = .found taken) (le : budget ≤ more) :
    pattern.attempt more line = .found taken := by
  obtain ⟨headroom, rfl⟩ := Nat.exists_eq_add_of_le le
  have steady := steady_attemptFrom pattern [] line.toList budget headroom
  rw [attempt] at found
  rw [found] at steady
  exact steady

end LinePattern

end LogMotif
