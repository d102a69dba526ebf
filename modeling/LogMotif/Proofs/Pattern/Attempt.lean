import LogMotif.Pattern.Budget
import LogMotif.Proofs.Pattern.Reading

/-! # Attempts answer as matching does

Matching within a budget takes the choices of the written expression one by one. Unless the budget
runs out it gives the answer of `LinePattern.matchFrom?`, which tries the ways of each item without
counting. Each way of combining attempts is given the option that the combination decides.
-/

namespace LogMotif

namespace Attempt

variable {α : Type}

/-- Whether an attempt that ends within its budget gives the given answer. -/
def Decides (attempt : Attempt α) (answer : Option α) : Prop :=
  ∀ budget, match attempt budget with
    | .found result => answer = some result
    | .failed _ => answer = none
    | .exhausted => True

private theorem decides_fail : (fail : Attempt α).Decides none := fun _ => rfl

private theorem decides_ofOption (answer : Option α) : (ofOption answer).Decides answer := by
  cases answer with
  | none => exact decides_fail
  | some result => exact fun _ => rfl

private theorem Decides.orElse {first second : Attempt α} {left right : Option α}
    (one : first.Decides left) (other : second.Decides right) :
    (orElse first second).Decides (left.or right) := by
  intro budget
  have one := one budget
  unfold Attempt.orElse
  generalize first budget = outcome at one
  cases outcome with
  | found result => simp_all
  | exhausted => trivial
  | failed remaining =>
    cases remaining with
    | zero => trivial
    | succ remaining =>
      obtain rfl : left = none := one
      simpa using other remaining

private theorem decides_andThen {text? : Option (List Char)} {next : List Char → Attempt α}
    {answer : List Char → Option α} (decides : ∀ text, (next text).Decides (answer text)) :
    (andThen text? next).Decides (text?.bind answer) := by
  cases text? with
  | none => exact decides_fail
  | some text => exact decides text

private theorem findSome?_cons_eq_or {β : Type} (f : β → Option α) (first : β) (rest : List β) :
    (first :: rest).findSome? f = (f first).or (rest.findSome? f) := by
  rw [List.findSome?_cons]
  cases f first <;> rfl

/-- Taking units one at a time decides on the first end of a stretch from which the rest matches. -/
private theorem decides_frugalUnits {next : Nat → List Char → Attempt α}
    {answer : Nat → List Char → Option α}
    (decides : ∀ taken rest, (next taken rest).Decides (answer taken rest)) (taken : Nat)
    (text : List Char) :
    (frugalUnits next taken text).Decides
      ((LineItem.stretchEnds taken text).findSome? fun way => answer way.1 way.2) := by
  fun_induction LineItem.stretchEnds taken text with
  | case1 taken rest => simpa [frugalUnits] using decides_fail.orElse decides_fail
  | case2 taken c rest inLine ih =>
    rw [frugalUnits, if_neg inLine, findSome?_cons_eq_or]
    exact decides_fail.orElse ((decides (taken + 2) rest).orElse ih)
  | case3 taken c rest notEscape plain ih =>
    rw [frugalUnits.eq_2 _ _ _ _ notEscape, if_pos plain, findSome?_cons_eq_or]
    simpa using ((decides (taken + 1) rest).orElse ih).orElse decides_fail
  | case4 taken c rest notEscape notPlain =>
    rw [frugalUnits.eq_2 _ _ _ _ notEscape, if_neg notPlain]
    exact decides_fail.orElse decides_fail
  | case5 taken => exact decides_fail.orElse decides_fail

/-- Taking as many units as possible decides on what comes behind all of them, where nothing that
comes behind fewer can begin with a unit. -/
private theorem decides_greedyUnits {next : List Char → Attempt α} {answer : List Char → Option α}
    (decides : ∀ rest, (next rest).Decides (answer rest))
    (fails : ∀ stretch rest, LineItem.IsStretch stretch → answer (stretch ++ rest) = none)
    (text : List Char) :
    (greedyUnits next text).Decides (answer (LineItem.skipContent text)) := by
  fun_induction LineItem.skipContent text with
  | case1 rest => simpa [greedyUnits] using (decides_fail.orElse decides_fail).orElse (decides _)
  | case2 c rest inLine ih =>
    have early : answer ('\\' :: c :: rest) = none := fails ['\\', c] rest (.of_escaped inLine .nil)
    rw [greedyUnits, if_neg inLine]
    simpa [early] using (decides_fail.orElse ih).orElse (decides ('\\' :: c :: rest))
  | case3 c rest notEscape plain ih =>
    have early : answer (c :: rest) = none := fails [c] rest (.of_plain plain .nil)
    rw [greedyUnits.eq_2 _ _ _ notEscape, if_pos plain]
    simpa [early] using (ih.orElse decides_fail).orElse (decides (c :: rest))
  | case4 c rest notEscape notPlain =>
    rw [greedyUnits.eq_2 _ _ _ notEscape, if_neg notPlain]
    exact (decides_fail.orElse decides_fail).orElse (decides (c :: rest))
  | case5 => exact (decides_fail.orElse decides_fail).orElse (decides [])

end Attempt

namespace LinePattern

open LineItem

/-- A JSON string is a quote, as much content as possible, and another quote. -/
private theorem behindString?_eq_bind (text : List Char) :
    behindString? text =
      (behind? ['"'] text).bind fun inside => behind? ['"'] (skipContent inside) := by
  have quote (rest : List Char) (c : Char) :
      behind? ['"'] (c :: rest) = if c = '"' then some rest else none := by
    simp [behind?, eq_comm]
  cases text with
  | nil => rfl
  | cons c rest =>
    by_cases opened : c = '"'
    · subst opened
      rw [quote, if_pos rfl, Option.bind_some, behindString?]
      cases skipContent rest with
      | nil => rfl
      | cons d left =>
        by_cases closed : d = '"'
        · simp [closed, quote]
        · simp [closed, quote]
    · simp [behindString?, quote, opened]

private theorem findSome?_toList {β γ : Type} (way : Option β) (f : β → Option γ) :
    way.toList.findSome? f = way.bind f := by
  cases way with
  | none => rfl
  | some first => cases answer : f first <;> simp [answer]

theorem matchFrom?_literal (content : String) (pattern : LinePattern) (captures : Captures)
    (text : List Char) :
    matchFrom? (.literal content :: pattern) captures text =
      (behind? content.toList text).bind (matchFrom? pattern captures) := by
  rw [matchFrom?, ends, findSome?_toList, Option.bind_map]
  rfl

theorem matchFrom?_anyString (pattern : LinePattern) (captures : Captures) (text : List Char) :
    matchFrom? (.anyString :: pattern) captures text =
      (behindString? text).bind (matchFrom? pattern captures) := by
  rw [matchFrom?, ends, findSome?_toList, Option.bind_map]
  rfl

theorem matchFrom?_recalled (wildcard : Nat) (pattern : LinePattern) (captures : Captures)
    (text : List Char) :
    matchFrom? (.recalled wildcard :: pattern) captures text =
      ((captures.lookup wildcard).bind fun content => behind? content.toList text).bind
        (matchFrom? pattern captures) := by
  rw [matchFrom?, ends]
  cases captures.lookup wildcard with
  | none => rfl
  | some content =>
    rw [Option.bind_some, findSome?_toList, Option.bind_map]
    rfl

private theorem lookup_captures (pieces : Pieces) (wildcard : Nat) :
    pieces.captures.lookup wildcard =
      (pieces.lookup wildcard).map fun piece => String.ofList piece.content := by
  induction pieces with
  | nil => rfl
  | cons first pieces ih =>
    rw [Pieces.captures] at ih ⊢
    rw [List.map_cons, List.lookup_cons, List.lookup_cons, ih]
    cases wildcard == first.1 <;> rfl

/-- An attempt at a line decides on the match that trying every way in order finds. -/
private theorem decides_attemptFrom (pattern : LinePattern) (pieces : Pieces) (text : List Char) :
    (attemptFrom pattern pieces text).Decides (matchFrom? pattern pieces.captures text) := by
  induction pattern generalizing pieces text with
  | nil =>
    unfold attemptFrom
    rw [findFrom?_eq_matchFrom? rfl]
    exact Attempt.decides_ofOption _
  | cons item pattern ih =>
    unfold attemptFrom
    split
    next =>
      cases item with
      | literal content =>
        rw [matchFrom?_literal]
        exact Attempt.decides_andThen (ih pieces)
      | anyString =>
        rw [matchFrom?_anyString, behindString?_eq_bind, Option.bind_assoc]
        refine Attempt.decides_andThen fun inside => Attempt.decides_greedyUnits
          (fun rest => Attempt.decides_andThen (ih pieces)) ?_ inside
        -- A quote cannot stand where a unit could be taken.
        intro stretch rest isStretch
        cases closed : behind? ['"'] (stretch ++ rest) with
        | none => rfl
        | some left => exact absurd (behind?_eq_some_iff.mp closed) isStretch.append_ne_quote
      | stretch => exact Attempt.decides_frugalUnits (fun _ rest => ih pieces rest) 0 text
      | capture wildcard =>
        have step := Attempt.decides_frugalUnits (fun taken rest =>
          ih (pieces ++ [(wildcard, ⟨text, taken⟩)]) rest) 0 text
        simpa [matchFrom?, ends, record, Pieces.captures, Piece.content] using step
      | recalled wildcard =>
        rw [matchFrom?_recalled, lookup_captures, Option.bind_map]
        have same : (fun piece : Piece => piece.behind? text) =
            (fun content => behind? content.toList text) ∘ fun piece =>
              String.ofList piece.content := by
          funext piece
          simp [Piece.behind?_eq_behind?_content]
        rw [← same]
        exact Attempt.decides_andThen (ih pieces)
    next plain =>
      rw [findFrom?_eq_matchFrom? (Bool.eq_false_iff.mpr plain)]
      exact Attempt.decides_ofOption _

/-- What an attempt at a line finds is what trying every way in order finds. -/
theorem match?_of_attempt_eq_found {pattern : LinePattern} {budget : Nat} {line : String}
    {taken : Captures} (found : pattern.attempt budget line = .found taken) :
    pattern.match? line = some taken := by
  have decides := decides_attemptFrom pattern [] line.toList budget
  rw [attempt] at found
  rw [found] at decides
  exact decides

/-- A pattern that recalls nothing has no budget to exceed. -/
theorem attempt_ne_exhausted {pattern : LinePattern} (plain : pattern.hasRecall = false)
    (budget : Nat) (line : String) : pattern.attempt budget line ≠ .exhausted := by
  have ended {answer : Option Captures} : Attempt.ofOption answer budget ≠ .exhausted := by
    cases answer <;> simp [Attempt.ofOption, Attempt.fail]
  cases pattern with
  | nil => exact ended
  | cons item pattern =>
    unfold attempt attemptFrom
    rw [if_neg (by simp [plain])]
    exact ended

/-- A line on which some way leads to a match is matched, unless the budget runs out. -/
theorem exists_attempt_eq_found {pattern : LinePattern} {budget : Nat} {line : String}
    (some : (pattern.match? line).isSome) (within : pattern.attempt budget line ≠ .exhausted) :
    ∃ taken, pattern.attempt budget line = .found taken := by
  have decides := decides_attemptFrom pattern [] line.toList budget
  rw [attempt] at within ⊢
  cases outcome : attemptFrom pattern [] line.toList budget with
  | found taken => exact ⟨taken, rfl⟩
  | exhausted => exact absurd outcome within
  | failed left =>
    rw [outcome] at decides
    rw [match?, show matchFrom? pattern [] line.toList = none from decides] at some
    simp at some

end LinePattern

end LogMotif
