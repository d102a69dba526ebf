import Std.Data.HashSet
import LogMotif.Pattern.Line

/-! # Matching with threads

Trying every way of every item takes a time that grows with the power of the number of stretches.
A pattern that recalls nothing can be matched in step with its items instead. All the ways in which
the items so far can take the front of the line are kept as threads, in the order in which they
would be tried. Of two threads that stand at the same place only the first is kept, for what follows
goes the same way for both. A stretch that reaches a place where an earlier one ends need not be
followed further, for the earlier one ends wherever it would. `findFrom?_eq_matchFrom?` says that
the match found is the same.
-/

namespace LogMotif

namespace LineItem

/-- The ends that `stretchEnds` gives, up to the first that is known. -/
def stretchEndsUntil (known : Nat → Bool) (taken : Nat) : List Char → List (Nat × List Char)
  | '\\' :: c :: rest =>
    if c = '\n' || known (taken + 2) then []
    else (taken + 2, rest) :: stretchEndsUntil known (taken + 2) rest
  | c :: rest =>
    if isPlain c && !known (taken + 1) then
      (taken + 1, rest) :: stretchEndsUntil known (taken + 1) rest
    else []
  | [] => []

/-- The ways in which an item that recalls nothing can take the front of a text, up to the first
that is known. -/
def endsUntil (known : Nat → Bool) (text : List Char) : LineItem → List (Nat × List Char)
  | stretch | capture _ => stretchEndsUntil known 0 text
  | item => (item.ends [] text).takeWhile fun way => !known way.1

/-- The ways in which an item that has taken something can take more from the front of a text. -/
def more (text : List Char) : LineItem → List (Nat × List Char)
  | stretch | capture _ => stretchEnds 0 text
  | _ => []

end LineItem

/-- A way in which the items so far can take the front of a line. -/
structure Thread where
  /-- What has been captured; it is worked out for the thread that succeeds only. -/
  captures : Thunk Captures
  /-- How many characters have been taken. -/
  position : Nat
  rest : List Char

namespace Thread

/-- The thread behind an item that has taken some characters. -/
def after (item : LineItem) (thread : Thread) : Nat × List Char → Thread
  | (taken, rest) =>
    ⟨.mk fun _ => item.record thread.captures.get thread.rest taken, thread.position + taken, rest⟩

/-- The threads behind an item, without those at a place that has been seen. -/
def advance (item : LineItem) : Std.HashSet Nat → List Thread → List Thread
  | _, [] => []
  | seen, thread :: threads =>
    let ways := item.endsUntil (fun taken => seen.contains (thread.position + taken)) thread.rest
    ways.map (thread.after item) ++
      advance item (seen.insertMany (ways.map fun way => thread.position + way.1)) threads

/-- The threads behind an item. Behind one that may end at many places there is one at each. -/
def step (item : LineItem) (threads : List Thread) : List Thread :=
  match item with
  | .stretch | .capture _ => advance item ∅ threads
  | item => threads.flatMap fun thread => (item.ends [] thread.rest).map (thread.after item)

end Thread

namespace LinePattern

/-- Match the rest of a pattern from each of some threads, and give back the captures of the first
that succeeds. -/
def run? : LinePattern → List Thread → Option Captures
  | [], threads => (threads.find? (·.rest.isEmpty)).map (·.captures.get)
  | item :: pattern, threads => run? pattern (Thread.step item threads)

/-- Match the rest of a line against the rest of a pattern that recalls nothing. -/
def findFrom? (pattern : LinePattern) (captures : Thunk Captures) (text : List Char) :
    Option Captures :=
  pattern.run? [⟨captures, 0, text⟩]

/-- Match a line against a pattern that recalls nothing. -/
def find? (pattern : LinePattern) (line : String) : Option Captures :=
  pattern.findFrom? (.pure []) line.toList

end LinePattern

/-! ### The match found is the same -/

namespace LineItem

theorem stretchEndsUntil_eq_takeWhile (known : Nat → Bool) (taken : Nat) (text : List Char) :
    stretchEndsUntil known taken text =
      (stretchEnds taken text).takeWhile fun way => !known way.1 := by
  fun_induction stretchEndsUntil known taken text <;>
    grind [stretchEnds, List.takeWhile_cons, List.takeWhile_nil]

theorem endsUntil_eq_takeWhile (known : Nat → Bool) (text : List Char) (item : LineItem) :
    item.endsUntil known text = (item.ends [] text).takeWhile fun way => !known way.1 := by
  cases item <;> simp [endsUntil, ends, stretchEndsUntil_eq_takeWhile]

private theorem stretchEnds_add (count taken : Nat) (text : List Char) :
    stretchEnds (count + taken) text =
      (stretchEnds taken text).map fun way => (count + way.1, way.2) := by
  fun_induction stretchEnds taken text <;> grind [stretchEnds]

/-- What follows one end of a stretch is what ends a stretch of the text that is left there. -/
private theorem stretchEnds_eq_append {taken reached : Nat} {text rest : List Char}
    {front back : List (Nat × List Char)}
    (cut : stretchEnds taken text = front ++ (reached, rest) :: back) :
    back = stretchEnds reached rest := by
  fun_induction stretchEnds taken text generalizing front <;> cases front <;> grind

private theorem eq_nil_of_toList_eq_append {way : Option α} {first : α} {front back : List α}
    (cut : way.toList = front ++ first :: back) : back = [] := by
  cases way <;> cases front <;> simp_all

/-- The ways of an item that take more than one of them are the ways to take more behind it. -/
private theorem ends_eq_append {item : LineItem} {text rest : List Char} {taken : Nat}
    {front back : List (Nat × List Char)}
    (cut : item.ends [] text = front ++ (taken, rest) :: back) :
    back = (item.more rest).map fun way => (taken + way.1, way.2) := by
  cases item with
  | literal content => simpa [more] using eq_nil_of_toList_eq_append cut
  | anyString => simpa [more] using eq_nil_of_toList_eq_append cut
  | stretch => exact (stretchEnds_eq_append cut).trans (stretchEnds_add taken 0 rest)
  | capture wildcard => exact (stretchEnds_eq_append cut).trans (stretchEnds_add taken 0 rest)
  | recalled wildcard => simp [ends] at cut

private theorem behind?_eq_drop {expected text rest : List Char}
    (found : behind? expected text = some rest) : rest = text.drop expected.length := by
  induction expected generalizing text with
  | nil => simp_all [behind?]
  | cons c expected ih =>
    cases text with
    | nil => simp [behind?] at found
    | cons d text =>
      simp only [behind?] at found
      split at found
      · simpa using ih found
      · simp at found

private theorem skipContent_suffix (text : List Char) : skipContent text <:+ text := by
  fun_induction skipContent text with
  | case1 => exact List.suffix_refl _
  | case2 c rest _ ih => exact ih.trans ((List.suffix_cons _ _).trans (List.suffix_cons _ _))
  | case3 c rest _ _ ih => exact ih.trans (List.suffix_cons _ _)
  | case4 => exact List.suffix_refl _
  | case5 => exact List.suffix_refl _

private theorem behindString?_suffix {text rest : List Char}
    (found : behindString? text = some rest) :
    rest <:+ text := by
  unfold behindString? at found
  split at found
  · rename_i content
    split at found
    · rename_i left behind
      cases found
      exact ((List.suffix_cons _ _).trans (behind ▸ skipContent_suffix content)).trans
        (List.suffix_cons _ _)
    · simp at found
  · simp at found

theorem mem_stretchEnds {taken reached : Nat} {text rest : List Char}
    (way : (reached, rest) ∈ stretchEnds taken text) :
    ∃ count, reached = taken + count ∧ rest = text.drop count := by
  fun_induction stretchEnds taken text with
  | case1 => simp at way
  | case2 taken c text _ ih =>
    rcases List.mem_cons.mp way with here | further
    · exact ⟨2, by simp_all, by simp_all⟩
    · obtain ⟨count, rfl, rfl⟩ := ih further
      exact ⟨count + 2, by omega, by simp⟩
  | case3 taken c text _ _ ih =>
    rcases List.mem_cons.mp way with here | further
    · exact ⟨1, by simp_all, by simp_all⟩
    · obtain ⟨count, rfl, rfl⟩ := ih further
      exact ⟨count + 1, by omega, by simp⟩
  | case4 => simp at way
  | case5 => simp at way

/-- What an item leaves of a text is the text behind the characters it takes. -/
theorem eq_drop_of_mem_ends {item : LineItem} {captures : Captures} {text rest : List Char}
    {taken : Nat} (way : (taken, rest) ∈ item.ends captures text) : rest = text.drop taken := by
  cases item with
  | literal content =>
    simp only [ends, Option.mem_toList, Option.map_eq_some_iff, Prod.mk.injEq] at way
    obtain ⟨_, found, rfl, rfl⟩ := way
    simpa [String.length_toList] using behind?_eq_drop found
  | anyString =>
    simp only [ends, Option.mem_toList, Option.map_eq_some_iff, Prod.mk.injEq] at way
    obtain ⟨_, found, rfl, rfl⟩ := way
    exact List.suffix_iff_eq_drop.mp (behindString?_suffix found)
  | stretch =>
    obtain ⟨count, rfl, rfl⟩ := mem_stretchEnds way
    simp
  | capture wildcard =>
    obtain ⟨count, rfl, rfl⟩ := mem_stretchEnds way
    simp
  | recalled wildcard =>
    simp only [ends] at way
    split at way
    · simp only [Option.mem_toList, Option.map_eq_some_iff, Prod.mk.injEq] at way
      obtain ⟨_, found, rfl, rfl⟩ := way
      simpa [String.length_toList] using behind?_eq_drop found
    · simp at way

/-- Without recalls the ways of an item do not depend on what has been captured. -/
private theorem ends_of_not_isRecall {item : LineItem} (plain : item.isRecall = false)
    (left right : Captures) (text : List Char) : item.ends left text = item.ends right text := by
  cases item with
  | recalled wildcard => simp [isRecall] at plain
  | _ => rfl

end LineItem

namespace Thread

open LineItem

/-- Whether a thread stands on a line. -/
def StandsOn (line : List Char) (thread : Thread) : Prop := thread.rest = line.drop thread.position

private theorem StandsOn.after {line : List Char} {thread : Thread} {item : LineItem}
    {way : Nat × List Char} (stands : thread.StandsOn line)
    (member : way ∈ item.ends [] thread.rest) : (thread.after item way).StandsOn line := by
  have left := eq_drop_of_mem_ends member
  rw [stands, List.drop_drop] at left
  exact left

/-- Whether a way leads from a thread to a place that has not been seen. -/
def isNew (seen : Std.HashSet Nat) (thread : Thread) (way : Nat × List Char) : Bool :=
  !seen.contains (thread.position + way.1)

/-- Whether an item leads from places that have been seen to such places only. -/
def Closed (line : List Char) (item : LineItem) (seen : Std.HashSet Nat) : Prop :=
  ∀ position ∈ seen, ∀ way ∈ item.more (line.drop position), position + way.1 ∈ seen

/-- The ways from the first on that leads to a place that has been seen all lead to such places. -/
private theorem Closed.mem_of_mem_dropWhile {line : List Char} {item : LineItem}
    {seen : Std.HashSet Nat} (closed : Closed line item seen) {thread : Thread}
    (stands : thread.StandsOn line) {way : Nat × List Char}
    (member : way ∈ (item.ends [] thread.rest).dropWhile (thread.isNew seen)) :
    thread.position + way.1 ∈ seen := by
  have parts := List.takeWhile_append_dropWhile (p := thread.isNew seen)
    (l := item.ends [] thread.rest)
  cases cut : (item.ends [] thread.rest).dropWhile (thread.isNew seen) with
  | nil => simp [cut] at member
  | cons first back =>
    have known : thread.position + first.1 ∈ seen := by
      have stop := List.head?_dropWhile_not (thread.isNew seen) (item.ends [] thread.rest)
      rw [cut] at stop
      simpa [isNew] using stop
    rw [cut] at member parts
    rcases List.mem_cons.mp member with rfl | further
    · exact known
    · have inEnds : first ∈ item.ends [] thread.rest := by rw [← parts]; simp
      have left : first.2 = line.drop (thread.position + first.1) := stands.after inEnds
      rw [ends_eq_append parts.symm, left, List.mem_map] at further
      obtain ⟨next, inMore, rfl⟩ := further
      simpa [Nat.add_assoc] using closed _ known next inMore

/-- The places to which the new ways of a thread lead. -/
def reached (item : LineItem) (seen : Std.HashSet Nat) (thread : Thread) : List Nat :=
  ((item.ends [] thread.rest).takeWhile (thread.isNew seen)).map fun way =>
    thread.position + way.1

/-- Seen places stay closed when all places are added to which the new ways of a thread lead. -/
private theorem Closed.insertMany {line : List Char} {item : LineItem} {seen : Std.HashSet Nat}
    (closed : Closed line item seen) {thread : Thread} (stands : thread.StandsOn line) :
    Closed line item (seen.insertMany (thread.reached item seen)) := by
  intro position known next inMore
  simp only [Std.HashSet.mem_insertMany_list, List.contains_iff_mem, reached,
    List.mem_map] at known ⊢
  rcases known with before | ⟨way, inWays, rfl⟩
  · exact .inl (closed position before next inMore)
  · have inEnds := List.takeWhile_subset _ inWays
    have left : way.2 = line.drop (thread.position + way.1) := stands.after inEnds
    obtain ⟨front, back, cut⟩ := List.append_of_mem inEnds
    have further : (way.1 + next.1, next.2) ∈ item.ends [] thread.rest := by
      rw [cut, ends_eq_append cut, left]
      simp only [List.mem_append, List.mem_cons, List.mem_map]
      exact .inr (.inr ⟨next, inMore, rfl⟩)
    rw [← List.takeWhile_append_dropWhile (p := thread.isNew seen)
      (l := item.ends [] thread.rest)] at further
    rcases List.mem_append.mp further with kept | dropped
    · exact .inr ⟨_, kept, by simp [Nat.add_assoc]⟩
    · exact .inl (by simpa [Nat.add_assoc] using closed.mem_of_mem_dropWhile stands dropped)

private theorem advance_cons (item : LineItem) (seen : Std.HashSet Nat) (thread : Thread)
    (threads : List Thread) :
    advance item seen (thread :: threads) =
      ((item.ends [] thread.rest).takeWhile (thread.isNew seen)).map (thread.after item) ++
        advance item (seen.insertMany (thread.reached item seen)) threads := by
  rw [advance, endsUntil_eq_takeWhile]
  rfl

private theorem standsOn_of_mem_advance {line : List Char} {item : LineItem}
    {seen : Std.HashSet Nat} {threads : List Thread}
    (stand : ∀ thread ∈ threads, thread.StandsOn line) :
    ∀ thread ∈ advance item seen threads, thread.StandsOn line := by
  induction threads generalizing seen with
  | nil => simp [advance]
  | cons first threads ih =>
    intro thread member
    rw [advance_cons, List.mem_append, List.mem_map] at member
    rcases member with ⟨way, inWays, rfl⟩ | further
    · exact (stand first List.mem_cons_self).after (List.takeWhile_subset _ inWays)
    · exact ih (fun other inRest => stand other (List.mem_cons_of_mem _ inRest)) thread further

/-- The first success behind an item is found in spite of what is left out, if places that have
been seen lead to none. -/
private theorem findSome?_advance {line : List Char} {item : LineItem} {f : Thread → Option α}
    (alike : ∀ left right : Thread, left.StandsOn line → right.StandsOn line →
      left.position = right.position → f left = none → f right = none)
    {seen : Std.HashSet Nat} {threads : List Thread}
    (stand : ∀ thread ∈ threads, thread.StandsOn line) (closed : Closed line item seen)
    (failed : ∀ thread : Thread, thread.StandsOn line → thread.position ∈ seen →
      f thread = none) :
    (advance item seen threads).findSome? f = threads.findSome? fun thread =>
      (item.ends [] thread.rest).findSome? fun way => f (thread.after item way) := by
  induction threads generalizing seen with
  | nil => rfl
  | cons thread threads ih =>
    have stands := stand thread List.mem_cons_self
    have dropped : (((item.ends [] thread.rest).dropWhile (thread.isNew seen)).findSome?
        fun way => f (thread.after item way)) = none := by
      rw [List.findSome?_eq_none_iff]
      intro way member
      exact failed _ (stands.after (List.dropWhile_subset _ member))
        (closed.mem_of_mem_dropWhile stands member)
    have kept : ((item.ends [] thread.rest).findSome? fun way => f (thread.after item way)) =
        ((item.ends [] thread.rest).takeWhile (thread.isNew seen)).findSome?
          fun way => f (thread.after item way) := by
      rw [← Option.or_none (o := List.findSome? _ (List.takeWhile _ _)), ← dropped,
        ← List.findSome?_append, List.takeWhile_append_dropWhile]
    rw [advance_cons, List.findSome?_append, List.findSome?_map, List.findSome?_cons, kept]
    cases first : ((item.ends [] thread.rest).takeWhile (thread.isNew seen)).findSome?
        fun way => f (thread.after item way) with
    | some result => simp [Function.comp_def, first]
    | none =>
      simp only [Function.comp_def, first, Option.none_or]
      refine ih (fun other inRest => stand other (List.mem_cons_of_mem _ inRest))
        (closed.insertMany stands) fun other otherStands known => ?_
      simp only [Std.HashSet.mem_insertMany_list, List.contains_iff_mem, reached,
        List.mem_map] at known
      rcases known with before | ⟨way, inWays, place⟩
      · exact failed other otherStands before
      · exact alike _ other (stands.after (List.takeWhile_subset _ inWays)) otherStands place
          (List.findSome?_eq_none_iff.mp first way inWays)

private theorem findSome?_flatMap (f : β → Option γ) (g : α → List β) (list : List α) :
    (list.flatMap g).findSome? f = list.findSome? fun element => (g element).findSome? f := by
  induction list with
  | nil => rfl
  | cons element rest ih =>
    rw [List.flatMap_cons, List.findSome?_append, ih, List.findSome?_cons]
    cases (g element).findSome? f <;> rfl

private theorem step_eq (item : LineItem) (threads : List Thread) :
    step item threads = advance item ∅ threads ∨
      step item threads =
        threads.flatMap fun thread => (item.ends [] thread.rest).map (thread.after item) := by
  cases item <;> simp [step]

private theorem standsOn_of_mem_step {line : List Char} {item : LineItem} {threads : List Thread}
    (stand : ∀ thread ∈ threads, thread.StandsOn line) :
    ∀ thread ∈ step item threads, thread.StandsOn line := by
  rcases step_eq item threads with same | same <;> rw [same]
  · exact standsOn_of_mem_advance stand
  · intro thread member
    obtain ⟨origin, inThreads, member⟩ := List.mem_flatMap.mp member
    obtain ⟨way, inEnds, rfl⟩ := List.mem_map.mp member
    exact (stand origin inThreads).after inEnds

/-- The first success behind an item is the first one among all its ways from all threads. -/
private theorem findSome?_step {line : List Char} {item : LineItem} {f : Thread → Option α}
    (alike : ∀ left right : Thread, left.StandsOn line → right.StandsOn line →
      left.position = right.position → f left = none → f right = none)
    {threads : List Thread} (stand : ∀ thread ∈ threads, thread.StandsOn line) :
    (step item threads).findSome? f = threads.findSome? fun thread =>
      (item.ends [] thread.rest).findSome? fun way => f (thread.after item way) := by
  rcases step_eq item threads with same | same <;> rw [same]
  · refine findSome?_advance alike stand ?_ ?_
    · intro position known
      exact absurd known Std.HashSet.not_mem_empty
    · intro thread _ known
      exact absurd known Std.HashSet.not_mem_empty
  · simp only [findSome?_flatMap, List.findSome?_map, Function.comp_def]

end Thread

namespace LinePattern

open LineItem

/-- Without recalls it does not depend on what has been captured whether a pattern matches. -/
private theorem matchFrom?_eq_none_of_not_hasRecall {pattern : LinePattern}
    (plain : pattern.hasRecall = false) {left right : Captures} {text : List Char}
    (fails : matchFrom? pattern left text = none) : matchFrom? pattern right text = none := by
  induction pattern generalizing left right text with
  | nil => cases text <;> simp_all [matchFrom?]
  | cons item pattern ih =>
    simp only [hasRecall, List.any_cons, Bool.or_eq_false_iff] at plain
    simp only [matchFrom?, List.findSome?_eq_none_iff] at fails ⊢
    intro way member
    rw [ends_of_not_isRecall plain.1 right left] at member
    exact ih plain.2 (fails way member)

/-- Running a pattern from threads on one line finds the match of the first thread that has one. -/
theorem run?_eq_findSome? {pattern : LinePattern} (plain : pattern.hasRecall = false)
    {line : List Char} {threads : List Thread} (stand : ∀ thread ∈ threads, thread.StandsOn line) :
    pattern.run? threads =
      threads.findSome? fun thread => matchFrom? pattern thread.captures.get thread.rest := by
  induction pattern generalizing threads with
  | nil =>
    clear stand
    induction threads with
    | nil => rfl
    | cons thread threads ih =>
      cases left : thread.rest with
      | nil => simp [run?, left, matchFrom?]
      | cons c rest => simpa [run?, left, matchFrom?] using ih
  | cons item pattern ih =>
    simp only [hasRecall, List.any_cons, Bool.or_eq_false_iff] at plain
    rw [run?, ih plain.2 (Thread.standsOn_of_mem_step stand), Thread.findSome?_step _ stand]
    · congr 1
      funext thread
      rw [matchFrom?, ends_of_not_isRecall plain.1 thread.captures.get []]
      rfl
    · intro left right leftStands rightStands same fails
      have text : right.rest = left.rest := by rw [rightStands, ← same, ← leftStands]
      exact text ▸ matchFrom?_eq_none_of_not_hasRecall plain.2 fails

/-- Threads find the match that trying every way in order finds. -/
theorem findFrom?_eq_matchFrom? {pattern : LinePattern} (plain : pattern.hasRecall = false)
    (captures : Thunk Captures) (text : List Char) :
    pattern.findFrom? captures text = matchFrom? pattern captures.get text := by
  have stand : ∀ thread ∈ [(⟨captures, 0, text⟩ : Thread)], thread.StandsOn text := by
    simp [Thread.StandsOn]
  rw [findFrom?, run?_eq_findSome? plain stand]
  simp

end LinePattern

end LogMotif
