import LogMotif.Proofs.Pattern.Content

/-! # How line patterns read lines

A line pattern reads a line when the line can be cut into one piece for each item, each of a kind
that the item takes. Trying the ways of each item in order finds a match exactly when there is such
a reading, and the match found is one.
-/

namespace LogMotif

namespace Captures

theorem lookup_cons (wildcard : Nat) (content : String) (captures : Captures) (index : Nat) :
    List.lookup index ((wildcard, content) :: captures) =
      if index = wildcard then some content else captures.lookup index := by
  by_cases same : index = wildcard
  · simp [same]
  · have different : (index == wildcard) = false := beq_eq_false_iff_ne.mpr same
    simp [List.lookup_cons, same, different]

theorem lookup_append (left right : Captures) (index : Nat) :
    (left ++ right).lookup index = (left.lookup index).or (right.lookup index) := by
  induction left with
  | nil => rfl
  | cons first left ih =>
    rw [List.cons_append, lookup_cons, lookup_cons, ih]
    split <;> rfl

theorem lookup_singleton (wildcard : Nat) (content : String) (index : Nat) :
    List.lookup index [(wildcard, content)] = if index = wildcard then some content else none :=
  lookup_cons wildcard content [] index

theorem lookup_of_isPrefix {captures result : Captures} (front : captures <+: result) {index : Nat}
    {content : String} (found : captures.lookup index = some content) :
    result.lookup index = some content := by
  obtain ⟨more, rfl⟩ := front
  rw [lookup_append, found, Option.some_or]

end Captures

namespace LineItem

/-- Whether an item behind some captures takes a text as a whole. -/
def Takes (captures : Captures) (taken : List Char) : LineItem → Prop
  | literal content => taken = content.toList
  | anyString => ∃ content, IsContent content ∧ taken = '"' :: (content ++ ['"'])
  | stretch | capture _ => IsStretch taken
  | recalled wildcard =>
    ∃ content, captures.lookup wildcard = some content ∧ taken = content.toList

/-- The captures behind an item that has taken a text. -/
def keep (captures : Captures) (taken : List Char) : LineItem → Captures
  | capture wildcard => captures ++ [(wildcard, String.ofList taken)]
  | _ => captures

theorem record_append (item : LineItem) (captures : Captures) (taken rest : List Char) :
    item.record captures (taken ++ rest) taken.length = item.keep captures taken := by
  cases item <;> simp [record, keep]

/-- The ways of an item at the front of a text are the pieces there that it takes. -/
theorem mem_ends_iff {item : LineItem} {captures : Captures} {text rest : List Char}
    {reached : Nat} :
    (reached, rest) ∈ item.ends captures text ↔
      ∃ taken, item.Takes captures taken ∧ text = taken ++ rest ∧ reached = taken.length := by
  cases item with
  | literal content =>
    simp only [ends, Takes, Option.mem_toList, Option.map_eq_some_iff, Prod.mk.injEq,
      behind?_eq_some_iff, exists_eq_left]
    constructor
    · rintro ⟨_, rfl, rfl, rfl⟩
      exact ⟨rfl, rfl⟩
    · rintro ⟨rfl, rfl⟩
      exact ⟨rest, rfl, rfl, rfl⟩
  | anyString =>
    simp only [ends, Takes, Option.mem_toList, Option.map_eq_some_iff, Prod.mk.injEq,
      behindString?_eq_some_iff]
    constructor
    · rintro ⟨_, ⟨content, isContent, rfl⟩, rfl, rfl⟩
      exact ⟨_, ⟨content, isContent, rfl⟩, by simp, by simp; omega⟩
    · rintro ⟨_, ⟨content, isContent, rfl⟩, rfl, rfl⟩
      exact ⟨rest, ⟨content, isContent, by simp⟩, by simp; omega, rfl⟩
  | stretch => simp [ends, Takes, mem_stretchEnds_iff]
  | capture wildcard => simp [ends, Takes, mem_stretchEnds_iff]
  | recalled wildcard =>
    cases captured : captures.lookup wildcard with
    | none => simp [ends, Takes, captured]
    | some content =>
      simp only [ends, Takes, captured, Option.mem_toList, Option.map_eq_some_iff, Prod.mk.injEq,
        behind?_eq_some_iff, Option.some.injEq, exists_eq_left']
      constructor
      · rintro ⟨_, rfl, rfl, rfl⟩
        exact ⟨_, rfl, rfl, rfl⟩
      · rintro ⟨_, rfl, rfl, rfl⟩
        exact ⟨rest, rfl, rfl, rfl⟩

end LineItem

namespace LinePattern

/-- A way to read a text as a whole, from some captures to those behind the last item. -/
inductive Reads : LinePattern → Captures → List Char → Captures → Prop
  | nil (captures : Captures) : Reads [] captures [] captures
  | cons {item : LineItem} {pattern : LinePattern} {captures result : Captures}
      {taken rest : List Char} (takes : item.Takes captures taken)
      (reads : Reads pattern (item.keep captures taken) rest result) :
      Reads (item :: pattern) captures (taken ++ rest) result

/-- What is found is a reading. -/
theorem reads_of_matchFrom? {pattern : LinePattern} {captures result : Captures}
    {text : List Char} (found : matchFrom? pattern captures text = some result) :
    Reads pattern captures text result := by
  induction pattern generalizing captures text with
  | nil =>
    cases text with
    | nil => obtain rfl := Option.some.inj found; exact .nil captures
    | cons => simp [matchFrom?] at found
  | cons item pattern ih =>
    obtain ⟨⟨reached, rest⟩, way, found⟩ := List.exists_of_findSome?_eq_some found
    obtain ⟨taken, takes, rfl, rfl⟩ := LineItem.mem_ends_iff.mp way
    simp only [LineItem.record_append] at found
    exact .cons takes (ih found)

/-- Where there is a reading, a match is found. -/
theorem Reads.isSome_matchFrom? {pattern : LinePattern} {captures result : Captures}
    {text : List Char} (reads : Reads pattern captures text result) :
    (matchFrom? pattern captures text).isSome := by
  induction reads with
  | nil => rfl
  | @cons item pattern captures result taken rest takes _ ih =>
    rw [matchFrom?, List.findSome?_isSome_iff]
    refine ⟨(taken.length, rest), LineItem.mem_ends_iff.mpr ⟨taken, takes, rfl, rfl⟩, ?_⟩
    simpa only [LineItem.record_append] using ih

end LinePattern

end LogMotif
