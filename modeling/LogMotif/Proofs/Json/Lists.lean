import Mathlib.Data.List.Forall2
import LogMotif.Proofs.Corpus.Lines
import LogMotif.Proofs.Json.Separated

/-! # Lists of objects

An object ends at its closing brace, so it is read alike whatever stands around it: alone on a line,
or in a list with a comma or the closing bracket behind it. A list of objects is read item by item,
with blanks wherever they may stand.
-/

namespace LogMotif.Json

namespace Read

variable {α : Type}

/-- An object between blanks, of which a reader takes a value, whatever stands behind it. -/
structure Spaced (item : Read α) (lead object trail : List Char) (value : α) : Prop where
  leads : ∀ c ∈ lead, isSpace c
  trails : ∀ c ∈ trail, isSpace c
  begins : object.head? = some '{'
  ends : object.getLast? = some '}'
  takes : ∀ blanks rest, (∀ c ∈ blanks, isSpace c) → item.Takes (blanks ++ object) rest value

/-- Whether a text is an object between blanks, of which a reader takes a value. -/
def Holds (item : Read α) (text : String) (value : α) : Prop :=
  ∃ lead object trail, text.toList = lead ++ (object ++ trail) ∧ Spaced item lead object trail value

variable {item : Read α} {value : α} {values : List α} {lead object trail : List Char}

theorem Spaced.head?_append (spaced : Spaced item lead object trail value) (behind : List Char) :
    (object ++ behind).head? = some '{' := by
  rw [List.head?_append, spaced.begins, Option.some_or]

theorem Holds.brace_mem {text : String} (holds : Holds item text value) : '{' ∈ text.toList := by
  obtain ⟨lead, object, trail, text_eq, spaced⟩ := holds
  rw [text_eq]
  exact List.mem_append_right _ (List.mem_of_head? (spaced.head?_append trail))

/-- The text is read as a whole. -/
theorem Holds.run {text : String} (holds : Holds item text value) : item.run text = .ok value := by
  obtain ⟨lead, object, trail, text_eq, spaced⟩ := holds
  refine (spaced.takes lead trail spaced.leads).run_of_blanks ?_ spaced.trails
  rw [text_eq, List.append_assoc]

private theorem Spaced.isItem (spaced : Spaced item lead object trail value) : Begins object := by
  obtain ⟨rest, rfl⟩ := List.head?_eq_some_iff.mp spaced.begins
  exact ⟨'{', rest, rfl, by decide⟩

/-- Behind an item, with the blanks behind it, the items left stand apart from each other. -/
private theorem exists_separated_behind {texts : List String}
    (each : List.Forall₂ (Holds item) texts values) : ∃ pieces : List (α × List Char),
      pieces.map Prod.fst = values ∧
      (∀ piece ∈ pieces, Begins piece.2 ∧ ∀ rest, item.Takes piece.2 rest piece.1) ∧
      ∀ blanks, (∀ c ∈ blanks, isSpace c) → Separated false (pieces.map Prod.snd)
        (blanks ++ texts.flatMap fun text => ',' :: text.toList) := by
  induction each with
  | nil =>
    refine ⟨[], rfl, List.forall_mem_nil _, fun blanks spaces => ?_⟩
    rw [List.flatMap_nil, List.append_nil]
    exact .nil spaces
  | cons here _ ih =>
    obtain ⟨lead, object, trail, text_eq, spaced⟩ := here
    obtain ⟨pieces, rfl, others, separated⟩ := ih
    refine ⟨(_, object) :: pieces, rfl, List.forall_mem_cons.mpr ⟨?_, others⟩,
      fun blanks spaces => ?_⟩
    · exact ⟨spaced.isItem, fun rest => spaced.takes [] rest nofun⟩
    · -- The blanks behind this item stand in front of the comma of the next one.
      have both : Separated false (object :: pieces.map Prod.snd) _ :=
        .cons (.next spaces spaced.leads) (separated trail spaced.trails)
      rw [List.flatMap_cons, text_eq]
      simpa only [List.map_cons, List.append_assoc, List.cons_append] using both

/-- Objects in a list stand apart from each other, with any blanks around them. -/
private theorem exists_separated_of_holds {texts : List String}
    (each : List.Forall₂ (Holds item) texts values) : ∃ pieces : List (α × List Char),
      pieces.map Prod.fst = values ∧
      (∀ piece ∈ pieces, Begins piece.2 ∧ ∀ rest, item.Takes piece.2 rest piece.1) ∧
      Separated true (pieces.map Prod.snd) (String.intercalate "," texts).toList := by
  cases each with
  | nil => exact ⟨[], rfl, List.forall_mem_nil _, .nil nofun⟩
  | cons here each =>
    obtain ⟨lead, object, trail, text_eq, spaced⟩ := here
    obtain ⟨pieces, rfl, others, separated⟩ := exists_separated_behind each
    refine ⟨(_, object) :: pieces, rfl, List.forall_mem_cons.mpr ⟨?_, others⟩, ?_⟩
    · exact ⟨spaced.isItem, fun rest => spaced.takes [] rest nofun⟩
    · rw [Corpus.toList_intercalate_cons, text_eq, List.append_assoc, List.append_assoc]
      exact .cons (.first spaced.leads) (separated trail spaced.trails)

/-- The items of a list are read with any blanks around them. -/
theorem takes_itemsToEnd_of_holds {texts : List String}
    (each : List.Forall₂ (Holds item) texts values) (rest : List Char) :
    (itemsToEnd item true).Takes (String.intercalate "," texts).toList (']' :: rest) values := by
  obtain ⟨pieces, rfl, taken, separated⟩ := exists_separated_of_holds each
  exact takes_itemsToEnd (fun piece member => (taken piece member).1)
    (fun piece member rest _ => (taken piece member).2 rest) separated rest

end Read

end LogMotif.Json
