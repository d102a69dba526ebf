import LogMotif.Search
import LogMotif.Proofs.Query.Compilation

/-! # What an entry captures

Matching an entry on a line takes the texts captured so far and gives back those with the texts of
the wildcards that the entry defines. Along the entries of a compiled motif every wildcard that was
met has one captured stretch, which later entries find again, and the lines are those that the
templates spell for these stretches.
-/

namespace LogMotif

open LineItem (IsStretch)
open TemplateItem (Spells)

namespace Captures

theorem lookup_filter (captures : Captures) (kept : List Nat) (index : Nat) :
    (captures.filter (·.1 ∈ kept)).lookup index =
      if index ∈ kept then captures.lookup index else none := by
  induction captures with
  | nil => simp
  | cons first captures ih =>
    obtain ⟨wildcard, content⟩ := first
    rw [List.filter_cons, lookup_cons]
    by_cases member : wildcard ∈ kept
    · rw [if_pos (by simpa using member), lookup_cons, ih]
      by_cases same : index = wildcard
      · simp [same, member]
      · simp [same]
    · rw [if_neg (by simpa using member), ih]
      by_cases same : index = wildcard
      · simp [same, member]
      · simp [same]

/-- Whether captures hold a stretch for each of the given wildcards, and for no other. -/
structure Hold (captures : Captures) (captured : List Nat) : Prop where
  exists_stretch : ∀ index ∈ captured,
    ∃ content, captures.lookup index = some content ∧ IsStretch content.toList
  lookup_eq_none : ∀ index ∉ captured, captures.lookup index = none

theorem hold_nil : Hold [] [] := ⟨by simp, by simp⟩

end Captures

namespace EntryTemplate

/-- The captures behind an entry that matches a line: those in front of it, and those of the
wildcards that it defines. -/
def matchLine? (template : EntryTemplate) (captures : Captures) (line : String) :
    Option Captures :=
  ((template.linePattern (Search.boundValues template captures)).match? line).map fun taken =>
    captures ++ taken.filter (·.1 ∈ template.defined)

/-- The captures behind an entry that matches a line within a budget. -/
def captureLine? (template : EntryTemplate) (budget : Nat) (captures : Captures) (line : String) :
    Option Captures :=
  match (template.linePattern (Search.boundValues template captures)).attempt budget line with
  | .found taken => some (captures ++ taken.filter (·.1 ∈ template.defined))
  | .failed _ | .exhausted => none

theorem captureLine?_eq_some_iff {template : EntryTemplate} {budget : Nat} {captures : Captures}
    {line : String} {extended : Captures} :
    template.captureLine? budget captures line = some extended ↔
      ∃ taken, (template.linePattern (Search.boundValues template captures)).attempt budget line =
          .found taken ∧
        extended = captures ++ taken.filter (·.1 ∈ template.defined) := by
  unfold captureLine?
  cases (template.linePattern (Search.boundValues template captures)).attempt budget line <;>
    simp [eq_comm]

theorem matchLine?_of_captureLine? {template : EntryTemplate} {budget : Nat} {captures : Captures}
    {line : String} {extended : Captures}
    (matched : template.captureLine? budget captures line = some extended) :
    template.matchLine? captures line = some extended := by
  obtain ⟨taken, found, rfl⟩ := captureLine?_eq_some_iff.mp matched
  rw [matchLine?, LinePattern.match?_of_attempt_eq_found found, Option.map_some]

/-- A budget makes no difference on a line where it is not exceeded. -/
theorem captureLine?_of_matchLine? {template : EntryTemplate} {budget : Nat} {captures : Captures}
    {line : String} {extended : Captures}
    (matched : template.matchLine? captures line = some extended)
    (within : (template.linePattern (Search.boundValues template captures)).attempt budget line ≠
      .exhausted) : template.captureLine? budget captures line = some extended := by
  obtain ⟨taken, isTaken, rfl⟩ := Option.map_eq_some_iff.mp matched
  obtain ⟨again, found⟩ :=
    LinePattern.exists_attempt_eq_found (Option.isSome_of_eq_some isTaken) within
  obtain rfl := Option.some.inj (isTaken.symm.trans (LinePattern.match?_of_attempt_eq_found found))
  exact captureLine?_eq_some_iff.mpr ⟨taken, found, rfl⟩

variable {captured : List Nat} {items : List TemplateItem}

/-- An entry that matches a line keeps what was captured, captures a stretch for each wildcard that
it defines, and with these texts its template spells the line. -/
theorem spells_of_matchLine? {captures extended : Captures} {line : String}
    (hold : captures.Hold captured)
    (matched : (ofItems captured items).matchLine? captures line = some extended) :
    captures <+: extended ∧ extended.Hold (captured ++ (ofItems captured items).defined) ∧
      Spells (fun index => (extended.lookup index).getD "") items line.toList := by
  obtain ⟨taken, found, rfl⟩ := Option.map_eq_some_iff.mp matched
  obtain ⟨value, spells, given, defined⟩ :=
    exists_spells_of_match? (by simp [Search.boundValues]) found
  have front : captures <+: captures ++ taken.filter (·.1 ∈ (ofItems captured items).defined) :=
    List.prefix_append _ _
  -- A wildcard behind which something was captured keeps it; the entry captures the others.
  have kept : ∀ index ∈ (ofItems captured items).defined,
      (captures ++ taken.filter (·.1 ∈ (ofItems captured items).defined)).lookup index =
        some (value index) := by
    intro index member
    rw [Captures.lookup_append, hold.lookup_eq_none index (mem_defined_iff.mp member).2,
      Option.none_or, Captures.lookup_filter, if_pos member]
    exact (defined index member).1
  refine ⟨front, ⟨?_, ?_⟩, ?_⟩
  · intro index member
    rcases List.mem_append.mp member with before | new
    · obtain ⟨content, known, stretch⟩ := hold.exists_stretch index before
      exact ⟨content, Captures.lookup_of_isPrefix front known, stretch⟩
    · exact ⟨value index, kept index new, (defined index new).2⟩
  · intro index absent
    obtain ⟨old, new⟩ := not_or.mp (mt List.mem_append.mpr absent)
    rw [Captures.lookup_append, hold.lookup_eq_none index old, Option.none_or,
      Captures.lookup_filter, if_neg new]
  · refine spells.congr fun index inItems => ?_
    by_cases before : index ∈ captured
    · have bound := mem_bound_iff.mpr ⟨inItems, before⟩
      obtain ⟨content, known, -⟩ := hold.exists_stretch index before
      have value_eq := given index bound
      rw [Search.boundValues, boundValue?_map _ bound, known] at value_eq
      rw [Captures.lookup_of_isPrefix front known]
      exact (Option.some.inj value_eq).symm
    · rw [kept index (mem_defined_iff.mpr ⟨inItems, before⟩), Option.getD_some]

theorem spells_of_captureLine? {budget : Nat} {captures extended : Captures} {line : String}
    (hold : captures.Hold captured)
    (matched : (ofItems captured items).captureLine? budget captures line = some extended) :
    captures <+: extended ∧ extended.Hold (captured ++ (ofItems captured items).defined) ∧
      Spells (fun index => (extended.lookup index).getD "") items line.toList :=
  spells_of_matchLine? hold (matchLine?_of_captureLine? matched)

/-- The prefilter of an entry finds every line that the entry matches. -/
theorem isSome_find?_of_matchLine? {captures extended : Captures} {line : String}
    (hold : captures.Hold captured)
    (matched : (ofItems captured items).matchLine? captures line = some extended) :
    ((ofItems captured items).prefilter.find? line).isSome := by
  obtain ⟨-, holdBehind, spells⟩ := spells_of_matchLine? hold matched
  refine isSome_find?_prefilter spells fun index inItems => ?_
  have known : index ∈ captured ++ (ofItems captured items).defined := by
    by_cases before : index ∈ captured
    · exact List.mem_append_left _ before
    · exact List.mem_append_right _ (mem_defined_iff.mpr ⟨inItems, before⟩)
  obtain ⟨content, found, stretch⟩ := holdBehind.exists_stretch index known
  simpa [found] using stretch

theorem isSome_find?_of_captureLine? {budget : Nat} {captures extended : Captures} {line : String}
    (hold : captures.Hold captured)
    (matched : (ofItems captured items).captureLine? budget captures line = some extended) :
    ((ofItems captured items).prefilter.find? line).isSome :=
  isSome_find?_of_matchLine? hold (matchLine?_of_captureLine? matched)

end EntryTemplate

end LogMotif
