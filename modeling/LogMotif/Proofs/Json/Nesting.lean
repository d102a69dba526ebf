import LogMotif.Json.Value

/-! # How deep a text is nested

The brackets of a text can be counted without reading it as JSON: a scan over its characters has to
know only which of them stand in a string. A piece of JSON leaves as many brackets open as it has
found, so the depths of pieces one behind the other do not add up.
-/

namespace LogMotif.Json

/-- What a scan is in the middle of. -/
inductive ScanMode where
  | outside
  | inString
  /-- In a string, behind a backslash. -/
  | escaped
deriving DecidableEq, Repr

/-- What a scan knows of the text it has passed over. -/
structure Scan where
  mode : ScanMode
  /-- How many brackets are open. -/
  opened : Nat
  /-- How many brackets have been open at once. -/
  most : Nat
deriving DecidableEq, Repr

/-- The scan behind one more character. -/
def Scan.step (scan : Scan) (c : Char) : Scan :=
  match scan.mode with
  | .escaped => { scan with mode := .inString }
  | .inString =>
    if c = '"' then { scan with mode := .outside }
    else if c = '\\' then { scan with mode := .escaped }
    else scan
  | .outside =>
    if c = '"' then { scan with mode := .inString }
    else if c = '[' ∨ c = '{' then
      { scan with opened := scan.opened + 1, most := max scan.most (scan.opened + 1) }
    else if c = ']' ∨ c = '}' then { scan with opened := scan.opened - 1 }
    else scan

/-- How many brackets are open at once in a text. -/
def mostOpen (text : String) : Nat := (text.toList.foldl Scan.step ⟨.outside, 0, 0⟩).most

/-- Whether a character leads a scan from one mode to another without opening or closing a bracket.
-/
def Passes (enter : ScanMode) (c : Char) (leave : ScanMode) : Prop :=
  ∀ opened most, Scan.step ⟨enter, opened, most⟩ c = ⟨leave, opened, most⟩

theorem passes_outside {c : Char} (inert : c ∉ ['"', '[', '{', ']', '}']) :
    Passes .outside c .outside := by
  intro opened most
  simp only [List.mem_cons, List.not_mem_nil, or_false, not_or] at inert
  simp [Scan.step, inert]

theorem passes_inString {c : Char} (notQuote : c ≠ '"') (notBackslash : c ≠ '\\') :
    Passes .inString c .inString := by
  intro opened most
  simp [Scan.step, notQuote, notBackslash]

/-- Whether a text leads a scan from one mode to another, closes the brackets that it opens, and has
so many of them open at once. -/
def Opens (enter leave : ScanMode) (depth : Nat) (text : List Char) : Prop :=
  ∀ opened most, opened ≤ most →
    text.foldl Scan.step ⟨enter, opened, most⟩ = ⟨leave, opened, max most (opened + depth)⟩

variable {enter middle leave : ScanMode} {depth other : Nat} {front back text : List Char}

theorem opens_nil (mode : ScanMode) : Opens mode mode 0 [] := by
  intro opened most few
  rw [List.foldl_nil, Nat.add_zero, Nat.max_eq_left few]

theorem Opens.append (one : Opens enter middle depth front) (two : Opens middle leave other back) :
    Opens enter leave (max depth other) (front ++ back) := by
  intro opened most few
  rw [List.foldl_append, one opened most few,
    two opened _ (Nat.le_trans few (Nat.le_max_left _ _)), Nat.max_assoc, Nat.add_max_add_left]

theorem Passes.opens {c : Char} (passes : Passes enter c leave) : Opens enter leave 0 [c] := by
  intro opened most few
  rw [List.foldl_cons, passes, List.foldl_nil, Nat.add_zero, Nat.max_eq_left few]

theorem opens_of_passes {mode : ScanMode} (inert : ∀ c ∈ text, Passes mode c mode) :
    Opens mode mode 0 text := by
  induction text with
  | nil => exact opens_nil mode
  | cons c text ih =>
    obtain ⟨here, inert⟩ := List.forall_mem_cons.mp inert
    exact here.opens.append (ih inert)

/-- Brackets around a text make it deeper by one. -/
theorem Opens.enclosed (inside : Opens .outside .outside depth text) {opening closing : Char}
    (opens : opening = '[' ∨ opening = '{') (closes : closing = ']' ∨ closing = '}') :
    Opens .outside .outside (depth + 1) (opening :: (text ++ [closing])) := by
  intro opened most few
  have enters : Scan.step ⟨.outside, opened, most⟩ opening =
      ⟨.outside, opened + 1, max most (opened + 1)⟩ := by
    rcases opens with rfl | rfl <;> rfl
  have leaves (most : Nat) : Scan.step ⟨.outside, opened + 1, most⟩ closing =
      ⟨.outside, opened, most⟩ := by
    rcases closes with rfl | rfl <;> rfl
  rw [List.foldl_cons, enters, List.foldl_append, inside _ _ (Nat.le_max_right _ _),
    List.foldl_cons, leaves, List.foldl_nil, Nat.max_assoc]
  congr 2
  omega

theorem Opens.mostOpen_eq {text : String} (opens : Opens .outside .outside depth text.toList) :
    mostOpen text = depth := by
  rw [mostOpen, opens 0 0 (Nat.le_refl 0), Nat.zero_add, Nat.zero_max]

/-- Texts with commas between them are as deep as the deepest of them. -/
theorem opens_intercalate {texts : List String}
    (each : ∀ text ∈ texts, Opens .outside .outside (mostOpen text) text.toList) :
    Opens .outside .outside ((texts.map mostOpen).foldr max 0)
      (String.intercalate "," texts).toList := by
  induction texts with
  | nil =>
    rw [String.intercalate_nil]
    exact opens_nil .outside
  | cons text texts ih =>
    obtain ⟨here, each⟩ := List.forall_mem_cons.mp each
    cases texts with
    | nil =>
      rw [String.intercalate_singleton, List.map_singleton, List.foldr_cons, List.foldr_nil,
        Nat.max_zero]
      exact here
    | cons next texts =>
      have comma : Passes .outside ',' .outside := fun _ _ => rfl
      have behind := comma.opens.append (ih each)
      rw [Nat.zero_max] at behind
      have joined : (String.intercalate "," (text :: next :: texts)).toList =
          text.toList ++ ([','] ++ (String.intercalate "," (next :: texts)).toList) := by
        simp
      rw [joined]
      exact here.append behind

/-- A list is deeper by one than its deepest item. -/
theorem mostOpen_list {texts : List String}
    (each : ∀ text ∈ texts, Opens .outside .outside (mostOpen text) text.toList) :
    mostOpen ("[" ++ String.intercalate "," texts ++ "]") =
      (texts.map mostOpen).foldr max 0 + 1 := by
  refine Opens.mostOpen_eq ?_
  rw [String.toList_append, String.toList_append]
  exact (opens_intercalate each).enclosed (.inl rfl) (.inl rfl)

/-- Brackets in a string are not counted, also behind an escaped quote. -/
example : mostOpen "[\x7b\"a[\\\"\x7b\":[[]]\x7d,[]]" = 4 := by decide

end LogMotif.Json
