import LogMotif.CommandLine.Command
import LogMotif.Proofs.Action.Values
import LogMotif.Proofs.Json.Layout
import LogMotif.Proofs.Json.ReplayValue
import Mathlib.Data.List.Perm.Subperm

/-! # Configurations read again

A configuration is saved with one field a line, and read back from any layout of its fields, in any
order. A field that is left out has its default.
-/

namespace LogMotif

open Json

namespace Config

/-- The members of the object that stands for a configuration. -/
def members (config : Config) : List (String × Value) :=
  shape.fields.zip
    [.ofStrings config.timestampColumns, .ofNat config.timestampSampleRows,
      .ofNat config.boundedLinkGap, .ofNat config.backtrackLimit]

/-- Whether the numbers in a configuration fit a word. -/
def InWords (config : Config) : Prop :=
  ∀ n ∈ [config.timestampSampleRows, config.boundedLinkGap, config.backtrackLimit],
    n ≤ Index.greatest

instance (config : Config) : Decidable config.InWords :=
  inferInstanceAs (Decidable (∀ n ∈ _, n ≤ Index.greatest))

/-- The configuration with its own values in the named fields, and the defaults in the others. -/
def keeping (config : Config) (names : List String) : Config :=
  let default : Config := {}
  { timestampColumns :=
      if "timestamp_columns" ∈ names then config.timestampColumns else default.timestampColumns
    timestampSampleRows :=
      if "timestamp_sample_rows" ∈ names then config.timestampSampleRows
      else default.timestampSampleRows
    boundedLinkGap :=
      if "bounded_link_gap" ∈ names then config.boundedLinkGap else default.boundedLinkGap
    backtrackLimit :=
      if "backtrack_limit" ∈ names then config.backtrackLimit else default.backtrackLimit }

variable {config : Config} {key : String} {value : Value} {seen : List String}

private theorem toValue_eq (config : Config) : config.toValue = .object config.members := rfl

private theorem map_fst_members (config : Config) :
    config.members.map Prod.fst = shape.fields := rfl

private theorem keeping_nil (config : Config) : config.keeping [] = {} := rfl

private theorem keeping_fields (config : Config) : config.keeping shape.fields = config := rfl

private theorem keeping_reverse (config : Config) (names : List String) :
    config.keeping names.reverse = config.keeping names := by
  simp only [keeping, List.mem_reverse]

/-! ### Taking in members -/

theorem mem_members_iff : (key, value) ∈ config.members ↔
    (key = "timestamp_columns" ∧ value = .ofStrings config.timestampColumns) ∨
    (key = "timestamp_sample_rows" ∧ value = .ofNat config.timestampSampleRows) ∨
    (key = "bounded_link_gap" ∧ value = .ofNat config.boundedLinkGap) ∨
    (key = "backtrack_limit" ∧ value = .ofNat config.backtrackLimit) := by
  simp [members, shape]

/-- A member gives its field the value of the configuration that was written. -/
private theorem put_keeping (member : (key, value) ∈ config.members) :
    put (config.keeping seen) key value = .ok (config.keeping (key :: seen)) := by
  rcases mem_members_iff.mp member with
    ⟨rfl, rfl⟩ | ⟨rfl, rfl⟩ | ⟨rfl, rfl⟩ | ⟨rfl, rfl⟩
  · rw [put, Value.toTexts_ofStrings]
    simp [Except.map, keeping]
  · simp [put, Value.toNat, Value.ofNat, Except.map, keeping]
  · simp [put, Value.toNat, Value.ofNat, Except.map, keeping]
  · simp [put, Value.toNat, Value.ofNat, Except.map, keeping]

private theorem putMember_keeping (member : (key, value) ∈ config.members) (new : key ∉ seen) :
    shape.putMember (config.keeping seen, seen) (key, value) =
      .ok (config.keeping (key :: seen), key :: seen) := by
  have known : key ∈ shape.fields := (List.of_mem_zip member).1
  rw [RecordShape.putMember, if_pos known, if_neg new]
  exact congrArg (Except.map (·, key :: seen)) (put_keeping member)

/-- Members of a configuration that are taken in once each give their fields to the one that is
read. -/
private theorem foldlM_putMember_keeping {kept : List (String × Value)}
    (within : kept ⊆ config.members) (once : (kept.map Prod.fst).Nodup)
    (new : ∀ key ∈ kept.map Prod.fst, key ∉ seen) :
    kept.foldlM shape.putMember (config.keeping seen, seen) =
      .ok (config.keeping ((kept.map Prod.fst).reverse ++ seen),
        (kept.map Prod.fst).reverse ++ seen) := by
  induction kept generalizing seen with
  | nil => rfl
  | cons member kept ih =>
    obtain ⟨key, value⟩ := member
    obtain ⟨here, within⟩ := List.cons_subset.mp within
    obtain ⟨other, once⟩ := List.nodup_cons.mp once
    obtain ⟨newKey, new⟩ := List.forall_mem_cons.mp new
    have unseen : ∀ name ∈ kept.map Prod.fst, name ∉ key :: seen := by
      intro name isKept
      rw [List.mem_cons, not_or]
      exact ⟨fun same => other (same ▸ isKept), new name isKept⟩
    rw [List.foldlM_cons, putMember_keeping here newKey]
    refine (ih within once unseen).trans ?_
    simp

private theorem exists_foldlM_putMember {kept : List (String × Value)}
    (subperm : kept.Subperm config.members) :
    ∃ seen, kept.foldlM shape.putMember ({}, []) =
      .ok (config.keeping (kept.map Prod.fst), seen) := by
  have once : (kept.map Prod.fst).Nodup := by
    obtain ⟨listed, perm, sublist⟩ := subperm
    have names := sublist.map Prod.fst
    rw [map_fst_members] at names
    exact (perm.map Prod.fst).nodup_iff.mp (names.nodup (by decide))
  have done := foldlM_putMember_keeping subperm.subset once fun _ _ => List.not_mem_nil
  rw [keeping_nil, List.append_nil, keeping_reverse] at done
  exact ⟨_, done⟩

/-! ### Reading -/

private theorem isPlain_of_mem_members (inWords : config.InWords) (depth : Nat)
    (member : (key, value) ∈ config.members) : value.IsPlain (depth + 1) := by
  rcases mem_members_iff.mp member with
    ⟨-, rfl⟩ | ⟨-, rfl⟩ | ⟨-, rfl⟩ | ⟨-, rfl⟩
  · exact Value.isPlain_ofStrings depth _
  all_goals exact .ofNat _ (inWords _ (by simp))

private theorem takes_readMember {field : Field} {read next : Config × List String}
    {rest : List Char} (known : field.key ∈ shape.fields)
    (plain : field.value.IsPlain (nestingLimit - 1)) (laidOut : field.value.LaidOut field.content)
    (put : shape.putMember read field.member = .ok next) (bounded : Read.Bounded rest) :
    (readMember read field.key).Takes field.tail rest next := by
  unfold readMember
  rw [if_pos known]
  refine Read.takes_tail_value plain laidOut bounded ?_
  rw [← Field.member, put]
  exact Read.takes_pure next rest

/-- From members of a saved configuration, in any order and any layout, a configuration is read. -/
theorem ofText_of_hasText (inWords : config.InWords) {kept : List (String × Value)}
    (subperm : kept.Subperm config.members) {text : String}
    (written : (Value.object kept).HasText text) :
    ofText text = config.keeping (kept.map Prod.fst) := by
  obtain ⟨lead, form, trail, text_eq, blanks, laidOut⟩ := written
  obtain ⟨leads, trails⟩ := List.forall_mem_append.mp blanks
  obtain ⟨seen, done⟩ := exists_foldlM_putMember subperm
  cases laidOut with
  | @object fields _ inside members_eq laid separated =>
    subst members_eq
    have each : ∀ field ∈ fields, ∀ read next, shape.putMember read field.member = .ok next →
        ∀ rest, Read.Bounded rest → (readMember read field.key).Takes field.tail rest next := by
      intro field inFields read next put rest bounded
      have member : (field.key, field.value) ∈ config.members :=
        subperm.subset (List.mem_map_of_mem inFields)
      exact takes_readMember (List.of_mem_zip member).1 (isPlain_of_mem_members inWords _ member)
        (laid field inFields) put bounded
    have start : Read.startOfValue.Takes lead ('{' :: (inside ++ ['}']) ++ trail) (some '{') :=
      Read.takes_startOfValue leads rfl (by decide)
    have body := Read.takes_objectOf (Read.takes_membersToEnd each separated done trail)
    have whole : read.Takes (lead ++ '{' :: (inside ++ ['}'])) trail (config.keeping _) :=
      start.bind (body.bind_nil (Read.takes_pure (config.keeping _) trail))
    rw [ofText, whole.run_of_blanks (text_eq.trans (List.append_assoc _ _ _).symm) trails]

/-! ### Files -/

private theorem fromUTF8?_toByteArray (text : String) :
    String.fromUTF8? text.toByteArray = some text := by
  rw [← String.utf8Encode_toList, Corpus.fromUTF8?_utf8Encode, String.ofList_toList]

/-- Whether a text is loaded as a configuration: by itself, and from a file, behind anything that
leaves the text in the file. -/
structure LoadsAs (text : String) (config : Config) : Prop where
  ofText_eq : ofText text = config
  loadConfig_eq : ∀ {m : Type → Type} [Monad m] [LawfulMonad m] {α : Type} (files : Files m)
    (path : String) (before : m α),
    (do let _ ← before; files.read path) = (do let _ ← before; return .ok text.toUTF8) →
      (do let _ ← before; CommandLine.loadConfig files (some path)) =
        (do let _ ← before; return config)

private theorem loadsAs_of_ofText {text : String} (found : ofText text = config) :
    LoadsAs text config where
  ofText_eq := found
  loadConfig_eq files path before holds := by
    simp only [CommandLine.loadConfig, Files.readText, bind_assoc]
    rw [← bind_assoc, holds]
    simp [fromUTF8?_toByteArray, found]

/-- A saved configuration is loaded as it was. From an object that keeps some of its members, in any
order, it is loaded with the defaults in place of the others. -/
theorem loadsAs_toText_and_kept (inWords : config.InWords) :
    LoadsAs config.toText config ∧
    ∀ kept : List (String × Value), kept.Subperm config.members →
      ∀ text, (Value.object kept).HasText text →
        LoadsAs text (config.keeping (kept.map Prod.fst)) := by
  have saved : (Value.object config.members).HasText config.toText := by
    rw [toText, toValue_eq]
    exact Value.hasText_pretty _
  refine ⟨loadsAs_of_ofText ?_, fun kept subperm text written => loadsAs_of_ofText ?_⟩
  · rw [ofText_of_hasText inWords (List.Subperm.refl _) saved, map_fst_members, keeping_fields]
  · exact ofText_of_hasText inWords subperm written

/-- A configuration with a quote in a name and the greatest count is saved and loaded, and two of
its fields are found between blanks of all kinds. -/
theorem loadsAs_saved_and_two_fields :
    let config : Config := ⟨["\"é\n"], 18446744073709551615, 7, 5⟩
    let files : Files (StateM ByteArray) :=
      { read := fun _ => return .ok (← get)
        write := fun _ text => do set text.toUTF8; return .ok ()
        createDirectory := fun _ => return .ok ()
        isDirectory := fun _ => return true }
    ofText config.toText = config ∧
    (do
      let _ ← (CommandLine.saveConfig files config "config.json").run
      CommandLine.loadConfig files (some "config.json")) =
        (do
          let _ ← (CommandLine.saveConfig files config "config.json").run
          return config) ∧
    ofText "\t\x7b \"backtrack_limit\" :5\r\n,\"timestamp_columns\": [ \"\\\"é\\n\"] \x7d\n" =
      { timestampColumns := ["\"é\n"], backtrackLimit := 5 } := by
  intro config files
  have inWords : config.InWords := by decide
  obtain ⟨saved, kept⟩ := loadsAs_toText_and_kept inWords
  refine ⟨saved.ofText_eq, saved.loadConfig_eq files "config.json" _ ?_, ?_⟩
  · have parent : Path.parent "config.json" = "" := by decide
    simp only [CommandLine.saveConfig, parent]
    rw [Files.ensureDirectories, dif_pos rfl]
    rfl
  · have none : ∀ c ∈ ([] : List Char), isSpace c := List.forall_mem_nil _
    have blank : ∀ c ∈ [' '], isSpace c := List.all_eq_true.mp (by decide)
    let name : Value := .string "\"é\n"
    let limit : Field := ⟨"backtrack_limit", .ofNat 5, [' '], [], (Value.ofNat 5).chars,
      List.all_eq_true.mp (by decide), List.forall_mem_nil _⟩
    let names : Field := ⟨"timestamp_columns", .array [name], [], [' '],
      '[' :: ([' '] ++ (name.chars ++ []) ++ [']']), List.forall_mem_nil _,
      List.all_eq_true.mp (by decide)⟩
    have isName : name.LaidOut name.chars := .string _
    have each : ∀ piece ∈ [(name, name.chars)], piece.1.LaidOut piece.2 :=
      List.forall_mem_singleton.mpr isName
    have isNames : names.value.LaidOut names.content :=
      .array rfl each (.cons (.first blank) (.nil none))
    have isLimit : limit.value.LaidOut limit.content := .number _
    have fields : ∀ field ∈ [limit, names], field.value.LaidOut field.content :=
      List.forall_mem_cons.mpr ⟨isLimit, List.forall_mem_singleton.mpr isNames⟩
    have between : Gap false (['\r', '\n'] ++ ',' :: []) :=
      .next (List.all_eq_true.mp (by decide)) none
    have written : (Value.object [limit.member, names.member]).LaidOut _ :=
      .object rfl fields (.cons (.first blank) (.cons between (.nil blank)))
    have sides : ∀ c ∈ ['\t'] ++ ['\n'], isSpace c := List.all_eq_true.mp (by decide)
    have subperm : [limit.member, names.member].Subperm config.members :=
      ⟨_, .swap _ _ _, .cons_cons _ (.cons _ (.cons _ (.cons_cons _ .slnil)))⟩
    exact (kept _ subperm _ ⟨['\t'], _, ['\n'], by decide +kernel, sides, written⟩).ofText_eq

end Config

end LogMotif
