import LogMotif.Query
import LogMotif.Proofs.FirstPlaces
import LogMotif.Proofs.Pattern.Shortest

/-! # What a template spells

Once every wildcard has a text, the template of a line spells the lines that put each text in the
place of its wildcard and any string in the place of a cell that is not selected. The line pattern
made from a template reads a line exactly when the template spells it for some texts of the
wildcards that are left open; what it captures are such texts. The prefilter reads every line that
the template spells for stretches of string content.
-/

namespace LogMotif

open LineItem (IsContent IsStretch)

namespace TemplateItem

variable {value : Nat → String} {value? : Nat → Option String} {items : List TemplateItem}
  {text : List Char}

/-- Whether an item stands for a text, where `value` gives the text of each wildcard. -/
def Takes (value : Nat → String) (text : List Char) : TemplateItem → Prop
  | literal content => text = content.toList
  | anyString => ∃ content, IsContent content ∧ text = '"' :: (content ++ ['"'])
  | wildcard index => text = (value index).toList

/-- Whether items one after the other stand for a text. -/
inductive Spells (value : Nat → String) : List TemplateItem → List Char → Prop
  | nil : Spells value [] []
  | cons {item : TemplateItem} {items : List TemplateItem} {taken text : List Char}
      (takes : item.Takes value taken) (spells : Spells value items text) :
      Spells value (item :: items) (taken ++ text)

/-- Only the texts of the wildcards in a template matter for what it spells. -/
theorem Spells.congr {other : Nat → String} (spells : Spells value items text)
    (same : ∀ index, wildcard index ∈ items → value index = other index) :
    Spells other items text := by
  induction spells with
  | nil => exact .nil
  | @cons item items taken text takes _ ih =>
    refine .cons ?_ (ih fun index member => same index (List.mem_cons_of_mem item member))
    cases item with
    | wildcard index =>
      obtain rfl : taken = (value index).toList := takes
      exact congrArg String.toList (same index List.mem_cons_self)
    | literal content => exact takes
    | anyString => exact takes

/-- What the wildcards of other templates stand for may be anything, so it may be content too. -/
theorem exists_content_values
    (contents : ∀ index, wildcard index ∈ items → IsContent (value index).toList) :
    ∃ given : Nat → String, (∀ index, IsContent (given index).toList) ∧
      ∀ index, wildcard index ∈ items → value index = given index := by
  classical
  refine ⟨fun index => if IsContent (value index).toList then value index else "", ?_, ?_⟩
  · intro index
    dsimp only
    split
    next content => exact content
    next => exact .nil
  · exact fun index member => (if_pos (contents index member)).symm

/-- The texts of wildcards that have a value by that value, and of the others by what has been
captured. -/
def valueIn (value? : Nat → Option String) (captures : Captures) (index : Nat) : String :=
  (value? index).getD ((captures.lookup index).getD "")

/-! ### Line patterns made from templates -/

theorem instantiate_literal (seen : List Nat) (content : String) :
    instantiate value? seen (literal content :: items) =
      (.literal content :: (instantiate value? seen items).1,
        (instantiate value? seen items).2) := rfl

theorem instantiate_anyString (seen : List Nat) :
    instantiate value? seen (anyString :: items) =
      (.anyString :: (instantiate value? seen items).1, (instantiate value? seen items).2) := rfl

theorem instantiate_bound (seen : List Nat) {index : Nat} {content : String}
    (bound : value? index = some content) :
    instantiate value? seen (wildcard index :: items) =
      (.literal content :: (instantiate value? seen items).1,
        (instantiate value? seen items).2) := by
  simp only [instantiate, bound]

theorem instantiate_recalled {seen : List Nat} {index : Nat} (free : value? index = none)
    (known : index ∈ seen) :
    instantiate value? seen (wildcard index :: items) =
      (.recalled index :: (instantiate value? seen items).1,
        (instantiate value? seen items).2) := by
  simp only [instantiate, free, if_pos known]

theorem instantiate_capture {seen : List Nat} {index : Nat} (free : value? index = none)
    (new : index ∉ seen) :
    instantiate value? seen (wildcard index :: items) =
      (.capture index :: (instantiate value? (index :: seen) items).1,
        (instantiate value? (index :: seen) items).2) := by
  simp only [instantiate, free, if_neg new]

/-- Whether captures hold a stretch for each wildcard that was met without a value, and for no
other. -/
structure Tracks (value? : Nat → Option String) (seen : List Nat) (captures : Captures) : Prop where
  isSome_iff : ∀ index, value? index = none →
    ((captures.lookup index).isSome ↔ index ∈ seen)
  isStretch : ∀ index content, captures.lookup index = some content → IsStretch content.toList

/-- A capture of a wildcard that was not met before keeps track. -/
private theorem Tracks.capture {seen : List Nat} {captures : Captures}
    (tracks : Tracks value? seen captures) {index : Nat} {taken : List Char}
    (stretch : IsStretch taken) :
    Tracks value? (index :: seen) (captures ++ [(index, String.ofList taken)]) := by
  constructor
  · intro other free
    rw [Captures.lookup_append, Captures.lookup_singleton, Option.isSome_or, Bool.or_eq_true,
      tracks.isSome_iff other free, List.mem_cons]
    by_cases same : other = index
    · simp [same]
    · simp [same]
  · intro other content found
    rw [Captures.lookup_append, Captures.lookup_singleton, Option.or_eq_some_iff] at found
    rcases found with before | ⟨-, here⟩
    · exact tracks.isStretch other content before
    · split at here
      · obtain rfl := Option.some.inj here
        simpa using stretch
      · simp at here

/-- What a line pattern made from a template reads is spelled by the template, with the captured
texts for the wildcards that had no value. -/
private theorem spells_of_reads {seen : List Nat} {captures result : Captures}
    (tracks : Tracks value? seen captures)
    (reads : LinePattern.Reads (instantiate value? seen items).1 captures text result) :
    Spells (valueIn value? result) items text ∧
      Tracks value? (instantiate value? seen items).2 result ∧ captures <+: result := by
  induction items generalizing seen captures text with
  | nil =>
    cases reads
    exact ⟨.nil, tracks, List.prefix_rfl⟩
  | cons item items ih =>
    cases item with
    | literal content =>
      obtain _ | ⟨takes, reads⟩ := reads
      obtain ⟨spells, tracks, front⟩ := ih tracks reads
      exact ⟨.cons takes spells, tracks, front⟩
    | anyString =>
      obtain _ | ⟨takes, reads⟩ := reads
      obtain ⟨spells, tracks, front⟩ := ih tracks reads
      exact ⟨.cons takes spells, tracks, front⟩
    | wildcard index =>
      cases bound : value? index with
      | some content =>
        rw [instantiate_bound seen bound] at reads ⊢
        obtain _ | ⟨takes, reads⟩ := reads
        obtain ⟨spells, tracks, front⟩ := ih tracks reads
        refine ⟨.cons ?_ spells, tracks, front⟩
        simpa [Takes, LineItem.Takes, valueIn, bound] using takes
      | none =>
        by_cases known : index ∈ seen
        · rw [instantiate_recalled bound known] at reads ⊢
          obtain _ | ⟨takes, reads⟩ := reads
          obtain ⟨spells, tracks, front⟩ := ih tracks reads
          obtain ⟨content, captured, taken⟩ := takes
          refine ⟨.cons ?_ spells, tracks, front⟩
          simp [Takes, valueIn, bound, Captures.lookup_of_isPrefix front captured, taken]
        · have fresh : captures.lookup index = none := by
            rw [← Option.not_isSome_iff_eq_none, tracks.isSome_iff index bound]
            exact known
          rw [instantiate_capture bound known] at reads ⊢
          cases reads with
          | @cons _ _ _ _ taken rest takes reads =>
            obtain ⟨spells, tracks, front⟩ := ih (tracks.capture takes) reads
            have here : (captures ++ [(index, String.ofList taken)]).lookup index =
                some (String.ofList taken) := by
              rw [Captures.lookup_append, fresh, Captures.lookup_singleton, if_pos rfl,
                Option.none_or]
            refine ⟨.cons ?_ spells, tracks, (List.prefix_append _ _).trans front⟩
            simp [Takes, valueIn, bound, Captures.lookup_of_isPrefix front here]

/-- The wildcards met in the end are those met before and those without a value. -/
theorem mem_instantiate_snd_iff {seen : List Nat} {index : Nat} (free : value? index = none) :
    index ∈ (instantiate value? seen items).2 ↔ index ∈ seen ∨ wildcard index ∈ items := by
  induction items generalizing seen with
  | nil => simp [instantiate]
  | cons item items ih =>
    cases item with
    | literal content => simpa [instantiate_literal] using ih
    | anyString => simpa [instantiate_anyString] using ih
    | wildcard other =>
      cases bound : value? other with
      | some content =>
        have different : index ≠ other := by rintro rfl; simp [free] at bound
        simpa [instantiate_bound seen bound, different] using ih
      | none =>
        by_cases known : other ∈ seen
        · rw [instantiate_recalled bound known, ih, List.mem_cons, wildcard.injEq]
          constructor
          · exact Or.imp_right .inr
          · rintro (member | rfl | member)
            · exact .inl member
            · exact .inl known
            · exact .inr member
        · simp [instantiate_capture bound known, ih, or_assoc, or_left_comm]

/-- Whether captures hold the given texts, also of each wildcard that was met without a value. -/
structure Agrees (value : Nat → String) (value? : Nat → Option String) (seen : List Nat)
    (captures : Captures) : Prop where
  lookup_eq : ∀ index content, captures.lookup index = some content → content = value index
  isSome : ∀ index ∈ seen, value? index = none → (captures.lookup index).isSome

/-- What a template spells is read by the line pattern made from it, if the wildcards that have a
value stand for it and the others for stretches. These are captured. -/
private theorem Spells.reads (spells : Spells value items text) {seen : List Nat}
    {captures : Captures} (given : ∀ index content, value? index = some content →
      value index = content)
    (free : ∀ index, wildcard index ∈ items → value? index = none → IsStretch (value index).toList)
    (agrees : Agrees value value? seen captures) :
    LinePattern.Reads (instantiate value? seen items).1 captures text
      (captures ++ (LinePattern.captured (instantiate value? seen items).1).map fun index =>
        (index, value index)) := by
  induction spells generalizing seen captures with
  | nil => simpa [instantiate, LinePattern.captured] using LinePattern.Reads.nil captures
  | @cons item items taken text takes _ ih =>
    have free' := fun index member => free index (List.mem_cons_of_mem item member)
    cases item with
    | literal content => exact .cons takes (ih free' agrees)
    | anyString => exact .cons takes (ih free' agrees)
    | wildcard index =>
      obtain rfl : taken = (value index).toList := takes
      cases bound : value? index with
      | some content =>
        rw [instantiate_bound seen bound]
        exact .cons (congrArg String.toList (given index content bound)) (ih free' agrees)
      | none =>
        by_cases known : index ∈ seen
        · obtain ⟨content, captured⟩ := Option.isSome_iff_exists.mp (agrees.isSome index known bound)
          rw [instantiate_recalled bound known]
          refine .cons ⟨content, captured, ?_⟩ (ih free' agrees)
          rw [agrees.lookup_eq index content captured]
        · have agrees' : Agrees value value? (index :: seen)
              (captures ++ [(index, String.ofList (value index).toList)]) := by
            constructor
            · intro other content found
              rw [Captures.lookup_append, Captures.lookup_singleton, Option.or_eq_some_iff] at found
              rcases found with before | ⟨-, here⟩
              · exact agrees.lookup_eq other content before
              · split at here <;> simp_all
            · intro other member unbound
              rw [Captures.lookup_append, Captures.lookup_singleton, Option.isSome_or]
              rcases List.mem_cons.mp member with rfl | before
              · simp
              · simp [agrees.isSome other before unbound]
          have behind := ih free' agrees'
          rw [instantiate_capture bound known]
          refine .cons (free index List.mem_cons_self bound) ?_
          simpa [LineItem.keep, LinePattern.captured, LineItem.captured?] using behind

/-- A pattern made from a template has a name for each of its stretches. -/
theorem stretch_not_mem_instantiate (seen : List Nat) :
    .stretch ∉ (instantiate value? seen items).1 := by
  induction items generalizing seen with
  | nil => exact List.not_mem_nil
  | cons item items ih =>
    cases item with
    | literal content => simpa [instantiate_literal] using ih seen
    | anyString => simpa [instantiate_anyString] using ih seen
    | wildcard index =>
      cases bound : value? index with
      | some content => simpa [instantiate_bound seen bound] using ih seen
      | none =>
        by_cases known : index ∈ seen
        · simpa [instantiate_recalled bound known] using ih seen
        · simpa [instantiate_capture bound known] using ih (index :: seen)

/-- Where a template has no wildcards, no occurrence of one is told from another. -/
theorem instantiate_eq_map_generalize (plain : ∀ index, wildcard index ∉ items) (seen : List Nat) :
    (instantiate value? seen items).1 = items.map generalize := by
  induction items with
  | nil => rfl
  | cons item items ih =>
    have behind := ih fun index member => plain index (List.mem_cons_of_mem item member)
    cases item with
    | literal content => rw [instantiate_literal, List.map_cons, ← behind]; rfl
    | anyString => rw [instantiate_anyString, List.map_cons, ← behind]; rfl
    | wildcard index => exact absurd List.mem_cons_self (plain index)

theorem hasRecall_map_generalize (items : List TemplateItem) :
    LinePattern.hasRecall (items.map generalize) = false := by
  simp only [LinePattern.hasRecall, List.any_map, List.any_eq_false]
  intro item _
  cases item <;> simp [generalize, LineItem.isRecall]

/-- What a template spells for stretches is read when each occurrence of a wildcard may stand for
any stretch. -/
private theorem Spells.exists_reads_generalize (spells : Spells value items text)
    (stretches : ∀ index, wildcard index ∈ items → IsStretch (value index).toList)
    (captures : Captures) :
    ∃ result, LinePattern.Reads (items.map generalize) captures text result := by
  induction spells with
  | nil => exact ⟨captures, .nil captures⟩
  | @cons item items taken text takes _ ih =>
    obtain ⟨result, reads⟩ := ih fun index member => stretches index (List.mem_cons_of_mem item member)
    refine ⟨result, ?_⟩
    cases item with
    | literal content => exact .cons takes reads
    | anyString => exact .cons takes reads
    | wildcard index =>
      obtain rfl : taken = (value index).toList := takes
      exact .cons (stretches index List.mem_cons_self) reads

/-! ### The wildcards of a template -/

/-- The wildcards that are active in a template behind a first one. -/
private theorem active_wildcard_cons (index : Nat) (items : List TemplateItem) :
    active (wildcard index :: items) = index :: (active items).filter (· ≠ index) :=
  firstPlaces_cons index (items.filterMap wildcard?)

private theorem wildcard?_eq_some_iff {item : TemplateItem} {index : Nat} :
    item.wildcard? = some index ↔ item = wildcard index := by
  cases item <;> simp [wildcard?]

theorem mem_active_iff {index : Nat} : index ∈ active items ↔ wildcard index ∈ items := by
  have member : index ∈ active items ↔ index ∈ items.filterMap wildcard? := mem_firstPlaces_iff
  simp [member, wildcard?_eq_some_iff]

theorem nodup_active (items : List TemplateItem) : (active items).Nodup := nodup_firstPlaces _

/-- A pattern made from a template captures the active wildcards that have no value and were not met
before, each once. -/
private theorem captured_instantiate (seen : List Nat) :
    LinePattern.captured (instantiate value? seen items).1 =
      (active items).filter fun index => value? index = none ∧ index ∉ seen := by
  induction items generalizing seen with
  | nil => rfl
  | cons item items ih =>
    cases item with
    | literal content => exact ih seen
    | anyString => exact ih seen
    | wildcard index =>
      rw [active_wildcard_cons, List.filter_cons, List.filter_filter]
      -- Where `index` is not captured here, it is not captured later either.
      have later (skipped : ¬ (value? index = none ∧ index ∉ seen)) :
          (active items).filter (fun other => value? other = none ∧ other ∉ seen) =
            (active items).filter fun other =>
              decide (value? other = none ∧ other ∉ seen) && decide (other ≠ index) := by
        refine List.filter_congr fun other _ => ?_
        by_cases same : other = index
        · subst same
          simpa using skipped
        · simp [same]
      cases bound : value? index with
      | some content =>
        rw [instantiate_bound seen bound, if_neg (by simp)]
        exact (ih seen).trans (later (by simp [bound]))
      | none =>
        by_cases known : index ∈ seen
        · rw [instantiate_recalled bound known, if_neg (by simp [known])]
          exact (ih seen).trans (later (by simp [known]))
        · rw [instantiate_capture bound known, if_pos (by simp [known])]
          refine congrArg (index :: ·) ((ih (index :: seen)).trans ?_)
          refine List.filter_congr fun other _ => ?_
          simp [Bool.and_comm, Bool.and_assoc]

end TemplateItem

namespace EntryTemplate

open TemplateItem

variable {captured : List Nat} {items : List TemplateItem}

theorem mem_bound_iff {index : Nat} :
    index ∈ (ofItems captured items).bound ↔ wildcard index ∈ items ∧ index ∈ captured := by
  simp [ofItems, mem_active_iff]

theorem mem_defined_iff {index : Nat} :
    index ∈ (ofItems captured items).defined ↔ wildcard index ∈ items ∧ index ∉ captured := by
  simp [ofItems, mem_active_iff]

/-- A list with one value per bound wildcard gives a value to these alone. -/
theorem isSome_boundValue?_iff {template : EntryTemplate} {values : List String}
    (length_eq : values.length = template.bound.length) {index : Nat} :
    (template.boundValue? values index).isSome ↔ index ∈ template.bound := by
  cases place : template.bound.idxOf? index with
  | none => simp [boundValue?, place, List.idxOf?_eq_none_iff.mp place]
  | some i =>
    obtain ⟨inside, same, -⟩ := List.idxOf?_eq_some_iff.mp place
    have member : index ∈ template.bound := by rw [← same]; exact List.getElem_mem _
    simp [boundValue?, place, member, length_eq, inside]

theorem boundValue?_map {template : EntryTemplate} (value : Nat → String) {index : Nat}
    (member : index ∈ template.bound) :
    template.boundValue? (template.bound.map value) index = some (value index) := by
  cases place : template.bound.idxOf? index with
  | none => exact absurd member (List.idxOf?_eq_none_iff.mp place)
  | some i =>
    obtain ⟨inside, same, -⟩ := List.idxOf?_eq_some_iff.mp place
    simp [boundValue?, place, same, inside]

/-- A match of an entry gives each of its wildcards one text: the bound ones their values, and those
it defines the captured stretches. -/
theorem exists_spells_of_match? {values : List String} {line : String} {taken : Captures}
    (length_eq : values.length = (ofItems captured items).bound.length)
    (found : ((ofItems captured items).linePattern values).match? line = some taken) :
    ∃ value : Nat → String, Spells value items line.toList ∧
      (∀ index ∈ (ofItems captured items).bound,
        (ofItems captured items).boundValue? values index = some (value index)) ∧
      ∀ index ∈ (ofItems captured items).defined,
        taken.lookup index = some (value index) ∧ IsStretch (value index).toList := by
  let value? := (ofItems captured items).boundValue? values
  have start : Tracks value? [] [] := ⟨by simp, by simp⟩
  obtain ⟨spells, tracks, -⟩ := spells_of_reads start (LinePattern.reads_of_matchFrom? found)
  refine ⟨valueIn value? taken, spells, ?_, ?_⟩
  · intro index member
    obtain ⟨content, here⟩ :=
      Option.isSome_iff_exists.mp ((isSome_boundValue?_iff length_eq).mpr member)
    have known : value? index = some content := here
    simp [valueIn, known, here]
  · intro index member
    obtain ⟨inItems, new⟩ := mem_defined_iff.mp member
    have free : value? index = none := by
      rw [← Option.not_isSome_iff_eq_none, isSome_boundValue?_iff length_eq, mem_bound_iff]
      exact fun bound => new bound.2
    obtain ⟨content, kept⟩ := Option.isSome_iff_exists.mp
      ((tracks.isSome_iff index free).mpr ((mem_instantiate_snd_iff free).mpr (.inr inItems)))
    have same : valueIn value? taken index = content := by simp [valueIn, free, kept]
    rw [same]
    exact ⟨kept, tracks.isStretch index content kept⟩

/-- What the line pattern of an entry captures are the wildcards that the entry defines. -/
theorem captured_linePattern {values : List String}
    (length_eq : values.length = (ofItems captured items).bound.length) :
    LinePattern.captured ((ofItems captured items).linePattern values) =
      (ofItems captured items).defined := by
  have captured_eq : LinePattern.captured ((ofItems captured items).linePattern values) = _ :=
    captured_instantiate []
  rw [captured_eq]
  refine List.filter_congr fun index member => ?_
  have bound_iff : index ∈ (ofItems captured items).bound ↔ index ∈ captured := by
    rw [mem_bound_iff]
    exact and_iff_right (mem_active_iff.mp member)
  have free : (ofItems captured items).boundValue? values index = none ↔ index ∉ captured := by
    rw [← Option.not_isSome_iff_eq_none, isSome_boundValue?_iff length_eq, bound_iff]
  simp [free]

/-- A line that the template of an entry spells for stretches is read once the bound wildcards have
their values, with these stretches captured. -/
theorem reads_of_spells {value : Nat → String} {values : List String} {line : String}
    (spells : Spells value items line.toList)
    (length_eq : values.length = (ofItems captured items).bound.length)
    (given : ∀ index ∈ (ofItems captured items).bound,
      (ofItems captured items).boundValue? values index = some (value index))
    (stretches : ∀ index ∈ (ofItems captured items).defined, IsStretch (value index).toList) :
    LinePattern.Reads ((ofItems captured items).linePattern values) [] line.toList
      ((ofItems captured items).defined.map fun index => (index, value index)) := by
  rw [← captured_linePattern length_eq]
  refine spells.reads ?_ ?_ ⟨by simp, by simp⟩
  · intro index content here
    have member := (isSome_boundValue?_iff length_eq).mp (Option.isSome_of_eq_some here)
    exact Option.some.inj ((given index member).symm.trans here)
  · intro index inItems free
    refine stretches index (mem_defined_iff.mpr ⟨inItems, fun before => ?_⟩)
    have member := mem_bound_iff.mpr ⟨inItems, before⟩
    simp [given index member] at free

/-- Such a line is matched. -/
theorem isSome_match?_of_spells {value : Nat → String} {values : List String} {line : String}
    (spells : Spells value items line.toList)
    (length_eq : values.length = (ofItems captured items).bound.length)
    (given : ∀ index ∈ (ofItems captured items).bound,
      (ofItems captured items).boundValue? values index = some (value index))
    (stretches : ∀ index ∈ (ofItems captured items).defined, IsStretch (value index).toList) :
    (((ofItems captured items).linePattern values).match? line).isSome :=
  (reads_of_spells spells length_eq given stretches).isSome_matchFrom?

/-- The prefilter finds every line that a template spells for stretches. -/
theorem isSome_find?_prefilter {value : Nat → String} {line : String}
    (spells : Spells value items line.toList)
    (stretches : ∀ index, wildcard index ∈ items → IsStretch (value index).toList) :
    ((ofItems captured items).prefilter.find? line).isSome := by
  obtain ⟨result, reads⟩ := spells.exists_reads_generalize stretches []
  change (LinePattern.findFrom? (items.map generalize) _ _).isSome
  rw [LinePattern.findFrom?_eq_matchFrom? (hasRecall_map_generalize items)]
  exact reads.isSome_matchFrom?

end EntryTemplate

end LogMotif
