import LogMotif.Proofs.Query.Compilation
import LogMotif.Proofs.Query.Members

/-! # What the line pattern of an entry matches

With values for its bound wildcards, an entry matches the lines that it describes for some stretches
in the place of the wildcards it defines. These are captured, and of all such stretches those that
are shortest in the order in which the wildcards are first met.
-/

namespace LogMotif

open LineItem (IsStretch)
open TemplateItem (Spells)

/-- Captures of different wildcards are told by what is found under each. -/
theorem Captures.eq_map_lookup {captures : Captures} (nodup : (captures.map Prod.fst).Nodup) :
    captures = (captures.map Prod.fst).map fun index =>
      (index, (captures.lookup index).getD "") := by
  induction captures with
  | nil => rfl
  | cons first captures ih =>
    obtain ⟨wildcard, content⟩ := first
    obtain ⟨fresh, nodup⟩ := List.nodup_cons.mp nodup
    rw [List.map_cons, List.map_cons, lookup_cons, if_pos rfl, Option.getD_some]
    refine congrArg ((wildcard, content) :: ·) ((ih nodup).trans (List.map_congr_left ?_))
    intro index member
    have other : index ≠ wildcard := fun same => fresh (same ▸ member)
    rw [lookup_cons, if_neg other]

namespace EntryTemplate

/-- The text of each wildcard in the line of an entry: a bound one stands for its value, any other
one for the text assigned to it. -/
def valueFor (template : EntryTemplate) (values : List String) (assigned : Nat → String)
    (index : Nat) : String :=
  (template.boundValue? values index).getD (assigned index)

/-- Whether a template spells a line with stretches assigned to the wildcards that it defines. -/
def Fills (template : EntryTemplate) (values : List String) (line : String)
    (assigned : Nat → String) : Prop :=
  (∀ index ∈ template.defined, IsStretch (assigned index).toList) ∧
    Spells (template.valueFor values assigned) template.items line.toList

variable {captured : List Nat} {items : List TemplateItem} {values : List String} {line : String}
  {assigned : Nat → String}

theorem boundValue?_eq_valueFor
    (length_eq : values.length = (ofItems captured items).bound.length) {index : Nat}
    (bound : index ∈ (ofItems captured items).bound) :
    (ofItems captured items).boundValue? values index =
      some ((ofItems captured items).valueFor values assigned index) := by
  obtain ⟨content, here⟩ :=
    Option.isSome_iff_exists.mp ((isSome_boundValue?_iff length_eq).mpr bound)
  rw [valueFor, here, Option.getD_some]

theorem valueFor_of_defined (length_eq : values.length = (ofItems captured items).bound.length)
    {index : Nat} (defined : index ∈ (ofItems captured items).defined) :
    (ofItems captured items).valueFor values assigned index = assigned index := by
  have free : (ofItems captured items).boundValue? values index = none := by
    rw [← Option.not_isSome_iff_eq_none, isSome_boundValue?_iff length_eq, mem_bound_iff]
    exact fun bound => (mem_defined_iff.mp defined).2 bound.2
  rw [valueFor, free, Option.getD_none]

/-- Texts that fill a line are read there. -/
theorem Fills.reads (length_eq : values.length = (ofItems captured items).bound.length)
    (fills : (ofItems captured items).Fills values line assigned) :
    LinePattern.Reads ((ofItems captured items).linePattern values) [] line.toList
      ((ofItems captured items).defined.map fun index => (index, assigned index)) := by
  obtain ⟨stretches, spells⟩ := fills
  have same : ∀ index ∈ (ofItems captured items).defined,
      (ofItems captured items).valueFor values assigned index = assigned index :=
    fun _ => valueFor_of_defined length_eq
  have reads := reads_of_spells spells length_eq (fun _ => boundValue?_eq_valueFor length_eq)
    fun index defined => by
      rw [same index defined]
      exact stretches index defined
  rwa [List.map_congr_left fun index defined => by rw [same index defined]] at reads

theorem nodup_defined (captured : List Nat) (items : List TemplateItem) :
    (ofItems captured items).defined.Nodup := (TemplateItem.nodup_active items).filter _

/-- What an entry captures fills the line. -/
theorem exists_fills_of_match? (length_eq : values.length = (ofItems captured items).bound.length)
    {taken : Captures}
    (found : ((ofItems captured items).linePattern values).match? line = some taken) :
    ∃ assigned, (ofItems captured items).Fills values line assigned ∧
      taken = (ofItems captured items).defined.map fun index => (index, assigned index) := by
  obtain ⟨value, spells, given, defined⟩ := exists_spells_of_match? length_eq found
  obtain ⟨_, rfl, keys⟩ := (LinePattern.reads_of_matchFrom? found).exists_more
  rw [captured_linePattern length_eq] at keys
  refine ⟨value, ⟨fun index isDefined => (defined index isDefined).2, ?_⟩, ?_⟩
  · refine spells.congr fun index inItems => ?_
    by_cases known : index ∈ captured
    · have bound := mem_bound_iff.mpr ⟨inItems, known⟩
      refine Option.some.inj ((given index bound).symm.trans ?_)
      exact boundValue?_eq_valueFor length_eq bound
    · exact (valueFor_of_defined length_eq (mem_defined_iff.mpr ⟨inItems, known⟩)).symm
  · have nodup := nodup_defined captured items
    rw [← keys] at nodup ⊢
    refine (Captures.eq_map_lookup nodup).trans (List.map_congr_left fun index member => ?_)
    rw [keys] at member
    rw [(defined index member).1, Option.getD_some]

/-- What an entry captures is shortest among the texts that fill the line. -/
theorem Fills.shortest (length_eq : values.length = (ofItems captured items).bound.length)
    {other : Nat → String} (fills : (ofItems captured items).Fills values line other)
    (found : ((ofItems captured items).linePattern values).match? line =
      some ((ofItems captured items).defined.map fun index => (index, assigned index))) :
    (∀ index ∈ (ofItems captured items).defined, assigned index = other index) ∨
      List.Lex (· < ·) ((ofItems captured items).defined.map fun index => (assigned index).length)
        ((ofItems captured items).defined.map fun index => (other index).length) := by
  have named : .stretch ∉ (ofItems captured items).linePattern values :=
    TemplateItem.stretch_not_mem_instantiate []
  rcases (fills.reads length_eq).shortest named found with same | shorter
  · refine .inl fun index defined => ?_
    exact (Prod.mk.inj (List.map_inj_left.mp same index defined)).2
  · refine .inr ?_
    simpa [Captures.lengths, Function.comp_def] using shorter

/-- Two entries that define the same wildcards capture the same in two lines that are filled by the
same texts: each line is filled by what is captured in the other, and neither is shorter. -/
theorem match?_eq_some_of_fills_iff {known : List Nat} {others : List TemplateItem} {other : String}
    (length_eq : values.length = (ofItems captured items).bound.length)
    (lengthOther : values.length = (ofItems known others).bound.length)
    (defined_eq : (ofItems known others).defined = (ofItems captured items).defined)
    (fills_iff : ∀ assigned, (ofItems captured items).Fills values line assigned ↔
      (ofItems known others).Fills values other assigned) {taken : Captures}
    (found : ((ofItems captured items).linePattern values).match? line = some taken) :
    ((ofItems known others).linePattern values).match? other = some taken := by
  obtain ⟨assigned, fills, rfl⟩ := exists_fills_of_match? length_eq found
  have fillsOther := (fills_iff assigned).mp fills
  obtain ⟨_, foundOther⟩ :=
    Option.isSome_iff_exists.mp (fillsOther.reads lengthOther).isSome_matchFrom?
  obtain ⟨texts, fillsTexts, rfl⟩ := exists_fills_of_match? lengthOther foundOther
  have same : ∀ index ∈ (ofItems captured items).defined, assigned index = texts index := by
    rcases ((fills_iff texts).mpr fillsTexts).shortest length_eq found with same | shorter
    · exact same
    · rw [← defined_eq] at shorter
      rcases fillsOther.shortest lengthOther foundOther with same | longer
      · exact fun index defined => (same index (defined_eq ▸ defined)).symm
      · exact absurd longer (List.lex_asymm Nat.lt_asymm shorter)
  rw [List.map_congr_left fun index defined => congrArg (index, ·) (same index defined),
    ← defined_eq]
  exact foundOther

end EntryTemplate

namespace Entry

/-- Whether texts assigned to the wildcards that an entry defines are stretches with which a line is
that of the entry, where its bound wildcards stand for their values. -/
def Assigns (headers : List Header) (roles : List ColumnRole) (entry : Entry)
    (template : EntryTemplate) (values : List String) (line : String) (assigned : Nat → String) :
    Prop :=
  (∀ index ∈ template.defined, IsStretch (assigned index).toList) ∧
    entry.IsLine headers roles (template.valueFor values assigned) line

/-- The wildcards that take part in matching an entry are those its template binds or defines. -/
private theorem uses_iff_mem_bound_or_mem_defined {headers : List Header} {roles : List ColumnRole}
    (covered : headers.length = roles.length) {entry : Entry} {captured : List Nat} {index : Nat} :
    let template := EntryTemplate.ofItems captured (TemplateItem.ofEntry headers roles entry)
    entry.Uses roles index ↔ index ∈ template.bound ∨ index ∈ template.defined := by
  intro template
  rw [← wildcard_mem_ofEntry_iff covered, EntryTemplate.mem_bound_iff,
    EntryTemplate.mem_defined_iff]
  by_cases known : index ∈ captured <;> simp [known]

private theorem assigns_iff_fills {headers : List Header} {roles : List ColumnRole} {entry : Entry}
    {captured : List Nat} {values : List String} {line : String} {assigned : Nat → String} :
    let template := EntryTemplate.ofItems captured (TemplateItem.ofEntry headers roles entry)
    entry.Assigns headers roles template values line assigned ↔
      template.Fills values line assigned :=
  and_congr_right fun _ => TemplateItem.spells_ofEntry_iff_isLine.symm

end Entry

namespace Query

/-- With a value for each of its bound wildcards, an entry matches a line exactly when stretches can
be assigned to the wildcards it defines such that the line is that of the entry. It captures such
stretches, and for any others the first that differs in length is longer. -/
theorem linePattern_matches_iff {headers : List Header} {roles : List ColumnRole} {motif : Motif}
    {budget : Nat} {query : Query} (compiled : compile headers roles motif budget = .ok query)
    {i : Nat} {entry : Entry} (isEntry : motif.entries[i]? = some entry) :
    ∃ template, query.entries[i]? = some template ∧
      (∀ index, entry.Uses roles index ↔ index ∈ template.bound ∨ index ∈ template.defined) ∧
      ∀ values : List String, values.length = template.bound.length →
        ∃ pattern, query.linePattern i values = .ok pattern ∧
          ∀ line, pattern.attempt query.budget line ≠ .exhausted →
            ((∃ taken, pattern.attempt query.budget line = .found taken) ↔
              ∃ assigned, entry.Assigns headers roles template values line assigned) ∧
            ∀ taken, pattern.attempt query.budget line = .found taken →
              ∃ assigned, entry.Assigns headers roles template values line assigned ∧
                taken = template.defined.map (fun index => (index, assigned index)) ∧
                ∀ other, entry.Assigns headers roles template values line other →
                  (∀ index ∈ template.defined, assigned index = other index) ∨
                    List.Lex (· < ·) (template.defined.map fun index => (assigned index).length)
                      (template.defined.map fun index => (other index).length) := by
  obtain ⟨covered, -, -, -, rfl⟩ := compile_eq_ok_iff.mp compiled
  have inside : i < (templates headers roles [] motif.entries).length := by
    rw [length_templates]
    exact (List.getElem?_eq_some_iff.mp isEntry).1
  have isTemplate := List.getElem?_eq_getElem inside
  obtain ⟨_, captured, same, made, -⟩ := exists_ofItems_of_getElem?_templates isTemplate
  obtain rfl := Option.some.inj (isEntry.symm.trans same)
  rw [made] at isTemplate
  refine ⟨_, isTemplate, fun _ => Entry.uses_iff_mem_bound_or_mem_defined covered,
    fun values length_eq => ?_⟩
  let template := EntryTemplate.ofItems captured (TemplateItem.ofEntry headers roles entry)
  refine ⟨template.linePattern values, by simp only [linePattern, isTemplate, template],
    fun line within => ?_⟩
  simp only [Entry.assigns_iff_fills]
  have captures {taken : Captures} (found : LinePattern.attempt _ budget line = .found taken) :=
    EntryTemplate.exists_fills_of_match? length_eq (LinePattern.match?_of_attempt_eq_found found)
  refine ⟨⟨?_, ?_⟩, ?_⟩
  · rintro ⟨taken, found⟩
    obtain ⟨assigned, fills, -⟩ := captures found
    exact ⟨assigned, fills⟩
  · rintro ⟨assigned, fills⟩
    exact LinePattern.exists_attempt_eq_found (fills.reads length_eq).isSome_matchFrom? within
  · intro taken found
    obtain ⟨assigned, fills, rfl⟩ := captures found
    have matched := LinePattern.match?_of_attempt_eq_found found
    exact ⟨assigned, fills, rfl, fun other fillsToo => fillsToo.shortest length_eq matched⟩

/-- The second of two entries that share a wildcard, on a line that leaves it a choice. -/
theorem linePattern_matches_shared_wildcard :
    let first : Entry := ⟨["a"], [⟨[.wildcard 0 "a"]⟩], [true], some .any⟩
    let second : Entry := ⟨["ab-c"],
      [⟨[.wildcard 0 "a", .wildcard 1 "b", .text "-", .wildcard 2 "c"]⟩], [true], none⟩
    let motif : Motif :=
      ⟨[first, second], [⟨[⟨0, 0, 0⟩, ⟨1, 0, 0⟩]⟩, ⟨[⟨1, 0, 1⟩]⟩, ⟨[⟨1, 0, 3⟩]⟩]⟩
    ∃ query template pattern, compile [⟨"m", .string⟩] [.content] motif 10 = .ok query ∧
      query.entries[1]? = some template ∧ template.bound = [0] ∧
      query.linePattern 1 ["a"] = .ok pattern ∧
      pattern.attempt query.budget "\x7b\"m\":\"ab-c-d\"\x7d" = .found [(1, "b"), (2, "c-d")] ∧
      ∃ assigned, second.Assigns [⟨"m", .string⟩] [.content] template ["a"]
        "\x7b\"m\":\"ab-c-d\"\x7d" assigned := by
  intro first second motif
  obtain ⟨query, template, pattern, compiled, isTemplate, bound, isPattern, plain, matched⟩ :
      ∃ query template pattern, compile [⟨"m", .string⟩] [.content] motif 10 = .ok query ∧
        query.entries[1]? = some template ∧ template.bound = [0] ∧
        query.linePattern 1 ["a"] = .ok pattern ∧ pattern.hasRecall = false ∧
        pattern.match? "\x7b\"m\":\"ab-c-d\"\x7d" = some [(1, "b"), (2, "c-d")] :=
    ⟨_, _, _, rfl, rfl, rfl, rfl, rfl, rfl⟩
  have isSecond : motif.entries[1]? = some second := rfl
  obtain ⟨_, same, -, matching⟩ := linePattern_matches_iff compiled isSecond
  obtain rfl := Option.some.inj (isTemplate.symm.trans same)
  obtain ⟨_, same, matching⟩ := matching ["a"] (by rw [bound]; rfl)
  obtain rfl := Except.ok.inj (isPattern.symm.trans same)
  have within := LinePattern.attempt_ne_exhausted plain query.budget "\x7b\"m\":\"ab-c-d\"\x7d"
  obtain ⟨taken, found⟩ :=
    LinePattern.exists_attempt_eq_found (Option.isSome_of_eq_some matched) within
  have taken_eq := matched.symm.trans (LinePattern.match?_of_attempt_eq_found found)
  obtain rfl := Option.some.inj taken_eq
  obtain ⟨assigned, assigns, -⟩ := (matching _ within).2 _ found
  exact ⟨query, template, pattern, compiled, isTemplate, bound, isPattern, found, assigned, assigns⟩

end Query

end LogMotif
