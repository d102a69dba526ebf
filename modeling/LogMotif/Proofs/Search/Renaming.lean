import LogMotif.Proofs.Query.Renaming
import LogMotif.Proofs.Search.Memory

/-! # Renamed wildcards in a search

The numbers of the wildcards of a motif are names only. Two motifs that one renaming leads from and
to, in all that takes part in matching, are compiled to queries that find the same in every log,
within the same budget: the candidates of their entries are the same, and what one has captured
under a wildcard the other has captured under the renamed one.
-/

namespace LogMotif

namespace Search

/-- The stage of an entry whose wildcards are renamed. -/
def Stage.rename (change : Nat → Nat) (stage : Stage) : Stage :=
  { stage with template := stage.template.rename change }

variable {change : Nat → Nat}

private theorem candidates_rename (corpus : Corpus) (template : EntryTemplate) :
    candidates corpus (template.rename change) = candidates corpus template := by
  rw [candidates, template.candidateRows_rename, candidates]

private theorem stages_rename (corpus : Corpus) (templates : List EntryTemplate)
    (links : List Link) :
    stages corpus (templates.map (EntryTemplate.rename change)) links =
      (stages corpus templates links).map (Stage.rename change) := by
  simp only [stages, List.zip_map_left, List.map_map]
  refine List.map_congr_left fun stage _ => ?_
  simp only [Function.comp_apply, Prod.map, candidates_rename]
  rfl

/-- The rest of the earliest match does not depend on the names of the wildcards. -/
private theorem earliest?_rename (injective : change.Injective) (budget : Nat) (stages : List Stage)
    (previous : Nat) (captures : Captures) :
    earliest? budget (stages.map (Stage.rename change)) previous (captures.rename change) =
      earliest? budget stages previous captures := by
  induction stages generalizing previous captures with
  | nil => rfl
  | cons stage stages ih =>
    have behind : (stage.rename change).behind previous = stage.behind previous := rfl
    rw [List.map_cons, earliest?, earliest?, behind]
    congr 1
    funext candidate
    rw [Stage.rename, stage.template.captureLine?_rename injective, Option.bind_map]
    simp only [Function.comp_def, ih]

end Search

namespace Query

/-- A query with the wildcards of its entries renamed. -/
def rename (change : Nat → Nat) (query : Query) : Query :=
  { query with entries := query.entries.map (EntryTemplate.rename change) }

private theorem list_search_rename {change : Nat → Nat} (injective : change.Injective)
    (query : Query) (corpus : Corpus) :
    ((query.rename change).search corpus).list = (query.search corpus).list := by
  cases entries_eq : query.entries with
  | nil => simp [search, rename, entries_eq]
  | cons first templates =>
    have renamed_eq : (query.rename change).entries =
        first.rename change :: templates.map (EntryTemplate.rename change) := by
      rw [rename, entries_eq, List.map_cons]
    rw [list_search renamed_eq, list_search entries_eq, Search.candidates_rename]
    refine List.filterMap_congr fun candidate _ => ?_
    have captured := first.captureLine?_rename injective query.budget [] candidate.2
    have behind (captures : Captures) := Search.earliest?_rename injective query.budget
      (Search.stages corpus templates query.links) candidate.1 captures
    rw [← Search.stages_rename] at behind
    rw [show (query.rename change).budget = query.budget from rfl,
      show (query.rename change).links = query.links from rfl,
      show ([] : Captures) = Captures.rename change [] from rfl, captured, Option.bind_map]
    simp only [Function.comp_def, behind]
    rfl

/-- A search does not depend on the names of the wildcards. -/
theorem search_rename {change : Nat → Nat} (injective : change.Injective) (query : Query)
    (corpus : Corpus) : (query.rename change).search corpus = query.search corpus :=
  congrArg Matches.mk (list_search_rename injective query corpus)

end Query

/-- Whether two motifs have the same links, and one renaming leads from the entries of the first to
those of the second; it is one to one on the wildcards that take part in matching. -/
structure Motif.RenamesTo (roles : List ColumnRole) (change : Nat → Nat)
    (motif renamed : Motif) : Prop where
  entries : List.Forall₂ (Entry.RenamesTo roles change) motif.entries renamed.entries
  links : (motif.entries.dropLast.map fun entry => entry.link.getD .any) =
    renamed.entries.dropLast.map fun entry => entry.link.getD .any
  injective : Set.InjOn change {index | ∃ entry ∈ motif.entries, entry.Uses roles index}

private theorem finite_uses {headers : List Header} {roles : List ColumnRole}
    (covered : headers.length = roles.length) (entries : List Entry) :
    {index | ∃ entry ∈ entries, entry.Uses roles index}.Finite := by
  let items := entries.flatMap (TemplateItem.ofEntry headers roles)
  refine (items.filterMap TemplateItem.wildcard?).finite_toSet.subset ?_
  rintro index ⟨entry, member, uses⟩
  exact List.mem_filterMap.mpr ⟨.wildcard index, List.mem_flatMap.mpr
    ⟨entry, member, (Entry.wildcard_mem_ofEntry_iff covered).mpr uses⟩, rfl⟩

namespace Query

/-- Two motifs find the same in every log when they have the same links and one renaming of
wildcards leads from what takes part in matching in the first to that in the second. -/
theorem search_eq_of_renamesTo {headers : List Header} {roles : List ColumnRole}
    {motif other : Motif} {budget : Nat} {query renamed : Query}
    (compiled : compile headers roles motif budget = .ok query)
    (compiledOther : compile headers roles other budget = .ok renamed) {change : Nat → Nat}
    (renames : motif.RenamesTo roles change other) (corpus : Corpus) :
    query.search corpus = renamed.search corpus := by
  obtain ⟨covered, -, fits, -, rfl⟩ := compile_eq_ok_iff.mp compiled
  obtain ⟨-, -, fitsOther, -, rfl⟩ := compile_eq_ok_iff.mp compiledOther
  obtain ⟨total, injective, same⟩ :=
    exists_injective_of_injOn (finite_uses covered motif.entries) renames.injective
  have entries : List.Forall₂ (Entry.RenamesTo roles total) motif.entries other.entries := by
    have members := (List.forall₂_and_left _ _).mpr ⟨fun _ member => member, renames.entries⟩
    exact members.imp fun entry _ ⟨member, changes⟩ =>
      changes.congr fun index uses => same index ⟨entry, member, uses⟩
  have templates_eq := templates_of_renamesTo injective fits fitsOther entries []
  rw [List.map_nil] at templates_eq
  simp only [templates_eq, ← renames.links]
  exact (search_rename injective _ corpus).symm

/-- Two motifs that number their wildcards the other way round. In the first, a cell that is not
selected holds the first occurrence of a wildcard, and in the other it is plain text. -/
theorem search_eq_of_swapped_wildcards :
    let headers : List Header := [⟨"m", .string⟩, ⟨"k", .string⟩]
    let roles : List ColumnRole := [.content, .content]
    let motif : Motif := {
      entries := [⟨["ab", "c:d"], [⟨[.wildcard 0 "a", .text "b"]⟩,
          ⟨[.wildcard 1 "c", .text ":", .wildcard 0 "d"]⟩], [false, true], some (.atMost 2)⟩,
        ⟨["c", "d"], [⟨[.wildcard 1 "c"]⟩, ⟨[.wildcard 0 "d"]⟩], [true, true], none⟩]
      wildcards := [⟨[⟨0, 0, 0⟩, ⟨0, 1, 2⟩, ⟨1, 1, 0⟩]⟩, ⟨[⟨0, 1, 0⟩, ⟨1, 0, 0⟩]⟩] }
    let other : Motif := {
      entries := [⟨["x", "y:z"], [⟨[.text "x"]⟩,
          ⟨[.wildcard 0 "y", .text ":", .wildcard 1 "z"]⟩], [false, true], some (.atMost 2)⟩,
        ⟨["y", "z"], [⟨[.wildcard 0 "y"]⟩, ⟨[.wildcard 1 "z"]⟩], [true, true], none⟩]
      wildcards := [⟨[⟨1, 0, 0⟩, ⟨0, 1, 0⟩]⟩, ⟨[⟨0, 1, 2⟩, ⟨1, 1, 0⟩]⟩] }
    ∃ query renamed, compile headers roles motif 10 = .ok query ∧
      compile headers roles other 10 = .ok renamed ∧
      motif.RenamesTo roles (Equiv.swap 0 1) other ∧
      ∀ corpus, query.search corpus = renamed.search corpus := by
  intro headers roles motif other
  have renames : motif.RenamesTo roles (Equiv.swap 0 1) other := by
    refine ⟨.cons ⟨fun _ _ _ _ => rfl, ?_⟩ (.cons ⟨fun _ _ _ _ => rfl, ?_⟩ .nil), rfl,
      (Equiv.swap 0 1).injective.injOn⟩
    · rintro (_ | _ | column) ⟨selected, -⟩ cell next isCell isNext
      · simp at selected
      · obtain rfl := Option.some.inj isCell
        obtain rfl := Option.some.inj isNext
        exact .cons (.wildcard 1 "c" "y") (.cons (.text ":") (.cons (.wildcard 0 "d" "z") .nil))
      · simp at selected
    · rintro (_ | _ | column) ⟨selected, -⟩ cell next isCell isNext
      · obtain rfl := Option.some.inj isCell
        obtain rfl := Option.some.inj isNext
        exact .cons (.wildcard 1 "c" "y") .nil
      · obtain rfl := Option.some.inj isCell
        obtain rfl := Option.some.inj isNext
        exact .cons (.wildcard 0 "d" "z") .nil
      · simp at selected
  obtain ⟨query, renamed, compiled, compiledOther⟩ :
      ∃ query renamed, compile headers roles motif 10 = .ok query ∧
        compile headers roles other 10 = .ok renamed := ⟨_, _, rfl, rfl⟩
  exact ⟨query, renamed, compiled, compiledOther, renames,
    search_eq_of_renamesTo compiled compiledOther renames⟩

end Query

end LogMotif
