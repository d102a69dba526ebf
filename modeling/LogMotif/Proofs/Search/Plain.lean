import LogMotif.Proofs.Search.Recapture

/-! # Queries without wildcards

Where no template holds a wildcard, matching an entry neither needs nor gives captures, and no
budget is exceeded. So a chain is told by the links and by what each template spells on its own.
-/

namespace LogMotif

namespace Query

/-- The templates of a query bind the wildcards they hold, if any. -/
private theorem Threaded.exists_ofItems {captured : List Nat} {templates : List EntryTemplate}
    (threaded : Threaded captured templates) :
    ∀ template ∈ templates, ∃ known, template = .ofItems known template.items := by
  induction threaded with
  | nil => simp
  | @cons captured items rest _ ih =>
    intro template member
    rcases List.mem_cons.mp member with rfl | later
    · exact ⟨captured, rfl⟩
    · exact ih template later

variable {query : Query} {corpus : Corpus}

/-- A template without wildcards recalls no text. -/
private theorem hasRecall_linePattern_of_plain {template : EntryTemplate}
    (plain : ∀ index, .wildcard index ∉ template.items) (values : List String) :
    (template.linePattern values).hasRecall = false := by
  rw [EntryTemplate.linePattern, TemplateItem.instantiate_eq_map_generalize plain,
    TemplateItem.hasRecall_map_generalize]

/-- The chains of a query without wildcards. -/
theorem isChain_iff_of_plain (threaded : Threaded [] query.entries)
    (plain : ∀ template ∈ query.entries, ∀ index, .wildcard index ∉ template.items)
    (value : Nat → String) {chain : Match} :
    query.IsChain corpus chain ↔ chain.Linked query.links ∧
      List.Forall₂ (TemplateItem.SpellRow corpus value) (query.entries.map EntryTemplate.items)
        chain := by
  constructor
  · rintro ⟨length_eq, linked, matched⟩
    obtain ⟨final, along⟩ := Option.isSome_iff_exists.mp matched
    obtain ⟨-, -, spelled⟩ := spellRow_of_captureAlong? threaded Captures.hold_nil length_eq along
    refine ⟨linked, ?_⟩
    rw [List.forall₂_map_left_iff] at spelled ⊢
    refine ((List.forall₂_and_left _ _).mpr ⟨plain, spelled⟩).imp ?_
    -- Without wildcards, it makes no difference what they stand for.
    rintro template row ⟨plain, spelled⟩
    exact spelled.congr fun index member => absurd member (plain index)
  · rintro ⟨linked, spelled⟩
    refine ⟨?_, linked, ?_⟩
    · rw [entryCount, ← spelled.length_eq, List.length_map]
    -- No wildcard is bound, so there is none whose text would have to be captured.
    have unbound : ∀ template ∈ query.entries, ∀ index ∈ template.bound, False := by
      intro template member index bound
      obtain ⟨known, made⟩ := threaded.exists_ofItems template member
      rw [made] at bound
      exact plain template member index (EntryTemplate.mem_bound_iff.mp bound).1
    refine isSome_captureAlong?_of_spellRow threaded Captures.hold_nil (by simp) unbound spelled
      ?_ ?_
    · intro template row member
      exact EntryTemplate.attemptRow?_ne_exhausted
        (hasRecall_linePattern_of_plain (plain template (List.of_mem_zip member).1) _) _ _ _
    · exact fun _ _ _ _ _ _ _ reused => reused.elim

end Query

end LogMotif
