import LogMotif.Proofs.Query.Lines
import LogMotif.Proofs.Session.Bookkeeping

/-! # Retouched sessions

A session is retouched by actions that put wildcards over text, take them away, or switch which cells
take part in matching. Each entry stays in its place and keeps its row and its link. Where every
wildcard replaced one text throughout, the template of an entry spells the line of its row.
-/

namespace LogMotif

namespace Entry

/-- Whether each wildcard in an entry replaced the given text wherever it stands. -/
def Replaces (replaced : Nat → String) (entry : Entry) : Prop :=
  ∀ cell ∈ entry.cells, ∀ segment ∈ cell.segments, ∀ index ∈ segment.wildcard?,
    segment.content = replaced index

instance (replaced : Nat → String) (entry : Entry) : Decidable (entry.Replaces replaced) :=
  inferInstanceAs (Decidable (∀ cell ∈ entry.cells, ∀ segment ∈ cell.segments,
    ∀ index ∈ segment.wildcard?, segment.content = replaced index))

/-- Whether an entry is made from a row, and has no link or one that allows all distances. -/
structure IsMadeFrom (row : List String) (entry : Entry) : Prop where
  source_eq : entry.source = row
  shaped : entry.IsShaped row.length
  free : entry.link.getD .any = .any

theorem IsMadeFrom.reshaped {row : List String} {old new : Entry} (made : old.IsMadeFrom row)
    (reshaped : Reshaped old new) : new.IsMadeFrom row where
  source_eq := reshaped.source_eq.trans made.source_eq
  shaped := reshaped.isShaped made.shaped
  free := by rw [reshaped.link_eq, made.free]

/-- The entries of a fresh motif are made from its rows. -/
theorem isMadeFrom_ofRows (roles : List ColumnRole) (rows : List (List String)) :
    List.Forall₂ IsMadeFrom rows (ofRows roles rows) := by
  have lifted : List.Forall₂ IsMadeFrom rows (rows.map (ofRow roles)) := by
    rw [List.forall₂_map_right_iff, List.forall₂_same]
    exact fun row _ => ⟨rfl, isShaped_ofRow roles row, rfl⟩
  have unlinked : List.Forall₂ (fun old new : Entry => ∀ row, old.IsMadeFrom row → new.IsMadeFrom row)
      (rows.map (ofRow roles)) (ofRows roles rows) := by
    refine forall₂_modify (fun _ _ => id) fun old _ row made => ⟨made.source_eq, ?_, rfl⟩
    exact ⟨made.shaped.source_length, made.shaped.selection_length, made.shaped.splits⟩
  exact forall₂_trans (fun made keeps => keeps _ made) lifted unlinked

/-- The template of an entry spells the line of its own row, if its wildcards stand for the texts
they replaced. -/
theorem spellRow_source {headers : List Header} {roles : List ColumnRole}
    {log : List (List String)} {corpus : Corpus}
    (written : Corpus.ofRows headers roles log = .ok corpus) {replaced : Nat → String}
    {entry : Entry} (shaped : entry.IsShaped headers.length) (replaces : entry.Replaces replaced)
    {i : Nat} (here : log[i]? = some entry.source) :
    TemplateItem.SpellRow corpus (fun index => Json.escapeText (replaced index))
      (TemplateItem.ofEntry headers roles entry) i := by
  have split {column : Nat} {cell : Cell} (isCell : entry.cells[column]? = some cell) :
      ∃ text, entry.source[column]? = some text ∧ cell.IsSplitOf text :=
    exists_of_forall₂_of_getElem? shaped.splits isCell
  refine (spellRow_ofEntry_iff (fun index => Json.isContent_escapeText (replaced index)) written
    shaped.cells_length shaped.selection_length).mpr ⟨?_, entry.source, here, ?_⟩
  · intro index member
    obtain ⟨column, cell, -, isCell, content, inCell⟩ :=
      (wildcard_mem_ofEntry_iff (Corpus.ofRows_eq_ok_iff.mp written).1).mp member
    obtain ⟨text, -, isSplit⟩ := split isCell
    have same : content = replaced index :=
      replaces cell (List.mem_of_getElem? isCell) _ inCell index rfl
    rw [← same]
    exact Json.isStretch_escapeText (isSplit.wildcard_ne inCell)
  · intro column active
    have inside : column < entry.cells.length := by
      rw [shaped.cells_length, ← shaped.selection_length]
      exact (List.getElem?_eq_some_iff.mp active.1).1
    have isCell := List.getElem?_eq_getElem inside
    obtain ⟨text, isText, isSplit⟩ := split isCell
    have filled : (entry.cells.get ⟨column, inside⟩).filled replaced = text := by
      refine (Cell.filled_eq_content ?_).trans isSplit.content_eq
      intro index content inCell
      exact (replaces _ (List.getElem_mem inside) _ inCell index rfl).symm
    refine ⟨_, text, isCell, isText, ?_⟩
    rw [← filled]
    exact (Cell.spelled_eq_escape_filled fun _ _ => rfl).symm

end Entry

namespace Session

/-- The sessions that are reached from one by retouching its entries. -/
inductive Retouched (first : Session) : Session → Prop
  | refl : Retouched first first
  | apply {session next : Session} {action : Action} (retouched : Retouched first session)
      (retouches : action.Retouches) (applied : session.apply action = .ok (.updated next)) :
      Retouched first next

variable {first session : Session}

/-- Retouching keeps the columns and the options of a session, and only reshapes its entries. -/
theorem Retouched.keeps (retouched : first.Retouched session) :
    session.headers = first.headers ∧ session.roles = first.roles ∧
      session.options = first.options ∧
      List.Forall₂ Entry.Reshaped first.motif.entries session.motif.entries := by
  induction retouched with
  | refl => exact ⟨rfl, rfl, rfl, List.forall₂_same.mpr fun _ _ => .refl _⟩
  | apply _ retouches applied ih =>
    rcases edit_of_perform (apply_eq_ok_updated_iff.mp applied).1 with ⟨rfl, -⟩ | ⟨motif, rfl, edit⟩
    · exact ih
    · obtain ⟨headers_eq, roles_eq, options_eq, reshaped⟩ := ih
      refine ⟨headers_eq, roles_eq, options_eq, ?_⟩
      exact forall₂_trans (fun left right => left.trans right) reshaped (edit.reshaped retouches)

theorem Retouched.inconsistency?_eq_none (retouched : first.Retouched session)
    (consistent : first.motif.inconsistency? = none) : session.motif.inconsistency? = none := by
  cases retouched with
  | refl => exact consistent
  | apply _ _ applied => exact (apply_eq_ok_updated_iff.mp applied).2

end Session

end LogMotif
