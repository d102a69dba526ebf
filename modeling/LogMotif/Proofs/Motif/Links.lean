import LogMotif.Proofs.Motif.Shape

/-! # The links of a motif

Every entry but the last is linked to the next, so the links of a motif are one list, shorter by one
than the list of entries. Each edit of the motif is an edit of that list: rows that are appended add
links that allow all distances, an entry that is removed takes its link with it, or the one in front
if it is the last, and a link that is switched or set is replaced in its place.
-/

namespace LogMotif

namespace Entry

/-- Whether the entries but the last have the given links, and the last has none. -/
def LinkedBy (links : List Link) (entries : List Entry) : Prop :=
  entries.map link = links.map some ++ [none]

/-- Whether entries are linked, but for the last, which may have a link that allows all distances. -/
def LoosenedBy (links : List Link) (entries : List Entry) : Prop :=
  ∃ last : Option Link, last.getD .any = .any ∧ entries.map link = links.map some ++ [last]

variable {links : List Link} {entries : List Entry}

theorem LinkedBy.loosened (linked : LinkedBy links entries) : LoosenedBy links entries :=
  ⟨none, rfl, linked⟩

theorem LinkedBy.length_eq (linked : LinkedBy links entries) :
    entries.length = links.length + 1 := by
  simpa using congrArg List.length linked

theorem LinkedBy.ne_nil (linked : LinkedBy links entries) : entries ≠ [] := by
  rw [← List.length_pos_iff, linked.length_eq]
  exact Nat.succ_pos _

/-- The last entry is the one without a link. -/
theorem LinkedBy.link_eq_none_iff (linked : LinkedBy links entries) {i : Nat} {entry : Entry}
    (here : entries[i]? = some entry) : entry.link = none ↔ i + 1 = entries.length := by
  have isLink : (links.map some ++ [none])[i]? = some entry.link := by
    rw [← linked, List.getElem?_map, here, Option.map_some]
  have inside : i < entries.length := (List.getElem?_eq_some_iff.mp here).1
  rw [linked.length_eq] at inside ⊢
  by_cases last : i = links.length
  · subst last
    rw [List.getElem?_append_right (by simp)] at isLink
    simpa using isLink.symm
  · rw [List.getElem?_append_left (by simp; omega), List.getElem?_map] at isLink
    obtain ⟨link, -, isLink⟩ := Option.map_eq_some_iff.mp isLink
    simp only [← isLink, reduceCtorEq, false_iff]
    omega

theorem LinkedBy.mem_of_link_eq_some (linked : LinkedBy links entries) {entry : Entry}
    (member : entry ∈ entries) {link : Link} (isLink : entry.link = some link) : link ∈ links := by
  have inLinks : some link ∈ links.map some ++ [none] := by
    rw [← linked, ← isLink]
    exact List.mem_map_of_mem member
  simpa using inLinks

/-- The links in front of the last entry are those that a search steps over. -/
theorem LinkedBy.dropLast_eq (linked : LinkedBy links entries) :
    (entries.dropLast.map fun entry => entry.link.getD .any) = links := by
  have front : entries.dropLast.map link = links.map some := by
    rw [List.map_dropLast, linked, List.dropLast_concat]
  have composed : (fun entry : Entry => entry.link.getD .any) = (·.getD .any) ∘ link := rfl
  rw [composed, ← List.map_map, front, List.map_map]
  exact List.map_id' links

/-! ### Links of changed entries -/

/-- Changing the link of an entry changes the link in its place. -/
private theorem map_link_modify (change : Option Link → Option Link) (entries : List Entry)
    (i : Nat) :
    (entries.modify i fun entry => { entry with link := change entry.link }).map link =
      (entries.map link).modify i change := by
  apply map_modify_view
  exact fun _ => rfl

private theorem modify_concat {α : Type} (change : α → α) (front : List α) (last : α) :
    (front ++ [last]).modify front.length change = front ++ [change last] := by
  induction front with
  | nil => rfl
  | cons first front ih => simp [ih]

/-- Only the last of the links is changed. -/
theorem map_link_modifyLastLink (change : Option Link → Option Link) {front : List (Option Link)}
    {last : Option Link} (same : entries.map link = front ++ [last]) :
    (modifyLastLink change entries).map link = front ++ [change last] := by
  have length_eq : entries.length = front.length + 1 := by simpa using congrArg List.length same
  rw [modifyLastLink, map_link_modify, same, length_eq, Nat.add_sub_cancel, modify_concat]

/-- Taking the last link away leaves those in front of it. -/
theorem linkedBy_unlinkLast (last : Option Link)
    (same : entries.map link = links.map some ++ [last]) :
    LinkedBy links (unlinkLast entries) :=
  map_link_modifyLastLink _ same

theorem LinkedBy.reshaped {next : List Entry} (linked : LinkedBy links entries)
    (reshaped : List.Forall₂ Reshaped entries next) : LinkedBy links next :=
  (map_eq_of_forall₂ (fun _ _ here => here.link_eq) reshaped).trans linked

/-- A link that is replaced is replaced in its place. -/
theorem LinkedBy.modify (linked : LinkedBy links entries) {i : Nat} {old : Link}
    (here : links[i]? = some old) (change : Option Link → Link) :
    LinkedBy (links.set i (change (some old)))
      (entries.modify i fun entry => { entry with link := some (change entry.link) }) := by
  have inside : i < links.length := (List.getElem?_eq_some_iff.mp here).1
  rw [LinkedBy, map_link_modify fun link => some (change link), linked,
    List.modify_eq_set_getElem?, List.getElem?_append_left (by simpa using inside),
    List.getElem?_map, here]
  simp [List.set_append_left, inside, List.map_set]

/-! ### Links of appended rows -/

theorem linkedBy_ofRows (roles : List ColumnRole) {rows : List (List String)} (filled : rows ≠ []) :
    LinkedBy (List.replicate (rows.length - 1) .any) (ofRows roles rows) := by
  refine linkedBy_unlinkLast (some .any) ?_
  have length_eq : rows.length = rows.length - 1 + 1 :=
    (Nat.sub_add_cancel (List.length_pos_iff.mpr filled)).symm
  have alike : (rows.map (ofRow roles)).map link = List.replicate rows.length (some .any) := by
    rw [List.map_map]
    exact List.map_const'
  rw [alike, length_eq, List.replicate_succ', List.map_replicate, Nat.add_sub_cancel]

/-- Whatever rows are lifted into entries, no distance between them is ruled out. -/
theorem link_getD_of_mem_ofRows {roles : List ColumnRole} {rows : List (List String)} {entry : Entry}
    (member : entry ∈ ofRows roles rows) : entry.link.getD .any = .any := by
  obtain ⟨row, isRow, -⟩ := exists_body_eq_of_mem_ofRows member
  cases isLink : entry.link with
  | none => rfl
  | some link =>
    have linked := linkedBy_ofRows roles (List.ne_nil_of_mem isRow)
    exact List.eq_of_mem_replicate (linked.mem_of_link_eq_some member isLink)

private theorem LoosenedBy.appendNew (loosened : LoosenedBy links entries) {entry : Entry}
    (free : entry.link.getD .any = .any) :
    ∃ count, LoosenedBy (links ++ List.replicate count .any) (appendNew entries entry) := by
  unfold Entry.appendNew
  split
  next => exact ⟨0, by simpa using loosened⟩
  next =>
    obtain ⟨last, isAny, same⟩ := loosened
    refine ⟨1, entry.link, free, ?_⟩
    rw [List.map_append, map_link_modifyLastLink _ same, isAny]
    simp

/-- Appending entries keeps the links and adds links that allow all distances. -/
theorem LinkedBy.appendAll (linked : LinkedBy links entries) {incoming : List Entry}
    (free : ∀ entry ∈ incoming, entry.link.getD .any = .any) :
    ∃ count, LinkedBy (links ++ List.replicate count .any) (appendAll entries incoming) := by
  suffices folded : ∃ count,
      LoosenedBy (links ++ List.replicate count .any) (incoming.foldl Entry.appendNew entries) by
    obtain ⟨count, last, -, same⟩ := folded
    exact ⟨count, linkedBy_unlinkLast last same⟩
  have loosened := linked.loosened
  clear linked
  induction incoming generalizing links entries with
  | nil => exact ⟨0, by simpa using loosened⟩
  | cons first incoming ih =>
    obtain ⟨isFree, free⟩ := List.forall_mem_cons.mp free
    obtain ⟨here, loosened⟩ := loosened.appendNew isFree
    obtain ⟨behind, loosened⟩ := ih free loosened
    refine ⟨here + behind, ?_⟩
    rwa [← List.replicate_append_replicate, ← List.append_assoc]

/-! ### Links around a removed entry -/

private theorem map_link_renumber (entries : List Entry) (deleted : List Nat) :
    (Motif.renumber entries deleted).map link = entries.map link := by
  rw [Motif.renumber, List.map_map]
  rfl

/-- An entry that is removed takes its link with it, or the link in front of it if it is the last. -/
theorem LinkedBy.eraseIdx (linked : LinkedBy links entries) {entry : Nat}
    (inside : entry < entries.length) (remaining : entries.eraseIdx entry ≠ [])
    (deleted : List Nat) :
    LinkedBy (links.eraseIdx (min entry (links.length - 1)))
      (unlinkLast (Motif.renumber (entries.eraseIdx entry) deleted)) := by
  have erased : (Motif.renumber (entries.eraseIdx entry) deleted).map link =
      (links.map some ++ [none]).eraseIdx entry := by
    rw [map_link_renumber, ← List.eraseIdx_map, linked]
  have length_eq := linked.length_eq
  rw [← List.length_pos_iff, List.length_eraseIdx_of_lt inside] at remaining
  by_cases last : entry < links.length
  · rw [Nat.min_eq_left (by omega)]
    refine linkedBy_unlinkLast none ?_
    rw [erased, List.eraseIdx_append_of_lt_length (by simpa using last), List.eraseIdx_map]
  · obtain rfl : entry = links.length := by omega
    have front : links.eraseIdx (links.length - 1) = links.dropLast :=
      (List.dropLast_eq_eraseIdx (by omega)).symm
    have filled : links ≠ [] := by
      rw [← List.length_pos_iff]
      omega
    rw [Nat.min_eq_right (by omega), front]
    refine linkedBy_unlinkLast (some (links.getLast filled)) ?_
    rw [erased, List.eraseIdx_append_of_length_le (by simp), List.length_map, Nat.sub_self,
      List.eraseIdx_cons_zero, List.append_nil]
    conv_lhs => rw [← List.dropLast_append_getLast filled]
    simp

end Entry

end LogMotif
