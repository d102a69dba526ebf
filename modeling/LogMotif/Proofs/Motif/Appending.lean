import LogMotif.Proofs.FirstPlaces
import LogMotif.Proofs.Motif.Links

/-! # Rows that are appended

The rows that come in are looked through in their order, against a list that grows on the way, and
the last link of the list is opened and taken away again. What comes of it is told by the bodies of
the entries and by their links: the bodies are those of the rows that are new, each at its first
place, and the links are all of one kind. So rows can come in at once or in parts.
-/

namespace LogMotif

namespace Entry

variable {links : List Link} {entries : List Entry} {roles : List ColumnRole}

/-- Entries are known by their bodies and their links. -/
private theorem eq_of_map_body_of_map_link {left right : List Entry}
    (bodies : left.map body = right.map body) (linked : left.map link = right.map link) :
    left = right := by
  have rebuilt (entries : List Entry) : entries =
      List.zipWith (fun body link => { body with link }) (entries.map body) (entries.map link) := by
    rw [List.zipWith_map, List.zipWith_self]
    exact (List.map_id entries).symm
  rw [rebuilt left, bodies, linked, ← rebuilt right]

/-! ### Which rows are added -/

private theorem map_body_ofRows (rows : List (List String)) :
    (ofRows roles rows).map body = rows.map fun row => (ofRow roles row).body := by
  rw [ofRows, map_body_unlinkLast, List.map_map]
  rfl

private theorem map_source_foldl_appendNew (entries incoming : List Entry) :
    (incoming.foldl appendNew entries).map source =
      entries.map source ++ unseen (entries.map source) (incoming.map source) := by
  rw [append_unseen, List.foldl_map]
  induction incoming generalizing entries with
  | nil => rfl
  | cons first incoming ih =>
    rw [List.foldl_cons, List.foldl_cons, ih]
    congr 1
    have present_iff : entries.any (·.source == first.source) ↔ first.source ∈ entries.map source := by
      simp [List.any_eq_true]
    unfold appendNew
    by_cases present : first.source ∈ entries.map source
    · rw [if_pos present, if_pos (present_iff.mpr present)]
    · rw [if_neg present, if_neg (mt present_iff.mp present), List.map_append,
        map_source_of_map_body (map_body_modifyLastLink _ _)]
      rfl

/-- The entries that are added are those of the rows that are new. -/
theorem map_body_appendAll_ofRows (roles : List ColumnRole) (entries : List Entry)
    (rows : List (List String)) :
    (appendAll entries (ofRows roles rows)).map body =
      entries.map body ++ (unseen (entries.map source) rows).map fun row => (ofRow roles row).body := by
  obtain ⟨added, sublist, same⟩ := exists_map_body_appendAll entries (ofRows roles rows)
  have sources : added.map source = unseen (entries.map source) rows := by
    have all := map_source_foldl_appendNew entries (ofRows roles rows)
    rw [map_source_ofRows] at all
    have kept := map_source_of_map_body same
    rw [appendAll, map_source_of_map_body (map_body_unlinkLast _), all, List.map_append] at kept
    exact (List.append_cancel_left kept).symm
  rw [same, List.map_append, ← sources, List.map_map]
  congr 1
  refine List.map_congr_left fun entry member => ?_
  obtain ⟨row, -, lifted⟩ := exists_body_eq_of_mem_ofRows (sublist.subset member)
  have isSource : entry.source = row := congrArg source lifted
  rw [Function.comp_apply, lifted, isSource]

theorem map_source_appendAll_ofRows (entries : List Entry) (rows : List (List String)) :
    (appendAll entries (ofRows roles rows)).map source =
      entries.map source ++ unseen (entries.map source) rows := by
  rw [appendAll, map_source_of_map_body (map_body_unlinkLast _), map_source_foldl_appendNew,
    map_source_ofRows]

/-! ### What comes of the links -/

/-- Linked entries with the same bodies are the same where only links of one kind are added. -/
private theorem LinkedBy.eq_of_map_body {link : Link} {left right : List Entry} {i j : Nat}
    (one : LinkedBy (links ++ List.replicate i link) left)
    (other : LinkedBy (links ++ List.replicate j link) right)
    (bodies : left.map body = right.map body) : left = right := by
  have lengths : left.length = right.length := by simpa using congrArg List.length bodies
  have same : i = j := by
    rw [one.length_eq, other.length_eq] at lengths
    simpa using lengths
  subst same
  exact eq_of_map_body_of_map_link bodies (one.trans other.symm)

theorem LinkedBy.appendAll_ofRows (linked : LinkedBy links entries) (roles : List ColumnRole)
    (rows : List (List String)) : ∃ count, LinkedBy (links ++ List.replicate count .any)
      (Entry.appendAll entries (ofRows roles rows)) :=
  linked.appendAll fun _ => link_getD_of_mem_ofRows

/-- Rows that come in one part after the other are appended as if they had come at once. -/
private theorem LinkedBy.appendAll_appendAll (linked : LinkedBy links entries)
    (first second : List (List String)) :
    Entry.appendAll (Entry.appendAll entries (ofRows roles first)) (ofRows roles second) =
      Entry.appendAll entries (ofRows roles (first ++ second)) := by
  obtain ⟨i, linkedFirst⟩ := linked.appendAll_ofRows roles first
  obtain ⟨j, linkedSecond⟩ := linkedFirst.appendAll_ofRows roles second
  obtain ⟨k, linkedBoth⟩ := linked.appendAll_ofRows roles (first ++ second)
  rw [List.append_assoc, List.replicate_append_replicate] at linkedSecond
  refine linkedSecond.eq_of_map_body linkedBoth ?_
  simp only [map_body_appendAll_ofRows, map_source_appendAll_ofRows, unseen_append, List.map_append,
    List.append_assoc]

/-- Entries with others behind them, to which the last of them is linked. -/
def followedBy (entries added : List Entry) : List Entry :=
  if added.isEmpty then entries else modifyLastLink (fun _ => some .any) entries ++ added

private theorem isEmpty_ofRows (rows : List (List String)) :
    (ofRows roles rows).isEmpty = rows.isEmpty := by
  cases rows <;> simp [ofRows, unlinkLast, modifyLastLink]

/-- What appending rows comes to. -/
private theorem LinkedBy.appendAll_eq (linked : LinkedBy links entries)
    (rows : List (List String)) :
    Entry.appendAll entries (ofRows roles rows) =
      followedBy entries (ofRows roles (unseen (entries.map source) rows)) := by
  obtain ⟨count, linkedToo⟩ := linked.appendAll_ofRows roles rows
  have bodies := map_body_appendAll_ofRows roles entries rows
  rw [followedBy, isEmpty_ofRows]
  cases added : unseen (entries.map source) rows with
  | nil =>
    rw [added, List.map_nil, List.append_nil] at bodies
    refine linkedToo.eq_of_map_body (j := 0) ?_ bodies
    simpa using linked
  | cons row others =>
    rw [if_neg (by simp)]
    refine linkedToo.eq_of_map_body (j := others.length + 1) ?_ ?_
    · rw [LinkedBy, List.map_append, map_link_modifyLastLink _ linked,
        linkedBy_ofRows roles (List.cons_ne_nil row others), List.length_cons, Nat.add_sub_cancel,
        List.replicate_succ]
      simp
    · rw [bodies, added, List.map_append, map_body_modifyLastLink, map_body_ofRows]

theorem getElem?_followedBy {added : List Entry} {i : Nat} {entry : Entry}
    (here : entries[i]? = some entry) :
    (followedBy entries added)[i]? = some { entry with
      link := if i + 1 = entries.length ∧ added ≠ [] then some .any else entry.link } := by
  have inside : i < entries.length := (List.getElem?_eq_some_iff.mp here).1
  unfold followedBy
  cases added with
  | nil => simpa using here
  | cons first others =>
    rw [if_neg (by simp), List.getElem?_append_left (by simpa [modifyLastLink] using inside),
      modifyLastLink, List.getElem?_modify, here]
    by_cases last : i + 1 = entries.length
    · have same : entries.length - 1 = i := by omega
      simp [last, same]
    · have other : entries.length - 1 ≠ i := by omega
      simp [last, other]

theorem drop_followedBy (entries added : List Entry) :
    (followedBy entries added).drop entries.length = added := by
  unfold followedBy
  cases added with
  | nil => simp
  | cons first others =>
    rw [if_neg (by simp)]
    exact List.drop_left' (List.length_modify _ _ _)

end Entry

namespace Motif

variable {motif : Motif} {links : List Link}

/-- Whether a motif is another one with the entries of some rows behind it. -/
structure Continues (roles : List ColumnRole) (rows : List (List String)) (old new : Motif) :
    Prop where
  wildcards_eq : new.wildcards = old.wildcards
  /-- The entries stay as they are, but for the last one, which any distance parts from the rows. -/
  kept : ∀ (i : Nat) (entry : Entry), old.entries[i]? = some entry →
    new.entries[i]? = some { entry with
      link := if i + 1 = old.entries.length ∧ rows ≠ [] then some .any else entry.link }
  added : new.entries.drop old.entries.length = Entry.ofRows roles rows
  sources_eq : new.entries.map Entry.source = old.entries.map Entry.source ++ rows

/-- The rows that are appended are those that are the source of no entry. -/
theorem continues_appendRows (linked : Entry.LinkedBy links motif.entries)
    (roles : List ColumnRole) (rows : List (List String)) :
    Continues roles (unseen (motif.entries.map Entry.source) rows) motif
      (motif.appendRows roles rows) where
  wildcards_eq := rfl
  kept i entry here := by
    have filled : Entry.ofRows roles (unseen (motif.entries.map Entry.source) rows) ≠ [] ↔
        unseen (motif.entries.map Entry.source) rows ≠ [] := by
      rw [ne_eq, ne_eq, ← List.isEmpty_iff, ← List.isEmpty_iff, Entry.isEmpty_ofRows]
    rw [appendRows, linked.appendAll_eq, Entry.getElem?_followedBy here]
    simp only [filled]
  added := by rw [appendRows, linked.appendAll_eq, Entry.drop_followedBy]
  sources_eq := Entry.map_source_appendAll_ofRows motif.entries rows

theorem appendRows_appendRows (linked : Entry.LinkedBy links motif.entries)
    (roles : List ColumnRole) (first second : List (List String)) :
    (motif.appendRows roles first).appendRows roles second =
      motif.appendRows roles (first ++ second) :=
  congrArg (Motif.mk · _) (linked.appendAll_appendAll first second)

theorem appendRows_append_self (linked : Entry.LinkedBy links motif.entries)
    (roles : List ColumnRole) (rows : List (List String)) :
    motif.appendRows roles (rows ++ rows) = motif.appendRows roles rows := by
  rw [appendRows, appendRows, linked.appendAll_eq, linked.appendAll_eq, unseen_append_self]

end Motif

end LogMotif
