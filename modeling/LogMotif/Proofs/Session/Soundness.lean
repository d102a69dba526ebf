import LogMotif.Proofs.Session.Reachable

/-! # What holds of every reachable session

The entries of a reachable session are made from rows that fit the columns, each cell still splits
the text of its row, and the wildcards are booked. Every edit keeps this, so its consistency check
never fails.
-/

namespace LogMotif

namespace Session

variable {session next : Session} {action : Action} {motif : Motif}

/-- An edit that retouches the entries splits their cells otherwise, or selects other cells. -/
theorem Edit.reshaped (edit : session.Edit action motif) (retouches : action.Retouches) :
    List.Forall₂ Entry.Reshaped session.motif.entries motif.entries := by
  cases edit with
  | appendRows | removeEntry | toggleLink | setLink => exact retouches.elim
  | toggleCell edited => exact Motif.reshaped_toggleCell edited
  | createWildcard edited => exact Motif.reshaped_insertWildcard edited
  | useWildcard edited => exact Motif.reshaped_useWildcard edited
  | createWildcardOverText _ edited => exact Motif.reshaped_insertWildcard edited
  | useWildcardOverText _ edited => exact Motif.reshaped_useWildcard edited
  | removeWildcard edited => exact Motif.reshaped_removeWildcard edited

/-- An edit makes each entry of an old one, or of an appended row. -/
private theorem Edit.exists_origin (edit : session.Edit action motif) {entry : Entry}
    (member : entry ∈ motif.entries) :
    (∃ old ∈ session.motif.entries, old.body.Reshaped entry.body) ∨
      ∃ rows, action = .appendRows rows ∧ ∃ row ∈ rows, row.length = session.headers.length ∧
        entry.body = (Entry.ofRow session.roles row).body := by
  have inPlace (retouches : action.Retouches) :
      ∃ old ∈ session.motif.entries, old.body.Reshaped entry.body := by
    obtain ⟨old, inList, here⟩ := exists_of_forall₂_of_mem (edit.reshaped retouches) member
    exact ⟨old, inList, here.body⟩
  have relinked : motif.entries.map Entry.body = session.motif.entries.map Entry.body →
      ∃ old ∈ session.motif.entries, old.body.Reshaped entry.body := by
    intro same
    have bodies : entry.body ∈ motif.entries.map Entry.body := List.mem_map_of_mem member
    rw [same] at bodies
    obtain ⟨old, inList, here⟩ := List.mem_map.mp bodies
    exact ⟨old, inList, here ▸ .refl _⟩
  cases edit with
  | @appendRows rows fitting =>
    obtain ⟨added, sublist, same⟩ :=
      Entry.exists_map_body_appendAll session.motif.entries (Entry.ofRows session.roles rows)
    have bodies : entry.body ∈ (session.motif.entries ++ added).map Entry.body :=
      same ▸ List.mem_map_of_mem member
    obtain ⟨old, inList, here⟩ := List.mem_map.mp bodies
    rcases List.mem_append.mp inList with before | new
    · exact .inl ⟨old, before, here ▸ .refl _⟩
    · obtain ⟨row, isRow, lifted⟩ := Entry.exists_body_eq_of_mem_ofRows (sublist.subset new)
      exact .inr ⟨rows, rfl, row, isRow, fitting row isRow, here ▸ lifted⟩
  | removeEntry edited =>
    obtain ⟨-, -, rfl⟩ := Motif.removeEntry_eq_ok_remaining_iff.mp edited
    have bodies : entry.body ∈ (Entry.unlinkLast _).map Entry.body := List.mem_map_of_mem member
    rw [Entry.map_body_unlinkLast] at bodies
    obtain ⟨unlinked, inList, here⟩ := List.mem_map.mp bodies
    obtain ⟨old, isOld, reshaped⟩ :=
      exists_of_forall₂_of_mem (Motif.reshaped_renumber _ _) inList
    exact .inl ⟨old, List.mem_of_mem_eraseIdx isOld, here ▸ reshaped.body⟩
  | toggleLink edited =>
    obtain ⟨-, rfl⟩ := Motif.toggleLink_eq_ok_iff.mp edited
    refine .inl (relinked ?_)
    apply Entry.map_modify
    exact fun _ => rfl
  | setLink edited =>
    obtain ⟨-, -, rfl⟩ := Motif.setLink_eq_ok_iff.mp edited
    refine .inl (relinked ?_)
    apply Entry.map_modify
    exact fun _ => rfl
  | toggleCell | createWildcard | useWildcard | createWildcardOverText | useWildcardOverText
  | removeWildcard => exact .inl (inPlace trivial)

theorem Edit.shaped (edit : session.Edit action motif)
    (shaped : ∀ entry ∈ session.motif.entries, entry.IsShaped session.headers.length) :
    ∀ entry ∈ motif.entries, entry.IsShaped session.headers.length := by
  intro entry member
  rw [← Entry.isShaped_body_iff]
  rcases edit.exists_origin member with ⟨old, inList, reshaped⟩ | ⟨rows, -, row, -, fitting, same⟩
  · exact reshaped.isShaped (Entry.isShaped_body_iff.mpr (shaped old inList))
  · rw [same, Entry.isShaped_body_iff]
    exact fitting ▸ Entry.isShaped_ofRow session.roles row

/-- What holds of every reachable session: its entries are made from rows that fit the columns and
the memory, and its wildcards are booked. -/
structure Sound (session : Session) : Prop where
  shaped : ∀ entry ∈ session.motif.entries, entry.IsShaped session.headers.length
  fits : TextsFit (session.motif.entries.map Entry.source)
  booked : session.motif.Booked

theorem Sound.cell_fits (sound : session.Sound) {entry cell : Nat} {content : Cell}
    (found : Motif.cellAt? session.motif.entries entry cell = some content) : content.Fits := by
  obtain ⟨item, isEntry, isCell⟩ := Option.bind_eq_some_iff.mp found
  have member := List.mem_of_getElem? isEntry
  obtain ⟨text, isText, split⟩ :=
    exists_of_forall₂_of_mem (sound.shaped item member).splits (List.mem_of_getElem? isCell)
  have small := sound.fits item.source (List.mem_map_of_mem member) text isText
  exact ⟨text, split, Nat.le_trans (length_le_utf8ByteSize text) small⟩

/-- Whatever edit is made, the wildcards stay booked. -/
theorem Sound.booked_edit (sound : session.Sound) (edit : session.Edit action motif) :
    motif.Booked := by
  cases edit with
  | appendRows => exact sound.booked.appendRows session.roles _
  | removeEntry edited => exact sound.booked.removeEntry edited
  | toggleCell edited =>
    obtain ⟨-, rfl⟩ := Motif.toggleCell_eq_ok_iff.mp edited
    split
    next =>
      refine sound.booked.congr ?_ rfl
      apply Entry.map_modify
      exact fun _ => rfl
    next => exact sound.booked
  | toggleLink edited =>
    obtain ⟨-, rfl⟩ := Motif.toggleLink_eq_ok_iff.mp edited
    refine sound.booked.congr ?_ rfl
    apply Entry.map_modify
    exact fun _ => rfl
  | setLink edited =>
    obtain ⟨-, -, rfl⟩ := Motif.setLink_eq_ok_iff.mp edited
    refine sound.booked.congr ?_ rfl
    apply Entry.map_modify
    exact fun _ => rfl
  | createWildcard edited => exact sound.booked.createWildcard (fun _ => sound.cell_fits) edited
  | useWildcard edited => exact sound.booked.useWildcard (fun _ => sound.cell_fits) edited
  | createWildcardOverText _ edited =>
    exact sound.booked.createWildcard (fun _ => sound.cell_fits) edited
  | useWildcardOverText _ edited => exact sound.booked.useWildcard (fun _ => sound.cell_fits) edited
  | removeWildcard edited => exact sound.booked.removeWildcard (fun _ => sound.cell_fits) edited

theorem Sound.fits_edit (sound : session.Sound) (edit : session.Edit action motif)
    (fits : action.Fits) : TextsFit (motif.entries.map Entry.source) := by
  intro source inSources
  obtain ⟨entry, member, rfl⟩ := List.mem_map.mp inSources
  rcases edit.exists_origin member with ⟨old, inList, reshaped⟩ | ⟨rows, rfl, row, isRow, -, same⟩
  · have source_eq : entry.source = old.source := reshaped.source_eq
    rw [source_eq]
    exact sound.fits old.source (List.mem_map_of_mem inList)
  · have source_eq : entry.source = row := congrArg Entry.source same
    rw [source_eq]
    exact fits row isRow

/-- Booked wildcards in entries that are made from rows are consistent. -/
theorem inconsistency?_eq_none {width : Nat}
    (shaped : ∀ entry ∈ motif.entries, entry.IsShaped width) (booked : motif.Booked) :
    motif.inconsistency? = none := by
  refine booked.inconsistency?_eq_none fun entry member => ?_
  rw [(shaped entry member).selection_length, (shaped entry member).cells_length]

theorem Sound.inconsistency?_eq_none_of_perform (sound : session.Sound)
    (performed : session.perform action = .ok (.updated next)) :
    next.motif.inconsistency? = none := by
  rcases edit_of_perform performed with ⟨rfl, -⟩ | ⟨motif, rfl, edit⟩
  · exact inconsistency?_eq_none sound.shaped sound.booked
  · exact inconsistency?_eq_none (edit.shaped sound.shaped) (sound.booked_edit edit)

private theorem sound_of_start {headers : List Header} {roles : List ColumnRole}
    {rows : List (List String)} {options : SessionOptions} (fits : TextsFit rows)
    (opened : Session.start headers roles rows options = .ok session) : session.Sound := by
  obtain ⟨-, -, fitting, rfl⟩ := start_eq_ok_iff.mp opened
  refine ⟨fun _ => Entry.isShaped_of_mem_ofRows fitting, ?_, Motif.booked_ofRows roles rows⟩
  intro source inSources
  obtain ⟨entry, member, rfl⟩ := List.mem_map.mp inSources
  obtain ⟨row, isRow, same⟩ := Entry.exists_body_eq_of_mem_ofRows member
  have source_eq : entry.source = row := congrArg Entry.source same
  rw [source_eq]
  exact fits row isRow

theorem Reachable.sound (reachable : session.Reachable) : session.Sound :=
  reachable.invariant sound_of_start
    (fun sound fits edit => ⟨edit.shaped sound.shaped, sound.fits_edit edit fits, sound.booked_edit edit⟩)
    fun _ _ sound => ⟨sound.shaped, sound.fits, sound.booked⟩

end Session

end LogMotif
