import LogMotif.Proofs.Motif.Clearing

/-! # Striking out occurrences

Removing an entry and taking a wildcard out of a segment do the same to the list of wildcards: some
occurrences are struck out, wildcards that are left without one go, and the occurrences that stay
move. Two such steps come to one step, which strikes out what either of them does.
-/

namespace LogMotif

/-- The wildcard with its occurrences that have a property. -/
def Wildcard.keeping (keep : Occurrence → Bool) (wildcard : Wildcard) : Wildcard :=
  ⟨wildcard.occurrences.filter keep⟩

/-- What is left of wildcards when the occurrences with a property stay, and move, and the others
go. -/
def thinOut (keep : Occurrence → Bool) (move : Occurrence → Occurrence)
    (wildcards : List Wildcard) : EntryClearance :=
  let left := wildcards.map (·.keeping keep)
  { wildcards := (left.filter (!·.occurrences.isEmpty)).map (·.mapOccurrences move)
    deleted := (left.zipIdx.filter (·.1.occurrences.isEmpty)).map (·.2) }

theorem clearEntry_eq_thinOut (wildcards : List Wildcard) (entry : Nat) :
    clearEntry wildcards entry = thinOut (·.entry != entry) (Occurrence.closeUp entry) wildcards :=
  rfl

theorem Wildcard.isEmpty_keeping (keep : Occurrence → Bool) (wildcard : Wildcard) :
    (wildcard.keeping keep).occurrences.isEmpty = !wildcard.occurrences.any keep := by
  rw [Bool.eq_iff_iff]
  simp [Wildcard.keeping]

/-- What was kept in front of a place is in front of as many. -/
private theorem take_countP_filter {α : Type} (keep : α → Bool) (list : List α) (i : Nat) :
    (list.filter keep).take ((list.take i).countP keep) = (list.take i).filter keep := by
  conv_lhs => rw [← List.take_append_drop i list, List.filter_append]
  rw [List.take_append_drop]
  exact List.take_left' List.countP_eq_length_filter.symm

namespace Motif

variable {motif : Motif} {wildcards : List Wildcard}

/-! ### Two steps in one -/

/-- Whether an occurrence stays in one step, and then, where it has moved to, in another. -/
def staysTwice (keep : Occurrence → Bool) (move : Occurrence → Occurrence)
    (later : Occurrence → Bool) (occurrence : Occurrence) : Bool :=
  keep occurrence && later (move occurrence)

section

variable (keep later : Occurrence → Bool) (move shift : Occurrence → Occurrence)

theorem wildcards_thinOut (wildcards : List Wildcard) :
    (thinOut keep move wildcards).wildcards =
      (wildcards.filter (·.occurrences.any keep)).map
        fun wildcard => (wildcard.keeping keep).mapOccurrences move := by
  simp [thinOut, List.filter_map, Function.comp_def, Wildcard.isEmpty_keeping]

/-- Wildcards close up by the number of those in front of them that go. -/
theorem closedUp_thinOut {index : Nat} (inside : index ≤ wildcards.length) :
    closedUp (thinOut keep move wildcards).deleted index =
      (wildcards.take index).countP (·.occurrences.any keep) := by
  have dropped := @closedUp_dropped _ (!·.occurrences.isEmpty) (wildcards.map (·.keeping keep)) index
    (by rwa [List.length_map])
  simp only [Bool.not_not] at dropped
  rw [thinOut, dropped, ← List.map_take, List.countP_map]
  simp [Function.comp_def, Wildcard.isEmpty_keeping]

/-- A wildcard is left in the second step if some occurrence of it stays in both. -/
private theorem any_and_any_eq_any_staysTwice (wildcard : Wildcard) :
    (((wildcard.keeping keep).mapOccurrences move).occurrences.any later &&
        wildcard.occurrences.any keep) =
      wildcard.occurrences.any (staysTwice keep move later) := by
  have twice : ((wildcard.keeping keep).mapOccurrences move).occurrences.any later =
      wildcard.occurrences.any (staysTwice keep move later) := by
    rw [Wildcard.keeping, Wildcard.mapOccurrences, List.any_map, List.any_filter]
    rfl
  rw [twice, Bool.and_eq_left_iff_imp]
  simp only [List.any_eq_true, staysTwice, Bool.and_eq_true]
  rintro ⟨occurrence, member, stays, -⟩
  exact ⟨occurrence, member, stays⟩

private theorem keeping_mapOccurrences_keeping (wildcard : Wildcard) :
    (((wildcard.keeping keep).mapOccurrences move).keeping later).mapOccurrences shift =
      (wildcard.keeping (staysTwice keep move later)).mapOccurrences (shift ∘ move) := by
  simp only [Wildcard.keeping, Wildcard.mapOccurrences, List.filter_map, List.filter_filter,
    List.map_map]
  exact congrArg _ (congrArg _ (List.filter_congr fun _ _ => Bool.and_comm _ _))

/-- The wildcards that two steps leave are those that one step leaves. -/
theorem wildcards_thinOut_thinOut (wildcards : List Wildcard) :
    (thinOut later shift (thinOut keep move wildcards).wildcards).wildcards =
      (thinOut (staysTwice keep move later) (shift ∘ move) wildcards).wildcards := by
  simp only [wildcards_thinOut, List.filter_map, List.map_map, List.filter_filter, Function.comp_def,
    any_and_any_eq_any_staysTwice, keeping_mapOccurrences_keeping]

/-- A wildcard that closes up twice gets the number that it gets when all that go, go at once. -/
private theorem closedUp_thinOut_thinOut {index : Nat} (inside : index ≤ wildcards.length) :
    closedUp (thinOut later shift (thinOut keep move wildcards).wildcards).deleted
        (closedUp (thinOut keep move wildcards).deleted index) =
      closedUp (thinOut (staysTwice keep move later) (shift ∘ move) wildcards).deleted index := by
  have bound : (wildcards.take index).countP (·.occurrences.any keep) ≤
      (thinOut keep move wildcards).wildcards.length := by
    rw [wildcards_thinOut, List.length_map, ← List.countP_eq_length_filter]
    exact (List.take_sublist _ _).countP_le
  rw [closedUp_thinOut keep move inside, closedUp_thinOut _ _ bound, closedUp_thinOut _ _ inside,
    wildcards_thinOut, ← List.map_take, take_countP_filter, List.countP_map, List.countP_filter]
  simp only [Function.comp_def, any_and_any_eq_any_staysTwice]

/-- Entries that are renumbered after each of two steps are renumbered as if the steps were one. -/
theorem renumber_thinOut_thinOut {entries : List Entry} (known : ∀ occurrence index,
      wildcardAt? entries occurrence = some index → index < wildcards.length) :
    renumber (renumber entries (thinOut keep move wildcards).deleted)
        (thinOut later shift (thinOut keep move wildcards).wildcards).deleted =
      renumber entries (thinOut (staysTwice keep move later) (shift ∘ move) wildcards).deleted :=
  renumber_renumber_eq fun occurrence index here =>
    closedUp_thinOut_thinOut _ _ _ _ (Nat.le_of_lt (known occurrence index here))

end

/-! ### One occurrence less -/

/-- Leaving an occurrence out everywhere takes it from the one wildcard that lists it. -/
private theorem Booked.map_keeping_ne (booked : motif.Booked) {index : Nat} {wildcard : Wildcard}
    {struck : Occurrence} (here : motif.wildcards[index]? = some wildcard)
    (member : struck ∈ wildcard.occurrences) :
    motif.wildcards.map (·.keeping (· != struck)) =
      motif.wildcards.set index ⟨wildcard.occurrences.erase struck⟩ := by
  have nodup := (booked.tidy wildcard (List.mem_of_getElem? here)).nodup
  have inside := (List.getElem?_eq_some_iff.mp here).1
  have listed : isListed motif.wildcards index struck := isListed_iff.mpr ⟨wildcard, here, member⟩
  refine List.ext_getElem? fun place => ?_
  rw [List.getElem?_map, List.getElem?_set, if_pos inside]
  split
  next same =>
    subst same
    rw [here, Option.map_some, Wildcard.keeping, nodup.erase_eq_filter]
  next other =>
    cases there : motif.wildcards[place]? with
    | none => rfl
    | some found =>
      have kept : ∀ occurrence ∈ found.occurrences, occurrence != struck := by
        intro occurrence inFound
        rw [bne_iff_ne]
        rintro rfl
        exact other (booked.unique (isListed_iff.mpr ⟨found, there, inFound⟩) listed)
      rw [Option.map_some, Wildcard.keeping, List.filter_eq_self.mpr kept]

private theorem map_snd_filter_zipIdx_eq_nil {α : Type} {bad : α → Bool} {list : List α}
    (good : ∀ item ∈ list, bad item = false) (start : Nat) :
    ((list.zipIdx start).filter (bad ·.1)).map (·.2) = [] := by
  rw [List.map_eq_nil_iff, List.filter_eq_nil_iff]
  rintro ⟨item, i⟩ member
  simp [good item (List.fst_mem_of_mem_zipIdx member)]

/-- The only bad item of a list is found at its place. -/
private theorem map_snd_filter_zipIdx_eq_singleton {α : Type} {bad : α → Bool} {front back : List α}
    {item : α} (good : ∀ other ∈ front ++ back, bad other = false) (isBad : bad item) :
    ((front ++ item :: back).zipIdx.filter (bad ·.1)).map (·.2) = [front.length] := by
  rw [List.zipIdx_append, List.zipIdx_cons, List.filter_append, List.filter_cons, if_pos isBad,
    List.map_append, List.map_cons,
    map_snd_filter_zipIdx_eq_nil fun other inFront => good other (List.mem_append_left _ inFront),
    map_snd_filter_zipIdx_eq_nil fun other inBack => good other (List.mem_append_right _ inBack)]
  simp

/-- Striking out one occurrence is a step of this kind, where no occurrence is listed twice. -/
theorem Booked.thinOut_ne (booked : motif.Booked) {index : Nat} {struck : Occurrence}
    {update : OccurrenceRemoval}
    (removed : removeOccurrence motif.wildcards index struck = .ok update)
    (move : Occurrence → Occurrence) :
    thinOut (· != struck) move motif.wildcards =
      ⟨update.wildcards.map (·.mapOccurrences move), if update.deleted then [index] else []⟩ := by
  obtain ⟨wildcard, here, member, rfl⟩ := removeOccurrence_eq_ok_iff.mp removed
  have filled : ∀ other ∈ motif.wildcards, other.occurrences.isEmpty = false := by
    intro other inList
    simpa using (booked.tidy other inList).occurs
  simp only [thinOut, booked.map_keeping_ne here member]
  split
  next last =>
    obtain ⟨front, back, isList, rfl⟩ := Cell.exists_append_cons here
    rw [isList] at filled ⊢
    have stay : ∀ other ∈ front ++ back, other.occurrences.isEmpty = false := fun other inList =>
      filled other (List.mem_append.mpr ((List.mem_append.mp inList).imp_right
        (List.mem_cons_of_mem wildcard)))
    have replaced : (front ++ wildcard :: back).set front.length ⟨[]⟩ = front ++ ⟨[]⟩ :: back := by
      simp
    have erased : (front ++ wildcard :: back).eraseIdx front.length = front ++ back := by
      simp [List.eraseIdx_append_of_length_le]
    rw [last, replaced, erased, map_snd_filter_zipIdx_eq_singleton stay rfl]
    have whole : (front ++ ⟨[]⟩ :: back).filter (!·.occurrences.isEmpty) = front ++ back := by
      rw [List.filter_append, List.filter_cons, if_neg (by simp), ← List.filter_append]
      exact List.filter_eq_self.mpr fun other inList => by simp [stay other inList]
    rw [whole]
    rfl
  next remaining =>
    have stay : ∀ other ∈ motif.wildcards.set index ⟨wildcard.occurrences.erase struck⟩,
        other.occurrences.isEmpty = false := by
      intro other inList
      rcases List.mem_or_eq_of_mem_set inList with old | rfl
      · exact filled other old
      · simpa using remaining
    rw [List.filter_eq_self.mpr fun other inList => by simp [stay other inList],
      map_snd_filter_zipIdx_eq_nil stay]
    rfl

end Motif

end LogMotif
