import LogMotif.Proofs.Session.Refusals

/-! # Wildcards put over the shown text

A range of the shown text of a cell can be covered by a wildcard when it lies within one text segment.
The marker of the wildcard is then shown in its place, and nothing else is shown differently. Any
other range changes nothing.
-/

namespace LogMotif

namespace Motif

variable {motif : Motif} {index entry cell : Nat} {old : Cell} {range : SegmentRange}
  {record : List Wildcard → Occurrence → Except MotifError (List Wildcard)}

/-- A wildcard that can be put into a cell and entered into the list is put there. -/
private theorem exists_insertWildcard (found : cellAt? motif.entries entry cell = some old)
    {insertion : CellInsertion} (inserted : Cell.Inserted index old range insertion)
    (recorded : ∀ moved occurrence, moved.length = motif.wildcards.length →
      ∃ wildcards, record moved occurrence = .ok wildcards) :
    ∃ wildcards, motif.insertWildcard index ⟨entry, cell, range⟩ record =
      .ok (some { motif.setCell entry cell insertion.cell with wildcards := wildcards }) := by
  obtain ⟨wildcards, isRecorded⟩ := recorded
    (shiftOccurrences motif.wildcards entry cell range.segment insertion.added)
    ⟨entry, cell, insertion.segment⟩ (by rw [shiftOccurrences, List.length_map])
  exact ⟨wildcards, insertWildcard_eq_ok_some_iff.mpr
    ⟨old, insertion, wildcards, found, inserted, isRecorded, rfl⟩⟩

/-- A range of a cell that no wildcard can be put over is passed over. -/
private theorem insertWildcard_eq_ok_none (found : cellAt? motif.entries entry cell = some old)
    (outside : ∀ insertion, ¬ Cell.Inserted index old range insertion) :
    motif.insertWildcard index ⟨entry, cell, range⟩ record = .ok none := by
  have nowhere : old.insert? index range = none := by
    rw [Option.eq_none_iff_forall_ne_some]
    exact fun insertion inserted => outside insertion (Cell.insert?_eq_some_iff.mp inserted)
  unfold insertWildcard
  rw [getCell_eq_ok_iff.mpr found]
  simp [nowhere, bind, Except.bind, pure, Except.pure]

end Motif

namespace Session

/-- The actions that put wildcard number `index` over a range of the shown text of a cell: the next
wildcard is created, and one that exists is used. -/
inductive PutsOver (session : Session) (index entry cell start stop : Nat) : Action → Prop
  | create (next : index = session.motif.wildcards.length) :
      PutsOver session index entry cell start stop (.createWildcardOverText entry cell start stop)
  | use (listed : index < session.motif.wildcards.length) :
      PutsOver session index entry cell start stop
        (.useWildcardOverText index entry cell start stop)

variable {session : Session} {index entry cell start stop : Nat} {action : Action} {old : Cell}

/-- Both actions put the wildcard over the selection, and enter it into a list of any wildcards. -/
private theorem PutsOver.exists_record
    (puts : session.PutsOver index entry cell start stop action) :
    ∃ record, (∀ moved occurrence, moved.length = session.motif.wildcards.length →
        ∃ wildcards, record moved occurrence = .ok wildcards) ∧
      session.perform action = do
        return .updated (← session.editOverText entry cell start stop fun selection =>
          session.motif.insertWildcard index selection record) := by
  cases puts with
  | create next =>
    subst next
    refine ⟨fun wildcards occurrence => .ok (wildcards ++ [.single occurrence]), ?_, ?_⟩
    · exact fun _ _ _ => ⟨_, rfl⟩
    · have created : session.motif.createWildcard = fun selection =>
          session.motif.insertWildcard session.motif.wildcards.length selection
            fun wildcards occurrence => .ok (wildcards ++ [.single occurrence]) := rfl
      rw [← created]
      rfl
  | use listed =>
    refine ⟨fun wildcards occurrence => addOccurrence wildcards index occurrence, ?_, ?_⟩
    · exact fun _ _ same => ⟨_, Motif.addOccurrence_eq_ok_iff.mpr ⟨same ▸ listed, rfl⟩⟩
    · have used : session.motif.useWildcard index = fun selection =>
          session.motif.insertWildcard index selection fun wildcards occurrence =>
            addOccurrence wildcards index occurrence :=
        funext fun _ => if_pos listed
      rw [← used]
      rfl

/-- A wildcard put over a range of the shown text of a cell covers the range, if the range lies within
one text segment. Its marker takes the place of the characters of the range, which its segment stands
for, and all other cells stay. Any other range leaves the session as it is. -/
theorem Reachable.apply_overText (reachable : session.Reachable)
    (found : Motif.cellAt? session.motif.entries entry cell = some old)
    (puts : session.PutsOver index entry cell start stop action) :
    (old.HasTextAt start stop → ∃ next new, session.apply action = .ok (.updated next) ∧
      Motif.cellAt? next.motif.entries entry cell = some new ∧
      old.Overlaid index start stop new ∧
      new.rendered = String.ofList (old.rendered.toList.take start) ++
        ("?" ++ toString (index + 1)) ++ String.ofList (old.rendered.toList.drop stop) ∧
      ∀ i j, ¬ (i = entry ∧ j = cell) →
        Motif.cellAt? next.motif.entries i j = Motif.cellAt? session.motif.entries i j) ∧
    (¬ old.HasTextAt start stop → session.apply action = .ok (.updated session)) := by
  obtain ⟨record, recorded, performed⟩ := puts.exists_record
  have select_eq : session.motif.select entry cell start stop =
      .ok ((old.locate? start stop).map fun range => ⟨entry, cell, range⟩) := by
    rw [Motif.select, Motif.getCell_eq_ok_iff.mpr found]
    rfl
  rw [reachable.sound.apply_eq_perform, performed, editOverText, select_eq]
  constructor
  · intro hasText
    obtain ⟨range, insertion, located, inserted⟩ := (Cell.hasTextAt_iff index).mp hasText
    obtain ⟨wildcards, edited⟩ := Motif.exists_insertWildcard found inserted recorded
    have overlaid := located.overlaid inserted
    let edit : Motif := { session.motif.setCell entry cell insertion.cell with wildcards := wildcards }
    refine ⟨session.withMotif edit, insertion.cell, ?_, ?_, overlaid, overlaid.rendered_eq, ?_⟩
    · rw [Cell.locate?_eq_some_iff.mpr located]
      simp only [Option.map_some, bind, Except.bind, edited]
      rfl
    · simp [edit, withMotif, Motif.cellAt?_setCell, found]
    · intro i j other
      simp [edit, withMotif, Motif.cellAt?_setCell, other]
  · intro noText
    cases here : old.locate? start stop with
    | none => rfl
    | some range =>
      have located := Cell.locate?_eq_some_iff.mp here
      have idle : session.motif.insertWildcard index ⟨entry, cell, range⟩ record = .ok none :=
        Motif.insertWildcard_eq_ok_none found fun insertion inserted =>
          noText ((Cell.hasTextAt_iff index).mpr ⟨range, insertion, located, inserted⟩)
      simp only [Option.map_some, bind, Except.bind, idle]
      rfl

/-- Behind the marker of a wildcard, a character is covered by the same wildcard. A range that begins
within the marker is passed over. -/
theorem apply_overText_behind_marker : ∃ (session : Session) (old : Cell),
    Motif.cellAt? session.motif.entries 0 0 = some old ∧ old.rendered = "?1-ö-é" ∧
      (∃ (next : Session) (new : Cell),
        session.apply (.useWildcardOverText 0 0 0 3 4) = .ok (.updated next) ∧
        Motif.cellAt? next.motif.entries 0 0 = some new ∧ new.rendered = "?1-?1-é") ∧
      session.apply (.createWildcardOverText 0 0 1 4) = .ok (.updated session) := by
  have fits : TextsFit [["ä-ö-é"]] := by
    unfold TextsFit
    decide
  obtain ⟨opened, session, isOpened, isSession, found, listed⟩ : ∃ opened session : Session,
      start [⟨"m", .string⟩] [.content] [["ä-ö-é"]] {} = .ok opened ∧
      opened.apply (.createWildcardOverText 0 0 0 1) = .ok (.updated session) ∧
      Motif.cellAt? session.motif.entries 0 0 = some ⟨[.wildcard 0 "ä", .text "-ö-é"]⟩ ∧
      session.motif.wildcards.length = 1 := ⟨_, _, rfl, rfl, rfl, rfl⟩
  have reachable : session.Reachable := .apply (.start fits isOpened) (by exact trivial) isSession
  have uses : session.PutsOver 0 0 0 3 4 (.useWildcardOverText 0 0 0 3 4) := .use (by omega)
  have creates : session.PutsOver 1 0 0 1 4 (.createWildcardOverText 0 0 1 4) := .create listed.symm
  have hasText : Cell.HasTextAt ⟨[.wildcard 0 "ä", .text "-ö-é"]⟩ 3 4 :=
    ⟨by decide, [.wildcard 0 "ä"], "-ö-é", [], rfl, by decide, by decide⟩
  have noText : ¬ Cell.HasTextAt ⟨[.wildcard 0 "ä", .text "-ö-é"]⟩ 1 4 := by
    rw [Cell.hasTextAt_iff 0]
    rintro ⟨range, insertion, located, -⟩
    cases Cell.locate?_eq_some_iff.mpr located
  obtain ⟨next, new, applied, isNew, -, shown, -⟩ := (reachable.apply_overText found uses).1 hasText
  have passed := (reachable.apply_overText found creates).2 noText
  exact ⟨session, _, found, by decide +kernel,
    ⟨next, new, applied, isNew, shown.trans (by decide +kernel)⟩, passed⟩

end Session

end LogMotif
