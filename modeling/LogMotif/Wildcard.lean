import LogMotif.Error

/-! # Wildcards and their occurrences

A wildcard stands for one unknown text, the same at all of its occurrences. The list of wildcards
names the segments where each occurs; the operations here keep that list in step when segments are
split or joined and when entries disappear. Wildcards are known by their place in the list, so
deleting one renumbers those after it.
-/

namespace LogMotif

/-- A placeholder, known by the segments that hold it. -/
structure Wildcard where
  occurrences : List Occurrence
deriving DecidableEq, Repr

/-- The wildcards left after one occurrence was removed. -/
structure OccurrenceRemoval where
  wildcards : List Wildcard
  /-- Whether the wildcard lost its last occurrence and was deleted. -/
  deleted : Bool
deriving DecidableEq, Repr

/-- The wildcards left after an entry was removed. -/
structure EntryClearance where
  wildcards : List Wildcard
  /-- The former numbers of the deleted wildcards, in ascending order. -/
  deleted : List Nat
deriving DecidableEq, Repr

namespace Occurrence

/-- Whether an occurrence lies in the given cell. -/
def isIn (occurrence : Occurrence) (entry cell : Nat) : Bool :=
  occurrence.entry == entry && occurrence.cell == cell

/-- The occurrence after the segments behind `after` of a cell moved by `delta`. -/
def shiftBehind (entry cell after : Nat) (delta : Int) (occurrence : Occurrence) : Occurrence :=
  if occurrence.isIn entry cell && decide (after < occurrence.segment) then
    { occurrence with segment := Index.shift occurrence.segment delta }
  else occurrence

/-- The occurrence after an entry in front of it may have disappeared. -/
def closeUp (entry : Nat) (occurrence : Occurrence) : Occurrence :=
  if entry < occurrence.entry then { occurrence with entry := occurrence.entry - 1 }
  else occurrence

end Occurrence

namespace Wildcard

/-- A wildcard with a single occurrence. -/
def single (occurrence : Occurrence) : Wildcard := ⟨[occurrence]⟩

/-- The wildcard with each occurrence replaced. -/
def mapOccurrences (change : Occurrence → Occurrence) (wildcard : Wildcard) : Wildcard :=
  ⟨wildcard.occurrences.map change⟩

/-- The wildcard without its occurrences in an entry. -/
def outside (entry : Nat) (wildcard : Wildcard) : Wildcard :=
  ⟨wildcard.occurrences.filter (·.entry != entry)⟩

end Wildcard

/-- Move the occurrences behind segment `after` of a cell by `delta` segments. -/
def shiftOccurrences (wildcards : List Wildcard) (entry cell after : Nat) (delta : Int) :
    List Wildcard :=
  wildcards.map (·.mapOccurrences (Occurrence.shiftBehind entry cell after delta))

/-- Give wildcard number `index` one more occurrence, listed last. -/
def addOccurrence (wildcards : List Wildcard) (index : Nat) (occurrence : Occurrence) :
    Except MotifError (List Wildcard) :=
  if index < wildcards.length then
    .ok (wildcards.modify index fun wildcard => ⟨wildcard.occurrences ++ [occurrence]⟩)
  else .error (.outOfRange .wildcard index wildcards.length)

/-- Take an occurrence from wildcard number `index`, deleting the wildcard with its last one. -/
def removeOccurrence (wildcards : List Wildcard) (index : Nat) (occurrence : Occurrence) :
    Except MotifError OccurrenceRemoval :=
  match wildcards[index]? with
  | none => .error (.outOfRange .wildcard index wildcards.length)
  | some wildcard =>
    if occurrence ∈ wildcard.occurrences then
      let left := wildcard.occurrences.erase occurrence
      if left.isEmpty then .ok ⟨wildcards.eraseIdx index, true⟩
      else .ok ⟨wildcards.set index ⟨left⟩, false⟩
    else .error (.orphanWildcard index occurrence)

/-- Drop every occurrence in an entry that disappears, delete the wildcards that had no other, and
move the occurrences of later entries up. -/
def clearEntry (wildcards : List Wildcard) (entry : Nat) : EntryClearance :=
  let outside := wildcards.map (·.outside entry)
  { wildcards := (outside.filter (!·.occurrences.isEmpty)).map
      (·.mapOccurrences (Occurrence.closeUp entry))
    deleted := (outside.zipIdx.filter (·.1.occurrences.isEmpty)).map (·.2) }

end LogMotif
