import Mathlib.Data.List.Nodup
import LogMotif.Log
import LogMotif.Proofs.Json.Yielding
import LogMotif.Proofs.Outcomes

/-! # The records of a text

Whatever is written in a text of records, a record that is read has each of its keys once, so it has
one value for it: the last one that was written.
-/

namespace LogMotif

namespace Json

namespace Value

variable {α : Type}

private theorem map_fst_setMember (members : List (String × α)) (key : String) (value : α) :
    (setMember members key value).map Prod.fst =
      if key ∈ members.map Prod.fst then members.map Prod.fst
      else members.map Prod.fst ++ [key] := by
  induction members with
  | nil => simp [setMember]
  | cons first members ih =>
    obtain ⟨other, old⟩ := first
    by_cases same : other = key
    · simp [setMember, same]
    · simp only [setMember, if_neg same, List.map_cons, ih, List.mem_cons, Ne.symm same, false_or]
      split <;> simp

/-- Where the last value of a key wins, each key is there once. -/
theorem nodup_lastWins (members : List (String × α)) : ((lastWins members).map Prod.fst).Nodup := by
  suffices folded : ∀ kept : List (String × α), (kept.map Prod.fst).Nodup →
      ((members.foldl (fun kept (key, value) => setMember kept key value) kept).map
        Prod.fst).Nodup from folded [] List.nodup_nil
  induction members with
  | nil => exact fun kept once => once
  | cons member members ih =>
    intro kept once
    refine ih _ ?_
    rw [map_fst_setMember]
    split
    next => exact once
    next new =>
      rw [← List.concat_eq_append]
      exact once.concat new

end Value

end Json

open Json

namespace LogRecord

/-- Whether a record has each of its keys once. -/
def KeysOnce (record : LogRecord) : Prop := (record.map Prod.fst).Nodup

private theorem yields_read (depth : Nat) : (read depth).Yields KeysOnce := by
  refine Read.yields_bind fun c => ?_
  split
  next => exact Read.yields_bind fun members => Read.yields_pure (Value.nodup_lastWins members)
  next => exact Read.yields_unexpected _

private theorem yields_readList : readList.Yields (∀ record ∈ ·, KeysOnce record) := by
  refine Read.yields_bind fun c => ?_
  split
  next =>
    exact ((yields_read _).itemsToEnd true).listOf
  next => exact Read.yields_unexpected _

end LogRecord

namespace Log

open LogRecord (KeysOnce)

/-- The records of a text have each of their keys once. -/
theorem keysOnce_of_recordsOfText {content : String} {records : List LogRecord}
    (isRead : recordsOfText content = .ok records) : ∀ record ∈ records, KeysOnce record := by
  unfold recordsOfText at isRead
  split at isRead
  next => exact LogRecord.yields_readList.run (mapError_eq_ok_iff.mp isRead)
  next =>
    refine forall_mem_of_mapM (fun line record isRecord => ?_) isRead
    exact (LogRecord.yields_read _).run (mapError_eq_ok_iff.mp isRecord)

end Log

end LogMotif
