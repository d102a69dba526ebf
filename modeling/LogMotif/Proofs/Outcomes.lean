import Mathlib.Data.List.Forall2

/-! # Steps that may fail

A computation that takes several steps ends with the error of the first one that fails, and succeeds
when all of them do. Each way of putting steps together is told by what the steps give.
-/

namespace LogMotif

variable {ε α β : Type}

section

variable {first : Except ε α}

theorem bind_eq_ok_iff {next : α → Except ε β} {result : β} :
    first >>= next = .ok result ↔ ∃ value, first = .ok value ∧ next value = .ok result := by
  cases first <;> simp [bind, Except.bind]

theorem bind_eq_error_iff {next : α → Except ε β} {error : ε} :
    first >>= next = .error error ↔
      first = .error error ∨ ∃ value, first = .ok value ∧ next value = .error error := by
  cases first <;> simp [bind, Except.bind]

theorem bind_pure_eq_error_iff {make : α → β} {error : ε} :
    (first >>= fun value => pure (make value)) = .error error ↔ first = .error error := by
  cases first <;> simp [bind, Except.bind, pure, Except.pure]

theorem map_eq_ok_iff {make : α → β} {result : β} :
    first.map make = .ok result ↔ ∃ value, first = .ok value ∧ make value = result := by
  cases first <;> simp [Except.map]

theorem mapError_eq_ok_iff {δ : Type} {change : ε → δ} {value : α} :
    first.mapError change = .ok value ↔ first = .ok value := by
  cases first <;> simp [Except.mapError]

end

/-! ### Lists -/

/-- When a list is worked through without an error, and with which results. -/
theorem mapM_eq_ok_iff {f : α → Except ε β} {list : List α} {results : List β} :
    list.mapM f = .ok results ↔ List.Forall₂ (fun item result => f item = .ok result) list results := by
  induction list generalizing results with
  | nil => simp [pure, Except.pure, eq_comm]
  | cons first list ih =>
    rw [List.mapM_cons, List.forall₂_cons_left_iff]
    cases taken : f first with
    | error => simp [bind, Except.bind]
    | ok value =>
      cases rest : list.mapM f with
      | error => simp [bind, Except.bind, ← ih, rest]
      | ok values => simp [bind, Except.bind, pure, Except.pure, ← ih, rest, eq_comm]

/-- What holds of every result that an item can have, holds of the results of a list. -/
theorem forall_mem_of_mapM {f : α → Except ε β} {holds : β → Prop}
    (each : ∀ item result, f item = .ok result → holds result) {list : List α} {results : List β}
    (done : list.mapM f = .ok results) : ∀ result ∈ results, holds result := by
  have both := (mapM_eq_ok_iff.mp done).flip.imp fun result item isResult =>
    And.intro (each item result isResult) isResult
  exact ((List.forall₂_and_left _ _).mp both).1

/-- Items that are found again one by one are found again in a list. -/
theorem mapM_map_eq_ok {write : α → β} {read : β → Except ε α}
    (each : ∀ item, read (write item) = .ok item) (items : List α) :
    (items.map write).mapM read = .ok items :=
  mapM_eq_ok_iff.mpr (List.forall₂_map_left_iff.mpr (List.forall₂_same.mpr fun item _ => each item))

/-- What each step keeps up is kept up by all of them. -/
theorem keeps_of_foldlM {σ : Type} (keeps : σ → Prop) {step : σ → α → Except ε σ} {items : List α}
    (each : ∀ item ∈ items, ∀ state next, keeps state → step state item = .ok next → keeps next)
    {state result : σ} (start : keeps state) (done : items.foldlM step state = .ok result) :
    keeps result := by
  induction items generalizing state with
  | nil =>
    obtain rfl := Except.ok.inj done
    exact start
  | cons item items ih =>
    obtain ⟨here, each⟩ := List.forall_mem_cons.mp each
    rw [List.foldlM_cons] at done
    obtain ⟨next, stepped, done⟩ := bind_eq_ok_iff.mp done
    exact ih each (here state next start stepped) done

end LogMotif
