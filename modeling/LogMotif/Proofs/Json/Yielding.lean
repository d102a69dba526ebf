import LogMotif.Json.Reader
import LogMotif.Proofs.Json.Reading

/-! # What readers can give

Whatever the text is, what a reader gives has a property, if each part of the reader gives what has
it or keeps it up. A reader that only stops gives nothing.
-/

namespace LogMotif.Json.Read

variable {α β : Type} {holds : α → Prop} {holdsNext : β → Prop}

/-- Whether all values that a reader can give have a property. -/
def Yields (read : Read α) (holds : α → Prop) : Prop :=
  ∀ source value left, read source = .ok (value, left) → holds value

theorem yields_pure {value : α} (here : holds value) : (pure value : Read α).Yields holds := by
  rintro _ _ _ read
  obtain rfl := (Prod.mk.inj (Except.ok.inj read)).1
  exact here

/-- What a reader gives behind another one, which gives what has a property of its own. -/
theorem Yields.bind {first : Read α} {next : α → Read β} (one : first.Yields holds)
    (other : ∀ value, holds value → (next value).Yields holdsNext) :
    (first >>= next).Yields holdsNext := by
  intro source result left read
  obtain ⟨value, middle, taken, read⟩ := bind_eq_ok_iff.mp read
  exact other value (one source value middle taken) middle result left read

theorem yields_bind {first : Read α} {next : α → Read β}
    (each : ∀ value, (next value).Yields holdsNext) : (first >>= next).Yields holdsNext := by
  have any : first.Yields fun _ => True := fun _ _ _ _ => trivial
  exact any.bind fun value _ => each value

/-- What is read behind a check is not affected by it. -/
theorem yields_ite_bind {condition : Prop} [Decidable condition] {check : Read Unit}
    {next : Unit → Read α} (behind : (next ()).Yields holds) :
    (if condition then check >>= next else next ()).Yields holds := by
  split
  next => exact yields_bind fun _ => behind
  next => exact behind

theorem Yields.run {read : Read α} (yields : read.Yields holds) {text : String} {value : α}
    (isRead : read.run text = .ok value) : holds value := by
  obtain ⟨left, taken, -⟩ := run_eq_ok_iff.mp isRead
  exact yields _ value left taken

/-! ### Readers that stop -/

theorem yields_failHere (reason : Reason) : (failHere reason : Read α).Yields holds :=
  fun _ _ _ read => nomatch read

theorem yields_failAhead (reason : Reason) : (failAhead reason : Read α).Yields holds :=
  fun _ _ _ read => nomatch read

theorem yields_mismatched (detail : Mismatch) : (mismatched detail : Read α).Yields holds :=
  fun _ _ _ read => nomatch read

/-- A value that is not of the expected shape is not given. -/
theorem yields_unexpected (expected : String) : (unexpected expected : Read α).Yields holds := by
  refine yields_bind fun c => ?_
  split
  next => exact yields_failHere _
  next => exact yields_failHere _
  next => exact yields_bind fun found => yields_failHere _

theorem unexpected_ne_ok (expected : String) (source : Source) (result : α × Source) :
    unexpected expected source ≠ .ok result := by
  have nothing : (unexpected expected : Read α).Yields fun _ => False := yields_unexpected expected
  exact nothing source result.1 result.2

/-! ### Brackets -/

theorem Yields.locatedBy {read : Read α} (yields : read.Yields holds) (close : Source → Source) :
    (locatedBy close read).Yields holds := by
  intro source value left located
  exact yields source value left (locatedBy_eq_ok located)

theorem Yields.enclosed {body : Read α} (yields : body.Yields holds) (close : Source → Source) :
    (enclosed close body).Yields holds :=
  yields_bind fun _ => (yields.locatedBy close).bind fun _ here =>
    yields_bind fun _ => yields_bind fun _ => yields_pure here

theorem Yields.listOf {body : Read α} (yields : body.Yields holds) : (listOf body).Yields holds :=
  yields.enclosed Source.closeList

theorem Yields.objectOf {body : Read α} (yields : body.Yields holds) :
    (objectOf body).Yields holds := yields.enclosed Source.closeObject

/-- What holds of every item that can be read, holds of the items of a list. -/
theorem Yields.items {item : Read α} (each : item.Yields holds) (rounds : List Char)
    (isFirst : Bool) : (items item rounds isFirst).Yields (∀ value ∈ ·, holds value) := by
  induction rounds generalizing isFirst with
  | nil => exact yields_failAhead _
  | cons _ rounds ih =>
    refine yields_bind fun more => ?_
    cases more with
    | false => exact yields_pure (List.forall_mem_nil _)
    | true =>
      exact each.bind fun first here => (ih false).bind fun others behind =>
        yields_pure (List.forall_mem_cons.mpr ⟨here, behind⟩)

theorem Yields.itemsToEnd {item : Read α} (each : item.Yields holds) (isFirst : Bool) :
    (itemsToEnd item isFirst).Yields (∀ value ∈ ·, holds value) :=
  fun source => each.items source.rest isFirst source

section

variable {σ : Type} {member : σ → String → Read σ} (keeps : σ → Prop)

/-- What each member keeps up is kept up by the members of an object. -/
private theorem yields_members (rigor : Rigor)
    (each : ∀ state key, keeps state → (member state key).Yields keeps) (rounds : List Char)
    (isFirst : Bool) {state : σ} (start : keeps state) :
    (members rigor member rounds isFirst state).Yields keeps := by
  induction rounds generalizing isFirst state with
  | nil => exact yields_failAhead _
  | cons _ rounds ih =>
    refine yields_bind fun key? => ?_
    cases key? with
    | none => exact yields_pure start
    | some key => exact (each state key start).bind fun next here => ih false here

theorem yields_membersToEnd (rigor : Rigor)
    (each : ∀ state key, keeps state → (member state key).Yields keeps) {state : σ}
    (start : keeps state) : (membersToEnd rigor member state).Yields keeps :=
  fun source => yields_members keeps rigor each source.rest true start source

end

theorem Yields.membersWith {value : Read α} (each : value.Yields holds) (rigor : Rigor) :
    (membersWith rigor value).Yields (∀ member ∈ ·, holds member.2) := by
  refine Yields.bind (yields_membersToEnd (∀ member ∈ ·, holds member.2) rigor
    (fun read key behind => ?_) (List.forall_mem_nil _)) fun reversed all => yields_pure ?_
  · exact yields_bind fun _ => each.bind fun _ here =>
      yields_pure (List.forall_mem_cons.mpr ⟨here, behind⟩)
  · exact fun member inMembers => all member (List.mem_reverse.mp inMembers)

end LogMotif.Json.Read
