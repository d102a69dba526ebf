import LogMotif.Json.Decode
import LogMotif.Proofs.Json.Yielding
import LogMotif.Proofs.Outcomes

/-! # Numbers that fit a word

Digits that do not fit a word are counted, not kept, so an integer that is read fits a word, however
many digits it was written with. What is taken out of a value that was read fits a word as well: the
numbers of a record stay within a bound that holds of every value it is made of.
-/

namespace LogMotif.Json

/-- Whether a number is no integer above the greatest one that fits a word. -/
def Number.InWord : Number → Prop
  | .integer value => value ≤ Read.greatestSignificand
  | .float _ => True

/-- Whether the numbers in a value fit a word. -/
inductive Value.InWords : Value → Prop
  | null : InWords .null
  | bool (value : Bool) : InWords (.bool value)
  | number {value : Number} (fits : value.InWord) : InWords (.number value)
  | string (value : String) : InWords (.string value)
  | array {items : List Value} (each : ∀ item ∈ items, InWords item) : InWords (.array items)
  | object {members : List (String × Value)} (each : ∀ member ∈ members, InWords member.2) :
      InWords (.object members)

namespace Read

/-! ### Numbers -/

private theorem appendDigits_le {limit value : Nat} (le : value ≤ limit) (digits : List Nat) :
    (appendDigits limit value digits).1 ≤ limit := by
  induction digits generalizing value with
  | nil => exact le
  | cons digit digits ih =>
    rw [appendDigits]
    split
    next here => exact ih here
    next => exact le

private theorem yields_scaled (rigor : Rigor) (negative : Bool) (significand : Nat) (power : Int) :
    (scaled rigor negative significand power).Yields Number.InWord := by
  unfold scaled
  split
  next => exact yields_pure trivial
  next =>
    split
    next => exact yields_pure trivial
    next => exact yields_failHere _

/-- A number with an exponent is no integer. -/
private theorem yields_exponent (rigor : Rigor) (negative : Bool) (significand : Nat)
    (power : Int) :
    (exponent rigor negative significand power).Yields Number.InWord := by
  refine yields_bind fun sign => yields_ite_bind (yields_bind fun c? => ?_)
  cases c? with
  | none => exact yields_failHere _
  | some c =>
    refine yields_ite_bind (yields_bind fun start => yields_bind fun taken => ?_)
    dsimp only
    split
    next => exact yields_scaled _ _ _ _
    next =>
      split
      next => exact fun _ _ _ read => nomatch read
      next => exact yields_pure trivial

private theorem yields_decimals (rigor : Rigor) (negative : Bool) (significand : Nat)
    (power : Int) :
    (decimals rigor negative significand power).Yields Number.InWord := by
  refine yields_bind fun c? => ?_
  cases c? with
  | none => exact yields_failHere _
  | some c =>
    refine yields_ite_bind (yields_bind fun taken => yields_bind fun c? => ?_)
    split
    next => exact yields_bind fun _ => yields_exponent _ _ _ _
    next => exact yields_bind fun _ => yields_exponent _ _ _ _
    next => exact yields_scaled _ _ _ _

private theorem inWord_whole (negative : Bool) {significand : Nat}
    (le : significand ≤ greatestSignificand) :
    (whole negative significand).InWord := by
  have positive : (significand : Int) ≤ greatestSignificand := Int.ofNat_le.mpr le
  unfold whole
  split
  next =>
    split
    next => trivial
    next => exact Int.le_trans (by omega) positive
  next => exact positive

private theorem yields_numberRest (rigor : Rigor) (negative : Bool) {significand : Nat}
    (le : significand ≤ greatestSignificand) (dropped : Nat) :
    (numberRest rigor negative significand dropped).Yields Number.InWord := by
  refine yields_bind fun c? => ?_
  split
  next => exact yields_bind fun _ => yields_decimals _ _ _ _
  next => exact yields_bind fun _ => yields_exponent _ _ _ _
  next => exact yields_bind fun _ => yields_exponent _ _ _ _
  next =>
    split
    next => exact yields_pure (inWord_whole negative le)
    next => exact yields_scaled _ _ _ _

private theorem yields_number (rigor : Rigor) (negative : Bool) :
    (number rigor negative).Yields Number.InWord := by
  refine yields_bind fun c? => ?_
  split
  next => exact yields_failHere _
  next =>
    refine yields_bind fun _ => yields_bind fun next? => yields_ite_bind ?_
    exact yields_numberRest rigor negative (Nat.zero_le _) 0
  next =>
    refine yields_ite_bind (yields_bind fun taken => ?_)
    exact yields_numberRest rigor negative (appendDigits_le (Nat.zero_le _) taken) _

/-! ### Values -/

private theorem yields_scalar (rigor : Rigor) : (scalar rigor).Yields Value.InWords := by
  have number (negative : Bool) : (number rigor negative >>= fun found =>
      pure (Value.number found)).Yields Value.InWords :=
    (yields_number rigor negative).bind fun _ fits => yields_pure (.number fits)
  refine yields_bind fun c? => ?_
  split
  next => exact yields_failAhead _
  next => exact yields_bind fun _ => yields_bind fun _ => yields_pure .null
  next => exact yields_bind fun _ => yields_bind fun _ => yields_pure (.bool true)
  next => exact yields_bind fun _ => yields_bind fun _ => yields_pure (.bool false)
  next => exact yields_bind fun _ => yields_bind fun text => yields_pure (.string text)
  next => exact yields_bind fun _ => number true
  next =>
    split
    next => exact number false
    next => exact yields_failAhead _

private theorem yields_valueWith (rigor : Rigor) {inner? : Option (Read Value)}
    (each : ∀ inner ∈ inner?, inner.Yields Value.InWords) :
    (valueWith rigor inner?).Yields Value.InWords := by
  refine yields_bind fun _ => yields_bind fun c? => ?_
  split
  next => exact yields_failAhead _
  next => exact yields_failAhead _
  next inner =>
    exact ((each inner rfl).itemsToEnd true).listOf.bind fun _ all => yields_pure (.array all)
  next inner =>
    exact ((each inner rfl).membersWith rigor).objectOf.bind fun _ all =>
      yields_pure (.object all)
  next => exact yields_scalar rigor

/-- The numbers in a value that is read fit a word. -/
theorem yields_value (rigor : Rigor) (depth : Nat) : (value rigor depth).Yields Value.InWords := by
  induction depth with
  | zero => exact yields_valueWith rigor nofun
  | succ depth ih => exact yields_valueWith rigor (by rintro _ ⟨⟩; exact ih)

end Read

/-! ### What is taken out of values -/

theorem Value.le_of_toNat {value : Value} (inWords : value.InWords) {n : Nat}
    (isNumber : value.toNat = .ok n) : n ≤ Read.greatestSignificand := by
  cases inWords with
  | @number value fits =>
    cases value with
    | integer value =>
      rw [toNat] at isNumber
      split at isNumber
      next =>
        obtain rfl := Except.ok.inj isNumber
        exact Int.toNat_le.mpr fits
      next => cases isNumber
    | float => cases isNumber
  | null | bool | string | array | object => cases isNumber

namespace RecordShape

variable {σ : Type} {shape : RecordShape σ}

/-- What each field keeps up is kept up by the fields of a whole record, in either form. -/
theorem keeps_of_read (keeps : σ → Prop)
    (each : ∀ state field value next, keeps state → value.InWords →
      shape.put state field value = .ok next → keeps next)
    {initial : σ} (start : keeps initial) {value : Value} (inWords : value.InWords) {state : σ}
    {form : RecordForm} (isRead : shape.read initial value = .ok (state, form)) : keeps state := by
  cases inWords with
  | @array items all =>
    obtain ⟨last, folded, same⟩ := bind_eq_ok_iff.mp isRead
    obtain ⟨rfl, -⟩ := Prod.mk.inj (Except.ok.inj same)
    refine keeps_of_foldlM keeps (fun item member state next here put => ?_) start folded
    exact each state _ _ next here (all _ (List.of_mem_zip member).2) put
  | @object members all =>
    obtain ⟨⟨state, seen⟩, folded, same⟩ := map_eq_ok_iff.mp isRead
    obtain ⟨rfl, -⟩ := Prod.mk.inj same
    refine keeps_of_foldlM (fun read => keeps read.1) ?_ start folded
    rintro ⟨key, value⟩ inMembers ⟨state, seen⟩ after here put
    simp only [putMember] at put
    split at put
    next =>
      split at put
      next => cases put
      next =>
        obtain ⟨changed, entered, rfl⟩ := map_eq_ok_iff.mp put
        exact each state key value changed here (all _ inMembers) entered
    next =>
      obtain rfl := Except.ok.inj put
      exact here
  | null | bool | number | string => cases isRead

/-- A field that is required is the one that was there. -/
theorem eq_some_of_require {α : Type} {form : RecordForm} {name : String} {value? : Option α}
    {value : α} (isThere : shape.require form name value? = .ok value) : value? = some value := by
  cases value? with
  | some => rw [Except.ok.inj isThere]
  | none => cases form <;> cases isThere

end RecordShape

theorem mem_of_lookup {α : Type} {members : List (String × α)} {key : String} {value : α}
    (found : members.lookup key = some value) : (key, value) ∈ members := by
  obtain ⟨front, back, rfl, -⟩ := List.lookup_eq_some_iff.mp found
  exact List.mem_append_right front List.mem_cons_self

theorem forall_le_of_toNats {name : String} {fields : List String} {value : Value}
    (inWords : value.InWords) {numbers : List Nat}
    (areNumbers : toNats name fields value = .ok numbers) :
    ∀ n ∈ numbers, n ≤ Read.greatestSignificand := by
  unfold toNats at areNumbers
  obtain ⟨⟨read, form⟩, isRead, areNumbers⟩ := bind_eq_ok_iff.mp areNumbers
  obtain ⟨found, required, areNumbers⟩ := bind_eq_ok_iff.mp areNumbers
  obtain ⟨-, -, same⟩ := bind_eq_ok_iff.mp areNumbers
  obtain rfl := Except.ok.inj same
  have all : ∀ pair ∈ read, pair.2 ≤ Read.greatestSignificand := by
    refine RecordShape.keeps_of_read (∀ pair ∈ ·, pair.2 ≤ Read.greatestSignificand) ?_
      (List.forall_mem_nil _) inWords isRead
    intro state field value next here inWords put
    obtain ⟨n, isNumber, same⟩ := bind_eq_ok_iff.mp put
    obtain rfl := Except.ok.inj same
    exact List.forall_mem_cons.mpr ⟨Value.le_of_toNat inWords isNumber, here⟩
  refine forall_mem_of_mapM (fun field n isThere => ?_) required
  exact all (field, n) (mem_of_lookup (RecordShape.eq_some_of_require isThere))

end LogMotif.Json
