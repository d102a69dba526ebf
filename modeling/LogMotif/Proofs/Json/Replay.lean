import LogMotif.Proofs.Json.Nesting
import LogMotif.Proofs.Json.Reading

/-! # Reading the same text again

What a reader takes of a text depends on that text and on the next character only, not on what
stands further behind; and a limit on the depth makes no difference as long as it is not exceeded.
So a reader that has taken a text takes it again, with the same value, wherever the text stands and
under any limit that is not below its depth. This is shown reader by reader, and for the ways in
which they are put together.
-/

namespace LogMotif.Json

namespace Read

/-- What is known in front of a character: where a scan of the text stands, and what the character
may be. -/
structure Edge where
  mode : ScanMode
  next : Option Char → Prop

/-- Nothing is known of the next character. -/
def Edge.any (mode : ScanMode) : Edge := ⟨mode, fun _ => True⟩

/-- The next character is known. -/
def Edge.at (mode : ScanMode) (c? : Option Char) : Edge := ⟨mode, (· = c?)⟩

/-- How a text has been taken, with something left behind it: at which depth, and that it is taken
again under any limit that this depth does not exceed, before any text that begins alike. -/
structure Replay {α : Type} (read : Nat → Read α) (enter leave : ScanMode) (text left : List Char)
    (value : α) (depth : Nat) : Prop where
  opens : Opens enter leave depth text
  takes : ∀ limit, depth ≤ limit → ∀ rest : List Char, rest.head? = left.head? →
    (read limit).Takes text rest value

/-- Whether whatever a reader takes under some limit is taken again. The reader is given for every
limit; `leave` tells how a scan stands behind a value and what is next there, and a `firm` reader
never takes an empty text. -/
def Replays {α : Type} (limit : Nat) (enter : Edge) (read : Nat → Read α) (leave : α → Edge)
    (firm : Bool) : Prop :=
  ∀ source value left, enter.next source.rest.head? → read limit source = .ok (value, left) →
    (leave value).next left.rest.head? ∧ ∃ text depth, source.rest = text ++ left.rest ∧
      (firm → text ≠ []) ∧ depth ≤ limit ∧
        Replay read enter.mode (leave value).mode text left.rest value depth

variable {α β : Type} {limit : Nat} {enter : Edge} {firm : Bool}

theorem Replays.congr {read other : Nat → Read α} {leave : α → Edge}
    (replays : Replays limit enter read leave firm) (same : ∀ limit, other limit = read limit) :
    Replays limit enter other leave firm := by
  rwa [funext same]

/-! ### Ways to put readers together -/

theorem replays_of_fails {read : Nat → Read α} {leave : α → Edge}
    (fails : ∀ source result, read limit source ≠ .ok result) :
    Replays limit enter read leave firm :=
  fun source value left _ taken => (fails source (value, left) taken).elim

theorem replays_pure {value : α} {leave : α → Edge} (mode : (leave value).mode = enter.mode)
    (next : ∀ c?, enter.next c? → (leave value).next c?) :
    Replays limit enter (fun _ => pure value) leave false := by
  rintro source _ _ ahead taken
  cases taken
  refine ⟨next _ ahead, [], 0, rfl, by simp, Nat.zero_le _, ?_,
    fun _ _ rest _ => takes_pure value rest⟩
  rw [mode]
  exact opens_nil _

/-- What has been taken with something behind it is taken again with the same behind it. -/
theorem Replay.takes_bind {read : Nat → Read α} {next : α → Read β} {enter leave : ScanMode}
    {text back rest left : List Char} {value : α} {result : β} {depth other : Nat}
    (replay : Replay read enter leave text (back ++ left) value depth) (enough : depth ≤ other)
    (begins : rest.head? = left.head?) (takes : (next value).Takes back rest result) :
    (read other >>= next).Takes (text ++ back) rest result := by
  refine (replay.takes other enough (back ++ rest) ?_).bind takes
  rw [List.head?_append, List.head?_append, begins]

/-- A reader behind another one. Both together take something if one of them does. -/
theorem Replays.andThen {first : Nat → Read α} {next : α → Nat → Read β} {middle : α → Edge}
    {leave : β → Edge} {one two : Bool} (replays : Replays limit enter first middle one)
    (replaysNext : ∀ value, Replays limit (middle value) (next value) leave two)
    (filled : firm → one || two) : Replays limit enter
      (fun limit => first limit >>= fun value => next value limit) leave firm := by
  intro source result left ahead taken
  obtain ⟨value, between, takenFirst, takenNext⟩ := bind_eq_ok_iff.mp taken
  obtain ⟨aheadNext, front, shallow, sourceEq, isOne, few, replay⟩ :=
    replays _ _ _ ahead takenFirst
  obtain ⟨behind, back, deep, betweenEq, isTwo, fewNext, replayNext⟩ :=
    replaysNext value _ _ _ aheadNext takenNext
  rw [betweenEq] at sourceEq replay
  refine ⟨behind, front ++ back, max shallow deep, ?_, fun isFirm empty => ?_,
    Nat.max_le.mpr ⟨few, fewNext⟩, replay.opens.append replayNext.opens,
    fun other enough rest begins => ?_⟩
  · rw [sourceEq, List.append_assoc]
  · obtain ⟨noFront, noBack⟩ := List.append_eq_nil_iff.mp empty
    rcases Bool.or_eq_true_iff.mp (filled isFirm) with firmOne | firmTwo
    · exact isOne firmOne noFront
    · exact isTwo firmTwo noBack
  · obtain ⟨enoughFirst, enoughNext⟩ := Nat.max_le.mp enough
    exact replay.takes_bind enoughFirst begins (replayNext.takes other enoughNext rest begins)

/-- A reader behind another one takes something if the second does. -/
theorem Replays.bind {first : Nat → Read α} {next : α → Nat → Read β} {middle : α → Edge}
    {leave : β → Edge} {one : Bool} (replays : Replays limit enter first middle one)
    (replaysNext : ∀ value, Replays limit (middle value) (next value) leave firm) :
    Replays limit enter (fun limit => first limit >>= fun value => next value limit) leave firm :=
  replays.andThen replaysNext fun isFirm => by simp [isFirm]

/-- A reader behind another one takes something if the first does. -/
theorem Replays.bind_firm {first : Nat → Read α} {next : α → Nat → Read β} {middle : α → Edge}
    {leave : β → Edge} (replays : Replays limit enter first middle true)
    (replaysNext : ∀ value, Replays limit (middle value) (next value) leave false) :
    Replays limit enter (fun limit => first limit >>= fun value => next value limit) leave firm :=
  replays.andThen replaysNext fun _ => rfl

/-- A value that is made of what has been read. -/
theorem Replays.map {read : Nat → Read α} {leave : Edge}
    (one : Replays limit enter read (fun _ => leave) firm) (make : α → β) :
    Replays limit enter (fun limit => read limit >>= fun value => pure (make value)) (fun _ => leave)
      firm := by
  intro source result left ahead taken
  obtain ⟨value, between, taken, made⟩ := bind_eq_ok_iff.mp taken
  cases made
  obtain ⟨behind, text, depth, sourceEq, filled, few, replay⟩ := one _ _ _ ahead taken
  exact ⟨behind, text, depth, sourceEq, filled, few, replay.opens, fun other enough rest begins =>
    (replay.takes other enough rest begins).bind_nil (takes_pure (make value) rest)⟩

theorem replays_peek : Replays limit enter (fun _ => peek) (Edge.at enter.mode) false := by
  rintro source _ _ - taken
  cases taken
  refine ⟨rfl, [], 0, rfl, by simp, Nat.zero_le _, opens_nil _, fun _ _ rest begins position => ?_⟩
  exact ⟨position, by rw [peek, List.nil_append, begins]⟩

/-- Passing over a character that is known. -/
theorem replays_advance {mode leave : ScanMode} {c : Char} (passes : Passes mode c leave) :
    Replays limit (.at mode (some c)) (fun _ => advance) (fun _ => .any leave) firm := by
  rintro ⟨_ | ⟨c, rest⟩, position⟩ _ _ ahead taken
  · cases ahead
  · obtain rfl := Option.some.inj ahead
    cases taken
    exact ⟨trivial, [c], 0, rfl, by simp, Nat.zero_le _, passes.opens, fun _ _ rest _ position =>
      ⟨position.after c, rfl⟩⟩

theorem replays_peek_bind {next : Option Char → Nat → Read β} {leave : β → Edge}
    (each : ∀ c?, Replays limit (.at enter.mode c?) (next c?) leave firm) :
    Replays limit enter (fun limit => peek >>= fun c? => next c? limit) leave firm :=
  replays_peek.bind each

theorem replays_advance_bind {mode middle : ScanMode} {c : Char} (passes : Passes mode c middle)
    {next : Unit → Nat → Read β} {leave : β → Edge}
    (behind : Replays limit (.any middle) (next ()) leave false) :
    Replays limit (.at mode (some c)) (fun limit => advance >>= fun value => next value limit) leave
      firm :=
  (replays_advance passes).bind_firm fun _ => behind

/-- A text begins with characters of a kind, up to one that is not of the kind. -/
theorem exists_run (isKind : Char → Bool) (text : List Char) : ∃ run rest, text = run ++ rest ∧
    (∀ c ∈ run, isKind c) ∧ ∀ c ∈ rest.head?, isKind c = false := by
  refine ⟨text.takeWhile isKind, text.dropWhile isKind, (List.takeWhile_append_dropWhile ..).symm,
    List.all_eq_true.mp List.all_takeWhile, fun c isNext => ?_⟩
  have notKind := List.head?_dropWhile_not isKind text
  rwa [Option.mem_def.mp isNext] at notKind

theorem passes_of_isSpace {c : Char} (space : isSpace c) : Passes .outside c .outside := by
  refine passes_outside fun bracket => ?_
  revert space
  simp only [List.mem_cons, List.not_mem_nil, or_false] at bracket
  rcases bracket with rfl | rfl | rfl | rfl | rfl <;> decide

theorem replays_skipBlanks {next : Option Char → Prop} :
    Replays limit ⟨.outside, next⟩ (fun _ => skipBlanks)
      (fun _ => ⟨.outside, fun c? => ∀ c ∈ c?, isSpace c = false⟩) false := by
  rintro ⟨text, position⟩ _ left - taken
  obtain ⟨blanks, rest, rfl, spaces, ends⟩ := exists_run isSpace text
  obtain ⟨stop, skipped⟩ := skipBlanks_append spaces ends position
  obtain rfl : Source.skipBlanks ⟨blanks ++ rest, position⟩ = left :=
    (Prod.mk.inj (Except.ok.inj taken)).2
  rw [skipped]
  refine ⟨ends, blanks, 0, rfl, by simp, Nat.zero_le _,
    opens_of_passes fun c member => passes_of_isSpace (spaces c member),
    fun _ _ more begins position => ?_⟩
  obtain ⟨stop, skipped⟩ := skipBlanks_append spaces (begins ▸ ends) position
  exact ⟨stop, congrArg (fun source => Except.ok ((), source)) skipped⟩

theorem replays_skipBlanks_bind {next : Unit → Nat → Read β} {leave : β → Edge}
    (behind : Replays limit ⟨.outside, fun c? => ∀ c ∈ c?, isSpace c = false⟩ (next ()) leave
      firm) :
    Replays limit (.any .outside) (fun limit => skipBlanks >>= fun value => next value limit) leave
      firm :=
  replays_skipBlanks.bind fun _ => behind

/-- What is known of the next character need not be made use of. -/
theorem Replays.from_any {mode : ScanMode} {next : Option Char → Prop} {read : Nat → Read α}
    {leave : α → Edge} (replays : Replays limit (.any mode) read leave firm) :
    Replays limit ⟨mode, next⟩ read leave firm :=
  fun source value left _ taken => replays source value left trivial taken

/-- The place at which a reader looks is of no account if it is told in faults only. -/
theorem replays_get_bind {next : Source → Nat → Read β} {leave : β → Edge}
    (each : ∀ start, Replays limit enter (next start) leave firm)
    (same : ∀ start other limit source result, next start limit source = .ok result →
      next other limit source = .ok result) :
    Replays limit enter (fun limit => get >>= fun start => next start limit) leave firm := by
  intro source value left ahead taken
  obtain ⟨behind, text, depth, source_eq, filled, few, replay⟩ :=
    each source source value left ahead taken
  refine ⟨behind, text, depth, source_eq, filled, few, replay.opens,
    fun other enough rest begins position => ?_⟩
  obtain ⟨stop, again⟩ := replay.takes other enough rest begins position
  exact ⟨stop, same _ _ other _ _ again⟩

/-! ### Readers that fail -/

theorem replays_failHere (reason : Reason) {leave : α → Edge} :
    Replays limit enter (fun _ => failHere reason) leave firm :=
  replays_of_fails fun _ _ => nofun

theorem replays_failAhead (reason : Reason) {leave : α → Edge} :
    Replays limit enter (fun _ => failAhead reason) leave firm :=
  replays_of_fails fun _ _ => nofun

theorem replays_failHere_bind (reason : Reason) {next : α → Nat → Read β} {leave : β → Edge} :
    Replays limit enter (fun limit => failHere reason >>= fun value => next value limit) leave
      firm :=
  replays_of_fails fun _ _ => nofun

theorem replays_failAhead_bind (reason : Reason) {next : α → Nat → Read β} {leave : β → Edge} :
    Replays limit enter (fun limit => failAhead reason >>= fun value => next value limit) leave
      firm :=
  replays_of_fails fun _ _ => nofun

/-! ### Words -/

theorem replays_word {expected : List Char}
    (inert : ∀ c ∈ expected, c ∉ ['"', '[', '{', ']', '}']) :
    Replays limit (.any .outside) (fun _ => word expected) (fun _ => .any .outside) false := by
  induction expected with
  | nil => exact replays_pure rfl fun _ => id
  | cons c expected ih =>
    obtain ⟨here, behind⟩ := List.forall_mem_cons.mp inert
    refine replays_peek_bind fun c? => ?_
    cases c? with
    | none => exact replays_failHere _
    | some other =>
      by_cases same : other = c
      · subst same
        simp only [if_true]
        exact replays_advance_bind (passes_outside here) (ih behind)
      · simp only [if_neg same]
        exact replays_failAhead _

end Read

end LogMotif.Json
