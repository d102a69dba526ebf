import LogMotif.Proofs.Corpus.Lines
import LogMotif.Proofs.Pattern.Readback
import LogMotif.Proofs.Search.Assignment

/-! # The pattern that is shown

A query is shown as one expression over many lines. It says in its own way what the search does with
rows: a link is a repetition of lines here and a window there, and a wildcard of several entries is
recalled here, while the search puts its text in its place. Still the expression matches the text from
the first row of a match to its last, and its groups take what the search has captured.
-/

namespace LogMotif

open Corpus (textBetween textBetween_append textBetween_succ)
open LineItem (IsStretch)
open TemplateItem (Spells)

/-- What the groups of the wildcards that have been met have taken. -/
def heldGroups (value : Nat → String) (met : List Nat) (index : Nat) : Option String :=
  if index ∈ met then some (value index) else none

@[simp]
theorem heldGroups_nil (value : Nat → String) : heldGroups value [] = fun _ => none :=
  funext fun _ => if_neg List.not_mem_nil

private theorem update_heldGroups (value : Nat → String) (met : List Nat) (index : Nat) :
    Function.update (heldGroups value met) index (some (value index)) =
      heldGroups value (index :: met) := by
  funext other
  by_cases same : other = index
  · subst same
    simp [heldGroups]
  · simp [heldGroups, same]

variable {multiLine : Bool} {value : Nat → String} {passed rest : List Char}

/-- What a template spells is covered by the line pattern made from it, with a group for each wildcard
that was not met before. -/
private theorem TemplateItem.Spells.covers {items : List TemplateItem} {text : List Char}
    (spells : Spells value items text)
    (stretches : ∀ index, .wildcard index ∈ items → IsStretch (value index).toList)
    (met : List Nat) :
    let instantiated := TemplateItem.instantiate (fun _ => none) met items
    instantiated.1.regex.Covers multiLine passed text rest (heldGroups value met)
      (heldGroups value instantiated.2) := by
  induction spells generalizing met passed with
  | nil => exact Regex.covers_empty
  | @cons item items taken text takes _ ih =>
    have behind (met : List Nat) := @ih (passed ++ taken)
      (fun index member => stretches index (List.mem_cons_of_mem item member)) met
    cases item with
    | literal content =>
      obtain rfl : taken = content.toList := takes
      exact (Regex.covers_literal content).append (behind met)
    | anyString =>
      obtain ⟨content, isContent, rfl⟩ := takes
      exact (Regex.covers_anyString isContent).append (behind met)
    | wildcard index =>
      obtain rfl : taken = (value index).toList := takes
      by_cases known : index ∈ met
      · rw [TemplateItem.instantiate_recalled rfl known]
        exact (Regex.covers_recalled (if_pos known)).append (behind met)
      · rw [TemplateItem.instantiate_capture rfl known]
        have inside : Regex.stringValue.Covers multiLine passed (value index).toList (text ++ rest)
            (heldGroups value met) (heldGroups value met) :=
          Regex.covers_stringValue (stretches index List.mem_cons_self)
        have group := inside.capture index
        rw [String.ofList_toList, update_heldGroups] at group
        exact group.append (behind (index :: met))

/-- A link that is not set to a distance of zero leads further down. -/
theorem Link.lt_of_allows {link : Link} {row next : Nat} (positive : link ≠ .exactly 0)
    (allowed : link.Allows ((next : Int) - row)) : row < next := by
  cases link with
  | any => simp only [Allows] at allowed; omega
  | exactly rows =>
    simp only [Allows, ne_eq, exactly.injEq] at allowed positive
    omega
  | atMost rows => simp only [Allows] at allowed; omega

namespace Query

/-- The lines between two linked rows are covered by what is shown for their link. -/
private theorem covers_gap {link : Link} {lines : List (List Char)}
    (inLine : ∀ line ∈ lines, '\n' ∉ line) (allowed : link.Allows (lines.length + 1))
    (groups : Nat → Option String) :
    (gap link).Covers multiLine passed (lines.map (· ++ ['\n'])).flatten rest groups groups := by
  have each : ∀ line ∈ lines.map (· ++ ['\n']), ∀ passed rest,
      Regex.anyLine.Covers multiLine passed line rest groups groups := by
    intro line member passed rest
    obtain ⟨content, inside, rfl⟩ := List.mem_map.mp member
    exact Regex.covers_anyLine (inLine content inside)
  have adjacent (none : lines.length = 0) :
      Regex.empty.Covers multiLine passed (lines.map (· ++ ['\n'])).flatten rest groups groups := by
    obtain rfl := List.length_eq_zero_iff.mp none
    exact Regex.covers_empty
  cases link with
  | any => exact Regex.covers_repeated trivial each
  | exactly rows =>
    simp only [Link.Allows] at allowed
    rw [gap]
    split
    next => exact Regex.covers_repeated (by simp [Repetition.Allows]; omega) each
    next => exact adjacent (by omega)
  | atMost rows =>
    simp only [Link.Allows] at allowed
    rw [gap]
    split
    next => exact Regex.covers_repeated (by simp [Repetition.Allows]; omega) each
    next => exact adjacent (by omega)

/-- Whether a template spells the line in a row, with stretches for its wildcards. -/
def SpellsAt (contents : List (List Char)) (value : Nat → String) (template : EntryTemplate)
    (row : Nat) : Prop :=
  (∀ index, .wildcard index ∈ template.items → IsStretch (value index).toList) ∧
    ∃ content, contents[row]? = some content ∧ Spells value template.items content

/-- The wildcards that have been met behind some lines. -/
def metBehind (met : List Nat) (templates : List EntryTemplate) : List Nat :=
  templates.foldl (fun met template => (TemplateItem.instantiate (fun _ => none) met template.items).2)
    met

private theorem mem_metBehind_iff {met : List Nat} {templates : List EntryTemplate} {index : Nat} :
    index ∈ metBehind met templates ↔
      index ∈ met ∨ ∃ template ∈ templates, .wildcard index ∈ template.items := by
  induction templates generalizing met with
  | nil => simp [metBehind]
  | cons template templates ih =>
    rw [metBehind, List.foldl_cons, ← metBehind, ih, TemplateItem.mem_instantiate_snd_iff rfl]
    simp [or_assoc]

/-- The expression for the lines of linked rows covers the text from the first of them to the last, and
its groups take the texts with which the lines are spelled. -/
private theorem covers_linesRegex {contents : List (List Char)}
    (inLine : ∀ content ∈ contents, '\n' ∉ content) {templates : List EntryTemplate}
    {links : List Link} {row last : Nat} {rows : Match}
    (spelled : List.Forall₂ (SpellsAt contents value) templates (row :: rows))
    (lengths : templates.length = links.length + 1)
    (linked : Match.Linked links (row :: rows)) (positive : ∀ link ∈ links, link ≠ .exactly 0)
    (isLast : (row :: rows).getLast? = some last) (met : List Nat) :
    row ≤ last ∧ last < contents.length ∧
      (linesRegex met templates links).Covers multiLine passed
        (textBetween contents row (last + 1)) rest (heldGroups value met)
        (heldGroups value (metBehind met templates)) := by
  induction rows generalizing row templates links met passed with
  | nil =>
    obtain _ | @⟨template, _, _, _, ⟨stretches, content, here, spells⟩, ⟨⟩⟩ := spelled
    obtain rfl : links = [] := List.length_eq_zero_iff.mp (by simpa using lengths.symm)
    obtain rfl : row = last := Option.some.inj isLast
    refine ⟨Nat.le_refl row, (List.getElem?_eq_some_iff.mp here).1, ?_⟩
    rw [textBetween_succ here]
    exact (spells.covers stretches met).append
      (Regex.covers_lineFeed.append (Regex.covers_empty.append Regex.covers_empty))
  | cons next rows ih =>
    obtain _ | @⟨template, _, templates, _, ⟨stretches, content, here, spells⟩, spelled⟩ := spelled
    have length_eq := spelled.length_eq
    obtain ⟨link, links, rfl⟩ : ∃ link rest, links = link :: rest := by
      refine List.exists_cons_of_length_pos ?_
      simp only [List.length_cons] at lengths length_eq
      omega
    obtain ⟨allowed, linked⟩ := Match.linked_cons_cons.mp linked
    obtain ⟨isPositive, positive⟩ := List.forall_mem_cons.mp positive
    have before : row < next := Link.lt_of_allows isPositive allowed
    obtain ⟨behind, inside, covers⟩ := ih spelled (Nat.succ.inj lengths) linked positive isLast
      (TemplateItem.instantiate (fun _ => none) met template.items).2
    refine ⟨by omega, inside, ?_⟩
    have between : (gap link).Covers multiLine (passed ++ content ++ ['\n'])
        (textBetween contents (row + 1) next) (textBetween contents next (last + 1) ++ rest)
        (heldGroups value (TemplateItem.instantiate (fun _ => none) met template.items).2)
        (heldGroups value (TemplateItem.instantiate (fun _ => none) met template.items).2) := by
      refine covers_gap (fun line member => ?_) ?_ _
      · exact inLine line (List.mem_of_mem_take (List.mem_of_mem_drop member))
      · have distance : (((contents.take next).drop (row + 1)).length : Int) + 1 = next - row := by
          rw [List.length_drop, List.length_take]
          omega
        rwa [distance]
    rw [← textBetween_append contents (Nat.le_succ row) (by omega), textBetween_succ here,
      ← textBetween_append contents before (by omega), List.append_assoc]
    exact (spells.covers stretches met).append
      (Regex.covers_lineFeed.append (between.append covers))

/-! ### The written pattern -/

private theorem isWritable_concat {parts : List Regex} (each : ∀ part ∈ parts, part.isWritable) :
    (Regex.concat parts).isWritable := by
  induction parts with
  | nil => rfl
  | cons part parts ih =>
    obtain ⟨here, behind⟩ := List.forall_mem_cons.mp each
    exact Bool.and_eq_true_iff.mpr ⟨here, ih behind⟩

private theorem isWritable_linesRegex (met : List Nat) (templates : List EntryTemplate)
    (links : List Link) :
    (linesRegex met templates links).isWritable := by
  induction templates generalizing met links with
  | nil => rfl
  | cons template templates ih =>
    have pattern (pattern : LinePattern) : pattern.regex.isWritable := by
      refine isWritable_concat fun part member => ?_
      obtain ⟨item, -, rfl⟩ := List.mem_map.mp member
      cases item <;> rfl
    have between : ((links.head?).elim .empty gap).isWritable := by
      cases links with
      | nil => rfl
      | cons link links =>
        cases link <;> simp only [List.head?_cons, Option.elim_some, gap]
        · rfl
        all_goals split <;> rfl
    simp [linesRegex, Regex.isWritable, pattern, between, ih]

/-- Whether the pattern that is shown matches the text of a match, from the first row to the end of the
last, wherever such a text may stand; its groups take what the search captures along the match. -/
def ShowsMatch (query : Query) (corpus : Corpus) (chain : Match) : Prop :=
  ∃ first last text captures, chain.head? = some first ∧ chain.getLast? = some last ∧
    corpus.between? first last = some text ∧
    captureAlong? query.budget corpus (query.entries.zip chain) [] = some captures ∧
    ∀ passed rest : List Char, (passed = [] ∨ passed.getLast? = some '\n') →
      Regex.SourceCovers query.source passed text.toList rest fun index => captures.lookup index

/-- A row that a template spells in the corpus of a log is a line of the log that it spells. -/
private theorem spellsAt_of_spellRow {headers : List Header} {roles : List ColumnRole}
    {log : List (List String)} {corpus : Corpus}
    (written : Corpus.ofRows headers roles log = .ok corpus) {template : EntryTemplate} {row : Nat}
    (spelled : TemplateItem.SpellRow corpus value template.items row) :
    SpellsAt (log.map (Corpus.lineChars headers roles)) value template row := by
  obtain ⟨stretches, line, isLine, spells⟩ := spelled
  rw [Corpus.line?_ofRows written] at isLine
  obtain ⟨cells, isRow, rfl⟩ := Option.map_eq_some_iff.mp isLine
  rw [String.toList_ofList] at spells
  exact ⟨stretches, _, by rw [List.getElem?_map, isRow, Option.map_some], spells⟩

/-- What the groups take in the end is what captures hold, if these hold the same wildcards. -/
private theorem heldGroups_eq_lookup {captures : Captures} {all : List Nat}
    (hold : captures.Hold all) (known : List Nat) (same : ∀ index, index ∈ known ↔ index ∈ all) :
    heldGroups (fun index => (captures.lookup index).getD "") known = fun index =>
      captures.lookup index := by
  funext index
  by_cases held : index ∈ all
  · obtain ⟨content, found, -⟩ := hold.exists_stretch index held
    rw [heldGroups, if_pos ((same index).mpr held), found, Option.getD_some]
  · rw [heldGroups, if_neg (mt (same index).mp held), hold.lookup_eq_none index held]

/-- The pattern of a query whose links are not set to a distance of zero matches every listed match. -/
theorem showsMatch_of_mem_list {headers : List Header} {roles : List ColumnRole} {motif : Motif}
    {budget : Nat} {query : Query} (compiled : compile headers roles motif budget = .ok query)
    (positive : ∀ link ∈ query.links, link ≠ .exactly 0) {log : List (List String)}
    {corpus : Corpus} (written : Corpus.ofRows headers roles log = .ok corpus) {chain : Match}
    (listed : chain ∈ (query.search corpus).list) : query.ShowsMatch corpus chain := by
  obtain ⟨first, templates, entries_eq, lengths, threaded⟩ := exists_entries_of_compile compiled
  obtain ⟨length_eq, linked, matched⟩ := isChain_of_mem_list entries_eq lengths listed
  obtain ⟨captures, along⟩ := Option.isSome_iff_exists.mp matched
  obtain ⟨-, ⟨all, hold, all_iff⟩, spelled⟩ :=
    spellRow_of_captureAlong? threaded Captures.hold_nil length_eq along
  have spelledAt := (List.forall₂_map_left_iff.mp spelled).imp fun _ _ =>
    spellsAt_of_spellRow written
  obtain ⟨row, rows, rfl⟩ := List.exists_cons_of_length_eq_add_one
    (length_eq.trans (congrArg List.length entries_eq))
  obtain ⟨last, isLast⟩ : ∃ last, (row :: rows).getLast? = some last :=
    ⟨_, List.getLast?_eq_some_getLast (List.cons_ne_nil row rows)⟩
  have inLine : ∀ content ∈ log.map (Corpus.lineChars headers roles), '\n' ∉ content := by
    intro content member
    obtain ⟨cells, -, rfl⟩ := List.mem_map.mp member
    exact Corpus.lineFeed_not_mem_lineChars headers roles cells
  have lengths : query.entries.length = query.links.length + 1 := by
    rw [entries_eq, lengths, List.length_cons]
  have shown (passed rest : List Char) := @covers_linesRegex true _ passed rest _ inLine _ _ _ _ _
    spelledAt lengths linked positive isLast []
  obtain ⟨ordered, inside, -⟩ := shown [] []
  rw [List.length_map] at inside
  refine ⟨row, last, _, captures, rfl, isLast, Corpus.between?_ofRows written ordered inside, along,
    fun passed rest start => ?_⟩
  obtain ⟨-, -, covers⟩ := shown passed rest
  have taken := heldGroups_eq_lookup hold (metBehind [] query.entries) fun index => by
    rw [mem_metBehind_iff, all_iff]
  rw [heldGroups_nil, taken] at covers
  have writable : (Regex.lineStart.append query.regex).isWritable :=
    Bool.and_eq_true_iff.mpr ⟨rfl, isWritable_linesRegex ..⟩
  rw [source, String.toList_ofList, Regex.sourceCovers_iff writable]
  refine (Regex.covers_lineStart (by simpa using start)).append ?_
  rwa [List.append_nil]

end Query

end LogMotif
