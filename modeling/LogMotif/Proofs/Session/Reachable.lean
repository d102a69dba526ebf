import LogMotif.Proofs.Corpus.Rows
import LogMotif.Proofs.Motif.Bookkeeping
import LogMotif.Proofs.Outcomes
import LogMotif.Session

/-! # Sessions that can be reached

A session is opened on log rows and changed by actions, searches and moves of the cursor. An action
that succeeds makes one edit of the motif, or finds nothing to change; a search and a move leave the
motif alone. What every edit keeps is therefore true of every reachable session.
-/

namespace LogMotif

/-- Whether the bytes of each text can be counted by a machine word, as they are in memory. -/
def TextsFit (rows : List (List String)) : Prop :=
  ∀ row ∈ rows, ∀ text ∈ row, text.utf8ByteSize ≤ Index.greatest

/-- Whether the texts that an action brings fit into memory. -/
def Action.Fits : Action → Prop
  | appendRows rows => TextsFit rows
  | _ => True

/-- Whether an action leaves the entries and their links in place: it puts wildcards over text or
takes them away, or it switches which cells take part in matching. -/
def Action.Retouches : Action → Prop
  | toggleCell .. | createWildcard _ | useWildcard .. | createWildcardOverText ..
  | useWildcardOverText .. | removeWildcard .. => True
  | appendRows _ | removeEntry _ | toggleLink _ | setLink .. => False

namespace Session

/-- The sessions that are reached from an opened one. -/
inductive Reachable : Session → Prop
  | start {headers : List Header} {roles : List ColumnRole} {rows : List (List String)}
      {options : SessionOptions} {session : Session} (fits : TextsFit rows)
      (opened : Session.start headers roles rows options = .ok session) : Reachable session
  | apply {session next : Session} {action : Action} (reachable : Reachable session)
      (fits : action.Fits) (applied : session.apply action = .ok (.updated next)) : Reachable next
  | search {session next : Session} {corpus : Corpus} (reachable : Reachable session)
      (searched : session.search corpus = .ok next) : Reachable next
  | nextMatch {session : Session} (reachable : Reachable session) : Reachable session.nextMatch
  | previousMatch {session : Session} (reachable : Reachable session) :
      Reachable session.previousMatch

/-- The edit of the motif that an action makes. -/
inductive Edit (session : Session) : Action → Motif → Prop
  | appendRows {rows : List (List String)}
      (fitting : ∀ row ∈ rows, row.length = session.headers.length) :
      Edit session (.appendRows rows) (session.motif.appendRows session.roles rows)
  | removeEntry {entry : Nat} {motif : Motif}
      (edited : session.motif.removeEntry entry = .ok (.remaining motif)) :
      Edit session (.removeEntry entry) motif
  | toggleCell {entry cell : Nat} {exclusive : Bool} {motif : Motif}
      (edited : session.motif.toggleCell session.roles entry cell exclusive = .ok motif) :
      Edit session (.toggleCell entry cell exclusive) motif
  | toggleLink {entry : Nat} {motif : Motif}
      (edited : session.motif.toggleLink entry session.options.boundedGap = .ok motif) :
      Edit session (.toggleLink entry) motif
  | setLink {entry : Nat} {link : Link} {motif : Motif}
      (edited : session.motif.setLink entry link = .ok motif) :
      Edit session (.setLink entry link) motif
  | createWildcard {selection : Selection} {motif : Motif}
      (edited : session.motif.createWildcard selection = .ok (some motif)) :
      Edit session (.createWildcard selection) motif
  | useWildcard {wildcard : Nat} {selection : Selection} {motif : Motif}
      (edited : session.motif.useWildcard wildcard selection = .ok (some motif)) :
      Edit session (.useWildcard wildcard selection) motif
  | createWildcardOverText {entry cell start stop : Nat} {selection : Selection} {motif : Motif}
      (selected : session.motif.select entry cell start stop = .ok (some selection))
      (edited : session.motif.createWildcard selection = .ok (some motif)) :
      Edit session (.createWildcardOverText entry cell start stop) motif
  | useWildcardOverText {wildcard entry cell start stop : Nat} {selection : Selection}
      {motif : Motif} (selected : session.motif.select entry cell start stop = .ok (some selection))
      (edited : session.motif.useWildcard wildcard selection = .ok (some motif)) :
      Edit session (.useWildcardOverText wildcard entry cell start stop) motif
  | removeWildcard {entry cell segment : Nat} {motif : Motif}
      (edited : session.motif.removeWildcard entry cell segment = .ok (some motif)) :
      Edit session (.removeWildcard entry cell segment) motif

/-- Whether an action finds nothing to change. -/
inductive Idle (session : Session) : Action → Prop
  | createWildcard {selection : Selection}
      (idle : session.motif.createWildcard selection = .ok none) :
      Idle session (.createWildcard selection)
  | useWildcard {wildcard : Nat} {selection : Selection}
      (idle : session.motif.useWildcard wildcard selection = .ok none) :
      Idle session (.useWildcard wildcard selection)
  | createWildcardOverText {entry cell start stop : Nat}
      (idle : ∀ selection, session.motif.select entry cell start stop = .ok (some selection) →
        session.motif.createWildcard selection = .ok none) :
      Idle session (.createWildcardOverText entry cell start stop)
  | useWildcardOverText {wildcard entry cell start stop : Nat}
      (idle : ∀ selection, session.motif.select entry cell start stop = .ok (some selection) →
        session.motif.useWildcard wildcard selection = .ok none) :
      Idle session (.useWildcardOverText wildcard entry cell start stop)
  | removeWildcard {entry cell segment : Nat}
      (idle : session.motif.removeWildcard entry cell segment = .ok none) :
      Idle session (.removeWildcard entry cell segment)

variable {session next : Session} {action : Action}

/-- When a session opens, and with which motif. -/
theorem start_eq_ok_iff {headers : List Header} {roles : List ColumnRole}
    {rows : List (List String)} {options : SessionOptions} :
    Session.start headers roles rows options = .ok session ↔
      headers.length = roles.length ∧ rows ≠ [] ∧ (∀ row ∈ rows, row.length = headers.length) ∧
        session = ⟨headers, roles, .ofRows roles rows, options, none⟩ := by
  rw [← Corpus.checkRows_eq_ok_iff]
  unfold Session.start
  by_cases covered : headers.length = roles.length
  · by_cases empty : rows = []
    · simp [covered, empty, bind, Except.bind, throw, throwThe, MonadExceptOf.throw]
    · cases Corpus.checkRows headers.length rows with
      | error => simp [covered, empty, bind, Except.bind]
      | ok => simpa [covered, empty, bind, Except.bind, pure, Except.pure] using eq_comm
  · simp [covered, bind, Except.bind, throw, throwThe, MonadExceptOf.throw]

/-- An action succeeds when it can be performed and leaves a consistent motif. -/
theorem apply_eq_ok_updated_iff : session.apply action = .ok (.updated next) ↔
    session.perform action = .ok (.updated next) ∧ next.motif.inconsistency? = none := by
  rw [← Motif.checkConsistency_eq_ok_iff]
  unfold Session.apply
  rw [bind_eq_ok_iff]
  constructor
  · rintro ⟨_ | _, performed, applied⟩
    · obtain ⟨⟨⟩, checked, applied⟩ := bind_eq_ok_iff.mp applied
      obtain rfl := Transition.updated.inj (Except.ok.inj applied)
      exact ⟨performed, checked⟩
    · cases applied
  · rintro ⟨performed, checked⟩
    exact ⟨_, performed, bind_eq_ok_iff.mpr ⟨(), checked, rfl⟩⟩

/-- An edit that may have found nothing to change leaves the session alone, or changes its motif. -/
private theorem eq_or_eq_withMotif_of_withEdit (edit : Option Motif) :
    (edit = none ∧ session.withEdit edit = session) ∨
      ∃ motif, edit = some motif ∧ session.withEdit edit = session.withMotif motif := by
  cases edit with
  | none => exact .inl ⟨rfl, rfl⟩
  | some motif => exact .inr ⟨motif, rfl, rfl⟩

private theorem editOverText_eq_ok {entry cell start stop : Nat}
    {edit : Selection → Except MotifError (Option Motif)}
    (edited : session.editOverText entry cell start stop edit = .ok next) :
    (next = session ∧ ∀ selection,
      session.motif.select entry cell start stop = .ok (some selection) →
        edit selection = .ok none) ∨ ∃ selection motif,
      session.motif.select entry cell start stop = .ok (some selection) ∧
        edit selection = .ok (some motif) ∧ next = session.withMotif motif := by
  obtain ⟨selection, selected, edited⟩ := bind_eq_ok_iff.mp edited
  cases selection with
  | none =>
    refine .inl ⟨(Except.ok.inj edited).symm, fun other isOther => ?_⟩
    simp [selected] at isOther
  | some selection =>
    obtain ⟨edit, found, edited⟩ := bind_eq_ok_iff.mp edited
    obtain rfl := Except.ok.inj edited
    rcases @eq_or_eq_withMotif_of_withEdit session edit with ⟨rfl, same⟩ | ⟨motif, rfl, same⟩
    · refine .inl ⟨same, fun other isOther => ?_⟩
      obtain rfl := Option.some.inj (Except.ok.inj (selected.symm.trans isOther))
      exact found
    · exact .inr ⟨selection, motif, selected, found, same⟩

/-- An action makes its edit, or finds nothing to change and leaves the session as it is. -/
theorem edit_of_perform
    (performed : session.perform action = .ok (.updated next)) :
    (next = session ∧ session.Idle action) ∨
      ∃ motif, next = session.withMotif motif ∧ session.Edit action motif := by
  cases action with
  | appendRows rows =>
    obtain ⟨⟨⟩, checked, performed⟩ := bind_eq_ok_iff.mp performed
    obtain rfl := Transition.updated.inj (Except.ok.inj performed)
    exact .inr ⟨_, rfl, .appendRows (Corpus.checkRows_eq_ok_iff.mp checked)⟩
  | removeEntry entry =>
    obtain ⟨removal, edited, performed⟩ := bind_eq_ok_iff.mp performed
    cases removal with
    | emptied => cases performed
    | remaining motif =>
      obtain rfl := Transition.updated.inj (Except.ok.inj performed)
      exact .inr ⟨motif, rfl, .removeEntry edited⟩
  | toggleCell entry cell exclusive =>
    obtain ⟨motif, edited, performed⟩ := bind_eq_ok_iff.mp performed
    obtain rfl := Transition.updated.inj (Except.ok.inj performed)
    exact .inr ⟨motif, rfl, .toggleCell edited⟩
  | toggleLink entry =>
    obtain ⟨motif, edited, performed⟩ := bind_eq_ok_iff.mp performed
    obtain rfl := Transition.updated.inj (Except.ok.inj performed)
    exact .inr ⟨motif, rfl, .toggleLink edited⟩
  | setLink entry link =>
    obtain ⟨motif, edited, performed⟩ := bind_eq_ok_iff.mp performed
    obtain rfl := Transition.updated.inj (Except.ok.inj performed)
    exact .inr ⟨motif, rfl, .setLink edited⟩
  | createWildcard selection =>
    obtain ⟨edit, edited, performed⟩ := bind_eq_ok_iff.mp performed
    obtain rfl := Transition.updated.inj (Except.ok.inj performed)
    rcases @eq_or_eq_withMotif_of_withEdit session edit with ⟨rfl, same⟩ | ⟨motif, rfl, same⟩
    · exact .inl ⟨same, .createWildcard edited⟩
    · exact .inr ⟨motif, same, .createWildcard edited⟩
  | useWildcard wildcard selection =>
    obtain ⟨edit, edited, performed⟩ := bind_eq_ok_iff.mp performed
    obtain rfl := Transition.updated.inj (Except.ok.inj performed)
    rcases @eq_or_eq_withMotif_of_withEdit session edit with ⟨rfl, same⟩ | ⟨motif, rfl, same⟩
    · exact .inl ⟨same, .useWildcard edited⟩
    · exact .inr ⟨motif, same, .useWildcard edited⟩
  | createWildcardOverText entry cell start stop =>
    obtain ⟨session', edited, performed⟩ := bind_eq_ok_iff.mp performed
    obtain rfl := Transition.updated.inj (Except.ok.inj performed)
    rcases editOverText_eq_ok edited with ⟨same, idle⟩ | ⟨selection, motif, selected, edited, same⟩
    · exact .inl ⟨same, .createWildcardOverText idle⟩
    · exact .inr ⟨motif, same, .createWildcardOverText selected edited⟩
  | useWildcardOverText wildcard entry cell start stop =>
    obtain ⟨session', edited, performed⟩ := bind_eq_ok_iff.mp performed
    obtain rfl := Transition.updated.inj (Except.ok.inj performed)
    rcases editOverText_eq_ok edited with ⟨same, idle⟩ | ⟨selection, motif, selected, edited, same⟩
    · exact .inl ⟨same, .useWildcardOverText idle⟩
    · exact .inr ⟨motif, same, .useWildcardOverText selected edited⟩
  | removeWildcard entry cell segment =>
    obtain ⟨edit, edited, performed⟩ := bind_eq_ok_iff.mp performed
    obtain rfl := Transition.updated.inj (Except.ok.inj performed)
    rcases @eq_or_eq_withMotif_of_withEdit session edit with ⟨rfl, same⟩ | ⟨motif, rfl, same⟩
    · exact .inl ⟨same, .removeWildcard edited⟩
    · exact .inr ⟨motif, same, .removeWildcard edited⟩

/-- What holds of every opened session, is kept by every edit, and does not speak of results, holds
of every reachable session. -/
@[elab_as_elim]
theorem Reachable.invariant {holds : Session → Prop} (reachable : session.Reachable)
    (started : ∀ {headers roles rows options opened}, TextsFit rows →
      Session.start headers roles rows options = .ok opened → holds opened)
    (edited : ∀ {session action motif}, holds session → action.Fits →
      session.Edit action motif → holds (session.withMotif motif))
    (blind : ∀ session results, holds session → holds { session with results := results }) :
    holds session := by
  induction reachable with
  | start fits opened => exact started fits opened
  | apply _ fits applied ih =>
    rcases edit_of_perform (apply_eq_ok_updated_iff.mp applied).1 with ⟨rfl, -⟩ | ⟨motif, rfl, edit⟩
    · exact ih
    · exact edited ih fits edit
  | search _ searched ih =>
    obtain ⟨query, -, searched⟩ := bind_eq_ok_iff.mp searched
    obtain rfl := Except.ok.inj searched
    exact blind _ _ ih
  | nextMatch _ ih => exact blind _ _ ih
  | previousMatch _ ih => exact blind _ _ ih

end Session

end LogMotif
