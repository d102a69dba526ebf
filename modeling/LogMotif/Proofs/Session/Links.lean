import LogMotif.Proofs.Motif.Links
import LogMotif.Proofs.Session.Soundness

/-! # The links of reachable sessions

A session begins with links that allow all distances. A link that is set has been checked, but one
that is switched takes its distance from the options of the session. So the links of a session allow
positive distances only, unless the options say otherwise.
-/

namespace LogMotif

open Entry (LinkedBy)

namespace Session

variable {session next : Session} {action : Action} {motif : Motif} {links : List Link}

/-- Whether a link is valid, or the bounded link that a switch sets under the given options. -/
def LinkFits (options : SessionOptions) (link : Link) : Prop :=
  link.isValid ∨ link = .atMost options.boundedGap

private theorem LinkFits.cycled {options : SessionOptions} (link : Link) :
    LinkFits options (link.cycled options.boundedGap) := by
  cases link with
  | any => exact .inl rfl
  | exactly rows => exact .inr rfl
  | atMost rows => exact .inl rfl

/-- An edit leaves the last entry alone without a link, and sets only links that fit. -/
theorem Edit.exists_linkedBy (edit : session.Edit action motif)
    (linked : LinkedBy links session.motif.entries) :
    ∃ changed, LinkedBy changed motif.entries ∧
      ∀ link ∈ changed, link ∈ links ∨ LinkFits session.options link := by
  have inPlace (retouches : action.Retouches) : ∃ changed, LinkedBy changed motif.entries ∧
      ∀ link ∈ changed, link ∈ links ∨ LinkFits session.options link :=
    ⟨links, linked.reshaped (edit.reshaped retouches), fun _ => .inl⟩
  have replaced {entry : Nat} {change : Option Link → Link}
      (inside : entry + 1 < session.motif.entries.length)
      (fits : ∀ old, LinkFits session.options (change old)) :
      ∃ changed, LinkedBy changed (session.motif.modifyEntry entry fun found =>
          { found with link := some (change found.link) }).entries ∧
        ∀ link ∈ changed, link ∈ links ∨ LinkFits session.options link := by
    rw [linked.length_eq] at inside
    have here := List.getElem?_eq_getElem (Nat.lt_of_succ_lt_succ inside)
    refine ⟨_, linked.modify here change, fun link member => ?_⟩
    rcases List.mem_or_eq_of_mem_set member with old | rfl
    · exact .inl old
    · exact .inr (fits _)
  cases edit with
  | appendRows =>
    obtain ⟨count, linked⟩ := linked.appendAll fun entry => Entry.link_getD_of_mem_ofRows
    refine ⟨_, linked, fun link member => ?_⟩
    rcases List.mem_append.mp member with old | new
    · exact .inl old
    · obtain rfl := List.eq_of_mem_replicate new
      exact .inr (.inl rfl)
  | removeEntry edited =>
    obtain ⟨inside, remaining, rfl⟩ := Motif.removeEntry_eq_ok_remaining_iff.mp edited
    exact ⟨_, linked.eraseIdx inside remaining _, fun link member =>
      .inl (List.mem_of_mem_eraseIdx member)⟩
  | toggleLink edited =>
    obtain ⟨inside, rfl⟩ := Motif.toggleLink_eq_ok_iff.mp edited
    exact replaced inside fun old => LinkFits.cycled (old.getD .any)
  | setLink edited =>
    obtain ⟨inside, valid, rfl⟩ := Motif.setLink_eq_ok_iff.mp edited
    exact replaced inside fun _ => .inl valid
  | toggleCell | createWildcard | useWildcard | createWildcardOverText | useWildcardOverText
  | removeWildcard => exact inPlace trivial

/-- In a reachable session each entry but the last has a link, and each link fits. -/
theorem Reachable.exists_linkedBy (reachable : session.Reachable) :
    ∃ links, LinkedBy links session.motif.entries ∧ ∀ link ∈ links, LinkFits session.options link := by
  refine reachable.invariant ?_ ?_ ?_
  · intro headers roles rows options opened _ isOpened
    obtain ⟨-, filled, -, rfl⟩ := start_eq_ok_iff.mp isOpened
    refine ⟨_, Entry.linkedBy_ofRows _ filled, fun link member => ?_⟩
    obtain rfl := List.eq_of_mem_replicate member
    exact .inl rfl
  · rintro session action motif ⟨links, linked, fitting⟩ - edit
    obtain ⟨changed, linked, each⟩ := edit.exists_linkedBy linked
    exact ⟨changed, linked, fun link member => (each link member).elim (fitting link) id⟩
  · exact fun _ _ kept => kept

/-- Two entries whose link has been switched twice, under any options. -/
private theorem exists_toggled_twice (options : SessionOptions) : ∃ opened once twice : Session,
    start [⟨"m", .string⟩] [.content] [["a"], ["b"]] options = .ok opened ∧
      opened.apply (.toggleLink 0) = .ok (.updated once) ∧
      once.apply (.toggleLink 0) = .ok (.updated twice) ∧
      twice.Reachable ∧ twice.options = options ∧
      ∃ entry, twice.motif.entries[0]? = some entry ∧
        entry.link = some (.atMost options.boundedGap) := by
  have fits : TextsFit [["a"], ["b"]] := by
    unfold TextsFit
    decide
  obtain ⟨opened, once, twice, isOpened, isOnce, isTwice, kept, link⟩ :
      ∃ opened once twice : Session,
        start [⟨"m", .string⟩] [.content] [["a"], ["b"]] options = .ok opened ∧
          opened.apply (.toggleLink 0) = .ok (.updated once) ∧
          once.apply (.toggleLink 0) = .ok (.updated twice) ∧ twice.options = options ∧
          ∃ entry, twice.motif.entries[0]? = some entry ∧
            entry.link = some (.atMost options.boundedGap) :=
    ⟨_, _, _, rfl, rfl, rfl, rfl, _, rfl, rfl⟩
  have reachable : twice.Reachable :=
    .apply (.apply (.start fits isOpened) (by exact trivial) isOnce) (by exact trivial) isTwice
  exact ⟨opened, once, twice, isOpened, isOnce, isTwice, reachable, kept, link⟩

/-- The links of all sessions that are reached under some options allow positive distances only
exactly when the bounded distance of the options is positive. -/
theorem links_valid_iff_boundedGap_pos (options : SessionOptions) :
    (∀ session : Session, session.Reachable → session.options = options →
      ∀ entry ∈ session.motif.entries, ∀ link, entry.link = some link → link.isValid) ↔
        1 ≤ options.boundedGap := by
  constructor
  · intro valid
    obtain ⟨-, -, session, -, -, -, reachable, kept, entry, here, isLink⟩ :=
      exists_toggled_twice options
    simpa [Link.isValid] using
      valid session reachable kept entry (List.mem_of_getElem? here) _ isLink
  · rintro positive session reachable rfl entry member link isLink
    obtain ⟨links, linked, fitting⟩ := reachable.exists_linkedBy
    rcases fitting link (linked.mem_of_link_eq_some member isLink) with valid | rfl
    · exact valid
    · simpa [Link.isValid] using positive

/-- Where the options set a bounded distance of zero, a link that is switched twice allows no
distance. -/
theorem link_invalid_toggled_twice : ∃ opened once twice : Session,
    start [⟨"m", .string⟩] [.content] [["a"], ["b"]] { boundedGap := 0 } = .ok opened ∧
      opened.apply (.toggleLink 0) = .ok (.updated once) ∧
      once.apply (.toggleLink 0) = .ok (.updated twice) ∧
      twice.Reachable ∧ ∃ entry, twice.motif.entries[0]? = some entry ∧
        entry.link = some (.atMost 0) ∧ (Link.atMost 0).isValid = false := by
  obtain ⟨opened, once, twice, isOpened, isOnce, isTwice, reachable, -, entry, here, isLink⟩ :=
    exists_toggled_twice { boundedGap := 0 }
  exact ⟨opened, once, twice, isOpened, isOnce, isTwice, reachable, entry, here, isLink, rfl⟩

end Session

end LogMotif
