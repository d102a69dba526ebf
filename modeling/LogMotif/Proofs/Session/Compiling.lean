import LogMotif.Proofs.Query.Compilation
import LogMotif.Proofs.Session.Links

/-! # Every reachable session compiles

No edit takes away the last entry, and those that are left fit the columns and agree with the
wildcards. So compiling the motif of a reachable session does not fail.
-/

namespace LogMotif

namespace Session

variable {session : Session}

theorem Reachable.entries_ne_nil (reachable : session.Reachable) : session.motif.entries ≠ [] := by
  obtain ⟨links, linked, -⟩ := reachable.exists_linkedBy
  exact linked.ne_nil

/-- What a reachable session compiles to, if its roles cover the headers. -/
theorem Reachable.compile_eq_ok (reachable : session.Reachable)
    (covered : session.headers.length = session.roles.length) :
    session.compile = .ok {
      entries := Query.templates session.headers session.roles [] session.motif.entries
      links := session.motif.entries.dropLast.map fun entry => entry.link.getD .any
      wildcardCount := session.motif.wildcards.length
      budget := session.options.budget } := by
  have sound := reachable.sound
  exact Query.compile_eq_ok_iff.mpr ⟨covered, reachable.entries_ne_nil,
    fun entry member => (sound.shaped entry member).cells_length,
    inconsistency?_eq_none sound.shaped sound.booked, rfl⟩

end Session

end LogMotif
