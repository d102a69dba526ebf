import Mathlib
import LogMotif.CommandLine.Command
import LogMotif.Proofs.Outcomes

/-! # Walking round the matches

A search puts the cursor on the first match. Moves forward and backward, in whatever order, then
take it as far round the list of matches as there are more of the one than of the other, and change
nothing else. A signed number of steps is so many moves in one direction, and the command line
reports the match that it ends at.
-/

namespace LogMotif

/-- A move of the cursor. -/
inductive Move where
  | next
  | previous
deriving DecidableEq, Repr

namespace Move

/-- How far a move goes forward. -/
def amount : Move → Int
  | next => 1
  | previous => -1

/-- How far moves go forward all together. -/
def net (moves : List Move) : Int := moves.count next - moves.count previous

private theorem net_cons (move : Move) (moves : List Move) :
    net (move :: moves) = move.amount + net moves := by
  cases move <;> simp [net, amount] <;> omega

private theorem net_replicate (count : Nat) (move : Move) :
    net (List.replicate count move) = count * move.amount := by
  cases move <;> simp [net, amount, List.count_replicate]

end Move

namespace Cursor

/-- The cursor that is so many steps from the first of the matches, counted round their list. -/
def away (total : Nat) (steps : Int) : Cursor where
  current := if total = 0 then none else some (steps % total).toNat
  total := total

/-- The cursor after a move. -/
def move (cursor : Cursor) : Move → Cursor
  | .next => cursor.next
  | .previous => cursor.previous

variable {total : Nat} {steps : Int}

private theorem away_zero (total : Nat) : away total 0 = start total := by
  simp [away, start]

/-- Where there are matches, the cursor is on the one whose number is the remainder. -/
private theorem away_eq_of_emod_eq (index : Nat) (filled : 0 < total)
    (same : steps % total = index) :
    away total steps = ⟨some index, total⟩ := by
  rw [away, if_neg (Nat.ne_of_gt filled), same, Int.toNat_natCast]

/-- A move goes one step further round, also from one end of the list to the other. -/
private theorem move_away (total : Nat) (steps : Int) (move : Move) :
    (away total steps).move move = away total (steps + move.amount) := by
  rcases Nat.eq_zero_or_pos total with rfl | filled
  · cases move <;> rfl
  have nonneg := Int.emod_nonneg steps (Int.natCast_ne_zero.mpr (Nat.ne_of_gt filled))
  obtain ⟨index, here⟩ := Int.eq_ofNat_of_zero_le nonneg
  have below : index < total := by
    have := Int.emod_lt_of_pos steps (Int.natCast_pos.mpr filled)
    omega
  have further : (steps + move.amount) % total = (index + move.amount) % total := by
    rw [← here, Int.emod_add_emod]
  rw [away_eq_of_emod_eq index filled here]
  cases move with
  | next =>
    refine (away_eq_of_emod_eq (if index + 1 < total then index + 1 else 0) filled ?_).symm
    rw [further, Move.amount]
    split
    next inside => exact Int.emod_eq_of_lt (by omega) (by omega)
    next last =>
      have whole : (index : Int) + 1 = total := by omega
      rw [whole, Int.emod_self]
      rfl
  | previous =>
    refine (away_eq_of_emod_eq (if index = 0 then total - 1 else index - 1) filled ?_).symm
    rw [further, Move.amount]
    split
    next first =>
      rw [Int.emod_eq_add_self_emod]
      exact (Int.emod_eq_of_lt (by omega) (by omega)).trans (by omega)
    next => exact (Int.emod_eq_of_lt (by omega) (by omega)).trans (by omega)

end Cursor

namespace Session

/-- The session after a move of the cursor. -/
def move (session : Session) : Move → Session
  | .next => session.nextMatch
  | .previous => session.previousMatch

/-- The session after moves of the cursor, in their order. -/
def walk (session : Session) (moves : List Move) : Session := moves.foldl move session

/-- The session with matches as its results, and the cursor so many steps from the first. -/
def showing (session : Session) (found : Matches) (steps : Int) : Session :=
  { session with results := some ⟨found, .away found.count steps⟩ }

variable {session fresh : Session} {corpus : Corpus} {found : Matches}

theorem move_showing (session : Session) (found : Matches) (steps : Int) (move : Move) :
    (session.showing found steps).move move = session.showing found (steps + move.amount) := by
  have moved := Cursor.move_away found.count steps move
  cases move <;>
    exact congrArg (fun cursor => { session with results := some ⟨found, cursor⟩ }) moved

/-- Moves go as far round as there are more of them in one direction than in the other. -/
theorem walk_showing (session : Session) (found : Matches) (steps : Int) (moves : List Move) :
    (session.showing found steps).walk moves = session.showing found (steps + Move.net moves) := by
  induction moves generalizing steps with
  | nil => simp [walk, Move.net]
  | cons move moves ih =>
    rw [walk, List.foldl_cons, move_showing, ← walk, ih, Move.net_cons, Int.add_assoc]

private theorem repeat_move (session : Session) (move : Move) (count : Nat) :
    Nat.repeat (Session.move · move) count session = session.walk (List.replicate count move) := by
  induction count with
  | zero => rfl
  | succ count ih =>
    rw [Nat.repeat, ih, List.replicate_succ', walk, walk, List.foldl_append]
    rfl

/-- A signed number of steps is so many moves in one direction. -/
private theorem step_eq_walk (session : Session) (steps : Int) : session.step steps =
    session.walk (List.replicate steps.natAbs (if 0 < steps then .next else .previous)) := by
  rw [← repeat_move, step]
  split <;> rfl

theorem step_showing (session : Session) (found : Matches) (steps : Int) :
    (session.showing found 0).step steps = session.showing found steps := by
  rw [step_eq_walk, walk_showing, Move.net_replicate]
  congr 1
  split
  next forward => simp only [Move.amount]; omega
  next backward => simp only [Move.amount]; omega

/-- A search leaves the cursor at no steps from the first of the matches that it found. -/
private theorem search_eq_ok_iff : session.search corpus = .ok fresh ↔ ∃ query,
    session.compile = .ok query ∧ fresh = session.showing (query.search corpus) 0 := by
  unfold search
  rw [bind_eq_ok_iff]
  simp only [showing, Cursor.away_zero, pure, Except.pure, Except.ok.injEq, eq_comm]

/-- What the command line prints for a number of steps is the report of the session after them. -/
theorem searchAndReport_eq {query : Query} (compiled : session.compile = .ok query)
    (searched : session.search corpus = .ok fresh) {log : Log} {roles : List ColumnRole}
    (written : log.corpus roles = .ok corpus) (steps : Int) :
    CommandLine.searchAndReport log roles session steps =
      .ok ((CommandLine.report query (fresh.step steps)).pretty ++ "\n") := by
  refine mapError_eq_ok_iff.mpr (bind_eq_ok_iff.mpr ⟨query, compiled, ?_⟩)
  exact bind_eq_ok_iff.mpr ⟨corpus, written, bind_eq_ok_iff.mpr ⟨fresh, searched, rfl⟩⟩

/-- Behind a search, moves in any order take the cursor to the difference of their numbers, counted
round the matches, and leave all else as it is. So do steps in one direction, and what the command
line prints for them. -/
theorem walk_and_step_of_search (searched : session.search corpus = .ok fresh) :
    ∃ query found, session.compile = .ok query ∧ found = query.search corpus ∧
      fresh.results = some ⟨found, .start found.count⟩ ∧
      (∀ moves : List Move, fresh.walk moves =
        fresh.showing found (moves.count .next - moves.count .previous)) ∧
      (∀ steps, fresh.step steps = fresh.showing found steps) ∧
      ∀ (log : Log) (roles : List ColumnRole), log.corpus roles = .ok corpus → ∀ steps,
        CommandLine.searchAndReport log roles session steps =
          .ok ((CommandLine.report query (fresh.showing found steps)).pretty ++ "\n") := by
  obtain ⟨query, compiled, rfl⟩ := search_eq_ok_iff.mp searched
  have stepped := step_showing session (query.search corpus)
  refine ⟨query, _, compiled, rfl, ?_, fun moves => ?_, stepped, fun log roles written steps => ?_⟩
  · rw [← Cursor.away_zero]
    rfl
  · rw [walk_showing, Int.zero_add]
    rfl
  · rw [searchAndReport_eq compiled searched written, stepped]
    rfl

/-- Three matches: two moves backward more than forward, from the first match to the one in the
middle, and seven steps backward, twice round and on to the last. -/
theorem walk_and_step_round_three_matches :
    let log : Log := ⟨[⟨"m", .string⟩], [["a"], ["b"], ["a"], ["a"]], []⟩
    ∃ (opened fresh : Session) (corpus : Corpus) (query : Query),
      start log.headers [.content] [["a"]] {} = .ok opened ∧ log.corpus [.content] = .ok corpus ∧
        opened.search corpus = .ok fresh ∧
        (fresh.walk [.previous, .next, .previous, .previous]).results =
          some ⟨⟨[[0], [2], [3]]⟩, ⟨some 1, 3⟩⟩ ∧
        (fresh.step (-7)).results = some ⟨⟨[[0], [2], [3]]⟩, ⟨some 2, 3⟩⟩ ∧
        CommandLine.searchAndReport log [.content] opened (-7) =
          .ok ((CommandLine.report query (fresh.step (-7))).pretty ++ "\n") := by
  intro log
  obtain ⟨opened, fresh, corpus, isOpened, isCorpus, isFresh, present⟩ :
      ∃ (opened fresh : Session) (corpus : Corpus),
        start log.headers [.content] [["a"]] {} = .ok opened ∧
        log.corpus [.content] = .ok corpus ∧ opened.search corpus = .ok fresh ∧
        fresh.results = some ⟨⟨[[0], [2], [3]]⟩, .start 3⟩ := ⟨_, _, _, rfl, rfl, rfl, by cbv⟩
  obtain ⟨query, found, -, -, isFound, walked, stepped, printed⟩ := walk_and_step_of_search isFresh
  obtain rfl : found = ⟨[[0], [2], [3]]⟩ :=
    congrArg Results.found (Option.some.inj (isFound.symm.trans present))
  refine ⟨opened, fresh, corpus, query, isOpened, isCorpus, isFresh, ?_, ?_, ?_⟩
  · rw [walked]
    rfl
  · rw [stepped]
    rfl
  · rw [stepped]
    exact printed log [.content] isCorpus (-7)

end Session

end LogMotif
