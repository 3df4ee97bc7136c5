import ChessStack.Library.Protocol
import ChessStack.Tournament.Bracket

/-!
# The protocol of the tournament tables

Library `Tournament`. What always holds of the tables that
`Chess-Backend/src/models/Tournament.js` writes, what each transaction does to them, and that
every transaction keeps it.
-/

namespace ChessStack.Tournament

open ChessStack.Library

/-! ### Added matches -/

/-- The rows are inserted one after the other, each under a new id. -/
inductive Adds : Db → List MatchRow → Db → Prop
  | nil {d : Db} : Adds d [] d
  | cons {d d' : Db} {row : MatchRow} {rows : List MatchRow} : d.match? row.id = none →
      Adds (d.apply (.addMatch row)) rows d' → Adds d (row :: rows) d'

namespace Adds

variable {d d' : Db} {rows : List MatchRow}

/-- New matches leave the tournaments. -/
theorem tournament? (h : Adds d rows d') (t : Nat) : d'.tournament? t = d.tournament? t := by
  induction h with
  | nil => rfl
  | cons _ _ ih => exact ih

/-- New matches leave the entrants. -/
theorem entrants (h : Adds d rows d') (t : Nat) : d'.entrants t = d.entrants t := by
  induction h with
  | nil => rfl
  | cons _ _ ih => exact ih

/-- New matches leave the users. -/
theorem users (h : Adds d rows d') : d'.users = d.users := by
  induction h with
  | nil => rfl
  | cons _ _ ih => exact ih

/-- New matches leave the index of the other tournaments. -/
theorem index_of_ne (h : Adds d rows d') {t u : Nat} (hrows : ∀ m ∈ rows, m.tournamentId = t)
    (hne : u ≠ t) : d'.index u = d.index u := by
  induction h with
  | nil => rfl
  | @cons d d' row rows _ _ ih =>
    rw [ih fun m hm ↦ hrows m (List.mem_cons_of_mem _ hm), Db.index_addMatch,
      hrows row List.mem_cons_self, if_neg hne]

/-- New matches come last in the index of their tournament. -/
theorem index (h : Adds d rows d') {t : Nat} (hrows : ∀ m ∈ rows, m.tournamentId = t) :
    d'.index t = d.index t ++ rows.map MatchRow.entry := by
  induction h with
  | nil => exact (List.append_nil _).symm
  | @cons d d' row rows _ _ ih =>
    rw [ih fun m hm ↦ hrows m (List.mem_cons_of_mem _ hm), Db.index_addMatch,
      hrows row List.mem_cons_self, if_pos rfl, List.append_assoc]
    rfl

/-- New matches leave the old ones. -/
theorem match?_of_some (h : Adds d rows d') {id : Nat} {m : MatchRow} (hm : d.match? id = some m) :
    d'.match? id = some m := by
  induction h with
  | nil => exact hm
  | @cons d d' row rows hnew _ ih =>
    apply ih
    rw [Db.match?_addMatch, if_neg, hm]
    rintro rfl
    rw [hnew] at hm
    cases hm

/-- New matches were not there, and are found. -/
theorem fresh (h : Adds d rows d') {m : MatchRow} (hm : m ∈ rows) :
    d.match? m.id = none ∧ d'.match? m.id = some m := by
  induction h with
  | nil => cases hm
  | @cons d d' row rows hnew hrest ih =>
    rcases List.mem_cons.mp hm with rfl | hm
    · refine ⟨hnew, hrest.match?_of_some ?_⟩
      rw [Db.match?_addMatch, if_pos rfl]
    · obtain ⟨hnone, hsome⟩ := ih hm
      rw [Db.match?_addMatch] at hnone
      split at hnone
      · cases hnone
      · exact ⟨hnone, hsome⟩

/-- No two new matches have one id. -/
theorem nodup (h : Adds d rows d') : (rows.map MatchRow.id).Nodup := by
  induction h with
  | nil => exact List.nodup_nil
  | @cons d d' row rows hnew hrest ih =>
    rw [List.map_cons, List.nodup_cons]
    refine ⟨?_, ih⟩
    intro hmem
    obtain ⟨m, hm, hid⟩ := List.mem_map.mp hmem
    have hnone := (hrest.fresh hm).1
    rw [Db.match?_addMatch, if_pos hid] at hnone
    cases hnone

/-- A match of the new tables is one of the new rows, or an old one. -/
theorem cases_match? (h : Adds d rows d') {id : Nat} {m : MatchRow} (hm : d'.match? id = some m) :
    (m ∈ rows ∧ m.id = id) ∨ d.match? id = some m := by
  induction h with
  | nil => exact Or.inr hm
  | @cons d d' row rows _ _ ih =>
    obtain ⟨hmem, hid⟩ | hold := ih hm
    · exact Or.inl ⟨List.mem_cons_of_mem _ hmem, hid⟩
    · rw [Db.match?_addMatch] at hold
      split at hold
      · next hid =>
        obtain rfl := Option.some.inj hold
        exact Or.inl ⟨List.mem_cons_self, hid.symm⟩
      · exact Or.inr hold

end Adds

/-- The rows a loop inserts, from a position on. -/
def rowsFrom (row : Nat → Option Nat × Option Nat → MatchRow) :
    List (Option Nat × Option Nat) → Nat → List MatchRow
  | [], _ => []
  | pair :: rest, position => row position pair :: rowsFrom row rest (position + 1)

section Rows

variable {row : Nat → Option Nat × Option Nat → MatchRow} {pairs : List (Option Nat × Option Nat)}

/-- A row for every pair. -/
theorem length_rowsFrom (p : Nat) : (rowsFrom row pairs p).length = pairs.length := by
  induction pairs generalizing p with
  | nil => rfl
  | cons pair rest ih => rw [rowsFrom, List.length_cons, List.length_cons, ih]

/-- The pairs of the rows. -/
theorem pairs_rowsFrom (hrow : ∀ p pair, (row p pair).pair = pair) (p : Nat) :
    (rowsFrom row pairs p).map MatchRow.pair = pairs := by
  induction pairs generalizing p with
  | nil => rfl
  | cons pair rest ih => rw [rowsFrom, List.map_cons, hrow, ih]

/-- The rows are numbered in order. -/
theorem positions_rowsFrom (hrow : ∀ p pair, (row p pair).position = p) (p : Nat) :
    (rowsFrom row pairs p).map MatchRow.position = List.range' p pairs.length := by
  induction pairs generalizing p with
  | nil => rfl
  | cons pair rest ih => rw [rowsFrom, List.map_cons, hrow, ih, List.length_cons, List.range'_succ]

/-- A row is that of a pair. -/
theorem mem_rowsFrom {p : Nat} {m : MatchRow} (h : m ∈ rowsFrom row pairs p) :
    ∃ q, ∃ pair ∈ pairs, m = row q pair := by
  induction pairs generalizing p with
  | nil => cases h
  | cons pair rest ih =>
    rcases List.mem_cons.mp h with rfl | h
    · exact ⟨p, pair, List.mem_cons_self, rfl⟩
    · obtain ⟨q, pair', hpair', hm⟩ := ih h
      exact ⟨q, pair', List.mem_cons_of_mem _ hpair', hm⟩

end Rows

/-! ### Runs -/

section Runs

variable {d d' : Db}

/-- What a statement that did not fail answered. -/
theorem exec_of_run_sql {stmt : Stmt} {a : Ans stmt}
    (h : backend.run (sql stmt) d = some (a, d')) :
    ∃ cs, exec stmt d = some (cs, a) ∧ d' = backend.applyAll d cs := by
  rw [sql, Database.run_stmt, Option.map_eq_some_iff] at h
  obtain ⟨⟨cs, a'⟩, hexec, heq⟩ := h
  obtain ⟨rfl, rfl⟩ := Prod.mk.inj heq
  exact ⟨cs, hexec, rfl⟩

/-- The row of a tournament. -/
theorem run_lockTournament (t : Nat) (d : Db) :
    backend.run (lockTournament t) d = some (d.tournament? t, d) := rfl

/-- The row of a match. -/
theorem run_lockMatch (id : Nat) (d : Db) : backend.run (lockMatch id) d = some (d.match? id, d) := rfl

/-- The rows of a round. -/
theorem run_lockRound (t r : Nat) (d : Db) :
    backend.run (lockRound t r) d = some (d.roundOf t r, d) := rfl

/-- Whether a user has entered. -/
theorem run_findEntrant (t u : Nat) (d : Db) : backend.run (findEntrant t u) d =
    some (((d.entrants t).filter (·.userId == u)).length, d) := rfl

/-- How many have entered. -/
theorem run_countEntrants (t : Nat) (d : Db) :
    backend.run (countEntrants t) d = some ((d.entrants t).length, d) := rfl

/-- Who has entered, in order. -/
theorem run_playersOf (t : Nat) (d : Db) : backend.run (playersOf t) d =
    some ((((d.entrants t).insertionSort fun e e' ↦ e.joinedAt ≤ e'.joinedAt).map
      Entrant.userId).filter d.users.contains, d) := rfl

/-- An entrant is inserted into an open tournament with room, once. -/
theorem run_insertEntrant {t u now n : Nat} (h : backend.run (insertEntrant t u now) d =
    some (n, d')) : ∃ row, d.tournament? t = some row ∧ row.status = .open_ ∧
      (d.entrants t).length < row.maxPlayers ∧ (∀ e ∈ d.entrants t, e.userId ≠ u) ∧
      u ∈ d.users ∧ n = 1 ∧ d' = d.apply (.addEntrant t ⟨u, now⟩) := by
  obtain ⟨cs, hexec, rfl⟩ := exec_of_run_sql h
  simp only [exec] at hexec
  split at hexec
  · cases hexec
  · next row hrow =>
    split at hexec
    · cases hexec
    · next hopen =>
      split at hexec
      · cases hexec
      · next hroom =>
        split at hexec
        · cases hexec
        · next hnew =>
          split at hexec
          · next huser =>
            obtain ⟨rfl, rfl⟩ := Prod.mk.inj (Option.some.inj hexec)
            refine ⟨row, hrow, not_not.mp hopen, Nat.lt_of_not_le hroom, ?_,
              List.contains_iff_mem.mp huser, rfl, rfl⟩
            intro e he heq
            apply hnew
            rw [List.any_eq_true]
            exact ⟨e, he, beq_iff_eq.mpr heq⟩
          · cases hexec

private theorem run_insertMatch {row : MatchRow} {n : Nat} (h : backend.run (insertMatch row) d =
    some (n, d')) : d.match? row.id = none ∧ d' = d.apply (.addMatch row) := by
  obtain ⟨cs, hexec, rfl⟩ := exec_of_run_sql h
  simp only [exec] at hexec
  split at hexec
  · cases hexec
  · next hfree =>
    split at hexec
    · obtain ⟨rfl, -⟩ := Prod.mk.inj (Option.some.inj hexec)
      rw [Bool.or_eq_true, not_or, Option.not_isSome_iff_eq_none] at hfree
      exact ⟨hfree.1, rfl⟩
    · cases hexec

private theorem run_insertNext {row : MatchRow} {n : Nat} (h : backend.run (insertNext row) d =
    some (n, d')) : (d.slotTaken row = true ∧ d' = d) ∨
      (d.slotTaken row = false ∧ d.match? row.id = none ∧ d' = d.apply (.addMatch row)) := by
  obtain ⟨cs, hexec, rfl⟩ := exec_of_run_sql h
  simp only [exec] at hexec
  split at hexec
  · next htaken =>
    obtain ⟨rfl, -⟩ := Prod.mk.inj (Option.some.inj hexec)
    exact Or.inl ⟨htaken, rfl⟩
  · next hfree =>
    split at hexec
    · cases hexec
    · next hnew =>
      split at hexec
      · obtain ⟨rfl, -⟩ := Prod.mk.inj (Option.some.inj hexec)
        exact Or.inr ⟨Bool.eq_false_iff.mpr hfree, Option.not_isSome_iff_eq_none.mp hnew, rfl⟩
      · cases hexec

private theorem updateTournament_cases {t : Nat} {status : Status}
    {new : TournamentRow → TournamentRow}
    {cs : List Change} (h : updateTournament d t status new = (cs, 1)) :
    ∃ row, d.tournament? t = some row ∧ row.status = status ∧ cs = [.putTournament t (new row)] := by
  unfold updateTournament at h
  split at h
  · next row hrow =>
    split at h
    · next hstatus => exact ⟨row, hrow, hstatus, (Prod.mk.inj h).1.symm⟩
    · cases h
  · cases h

/-- An open tournament starts. -/
theorem run_startTournament {t : Nat} (h : backend.run (startTournament t) d =
    some ((1 : Nat), d')) : ∃ row, d.tournament? t = some row ∧ row.status = .open_ ∧
      d' = d.apply (.putTournament t { row with status := .inProgress }) := by
  obtain ⟨cs, hexec, rfl⟩ := exec_of_run_sql h
  obtain ⟨row, hrow, hstatus, rfl⟩ := updateTournament_cases (Option.some.inj hexec)
  exact ⟨row, hrow, hstatus, rfl⟩

/-- A tournament in progress is finished. -/
theorem run_finishTournament {t : Nat} {winner : Option Nat}
    (h : backend.run (finishTournament t winner) d = some ((1 : Nat), d')) :
    ∃ row, d.tournament? t = some row ∧ row.status = .inProgress ∧
      d' = d.apply (.putTournament t { row with status := .finished, winnerId := winner }) := by
  obtain ⟨cs, hexec, rfl⟩ := exec_of_run_sql h
  simp only [exec] at hexec
  split at hexec
  · obtain ⟨row, hrow, hstatus, rfl⟩ := updateTournament_cases (Option.some.inj hexec)
    exact ⟨row, hrow, hstatus, rfl⟩
  · cases hexec

/-- A pending match is resolved. -/
theorem run_setResult {id winner : Nat} (h : backend.run (setResult id winner) d =
    some ((1 : Nat), d')) : ∃ row, d.match? id = some row ∧ row.status = .pending ∧
      d' = d.apply (.resolve id winner) := by
  obtain ⟨cs, hexec, rfl⟩ := exec_of_run_sql h
  simp only [exec] at hexec
  split at hexec
  · next row hrow =>
    split at hexec
    · next hpending =>
      split at hexec
      · obtain ⟨rfl, -⟩ := Prod.mk.inj (Option.some.inj hexec)
        exact ⟨row, hrow, hpending, rfl⟩
      · cases hexec
    · cases hexec
  · cases hexec

/-- The loop of `start` inserted every match of the first round. -/
theorem insertBracket_run {t : Nat} {ids : Nat → Nat} {pairs : List (Option Nat × Option Nat)}
    {p : Nat} (h : backend.run (insertBracket t ids pairs p) d = some ((), d')) :
    Adds d (rowsFrom (firstMatch t ids) pairs p) d' := by
  induction pairs generalizing p d with
  | nil =>
    obtain ⟨-, rfl⟩ := Prod.mk.inj (Option.some.inj h)
    exact .nil
  | cons pair rest ih =>
    rw [insertBracket, Database.run_bind, Option.bind_eq_some_iff] at h
    obtain ⟨⟨inserted, d₁⟩, hinsert, h⟩ := h
    obtain ⟨hnew, rfl⟩ := run_insertMatch hinsert
    split at h
    · cases h
    · exact .cons hnew (ih h)

/-- The loop of `advanceRound` on a round that exists inserts nothing. -/
theorem insertNextRound_taken {t r : Nat} {ids : Nat → Nat}
    {pairs : List (Option Nat × Option Nat)} {p : Nat}
    (htaken : ∀ q, p ≤ q → q < p + pairs.length →
      (d.index t).any (fun e ↦ e.round == r + 1 && e.position == q) = true)
    (h : backend.run (insertNextRound t r ids pairs p) d = some ((), d')) : d' = d := by
  induction pairs generalizing p with
  | nil =>
    obtain ⟨-, rfl⟩ := Prod.mk.inj (Option.some.inj h)
    rfl
  | cons pair rest ih =>
    rw [insertNextRound, Database.run_bind, Option.bind_eq_some_iff] at h
    obtain ⟨⟨inserted, d₁⟩, hinsert, h⟩ := h
    rw [List.length_cons] at htaken
    obtain ⟨-, rfl⟩ | ⟨hfree, -⟩ := run_insertNext hinsert
    · exact ih (fun q hle hlt ↦ htaken q (by omega) (by omega)) h
    · have hslot := htaken p le_rfl (by omega)
      rw [show (d.index t).any (fun e ↦ e.round == r + 1 && e.position == p) = false from hfree]
        at hslot
      cases hslot

/-- On a round that does not exist it inserts every match. -/
theorem insertNextRound_fresh {t r : Nat} {ids : Nat → Nat}
    {pairs : List (Option Nat × Option Nat)} {p : Nat}
    (hfree : ∀ e ∈ d.index t, e.round = r + 1 → e.position < p)
    (h : backend.run (insertNextRound t r ids pairs p) d = some ((), d')) :
    Adds d (rowsFrom (nextMatch t r ids) pairs p) d' := by
  induction pairs generalizing p d with
  | nil =>
    obtain ⟨-, rfl⟩ := Prod.mk.inj (Option.some.inj h)
    exact .nil
  | cons pair rest ih =>
    rw [insertNextRound, Database.run_bind, Option.bind_eq_some_iff] at h
    obtain ⟨⟨inserted, d₁⟩, hinsert, h⟩ := h
    obtain ⟨htaken, -⟩ | ⟨-, hnew, rfl⟩ := run_insertNext hinsert
    · obtain ⟨e, he, heq⟩ := List.any_eq_true.mp htaken
      rw [Bool.and_eq_true, beq_iff_eq, beq_iff_eq] at heq
      have hlt := hfree e he heq.1
      rw [heq.2] at hlt
      exact absurd hlt (Nat.lt_irrefl p)
    · refine .cons hnew (ih ?_ h)
      intro e he hround
      rw [Db.index_addMatch] at he
      rw [if_pos (show t = (nextMatch t r ids p pair).tournamentId from rfl), List.mem_append,
        List.mem_singleton] at he
      rcases he with he | rfl
      · have hlt := hfree e he hround
        omega
      · exact Nat.lt_succ_self p

end Runs

end ChessStack.Tournament
