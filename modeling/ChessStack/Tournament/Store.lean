import ChessStack.Library.Session
import ChessStack.Tournament.Draw
import Mathlib.Data.List.Sort
import Mathlib.Logic.Function.Basic

/-!
# The tournament tables

Library `Tournament`. The tables of `Database/migrations/005_tournaments.sql` with the
constraints of `006_security_integrity.sql`, and the statements that
`Chess-Backend/src/models/Tournament.js` sends. Rows are looked up by primary key, and the
matches of a tournament through `idx_tourn_matches_tid`. The backend they form is `Lawful`.
-/

namespace ChessStack.Tournament

open ChessStack.Library

/-- `tournaments_status_check`. -/
inductive Status where
  | open_
  | inProgress
  | finished
  deriving DecidableEq, Repr

/-- `tournament_matches_status_check`. -/
inductive MatchStatus where
  | pending
  | bye
  | done
  deriving DecidableEq, Repr

/-- A row of `tournaments`. -/
structure TournamentRow where
  id : Nat
  name : String
  creatorId : Nat
  maxPlayers : Nat
  status : Status
  winnerId : Option Nat
  deriving DecidableEq, Repr

/-- A row of `tournament_players`. -/
structure Entrant where
  userId : Nat
  joinedAt : Nat
  deriving DecidableEq, Repr

/-- A row of `tournament_matches`. -/
structure MatchRow where
  id : Nat
  tournamentId : Nat
  round : Nat
  position : Nat
  player1 : Option Nat
  player2 : Option Nat
  winner : Option Nat
  status : MatchStatus
  deriving DecidableEq, Repr

/-- An entry of the index on the matches of a tournament, with what
`UNIQUE (tournament_id, round, position)` compares. -/
structure Entry where
  round : Nat
  position : Nat
  id : Nat
  deriving DecidableEq, Repr

/-- The entry of a match in the index of its tournament. -/
def MatchRow.entry (row : MatchRow) : Entry := ⟨row.round, row.position, row.id⟩

/-- The tables, each by its key; `users` are the ids of the existing accounts. -/
structure Db where
  tournament? : Nat → Option TournamentRow
  entrants : Nat → List Entrant
  index : Nat → List Entry
  match? : Nat → Option MatchRow
  users : List Nat

/-- `tournaments_max_players_check` and the column types. -/
def TournamentRow.valid (row : TournamentRow) : Bool :=
  row.name.length ≤ 80 && [4, 8, 16].contains row.maxPlayers

/-! ### Changes -/

/-- What a statement does to the tables. -/
inductive Change where
  | putTournament (id : Nat) (row : TournamentRow)
  | addEntrant (tournamentId : Nat) (entrant : Entrant)
  | addMatch (row : MatchRow)
  | resolve (id : Nat) (winner : Nat)

/-- The version of a match a report makes. -/
def MatchRow.resolved (row : MatchRow) (winner : Nat) : MatchRow :=
  { row with winner := some winner, status := .done }

/-- The tables after a change. -/
def Db.apply (d : Db) : Change → Db
  | .putTournament id row => { d with tournament? := Function.update d.tournament? id (some row) }
  | .addEntrant t entrant =>
    { d with entrants := Function.update d.entrants t (d.entrants t ++ [entrant]) }
  | .addMatch row => { d with
      match? := Function.update d.match? row.id (some row)
      index := Function.update d.index row.tournamentId (d.index row.tournamentId ++ [row.entry]) }
  | .resolve id winner =>
    { d with match? := Function.update d.match? id ((d.match? id).map (·.resolved winner)) }

section Apply

variable (d : Db) (t id : Nat)

/-- The tournaments after a row was put. -/
@[simp] theorem Db.tournament?_putTournament (row : TournamentRow) :
    (d.apply (.putTournament id row)).tournament? t =
      if t = id then some row else d.tournament? t := Function.update_apply ..

/-- An entrant leaves the tournaments. -/
@[simp] theorem Db.tournament?_addEntrant (u : Nat) (entrant : Entrant) :
    (d.apply (.addEntrant u entrant)).tournament? t = d.tournament? t := rfl

/-- A match leaves the tournaments. -/
@[simp] theorem Db.tournament?_addMatch (row : MatchRow) :
    (d.apply (.addMatch row)).tournament? t = d.tournament? t := rfl

/-- A result leaves the tournaments. -/
@[simp] theorem Db.tournament?_resolve (winner : Nat) :
    (d.apply (.resolve id winner)).tournament? t = d.tournament? t := rfl

/-- A row leaves the entrants. -/
@[simp] theorem Db.entrants_putTournament (row : TournamentRow) :
    (d.apply (.putTournament id row)).entrants t = d.entrants t := rfl

/-- The entrants after one has entered. -/
@[simp] theorem Db.entrants_addEntrant (u : Nat) (entrant : Entrant) :
    (d.apply (.addEntrant u entrant)).entrants t =
      if t = u then d.entrants u ++ [entrant] else d.entrants t := Function.update_apply ..

/-- A match leaves the entrants. -/
@[simp] theorem Db.entrants_addMatch (row : MatchRow) :
    (d.apply (.addMatch row)).entrants t = d.entrants t := rfl

/-- A result leaves the entrants. -/
@[simp] theorem Db.entrants_resolve (winner : Nat) :
    (d.apply (.resolve id winner)).entrants t = d.entrants t := rfl

/-- A row leaves the index. -/
@[simp] theorem Db.index_putTournament (row : TournamentRow) :
    (d.apply (.putTournament id row)).index t = d.index t := rfl

/-- An entrant leaves the index. -/
@[simp] theorem Db.index_addEntrant (u : Nat) (entrant : Entrant) :
    (d.apply (.addEntrant u entrant)).index t = d.index t := rfl

/-- The index after a match was added. -/
@[simp] theorem Db.index_addMatch (row : MatchRow) : (d.apply (.addMatch row)).index t =
    if t = row.tournamentId then d.index row.tournamentId ++ [row.entry] else d.index t :=
  Function.update_apply ..

/-- A result leaves the index. -/
@[simp] theorem Db.index_resolve (winner : Nat) :
    (d.apply (.resolve id winner)).index t = d.index t := rfl

/-- A row leaves the matches. -/
@[simp] theorem Db.match?_putTournament (row : TournamentRow) :
    (d.apply (.putTournament t row)).match? id = d.match? id := rfl

/-- An entrant leaves the matches. -/
@[simp] theorem Db.match?_addEntrant (u : Nat) (entrant : Entrant) :
    (d.apply (.addEntrant u entrant)).match? id = d.match? id := rfl

/-- The matches after one was added. -/
@[simp] theorem Db.match?_addMatch (row : MatchRow) : (d.apply (.addMatch row)).match? id =
    if id = row.id then some row else d.match? id := Function.update_apply ..

/-- The matches after a result. -/
@[simp] theorem Db.match?_resolve (id' winner : Nat) : (d.apply (.resolve id' winner)).match? id =
    if id = id' then (d.match? id').map (·.resolved winner) else d.match? id :=
  Function.update_apply ..

@[simp] private theorem Db.users_apply (c : Change) : (d.apply c).users = d.users := by
  cases c <;> rfl

end Apply

/-! ### Statements -/

/-- The statements, by their SQL. -/
inductive Stmt where
  /-- `SELECT * FROM tournaments WHERE id=$1 FOR UPDATE` -/
  | lockTournament (id : Nat)
  /-- `INSERT INTO tournaments (…) VALUES (…,'open') RETURNING *` -/
  | insertTournament (row : TournamentRow)
  /-- `SELECT id FROM tournament_players WHERE tournament_id=$1 AND user_id=$2`, its row count. -/
  | findEntrant (tournamentId userId : Nat)
  /-- `SELECT COUNT(*)::int AS count FROM tournament_players WHERE tournament_id=$1` -/
  | countEntrants (tournamentId : Nat)
  /-- `INSERT INTO tournament_players (…) VALUES ($1,$2) RETURNING id`, behind
  `enforce_tournament_capacity`; `now` is the default of `joined_at`. -/
  | insertEntrant (tournamentId userId now : Nat)
  /-- `SELECT u.id FROM tournament_players tp JOIN users u ON u.id=tp.user_id
  WHERE tp.tournament_id=$1 ORDER BY tp.joined_at FOR UPDATE OF tp` -/
  | playersOf (tournamentId : Nat)
  /-- `INSERT INTO tournament_matches (…) VALUES (…) RETURNING id` -/
  | insertMatch (row : MatchRow)
  /-- The same with `ON CONFLICT (tournament_id,round,position) DO NOTHING`. -/
  | insertNext (row : MatchRow)
  /-- `UPDATE tournaments SET status='in_progress',… WHERE id=$1 AND status='open'` -/
  | startTournament (id : Nat)
  /-- `UPDATE tournaments SET status='finished',winner_id=$2,…
  WHERE id=$1 AND status='in_progress'` -/
  | finishTournament (id : Nat) (winner : Option Nat)
  /-- `SELECT * FROM tournament_matches WHERE id=$1 FOR UPDATE` -/
  | lockMatch (id : Nat)
  /-- `UPDATE tournament_matches SET winner_id=$2,status='done'
  WHERE id=$1 AND status='pending'` -/
  | setResult (id winner : Nat)
  /-- `SELECT * FROM tournament_matches WHERE tournament_id=$1 AND round=$2
  ORDER BY position FOR UPDATE` -/
  | lockRound (tournamentId round : Nat)

/-- What a statement answers: rows, or the number of rows it affected. -/
def Ans : Stmt → Type
  | .lockTournament _ => Option TournamentRow
  | .insertTournament _ => TournamentRow
  | .findEntrant .. => Nat
  | .countEntrants _ => Nat
  | .insertEntrant .. => Nat
  | .playersOf _ => List Nat
  | .insertMatch _ => Nat
  | .insertNext _ => Nat
  | .startTournament _ => Nat
  | .finishTournament .. => Nat
  | .lockMatch _ => Option MatchRow
  | .setResult .. => Nat
  | .lockRound .. => List MatchRow

/-- A lockable row. The rows of `tournament_players` and the index entries of a tournament are
written only by who holds its row. -/
inductive Key where
  | tournament (id : Nat)
  | match_ (id : Nat)
  deriving DecidableEq

/-- What a key gives access to. -/
inductive Cell where
  | tournament (row : Option TournamentRow) (entrants : List Entrant) (index : List Entry)
  | match_ (row : Option MatchRow)

/-- What the tables hold under a key. -/
def Db.cell (d : Db) : Key → Cell
  | .tournament id => .tournament (d.tournament? id) (d.entrants id) (d.index id)
  | .match_ id => .match_ (d.match? id)

/-- The index entries of a round, by position. -/
def Db.roundEntries (d : Db) (t round : Nat) : List Entry :=
  ((d.index t).filter (·.round == round)).insertionSort fun e e' ↦ e.position ≤ e'.position

/-- The matches of a round, by position. -/
def Db.roundOf (d : Db) (t round : Nat) : List MatchRow :=
  (d.roundEntries t round).filterMap fun e ↦ d.match? e.id

/-- The row locks of a statement. -/
def locks : Stmt → Db → List Key
  | .lockTournament id, _ => [.tournament id]
  | .insertTournament row, _ => [.tournament row.id]
  | .findEntrant id _, _ => [.tournament id]
  | .countEntrants id, _ => [.tournament id]
  | .insertEntrant id _ _, _ => [.tournament id]
  | .playersOf id, _ => [.tournament id]
  | .insertMatch row, _ => [.tournament row.tournamentId, .match_ row.id]
  | .insertNext row, _ => [.tournament row.tournamentId, .match_ row.id]
  | .startTournament id, _ => [.tournament id]
  | .finishTournament id _, _ => [.tournament id]
  | .lockMatch id, _ => [.match_ id]
  | .setResult id _, _ => [.match_ id]
  | .lockRound id round, d =>
    .tournament id :: (d.roundEntries id round).map fun e ↦ .match_ e.id

/-- The foreign keys of a match. -/
def Db.refers (d : Db) (row : MatchRow) : Bool :=
  (d.tournament? row.tournamentId).isSome &&
    [row.player1, row.player2, row.winner].reduceOption.all d.users.contains

/-- `UNIQUE (tournament_id, round, position)` has an entry for the match. -/
def Db.slotTaken (d : Db) (row : MatchRow) : Bool :=
  (d.index row.tournamentId).any fun e ↦ e.round == row.round && e.position == row.position

/-- The changes and the row count of an `UPDATE tournaments … WHERE id AND status`. -/
def updateTournament (d : Db) (id : Nat) (status : Status)
    (new : TournamentRow → TournamentRow) : List Change × Nat :=
  match d.tournament? id with
  | some row => if row.status = status then ([.putTournament id (new row)], 1) else ([], 0)
  | none => ([], 0)

/-- What a statement does, on the store it sees: its changes and its answer, or `none` when a
constraint, a foreign key or the trigger rejects it. -/
def exec : (stmt : Stmt) → Db → Option (List Change × Ans stmt)
  | .lockTournament id, d => some ([], d.tournament? id)
  | .insertTournament row, d =>
    if row.valid && d.users.contains row.creatorId && (d.tournament? row.id).isNone then
      some ([.putTournament row.id row], row)
    else none
  | .findEntrant id userId, d =>
    some ([], ((d.entrants id).filter (·.userId == userId)).length)
  | .countEntrants id, d => some ([], (d.entrants id).length)
  | .insertEntrant id userId now, d =>
    match d.tournament? id with
    | none => none
    | some row =>
      if row.status ≠ .open_ then none
      else if row.maxPlayers ≤ (d.entrants id).length then none
      else if (d.entrants id).any (·.userId == userId) then none
      else if d.users.contains userId then
        some ([.addEntrant id ⟨userId, now⟩], (1 : Nat))
      else none
  | .playersOf id, d =>
    some ([], (((d.entrants id).insertionSort fun e e' ↦ e.joinedAt ≤ e'.joinedAt).map
      Entrant.userId).filter d.users.contains)
  | .insertMatch row, d =>
    if (d.match? row.id).isSome || d.slotTaken row then none
    else if d.refers row then some ([.addMatch row], (1 : Nat))
    else none
  | .insertNext row, d =>
    if d.slotTaken row then some ([], (0 : Nat))
    else if (d.match? row.id).isSome then none
    else if d.refers row then some ([.addMatch row], (1 : Nat))
    else none
  | .startTournament id, d =>
    some (updateTournament d id .open_ fun row ↦ { row with status := .inProgress })
  | .finishTournament id winner, d =>
    let updated := updateTournament d id .inProgress fun row ↦
      { row with status := .finished, winnerId := winner }
    if updated.2 = 0 || winner.all d.users.contains then some updated else none
  | .lockMatch id, d => some ([], d.match? id)
  | .setResult id winner, d =>
    match d.match? id with
    | some row =>
      if row.status = .pending then
        (if d.users.contains winner then some ([.resolve id winner], (1 : Nat)) else none)
      else some ([], (0 : Nat))
    | none => some ([], (0 : Nat))
  | .lockRound id round, d => some ([], d.roundOf id round)

/-- The database of the tournaments. -/
def backend : Database Db Change Key Cell (List Nat) Stmt Ans where
  apply := Db.apply
  cell k d := d.cell k
  fixed := Db.users
  locks := locks
  exec := exec

/-! ### The backend is lawful -/

section Lawful

variable {d d' : Db} {held : List Key}

/-- A tournament is read from its row. -/
theorem tournament?_congr (h : backend.Agree held d d') {id : Nat} (hk : .tournament id ∈ held) :
    d.tournament? id = d'.tournament? id := (Cell.tournament.inj (h.cell _ hk)).1

private theorem entrants_congr (h : backend.Agree held d d') {id : Nat}
    (hk : .tournament id ∈ held) :
    d.entrants id = d'.entrants id := (Cell.tournament.inj (h.cell _ hk)).2.1

/-- The index of a tournament is read from its row. -/
theorem index_congr (h : backend.Agree held d d') {id : Nat} (hk : .tournament id ∈ held) :
    d.index id = d'.index id := (Cell.tournament.inj (h.cell _ hk)).2.2

/-- A match is read from its row. -/
theorem match?_congr (h : backend.Agree held d d') {id : Nat} (hk : .match_ id ∈ held) :
    d.match? id = d'.match? id := Cell.match_.inj (h.cell _ hk)

private theorem users_congr (h : backend.Agree held d d') : d.users = d'.users := h.fixed

private theorem roundEntries_congr (h : backend.Agree held d d') {id : Nat}
    (hk : .tournament id ∈ held)
    (round : Nat) : d.roundEntries id round = d'.roundEntries id round := by
  unfold Db.roundEntries
  rw [index_congr h hk]

private theorem updateTournament_congr {id : Nat} (h : d.tournament? id = d'.tournament? id)
    (status : Status) (new : TournamentRow → TournamentRow) :
    updateTournament d id status new = updateTournament d' id status new := by
  unfold updateTournament
  rw [h]

private theorem slotTaken_congr {row : MatchRow}
    (h : d.index row.tournamentId = d'.index row.tournamentId) :
    d.slotTaken row = d'.slotTaken row := by
  unfold Db.slotTaken
  rw [h]

private theorem refers_congr {row : MatchRow} (h : d.tournament? row.tournamentId =
    d'.tournament? row.tournamentId) (husers : d.users = d'.users) : d.refers row = d'.refers row := by
  unfold Db.refers
  rw [h, husers]

/-- What a statement does depends only on the rows it locks. -/
theorem exec_congr (stmt : Stmt) (d d' : Db) (h : backend.Agree (locks stmt d) d d') :
    exec stmt d = exec stmt d' := by
  have husers := users_congr h
  cases stmt with
  | lockTournament id => simp only [exec, tournament?_congr h List.mem_cons_self]
  | insertTournament row => simp only [exec, tournament?_congr h List.mem_cons_self, husers]
  | findEntrant id userId => simp only [exec, entrants_congr h List.mem_cons_self]
  | countEntrants id => simp only [exec, entrants_congr h List.mem_cons_self]
  | insertEntrant id userId now =>
    simp only [exec, tournament?_congr h List.mem_cons_self, entrants_congr h List.mem_cons_self,
      husers]
  | playersOf id => simp only [exec, entrants_congr h List.mem_cons_self, husers]
  | insertMatch row =>
    simp only [exec, match?_congr h (List.mem_cons_of_mem _ List.mem_cons_self),
      slotTaken_congr (index_congr h List.mem_cons_self),
      refers_congr (tournament?_congr h List.mem_cons_self) husers]
  | insertNext row =>
    simp only [exec, match?_congr h (List.mem_cons_of_mem _ List.mem_cons_self),
      slotTaken_congr (index_congr h List.mem_cons_self),
      refers_congr (tournament?_congr h List.mem_cons_self) husers]
  | startTournament id =>
    simp only [exec, updateTournament_congr (tournament?_congr h List.mem_cons_self)]
  | finishTournament id winner =>
    simp only [exec, updateTournament_congr (tournament?_congr h List.mem_cons_self), husers]
  | lockMatch id => simp only [exec, match?_congr h List.mem_cons_self]
  | setResult id winner => simp only [exec, match?_congr h List.mem_cons_self, husers]
  | lockRound id round =>
    have hround : d.roundOf id round = d'.roundOf id round := by
      unfold Db.roundOf
      rw [← roundEntries_congr h List.mem_cons_self round]
      apply List.filterMap_congr
      intro e he
      exact match?_congr h (List.mem_cons_of_mem _ (List.mem_map_of_mem he))
    simp only [exec, hround]

private theorem locks_congr (stmt : Stmt) (d d' : Db) (h : backend.Agree (locks stmt d) d d') :
    locks stmt d = locks stmt d' := by
  cases stmt with
  | lockRound id round => simp only [locks, roundEntries_congr h List.mem_cons_self round]
  | _ => rfl

/-- The keys whose cells a change writes. -/
def Change.keys : Change → List Key
  | .putTournament id _ => [.tournament id]
  | .addEntrant t _ => [.tournament t]
  | .addMatch row => [.tournament row.tournamentId, .match_ row.id]
  | .resolve id _ => [.match_ id]

private theorem cell_apply_of_not_mem {d : Db} {c : Change} {k : Key} (h : k ∉ c.keys) :
    (d.apply c).cell k = d.cell k := by
  cases c <;> cases k <;> simp_all [Change.keys, Db.cell]

private theorem cell_apply_congr (k : Key) (c : Change) (d d' : Db) (h : d.cell k = d'.cell k) :
    (d.apply c).cell k = (d'.apply c).cell k := by
  cases k with
  | tournament id =>
    obtain ⟨hrow, hentrants, hindex⟩ := Cell.tournament.inj h
    cases c <;> simp only [Db.cell, Db.tournament?_putTournament, Db.tournament?_addEntrant,
      Db.tournament?_addMatch, Db.tournament?_resolve, Db.entrants_putTournament,
      Db.entrants_addEntrant, Db.entrants_addMatch, Db.entrants_resolve, Db.index_putTournament,
      Db.index_addEntrant, Db.index_addMatch, Db.index_resolve, hrow, hentrants, hindex]
    · congr 1
      split
      · next heq => rw [← heq, hentrants]
      · rfl
    · congr 1
      split
      · next heq => rw [← heq, hindex]
      · rfl
  | match_ id =>
    have hrow := Cell.match_.inj h
    cases c <;> simp only [Db.cell, Db.match?_putTournament, Db.match?_addEntrant,
      Db.match?_addMatch, Db.match?_resolve, hrow]
    · congr 1
      split
      · next heq => rw [← heq, hrow]
      · rfl

private theorem cell_applyAll_of_not_mem {cs : List Change} {k : Key} (h : ∀ c ∈ cs, k ∉ c.keys) :
    (backend.applyAll d cs).cell k = d.cell k := by
  induction cs generalizing d with
  | nil => rfl
  | cons c cs ih =>
    exact (ih fun c' hc' ↦ h c' (List.mem_cons_of_mem _ hc')).trans
      (cell_apply_of_not_mem (h c List.mem_cons_self))

private theorem keys_updateTournament {id : Nat} {status : Status}
    {new : TournamentRow → TournamentRow} :
    ∀ c ∈ (updateTournament d id status new).1, c.keys = [.tournament id] := by
  intro c hc
  unfold updateTournament at hc
  split at hc
  · split at hc
    · rw [List.mem_singleton.mp hc, Change.keys]
    · cases hc
  · cases hc

/-- The changes of a statement write only what it locks. -/
theorem keys_exec {stmt : Stmt} {cs : List Change} {a : Ans stmt}
    (h : exec stmt d = some (cs, a)) : ∀ c ∈ cs, ∀ k ∈ c.keys, k ∈ locks stmt d := by
  have hsingle : ∀ {c : Change}, (∀ k ∈ c.keys, k ∈ locks stmt d) →
      ∀ c' ∈ [c], ∀ k ∈ c'.keys, k ∈ locks stmt d := by
    intro c hc c' hc'
    rw [List.mem_singleton.mp hc']
    exact hc
  cases stmt with
  | insertTournament row =>
    simp only [exec] at h
    split at h
    · obtain ⟨rfl, -⟩ := Prod.mk.inj (Option.some.inj h)
      exact hsingle fun k hk ↦ hk
    · cases h
  | insertEntrant id userId now =>
    simp only [exec] at h
    split at h
    · cases h
    · iterate 4 split at h <;> try cases h
      exact hsingle fun k hk ↦ hk
  | insertMatch row =>
    simp only [exec] at h
    iterate 2 split at h <;> try cases h
    exact hsingle fun k hk ↦ hk
  | insertNext row =>
    simp only [exec] at h
    split at h
    · obtain ⟨rfl, -⟩ := Prod.mk.inj (Option.some.inj h)
      exact nofun
    · iterate 2 split at h <;> try cases h
      exact hsingle fun k hk ↦ hk
  | startTournament id =>
    obtain ⟨rfl, -⟩ := Prod.mk.inj (Option.some.inj h)
    intro c hc k hk
    rw [keys_updateTournament c hc] at hk
    exact hk
  | finishTournament id winner =>
    simp only [exec] at h
    split at h
    · obtain ⟨rfl, -⟩ := Prod.mk.inj (Option.some.inj h)
      intro c hc k hk
      rw [keys_updateTournament c hc] at hk
      exact hk
    · cases h
  | setResult id winner =>
    simp only [exec] at h
    split at h
    · split at h
      · split at h
        · obtain ⟨rfl, -⟩ := Prod.mk.inj (Option.some.inj h)
          exact hsingle fun k hk ↦ hk
        · cases h
      · obtain ⟨rfl, -⟩ := Prod.mk.inj (Option.some.inj h)
        exact nofun
    · obtain ⟨rfl, -⟩ := Prod.mk.inj (Option.some.inj h)
      exact nofun
  | _ =>
    obtain ⟨rfl, -⟩ := Prod.mk.inj (Option.some.inj h)
    exact nofun

/-- Statements change nothing but what they lock, and read nothing else. -/
theorem backend_lawful : backend.Lawful where
  apply_congr k c d d' h := cell_apply_congr k c d d' h
  apply_fixed d c := d.users_apply c
  locks_congr := locks_congr
  exec_congr := exec_congr
  frame _ _ _ _ h _ hk :=
    cell_applyAll_of_not_mem fun c hc hmem ↦ hk (keys_exec h c hc _ hmem)

end Lawful

end ChessStack.Tournament
