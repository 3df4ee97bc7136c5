import ChessStack.Tournament.Store

/-!
# The tournament transactions

Library `Tournament`. The transactions of `Chess-Backend/src/models/Tournament.js`, statement by
statement, and the server that runs them for any number of requests at once.
-/

namespace ChessStack.Tournament

open ChessStack.Library

/-- Transactions on the tournament tables. -/
abbrev TournamentTx (Result : Type) := Tx Stmt Ans Result

/-- A statement of a transaction. -/
def sql (stmt : Stmt) : TournamentTx (Ans stmt) := Tx.stmt stmt

/-- The row of a tournament, locked. -/
def lockTournament (id : Nat) : TournamentTx (Option TournamentRow) := sql (.lockTournament id)
/-- A new tournament. -/
def insertTournament (row : TournamentRow) : TournamentTx TournamentRow := sql (.insertTournament row)
/-- Whether a user has entered. -/
def findEntrant (id userId : Nat) : TournamentTx Nat := sql (.findEntrant id userId)
/-- How many have entered. -/
def countEntrants (id : Nat) : TournamentTx Nat := sql (.countEntrants id)
/-- A user enters. -/
def insertEntrant (id userId now : Nat) : TournamentTx Nat := sql (.insertEntrant id userId now)
/-- Who has entered, in order. -/
def playersOf (id : Nat) : TournamentTx (List Nat) := sql (.playersOf id)
/-- A match of the first round. -/
def insertMatch (row : MatchRow) : TournamentTx Nat := sql (.insertMatch row)
/-- A match of a later round. -/
def insertNext (row : MatchRow) : TournamentTx Nat := sql (.insertNext row)
/-- An open tournament starts. -/
def startTournament (id : Nat) : TournamentTx Nat := sql (.startTournament id)
/-- A tournament in progress is finished. -/
def finishTournament (id : Nat) (winner : Option Nat) : TournamentTx Nat :=
  sql (.finishTournament id winner)
/-- The row of a match, locked. -/
def lockMatch (id : Nat) : TournamentTx (Option MatchRow) := sql (.lockMatch id)
/-- The winner of a pending match. -/
def setResult (id winner : Nat) : TournamentTx Nat := sql (.setResult id winner)
/-- The rows of a round, locked. -/
def lockRound (id round : Nat) : TournamentTx (List MatchRow) := sql (.lockRound id round)

/-- What `join`, `start` and `reportResult` return. -/
inductive Reply where
  | error (message : String)
  | joined
  | alreadyJoined
  | started
  | reported
  deriving DecidableEq, Repr

/-! ### advanceRound -/

/-- The inserted match of a later round, `Tournament.js:42–47`. -/
def nextMatch (t round : Nat) (ids : Nat → Nat) (position : Nat)
    (pair : Option Nat × Option Nat) : MatchRow :=
  ⟨ids position, t, round + 1, position, pair.1, pair.2, none, .pending⟩

/-- The loop of `advanceRound`, `Tournament.js:42–48`, from a position on. `ids` are what the
sequence gives. -/
def insertNextRound (t round : Nat) (ids : Nat → Nat) :
    List (Option Nat × Option Nat) → Nat → TournamentTx Unit
  | [], _ => pure ()
  | pair :: rest, position => do
    let _ ← insertNext (nextMatch t round ids position pair)
    insertNextRound t round ids rest (position + 1)

/-- `advanceRound`, `Tournament.js:25–49`. -/
def advanceRound (t round : Nat) (ids : Nat → Nat) : TournamentTx Unit := do
  let tournament ← lockTournament t
  match tournament with
  | none => return ()
  | some row =>
    if row.status ≠ .inProgress then return ()
    let matches_ ← lockRound t round
    if matches_.isEmpty || matches_.any (·.status == .pending) then return ()
    let winners := matches_.map MatchRow.winner
    match winners with
    | [winner] =>
      let finished ← finishTournament t winner
      if finished ≠ 1 then .throw
      return ()
    | winners => insertNextRound t round ids (pairUp winners) 0

/-! ### The transactions -/

/-- `create`, `Tournament.js:52–66`, with the id the sequence gives and the time of the join. -/
def create (id creatorId : Nat) (name : String) (maxPlayers now : Nat) :
    TournamentTx TournamentRow := do
  let created ← insertTournament ⟨id, name, creatorId, maxPlayers, .open_, none⟩
  let joined ← insertEntrant created.id creatorId now
  if joined ≠ 1 then .throw
  return created

/-- `join`, `Tournament.js:93–110`. -/
def join (t userId now : Nat) : TournamentTx Reply := do
  let locked ← lockTournament t
  match locked with
  | none => return .error "Tournament not found"
  | some row =>
    if row.status ≠ .open_ then return .error "Tournament already started"
    let existing ← findEntrant t userId
    if existing ≠ 0 then return .alreadyJoined
    let count ← countEntrants t
    if row.maxPlayers ≤ count then return .error "Tournament is full"
    let inserted ← insertEntrant t userId now
    if inserted ≠ 1 then .throw
    return .joined

/-- Who wins a match with a missing player; ids come from a sequence and are never 0. -/
def byeWinner (pair : Option Nat × Option Nat) : Option Nat :=
  match pair with
  | (some _, some _) => none
  | (p1, p2) => p1.or p2

/-- The inserted match of the first round, `Tournament.js:127–133`. -/
def firstMatch (t : Nat) (ids : Nat → Nat) (position : Nat) (pair : Option Nat × Option Nat) :
    MatchRow :=
  ⟨ids position, t, 1, position, pair.1, pair.2, byeWinner pair,
    if (byeWinner pair).isSome then .bye else .pending⟩

/-- The loop of `start`, `Tournament.js:126–135`, from a position on. -/
def insertBracket (t : Nat) (ids : Nat → Nat) :
    List (Option Nat × Option Nat) → Nat → TournamentTx Unit
  | [], _ => pure ()
  | pair :: rest, position => do
    let inserted ← insertMatch (firstMatch t ids position pair)
    if inserted ≠ 1 then .throw
    insertBracket t ids rest (position + 1)

/-- `start`, `Tournament.js:112–143`. -/
def start (t requesterId : Nat) (draws : (i : Nat) → Fin (i + 1)) (ids ids' : Nat → Nat) :
    TournamentTx Reply := do
  let locked ← lockTournament t
  match locked with
  | none => return .error "Tournament not found"
  | some row =>
    if row.creatorId ≠ requesterId then return .error "Only the creator can start the tournament"
    if row.status ≠ .open_ then return .error "Tournament already started"
    let rows ← playersOf t
    if rows.length < 2 then return .error "Need at least 2 players"
    let players := pad ((shuffle draws rows).map some)
    insertBracket t ids (pairUp players) 0
    let updated ← startTournament t
    if updated ≠ 1 then .throw
    advanceRound t 1 ids'
    return .started

/-- `reportResult`, `Tournament.js:145–161`. `winnerId` is `Number` of what the reporter sent. -/
def reportResult (matchId reporterId : Nat) (winnerId : Int) (ids : Nat → Nat) :
    TournamentTx Reply := do
  let locked ← lockMatch matchId
  match locked with
  | none => return .error "Match not found"
  | some row =>
    if row.status ≠ .pending then return .error "Match already resolved"
    let players := [row.player1, row.player2].reduceOption
    if !players.any (fun id ↦ (id : Int) == winnerId) then
      return .error "Winner must be one of the two players"
    if !players.contains reporterId then return .error "Only participants can report this match"
    let updated ← setResult matchId winnerId.toNat
    if updated ≠ 1 then .throw
    advanceRound row.tournamentId row.round ids
    return .reported

/-! ### The server -/

/-- The calls of the routes, with their arguments. -/
inductive Call where
  | create (id creatorId : Nat) (name : String) (maxPlayers now : Nat)
  | join (t userId now : Nat)
  | start (t requesterId : Nat) (draws : (i : Nat) → Fin (i + 1)) (ids ids' : Nat → Nat)
  | reportResult (matchId reporterId : Nat) (winnerId : Int) (ids : Nat → Nat)
  | maybeAdvanceRound (t round : Nat) (ids : Nat → Nat)

/-- What a call returns. -/
def Result : Call → Type
  | .create .. => TournamentRow
  | .join .. => Reply
  | .start .. => Reply
  | .reportResult .. => Reply
  | .maybeAdvanceRound .. => Unit

/-- The transaction of a call. -/
def prog : (c : Call) → TournamentTx (Result c)
  | .create id creatorId name maxPlayers now => create id creatorId name maxPlayers now
  | .join t userId now => join t userId now
  | .start t requesterId draws ids ids' => start t requesterId draws ids ids'
  | .reportResult matchId reporterId winnerId ids => reportResult matchId reporterId winnerId ids
  | .maybeAdvanceRound t round ids => advanceRound t round ids

/-- The tables before the first tournament. -/
structure Fresh (d : Db) : Prop where
  tournaments : ∀ id, d.tournament? id = none
  entrants : ∀ id, d.entrants id = []
  index : ∀ id, d.index id = []
  matches_ : ∀ id, d.match? id = none

/-- The outcomes of a run's calls. -/
abbrev Log := List (Outcome Db Call Result)

/-- The tournament server on any number of processes: each request is one call. -/
def server : System Db Change Key Cell (List Nat) Stmt Ans Call Result where
  base := backend
  prog := prog
  start := Fresh
  spawn t := ∃ c, t = .call c fun _ ↦ .done

/-- No condition on when a call commits. -/
def always : Call → Db → Prop := fun _ _ ↦ True

end ChessStack.Tournament
