import ChessStack.Chess.Board
import Mathlib.Data.List.Nodup

/-!
# The tables of a game

Library `Store`. `Database/migrations/001_init.sql`, `002_game_features.sql`,
`003_achievements.sql`, `006_security_integrity.sql` and `007_fullstack_hardening.sql`: the
columns of games, moves, users, scores and user_achievements that the game server reads or
writes, with the constraints an insert or update must pass.
-/

namespace ChessStack.Store

open ChessStack.Chess

/-- `games_status_check`. -/
inductive GameStatus where
  | inProgress
  | finished
  | abandoned
  deriving DecidableEq, Repr

/-- `games_result_check`. -/
inductive GameResult where
  | checkmate
  | resign
  | timeout
  | draw
  | disconnect
  | processFailure
  deriving DecidableEq, Repr

/-- `games_game_mode_check`. -/
inductive GameMode where
  | local_
  | multiplayer
  | ai
  deriving DecidableEq, Repr

/-- A row of `games`. -/
structure GameRow where
  id : Nat
  roomId : Option String
  whiteUserId : Option Nat
  blackUserId : Option Nat
  whiteUsername : Option String
  blackUsername : Option String
  gameMode : GameMode
  status : GameStatus
  result : Option GameResult
  winnerColor : Option Color
  boardFen : Option String
  startedAt : Nat
  deriving DecidableEq, Repr

/-- A row of `moves`. -/
structure MoveRow where
  gameId : Nat
  moveNumber : Nat
  playerColor : Color
  fromSquare : String
  toSquare : String
  piece : String
  capturedPiece : Option String
  san : String
  fenAfter : String
  promotion : Option String
  deriving DecidableEq, Repr

/-- A row of `users`. -/
structure UserRow where
  id : Nat
  username : String
  eloRating : Int
  deriving DecidableEq, Repr

/-- A row of `scores`. -/
structure ScoreRow where
  userId : Nat
  username : Option String
  moves : Nat
  durationSeconds : Nat
  winner : Bool
  gameMode : GameMode
  gameId : Nat
  deriving DecidableEq, Repr

/-- The games table: its primary key is part of the type. -/
structure Games where
  rows : List GameRow
  primaryKey : (rows.map GameRow.id).Nodup

/-- The users table. -/
structure Users where
  rows : List UserRow
  primaryKey : (rows.map UserRow.id).Nodup

/-- The store. `achievements` is the catalogue seeded by `003_achievements.sql`. -/
structure Db where
  games : Games
  moves : List MoveRow
  users : Users
  scores : List ScoreRow
  userAchievements : List (Nat × String)
  achievements : List String

/-- What PostgreSQL's INTEGER holds. -/
def fitsInteger (n : Int) : Bool := -2147483648 ≤ n && n ≤ 2147483647

/-- `^[a-h][1-8]$`. -/
def isSquareName (name : String) : Bool :=
  match name.toList with
  | [file, rank] => 'a' ≤ file && file ≤ 'h' && '1' ≤ rank && rank ≤ '8'
  | _ => false

/-- The CHECK constraints and column types of an inserted move. -/
def MoveRow.valid (row : MoveRow) : Bool :=
  0 < row.moveNumber && fitsInteger row.moveNumber && isSquareName row.fromSquare &&
    isSquareName row.toSquare && row.piece.length ≤ 2 &&
    row.capturedPiece.all (fun p ↦ p.length ≤ 2) && row.san.length ≤ 10 &&
    row.promotion.all (fun p ↦ ["q", "r", "b", "n"].contains p)

/-- `scores_moves_positive_check`, `scores_duration_nonnegative_check` and the column types. -/
def ScoreRow.valid (row : ScoreRow) : Bool :=
  0 < row.moves && fitsInteger row.moves && fitsInteger row.durationSeconds &&
    row.username.any fun name ↦ name.length ≤ 20

namespace Db

/-- The row with a primary key. -/
def game? (d : Db) (id : Nat) : Option GameRow := d.games.rows.find? fun row ↦ row.id == id

/-- A user by id. -/
def user? (d : Db) (id : Nat) : Option UserRow := d.users.rows.find? fun row ↦ row.id == id

/-- The rows of `moves` with `game_id = id`, in the order they were inserted. -/
def movesOf (d : Db) (id : Nat) : List MoveRow := d.moves.filter fun row ↦ row.gameId == id

/-- The rows of `scores` with `user_id = id`. -/
def scoresOf (d : Db) (id : Nat) : List ScoreRow := d.scores.filter fun row ↦ row.userId == id

/-- The rows of `scores` with `game_id = id`. -/
def scoresOfGame (d : Db) (id : Nat) : List ScoreRow := d.scores.filter fun row ↦ row.gameId == id

/-- The keys a user has in `user_achievements`. -/
def achievementsOf (d : Db) (id : Nat) : List String :=
  (d.userAchievements.filter fun row ↦ row.1 == id).map Prod.snd

/-- Some game holds the room id: what `UNIQUE (room_id)` looks up. -/
def roomTaken (d : Db) (roomId : String) : Bool :=
  d.games.rows.any fun row ↦ row.roomId == some roomId

/-- Whether there is such a user. -/
def userExists (d : Db) (id : Nat) : Bool := (d.user? id).isSome

end Db

/-! ### Changes -/

/-- What a statement does to the tables: a new row version, or an inserted row. -/
inductive Change where
  | putGame (row : GameRow)
  | addMove (row : MoveRow)
  | setElo (userId : Nat) (elo : Int)
  | addScore (row : ScoreRow)
  | addAchievement (userId : Nat) (key : String)

/-- The row takes the place of the row with its key. -/
def Games.put (games : Games) (row : GameRow) : Games where
  rows := row :: games.rows.filter fun old ↦ old.id != row.id
  primaryKey := by
    rw [List.map_cons, List.nodup_cons]
    constructor
    · rw [List.mem_map]
      rintro ⟨old, hold, hid⟩
      have hne := List.of_mem_filter hold
      simp [hid] at hne
    · exact games.primaryKey.sublist (List.filter_sublist.map _)

/-- The rating in a user's row. -/
def Users.setElo (users : Users) (id : Nat) (elo : Int) : Users where
  rows := users.rows.map fun row ↦ if row.id = id then { row with eloRating := elo } else row
  primaryKey := by
    have hids : (users.rows.map fun row ↦
        if row.id = id then { row with eloRating := elo } else row).map UserRow.id =
        users.rows.map UserRow.id := by
      rw [List.map_map]
      apply List.map_congr_left
      intro row _
      change (if row.id = id then _ else row).id = row.id
      split <;> rfl
    rw [hids]
    exact users.primaryKey

/-- The tables after a change. -/
def Db.apply (d : Db) : Change → Db
  | .putGame row => { d with games := d.games.put row }
  | .addMove row => { d with moves := d.moves ++ [row] }
  | .setElo id elo => { d with users := d.users.setElo id elo }
  | .addScore row => { d with scores := d.scores ++ [row] }
  | .addAchievement id key => { d with userAchievements := d.userAchievements ++ [(id, key)] }

/-- The new version a change gives to a game's row. -/
@[simp] def Change.game : Change → Nat → Option GameRow
  | .putGame row, id => if id = row.id then some row else none
  | _, _ => none

/-- The rows a change adds to the moves of a game. -/
@[simp] def Change.moves : Change → Nat → List MoveRow
  | .addMove row, id => if row.gameId = id then [row] else []
  | _, _ => []

/-- What a change does to a user's row. -/
@[simp] def Change.user : Change → UserRow → UserRow
  | .setElo id elo, row => if row.id = id then { row with eloRating := elo } else row
  | _, row => row

/-- The rows a change adds to scores. -/
@[simp] def Change.scores : Change → List ScoreRow
  | .addScore row => [row]
  | _ => []

/-- The keys a change adds to a user's achievements. -/
@[simp] def Change.achievements : Change → Nat → List String
  | .addAchievement userId key, id => if userId = id then [key] else []
  | _, _ => []

section Apply

variable (d : Db) (c : Change) (id : Nat)

/-- A new row version is what its key now finds, and no other key's row changes. -/
theorem Games.find?_put (games : Games) (row : GameRow) :
    (games.put row).rows.find? (fun old ↦ old.id == id) =
      if id = row.id then some row else games.rows.find? fun old ↦ old.id == id := by
  unfold put
  rw [List.find?_cons]
  by_cases h : id = row.id
  · simp [h]
  · rw [if_neg h, show (row.id == id) = false by simpa using Ne.symm h]
    dsimp only
    induction games.rows with
    | nil => rfl
    | cons old rows ih =>
      by_cases ho : old.id = row.id
      · have hne : (old.id == id) = false := by
          simpa [ho] using Ne.symm h
        rw [List.filter_cons_of_neg (by simp [ho]), ih, List.find?_cons, hne]
      · rw [List.filter_cons_of_pos (by simpa using ho), List.find?_cons, List.find?_cons, ih]

private theorem Users.find?_setElo (users : Users) (u : Nat) (elo : Int) :
    (users.setElo u elo).rows.find? (fun row ↦ row.id == id) =
      (users.rows.find? fun row ↦ row.id == id).map (Change.setElo u elo).user := by
  unfold setElo
  dsimp only
  induction users.rows with
  | nil => rfl
  | cons row rows ih =>
    have hid : (if row.id = u then { row with eloRating := elo } else row).id = row.id := by
      split <;> rfl
    rw [List.map_cons, List.find?_cons, List.find?_cons, hid]
    cases row.id == id with
    | true => rfl
    | false => exact ih

/-- A game after a change. -/
@[simp] theorem Db.game?_apply : (d.apply c).game? id = (c.game id).or (d.game? id) := by
  cases c with
  | putGame row =>
    refine (Games.find?_put id d.games row).trans ?_
    simp only [Change.game]
    split <;> rfl
  | _ => rfl

/-- A user after a change. -/
@[simp] theorem Db.user?_apply : (d.apply c).user? id = (d.user? id).map c.user := by
  cases c with
  | setElo u elo => exact Users.find?_setElo id d.users u elo
  | _ => exact Option.map_id'.symm

/-- The moves of a game after a change. -/
@[simp] theorem Db.movesOf_apply : (d.apply c).movesOf id = d.movesOf id ++ c.moves id := by
  cases c with
  | addMove row =>
    unfold Db.movesOf Db.apply
    rw [List.filter_append]
    by_cases h : row.gameId = id <;> simp [h]
  | _ => exact (List.append_nil _).symm

/-- The scores after a change. -/
@[simp] theorem Db.scores_apply : (d.apply c).scores = d.scores ++ c.scores := by
  cases c with
  | addScore row => rfl
  | _ => exact (List.append_nil _).symm

/-- The achievements of a user after a change. -/
@[simp] theorem Db.achievementsOf_apply :
    (d.apply c).achievementsOf id = d.achievementsOf id ++ c.achievements id := by
  cases c with
  | addAchievement u key =>
    unfold Db.achievementsOf Db.apply
    rw [List.filter_append, List.map_append]
    by_cases h : u = id <;> simp [h]
  | _ => exact (List.append_nil _).symm

/-- The scores of a user after a change. -/
@[simp] theorem Db.scoresOf_apply :
    (d.apply c).scoresOf id = d.scoresOf id ++ c.scores.filter fun row ↦ row.userId == id := by
  unfold Db.scoresOf
  rw [Db.scores_apply, List.filter_append]

/-- The scores of a game after a change. -/
@[simp] theorem Db.scoresOfGame_apply :
    (d.apply c).scoresOfGame id = d.scoresOfGame id ++ c.scores.filter fun row ↦ row.gameId == id := by
  unfold Db.scoresOfGame
  rw [Db.scores_apply, List.filter_append]

/-- No change makes or removes a user. -/
@[simp] theorem Db.userExists_apply : (d.apply c).userExists id = d.userExists id := by
  unfold Db.userExists
  rw [Db.user?_apply, Option.isSome_map]

/-- No change touches the catalogue. -/
@[simp] theorem Db.achievements_apply : (d.apply c).achievements = d.achievements := by
  cases c <;> rfl

end Apply

/-- A row found under a key has that key. -/
theorem Db.id_of_game? {d : Db} {id : Nat} {row : GameRow} (h : d.game? id = some row) :
    row.id = id := by
  simpa using List.find?_some h

/-- A user is found under its id. -/
theorem Db.id_of_user? {d : Db} {id : Nat} {row : UserRow} (h : d.user? id = some row) :
    row.id = id := by
  simpa using List.find?_some h

/-- With a primary key a row is found under its id. -/
theorem Db.game?_of_mem {d : Db} {row : GameRow} (h : row ∈ d.games.rows) :
    d.game? row.id = some row := by
  unfold Db.game?
  have hkey := d.games.primaryKey
  revert h hkey
  induction d.games.rows with
  | nil => exact nofun
  | cons old rows ih =>
    intro h hkey
    rw [List.map_cons, List.nodup_cons] at hkey
    rw [List.find?_cons]
    rcases List.mem_cons.mp h with rfl | h
    · simp
    · have hne : (old.id == row.id) = false := by
        rw [beq_eq_false_iff_ne]
        intro he
        exact hkey.1 (he ▸ List.mem_map_of_mem h)
      rw [hne]
      exact ih h hkey.2

/-- A room is taken when a game holds it. -/
theorem Db.roomTaken_iff {d : Db} {roomId : String} :
    d.roomTaken roomId = true ↔ ∃ id row, d.game? id = some row ∧ row.roomId = some roomId := by
  unfold Db.roomTaken
  rw [List.any_eq_true]
  constructor
  · rintro ⟨row, hrow, hroom⟩
    exact ⟨row.id, row, game?_of_mem hrow, by simpa using hroom⟩
  · rintro ⟨id, row, hrow, hroom⟩
    exact ⟨row, List.mem_of_find?_eq_some hrow, by simpa using hroom⟩

end ChessStack.Store
