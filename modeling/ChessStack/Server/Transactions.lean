import ChessStack.Store.Statements
import ChessStack.Server.ChessJs

/-!
# Rooms and the transactions on games

Library `Server`. `Chess-Backend/src/socket/gameSocket.js` and
`Chess-Backend/src/models/Game.js`: the room a snapshot of the database materializes, and the
transactions that write games, as programs of statements. A room is a task's own copy here; the
sockets attached to it belong to `Server.Process`.
-/

namespace ChessStack.Server

open ChessStack.Chess ChessStack.Js ChessStack.Library ChessStack.Store

/-! ### Rooms -/

/-- An authenticated user, from a verified session token. -/
structure SocketUser where
  id : Nat
  username : String
  idPos : 0 < id
  named : username ≠ ""
  short : username.length ≤ 20
  deriving DecidableEq

/-- An element of `room.players`. -/
structure Player where
  name : Option String
  color : Color
  userId : Option Nat
  deriving DecidableEq, Repr

/-- The status of a room. -/
inductive RoomStatus where
  | waiting
  | playing
  | finished
  deriving DecidableEq, Repr

/-- A room object, `gameSocket.js:114–133`. -/
structure Room (js : ChessJs) where
  id : Option String
  gameId : Nat
  players : List Player
  chess : js.Game
  status : RoomStatus
  moves : List MoveRow
  createdAt : Nat

/-- A row of `Game.findRoomSnapshot`: the game and its moves by number. -/
structure GameSnapshot where
  game : GameRow
  moves : List MoveRow

/-- `Game.findRoomSnapshot(roomId)`, `Game.js:55–65`. -/
def findRoomSnapshot (d : Db) (roomId : String) : Option GameSnapshot :=
  (d.games.rows.find? fun row ↦ row.roomId == some roomId && row.gameMode == .multiplayer).map
    fun row ↦ ⟨row, (d.movesOf row.id).insertionSort fun a b ↦ a.moveNumber ≤ b.moveNumber⟩

/-- `isMaterializable(snapshot)`, `gameSocket.js:149–151`. -/
def isMaterializable (snapshot : GameSnapshot) : Bool :=
  snapshot.game.status == .inProgress || snapshot.game.status == .finished

/-- The replay of the persisted moves, `gameSocket.js:101–106`. -/
def replayMoves (js : ChessJs) (moves : List MoveRow) : Option js.Game :=
  moves.foldlM (fun chess move ↦
    (js.move chess ⟨some (.str move.fromSquare), some (.str move.toSquare),
      move.promotion.map .str⟩).map Prod.fst) js.start

/-- `game.board_fen || persistedMoves.at(-1)?.fen_after`. -/
def checkpoint (snapshot : GameSnapshot) : Option String :=
  match snapshot.game.boardFen with
  | some fen => if fen = "" then snapshot.moves.getLast?.map MoveRow.fenAfter else some fen
  | none => snapshot.moves.getLast?.map MoveRow.fenAfter

/-- The players of a game's row: the black seat is taken when it has a name. -/
def playersOf (row : GameRow) : List Player :=
  ⟨row.whiteUsername, .w, row.whiteUserId⟩ ::
    (match row.blackUsername with
    | some name => if name = "" then [] else [⟨some name, .b, row.blackUserId⟩]
    | none => [])

/-- `buildRoomFromSnapshot(game)`, `gameSocket.js:91–134`; `none` for a corrupt game. -/
def buildRoomFromSnapshot (js : ChessJs) (snapshot : GameSnapshot) : Option (Room js) :=
  let chess := match checkpoint snapshot with
    | some fen => if fen = "" then replayMoves js snapshot.moves else js.load fen
    | none => replayMoves js snapshot.moves
  chess.map fun chess ↦
    { id := snapshot.game.roomId
      gameId := snapshot.game.id
      players := playersOf snapshot.game
      chess := chess
      status := if snapshot.game.status = .finished then .finished
        else if (playersOf snapshot.game).length = 2 then .playing else .waiting
      moves := snapshot.moves
      createdAt := snapshot.game.startedAt }

/-! ### Statements as programs -/

/-- Transactions on the game tables. -/
abbrev GameTx (Result : Type) := Tx Stmt Ans Result

/-- A statement of a transaction. -/
def sql (stmt : Stmt) : GameTx (Ans stmt) := Tx.stmt stmt

/-- The row of a game, locked. -/
def lockGame (id : Nat) : GameTx (Option GameRow) := sql (.lockGame id)
/-- The position of a game. -/
def updateBoard (id : Nat) (fen : String) : GameTx Nat := sql (.updateBoard id fen)
/-- A move, with the next number of its game. -/
def insertMove (row : MoveRow) : GameTx MoveRow := sql (.insertMove row)
/-- The end of a game, with its result. -/
def finishGame (id : Nat) (result : GameResult) (winnerColor : Option Color) : GameTx Nat :=
  sql (.finishGame id result winnerColor)
/-- The rows of users, locked. -/
def lockUsers (ids : List Nat) : GameTx (List UserRow) := sql (.lockUsers ids)
/-- The rating of a user. -/
def setElo (id : Nat) (elo : Int) : GameTx Nat := sql (.setElo id elo)
/-- A score of a user. -/
def insertScore (row : ScoreRow) : GameTx Nat := sql (.insertScore row)
/-- How often a user has won. -/
def countWins (userId : Nat) : GameTx Nat := sql (.countWins userId)
/-- Achievements of a user that are in the catalogue. -/
def insertAchievements (userId : Nat) (keys : List String) : GameTx Unit :=
  sql (.insertAchievements userId keys)
/-- The black seat of a game that waits for it. -/
def setBlack (id userId : Nat) (username : String) : GameTx (Option GameRow) :=
  sql (.setBlack id userId username)
/-- A new game. -/
def insertGame (row : GameRow) : GameTx GameRow := sql (.insertGame row)
/-- A finished game leaves its room. -/
def releaseRoom (id : Nat) : GameTx Nat := sql (.releaseRoom id)
/-- A game in progress is abandoned. -/
def abandon (id : Nat) : GameTx Nat := sql (.abandon id)

/-- `requireOne` on the rows an update returned, `Game.js:3–6`. -/
def requireOne (row : Option GameRow) : GameTx GameRow :=
  match row with
  | some row => pure row
  | none => .throw

/-! ### Game.js -/

/-- `Game.create`, `Game.js:9–16`, with the id the sequence gives and the time of insertion. -/
def create (id : Nat) (roomId : Option String) (whiteUserId : Option Nat)
    (whiteUsername : Option String) (now : Nat) : GameTx GameRow :=
  insertGame
    { id := id, roomId := roomId, whiteUserId := whiteUserId, blackUserId := none,
      whiteUsername := whiteUsername, blackUsername := none, gameMode := .multiplayer,
      status := .inProgress, result := none, winnerColor := none, boardFen := some startFen,
      startedAt := now }

/-- `Game.claimBlack`, `Game.js:18–30`. -/
def claimBlack (gameId : Nat) (user : SocketUser) : GameTx (Option GameRow) := do
  let row ← lockGame gameId
  let game ← requireOne row
  if game.status ≠ .inProgress ∨ game.blackUsername.any (· ≠ "") then return none
  let updated ← setBlack gameId user.id user.username
  let seated ← requireOne updated
  return some seated

/-- `Game.abandonMany([id])`, `Game.js:97–104`. -/
def abandonMany (id : Nat) : GameTx Nat := abandon id

/-- The transaction of `accept_rematch`, `gameSocket.js:634–640`: the old game gives up its
room id, a new game takes it and is joined by the other player. -/
def rematch (gameId : Nat) (roomId : Option String) (white black : Player) (newId now : Nat) :
    GameTx GameRow := do
  let released ← releaseRoom gameId
  if released ≠ 1 then .throw
  let created ← create newId roomId white.userId white.name now
  match black.userId, black.name with
  | some userId, some name =>
    let joined ← setBlack created.id userId name
    let _ ← requireOne joined
    return created
  | _, _ => .throw

/-! ### persistMoveAtomic -/

/-- What `persistMoveAtomic` returns for an accepted move. -/
structure Persisted (js : ChessJs) where
  chess : js.Game
  move : Canonical
  record : MoveRow

/-- `${color}${letter.toUpperCase()}`. -/
def pieceText (color : Color) (letter : String) : String :=
  (match color with | .w => "w" | .b => "b") ++ letter.toUpper

/-- The inserted row, before its number is computed, `gameSocket.js:358–363`. -/
def moveRow (gameId : Nat) (color : Color) (move : Canonical) (fen : String) : MoveRow where
  gameId := gameId
  moveNumber := 0
  playerColor := color
  fromSquare := move.fromSquare
  toSquare := move.toSquare
  piece := pieceText color move.piece
  capturedPiece := move.captured.map (pieceText color.other)
  san := move.san
  fenAfter := fen
  promotion := move.promotion

/-- The object `persistMoveAtomic` builds from the requested move. -/
def moveArg (requested : Option Json) : MoveArg :=
  ⟨field requested "from", field requested "to", field requested "promotion"⟩

/-- `persistMoveAtomic`, `gameSocket.js:342–368`. -/
def persistMoveAtomic (js : ChessJs) (gameId : Nat) (color : Color) (requested : Option Json) :
    GameTx (Option (Persisted js)) := do
  let locked ← lockGame gameId
  match locked with
  | none => .throw
  | some row =>
    if row.status ≠ .inProgress then .throw
    match js.loadOr row.boardFen with
    | none => .throw
    | some chess =>
      if js.turn chess ≠ color then return none
      match js.move chess (moveArg requested) with
      | none => return none
      | some (chess', move) =>
        let fen := js.fen chess'
        let updated ← updateBoard gameId fen
        if updated ≠ 1 then .throw
        let record ← insertMove (moveRow gameId color move fen)
        return some ⟨chess', move, record⟩

/-! ### finalizeGameAtomic -/

/-- The score given to White. -/
inductive Score where
  | win
  | loss
  | draw
  deriving DecidableEq, Repr

/-- The score of White. -/
def whiteScore : Option Color → Score
  | some .w => .win
  | some .b => .loss
  | none => .draw

/-- The ratings of a player before and after a game. -/
structure EloEntry where
  username : Option String
  old : Int
  new : Int
  deriving DecidableEq, Repr

/-- The ratings of both. -/
structure EloChange where
  white : EloEntry
  black : EloEntry
  deriving DecidableEq, Repr

/-- What `finalizeGameAtomic` returns. -/
structure Finalized where
  settled : Bool
  eloChange : Option EloChange
  deriving DecidableEq, Repr

/-- The achievement keys of one player, `gameSocket.js:316–325`; `wins` is read for the winner
only. -/
def achievementKeys (wins : Option Nat) (moves : Nat) : List String :=
  ["first_game"] ++
  (match wins with
  | some wins =>
    (if 1 ≤ wins then ["first_win"] else []) ++ (if 5 ≤ wins then ["wins_5"] else []) ++
    (if 10 ≤ wins then ["wins_10"] else []) ++ (if 25 ≤ wins then ["wins_25"] else []) ++
    (if moves ≤ 15 then ["quick_win"] else [])
  | none => []) ++
  (if 60 ≤ moves then ["marathon"] else [])

/-- `Math.max(0, Math.floor((Date.now() - room.createdAt) / 1000))`. -/
def durationOf (createdAt now : Nat) : Nat := (now - createdAt) / 1000

/-- The user id of the seat of a colour, unless it is missing or falsy. -/
def seatOf (players : List Player) (color : Color) : Option (Player × Nat) := do
  let player ← players.find? fun player ↦ player.color == color
  let userId ← player.userId
  if userId = 0 then none else some (player, userId)

/-- The inserted row of one player, `gameSocket.js:309–313`. -/
def scoreRow (gameId moves duration : Nat) (player : Player) (userId : Nat)
    (winnerColor : Option Color) : ScoreRow where
  userId := userId
  username := player.name
  moves := moves
  durationSeconds := duration
  winner := some player.color = winnerColor
  gameMode := .multiplayer
  gameId := gameId

/-- The loop body for one player, `gameSocket.js:307–330`. -/
def recordScore (gameId moves duration : Nat) (player : Player) (userId : Nat)
    (winnerColor : Option Color) : GameTx Unit := do
  let inserted ← insertScore (scoreRow gameId moves duration player userId winnerColor)
  if inserted ≠ 1 then .throw
  if some player.color = winnerColor then
    let wins ← countWins userId
    insertAchievements userId (achievementKeys (some wins) moves)
  else
    insertAchievements userId (achievementKeys none moves)

/-- `finalizeGameAtomic`, `gameSocket.js:282–340`. `computeNewRatings` is `utils/elo.js`, which
computes in floating point. -/
def finalizeGameAtomic {js : ChessJs} (computeNewRatings : Int → Int → Score → Int × Int)
    (room : Room js) (result : GameResult) (winnerColor : Option Color) (now : Nat) :
    GameTx Finalized := do
  let finished ← finishGame room.gameId result winnerColor
  if finished = 0 then return ⟨false, none⟩
  if finished ≠ 1 then .throw
  match seatOf room.players .w, seatOf room.players .b with
  | some (white, whiteId), some (black, blackId) =>
    let users ← lockUsers [whiteId, blackId]
    if users.length ≠ 2 then .throw
    match users.find? (·.id == whiteId), users.find? (·.id == blackId) with
    | some whiteUser, some blackUser =>
      let elo := computeNewRatings whiteUser.eloRating blackUser.eloRating (whiteScore winnerColor)
      let whiteUpdate ← setElo whiteId elo.1
      let blackUpdate ← setElo blackId elo.2
      if whiteUpdate ≠ 1 ∨ blackUpdate ≠ 1 then .throw
      let duration := durationOf room.createdAt now
      recordScore room.gameId room.moves.length duration white whiteId winnerColor
      recordScore room.gameId room.moves.length duration black blackId winnerColor
      return ⟨true, some ⟨⟨white.name, whiteUser.eloRating, elo.1⟩,
        ⟨black.name, blackUser.eloRating, elo.2⟩⟩⟩
    | _, _ => .throw
  | _, _ => return ⟨true, none⟩

end ChessStack.Server
