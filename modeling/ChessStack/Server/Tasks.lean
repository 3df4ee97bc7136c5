import ChessStack.Server.Transactions

/-!
# The tasks of the socket handlers

Library `Server`. What a handler of `Chess-Backend/src/socket/gameSocket.js` does to the
database: it reads a room snapshot, decides on it, and calls transactions. Every task may run
on any replica at any time beside any others, and may stop at any point; which socket is
attached to which seat is not asked here beyond the user it was authenticated for, so the
tasks do at least what the handlers can do.
-/

namespace ChessStack.Server

open ChessStack.Chess ChessStack.Js ChessStack.Library ChessStack.Store

/-- The transactions a task calls, with their arguments. -/
inductive Call (js : ChessJs) where
  | create (id : Nat) (roomId : String) (user : SocketUser) (now : Nat)
  | claimBlack (gameId : Nat) (user : SocketUser)
  | persistMove (gameId : Nat) (sender : SocketUser) (player : Player) (requested : Option Json)
  | finalize (room : Room js) (result : GameResult) (winnerColor : Option Color) (now : Nat)
  | rematch (gameId : Nat) (roomId : Option String) (white black : Player) (newId now : Nat)
  | abandonMany (id : Nat)

/-- What a call returns. -/
def Result (js : ChessJs) : Call js → Type
  | .create .. => GameRow
  | .claimBlack .. => Option GameRow
  | .persistMove .. => Option (Persisted js)
  | .finalize .. => Finalized
  | .rematch .. => GameRow
  | .abandonMany .. => Nat

section Tasks

variable (js : ChessJs)

/-- A task of the game server. -/
abbrev GameTask := Task Db (Call js) (Result js)

/-- The outcomes of a run's calls. -/
abbrev Log := List (Outcome Db (Call js) (Result js))

/-- No condition on when a call commits. -/
def always : Call js → Db → Prop := fun _ _ ↦ True

/-- The transaction of a call. -/
def prog (computeNewRatings : Int → Int → Score → Int × Int) :
    (c : Call js) → GameTx (Result js c)
  | .create id roomId user now => create id (some roomId) (some user.id) (some user.username) now
  | .claimBlack gameId user => claimBlack gameId user
  | .persistMove gameId _ player requested => persistMoveAtomic js gameId player.color requested
  | .finalize room result winnerColor now =>
    finalizeGameAtomic computeNewRatings room result winnerColor now
  | .rematch gameId roomId white black newId now => rematch gameId roomId white black newId now
  | .abandonMany id => abandonMany id

/-- `refreshRoomFromDb`, `gameSocket.js:225–256`, then the rest of the task on the live room. A
corrupt game is abandoned on the way. -/
def refreshed (roomId : String) (next : Room js → GameTask js) : GameTask js :=
  .read fun d ↦
    match findRoomSnapshot d roomId with
    | none => .done
    | some snapshot =>
      if isMaterializable snapshot then
        match buildRoomFromSnapshot js snapshot with
        | none => .call (.abandonMany snapshot.game.id) fun _ ↦ .done
        | some live => next live
      else .done

/-- `create_room`, `gameSocket.js:397–418`. -/
def createRoom (id : Nat) (roomId : String) (user : SocketUser) (now : Nat) : GameTask js :=
  .call (.create id roomId user now) fun _ ↦ .done

/-- `join_room`, `gameSocket.js:425–446`. -/
def joinRoom (roomId : String) (user : SocketUser) : GameTask js :=
  refreshed js roomId fun live ↦
    if live.players.any (·.userId == some user.id) then .done
    else if 2 ≤ live.players.length ∨ live.status ≠ .waiting then .done
    else .call (.claimBlack live.gameId user) fun _ ↦ .done

/-- The outcome of a position that is over, `gameSocket.js:519–520, 549–550`. -/
def outcomeOf (chess : js.Game) : GameResult × Option Color :=
  if js.isCheckmate chess then (.checkmate, some (js.turn chess).other) else (.draw, none)

/-- `make_move`, `gameSocket.js:483–536`. After a terminal move the same task finalizes. -/
def makeMove (roomId : String) (user : SocketUser) (requested : Option Json) (now : Nat) :
    GameTask js :=
  refreshed js roomId fun live ↦
    if live.status ≠ .playing then .done
    else match live.players.find? (·.userId == some user.id) with
    | none => .done
    | some player =>
      if player.color ≠ js.turn live.chess then .done
      else .call (.persistMove live.gameId user player requested) fun
        | none => .done
        | some persisted =>
          let live := { live with chess := persisted.chess, moves := live.moves ++ [persisted.record] }
          if js.isGameOver live.chess then
            .call (.finalize live (outcomeOf js live.chess).1 (outcomeOf js live.chess).2 now)
              fun _ ↦ .done
          else .done

/-- `game_over`, `gameSocket.js:538–561`. -/
def gameOver (roomId : String) (user : SocketUser) (now : Nat) : GameTask js :=
  refreshed js roomId fun live ↦
    if !live.players.any (·.userId == some user.id) then .done
    else if !js.isGameOver live.chess then .done
    else if live.status = .finished then .done
    else .call (.finalize live (outcomeOf js live.chess).1 (outcomeOf js live.chess).2 now)
      fun _ ↦ .done

/-- What `resign` and `leave_room` do to the game, `gameSocket.js:563–580, 681–691`: the
caller's opponent wins. -/
def concede (roomId : String) (user : SocketUser) (now : Nat) : GameTask js :=
  refreshed js roomId fun live ↦
    if live.status ≠ .playing then .done
    else match live.players.find? (·.userId == some user.id) with
    | none => .done
    | some caller =>
      let opponent := live.players.find? (·.color != caller.color)
      .call (.finalize live .resign (opponent.map Player.color) now) fun _ ↦ .done

/-- `{ ...player, color: player.color === "w" ? "b" : "w" }`. -/
def Player.switched (player : Player) : Player := { player with color := player.color.other }

/-- `accept_rematch` once votes and presence are there, `gameSocket.js:591–640`. -/
def acceptRematch (roomId : String) (user : SocketUser) (newId now : Nat) : GameTask js :=
  refreshed js roomId fun live ↦
    if live.status ≠ .finished then .done
    else if !live.players.any (·.userId == some user.id) then .done
    else
      let switched := live.players.map Player.switched
      match switched.find? (·.color == .w), switched.find? (·.color == .b) with
      | some white, some black =>
        .call (.rematch live.gameId live.id white black newId now) fun _ ↦ .done
      | _, _ => .done

/-- The tasks a client event or a hydration starts. -/
inductive Spawn (accounts : List SocketUser) : GameTask js → Prop
  | createRoom {id : Nat} {roomId : String} {user : SocketUser} {now : Nat} :
      user ∈ accounts → Spawn accounts (createRoom js id roomId user now)
  | joinRoom {roomId : String} {user : SocketUser} :
      user ∈ accounts → Spawn accounts (joinRoom js roomId user)
  | makeMove {roomId : String} {user : SocketUser} {requested : Option Json} {now : Nat} :
      user ∈ accounts → Spawn accounts (makeMove js roomId user requested now)
  | gameOver {roomId : String} {user : SocketUser} {now : Nat} :
      user ∈ accounts → Spawn accounts (gameOver js roomId user now)
  | concede {roomId : String} {user : SocketUser} {now : Nat} :
      user ∈ accounts → Spawn accounts (concede js roomId user now)
  | acceptRematch {roomId : String} {user : SocketUser} {newId now : Nat} :
      user ∈ accounts → Spawn accounts (acceptRematch js roomId user newId now)
  | abandonMany {id : Nat} : Spawn accounts (.call (.abandonMany id) fun _ ↦ .done)

end Tasks

/-- The keys seeded by `003_achievements.sql`. -/
def achievementCatalogue : List String :=
  ["first_win", "wins_5", "wins_10", "wins_25", "quick_win", "marathon", "flawless", "comeback",
    "first_game"]

/-- The database before the first game: the accounts, the catalogue, nothing played. -/
structure Fresh (accounts : List SocketUser) (d : Db) : Prop where
  games : d.games.rows = []
  moves : d.moves = []
  scores : d.scores = []
  userAchievements : d.userAchievements = []
  achievements : d.achievements = achievementCatalogue
  users : ∀ user ∈ accounts, d.userExists user.id = true

/-- The game server on any number of processes. -/
def server (js : ChessJs) (computeNewRatings : Int → Int → Score → Int × Int)
    (accounts : List SocketUser) :
    System Db Change Key Cell ((Nat → Bool) × List String) Stmt Ans (Call js) (Result js) where
  base := backend
  prog := prog js computeNewRatings
  start := Fresh accounts
  spawn := Spawn js accounts

end ChessStack.Server
