import ChessStack.Server.Memory

/-!
# The handlers of the socket server

Library `Server`. The asynchronous functions of `Chess-Backend/src/socket/gameSocket.js` as they
run on one process, await by await. A task ends by a throw where the promise of the source
rejects; what its handler then tells the client is `Packet.refusal`.
-/

namespace ChessStack.Server

open ChessStack.Chess ChessStack.Js ChessStack.Library ChessStack.Store

/-- The events a client sends that touch a room. Their `roomId` is the text of the payload's, in
upper case. -/
inductive Packet where
  | createRoom (roomId : String)
  | joinRoom (roomId : String)
  | makeMove (roomId : String) (move : Option Json)
  | gameOver (roomId : String)
  | resign (roomId : String)
  | requestRematch (roomId : String)
  | acceptRematch (roomId : String)
  | leaveRoom (roomId : String)

/-- What the client is told when the promise of its task rejects. A rejected join is told in its
own `catch`. -/
def Packet.refusal {js : ChessJs} (socket : Nat) : Packet → Message js
  | .createRoom _ => .error socket "Unable to create room"
  | .joinRoom _ => .error socket "Room is full"
  | .makeMove _ _ => .error socket "Unable to process move"
  | .gameOver _ => .error socket "Unable to finalize game"
  | .resign _ => .error socket "Unable to resign"
  | .requestRematch _ | .acceptRematch _ => .error socket "Unable to start rematch"
  | .leaveRoom _ => .leaveRefused socket "Unable to leave room"

section Handlers

variable {js : ChessJs}

/-- The rest of the caller of an `async` function that has just returned. -/
def tick (k : RoomCode js) : RoomCode js := .await .tick fun _ ↦ k

/-! ### Materializing a room -/

/-- `hydrateRoom(normalizedRoomId)`, `gameSocket.js:156–177`, and the `finally` of `getRoom`. -/
def hydrateRoom (job : Nat) (roomId : String) : RoomCode js :=
  .await (.snapshot roomId) fun
    | none => finish none
    | some found =>
      match found.filter isMaterializable with
      | none => finish none
      | some snapshot =>
        match buildRoomFromSnapshot js snapshot with
        | none => .await (.call (.abandonMany snapshot.game.id)) fun
          | none => .throw "abandon failed"
          | some _ => finish none
        | some built => .look fun m ↦
          .store (·.add (.ofRoom roomId built)) (finish (some m.allocated))
where
  /-- The promise the joins wait for. -/
  finish (room : Option Nat) : RoomCode js :=
    tick (.store (fun m ↦ { m with
      hydrating := m.hydrating.delete roomId
      hydrated := Function.update m.hydrated job (some room) }) .done)

/-- `refreshRoomFromDb(room)`, `gameSocket.js:225–256`, then the rest of the task, with the live
object or without truth. -/
def refreshRoomFromDb (room : Nat) (next : Option Nat → RoomCode js) : RoomCode js :=
  .look fun m ↦
    let roomId := (m.objects room).id
    .await (.snapshot roomId) fun
      | none => tick (next none)
      | some found =>
        match found.filter isMaterializable with
        | none => .store (·.evict roomId) (tick (next none))
        | some snapshot =>
          match buildRoomFromSnapshot js snapshot with
          | none => .await (.call (.abandonMany snapshot.game.id)) fun
            | none => .throw "abandon failed"
            | some _ => .store (·.evict roomId) (tick (next none))
          | some built => .look fun m ↦
            .store (·.add ((m.current roomId room).rebuilt roomId built))
              (tick (next (some m.allocated)))

/-! ### Rematch votes -/

/-- `addVote(gameId, userId)`, `rematchVotes.js:52–62, 87–102`; `none` where Redis is
unavailable. -/
def addVote (backend : VoteBackend) (gameId : Nat) (userId : Option Nat)
    (next : Option Nat → RoomCode js) : RoomCode js :=
  if gameId = 0 then .throw "Refusing rematch key for invalid game id"
  else match userId with
  | none | some 0 => .throw "Refusing rematch vote for invalid user id"
  | some user =>
    match backend with
    | .localBackend => .await (.vote (.addLocal gameId user)) next
    | .redisBackend => .await (.vote (.sadd gameId user)) fun
      | none => next none
      | some _ => .await (.vote (.expire gameId)) fun
        | none => next none
        | some _ => .await (.vote (.scard gameId)) next

/-- `removeVote(gameId, userId)`, which never throws. -/
def removeVote (gameId : Nat) (userId : Option Nat) (next : RoomCode js) : RoomCode js :=
  match userId with
  | none | some 0 => next
  | some user => if gameId = 0 then next else .await (.vote (.srem gameId user)) fun _ ↦ next

/-- `clearVotes(gameId)`, which never throws. -/
def clearVotes (gameId : Nat) (next : RoomCode js) : RoomCode js :=
  if gameId = 0 then next else .await (.vote (.del gameId)) fun _ ↦ next

/-! ### Presence -/

/-- `live.players.every(player => present.has(player.userId))`, where `present` are those of the
asked users that are among the sockets fetched. -/
def allPresent (asked : List (Option Nat)) (fetched : List Nat) (o : RoomObject js) : Bool :=
  o.players.all fun seat ↦ asked.contains seat.player.userId &&
    seat.player.userId.any fetched.contains

/-- The users of a room object. -/
def RoomObject.users (o : RoomObject js) : List (Option Nat) := o.players.map (·.player.userId)

/-! ### create_room -/

/-- The object of a room just created, `gameSocket.js:405–410`. -/
def RoomObject.created (roomId : String) (gameId : Nat) (chess : js.Game) (socket : Nat)
    (user : SocketUser) (now : Nat) : RoomObject js where
  id := roomId
  gameId := gameId
  players := [⟨⟨some user.username, .w, some user.id⟩, some socket⟩]
  chess := chess
  status := .waiting
  moves := []
  createdAt := now
  operation := none

/-- `create_room`, `gameSocket.js:397–418`. -/
def createRoomCode (roomId : String) (socket : Nat) (user : SocketUser) (newId now : Nat) :
    RoomCode js :=
  .await (.call (.create newId roomId user now)) fun
    | none => .throw "create failed"
    | some game =>
      match js.loadOr game.boardFen with
      | none => .throw "Invalid FEN"
      | some chess => .store (·.add (.created roomId game.id chess socket user now))
        (.tell (.roomCreated socket roomId .w) .done)

/-! ### join_room -/

/-- `join_room` once the socket has a seat, `gameSocket.js:446–475`. -/
def welcome (live : Nat) (socket : Nat) : RoomCode js :=
  .look fun m ↦
    if (m.objects live).status = .finished then .tell (.gameReplayed socket (m.objects live)) .done
    else .await (.presence (m.objects live).id) fun fetched ↦ .look fun m' ↦
      if (m'.objects live).players.length = 2 ∧
          allPresent (m.objects live).users fetched (m'.objects live) then
        .tell (.gameStart (m'.objects live)) .done
      else
        let joiner := (m'.objects live).players.find? (·.id == some socket)
        .tell (.roomRejoined socket (m'.objects live)
          ((joiner.map fun seat ↦ seat.player.color).getD .b)) .done

/-- The seat of a fresh join, `gameSocket.js:443–444`. -/
def RoomObject.seatBlack (o : RoomObject js) (socket : Nat) (user : SocketUser) : RoomObject js :=
  { o with
    players := o.players ++ [⟨⟨some user.username, .b, some user.id⟩, some socket⟩]
    status := .playing }

/-- The task of `join_room`, `gameSocket.js:426–475`. -/
def joinTask (socket : Nat) (user : SocketUser) (room : Nat) : RoomCode js :=
  refreshRoomFromDb room fun
    | none => .tell (.error socket "Room not found") .done
    | some live => .look fun m ↦
      if (m.objects live).players.any (·.freeOf user.id) then
        .store (·.modify live (·.reattach user.id socket)) (welcome live socket)
      else if (m.objects live).players.any (·.player.userId == some user.id) then
        .throw "Already joined"
      else if 2 ≤ (m.objects live).players.length ∨ (m.objects live).status ≠ .waiting then
        .throw "Room is full"
      else .await (.call (.claimBlack (m.objects live).gameId user)) fun
        | none => .throw "claim failed"
        | some none => .throw "Room is full"
        | some (some _) => .store (·.modify live (·.seatBlack socket user)) (welcome live socket)

/-! ### make_move, game_over, resign -/

/-- `live.status = "finished"`, then the end is told, where the finalization has settled. -/
def announce (live : Nat) (result : GameResult) (winner : Option String) (finalized : Finalized)
    (next : RoomCode js) : RoomCode js :=
  if finalized.settled then
    .store (·.modify live fun o ↦ { o with status := .finished }) (.look fun m ↦
      .tell (.gameEnded (m.objects live) result winner finalized.eloChange) next)
  else next

/-- `live.players.find(candidate => candidate.color === color)?.name`. -/
def RoomObject.nameOf (o : RoomObject js) (color : Option Color) : Option String :=
  (o.players.find? fun seat ↦ some seat.player.color == color).bind fun seat ↦ seat.player.name

/-- `live.chess = persisted.chess; live.moves.push(persisted.record)`. -/
def RoomObject.moved (o : RoomObject js) (persisted : Persisted js) : RoomObject js :=
  { o with chess := persisted.chess, moves := o.moves ++ [persisted.record] }

/-- `make_move`, `gameSocket.js:483–536`. -/
def moveTask (socket : Nat) (user : SocketUser) (requested : Option Json) (now : Nat)
    (room : Nat) : RoomCode js :=
  refreshRoomFromDb room fun
    | none => .tell (.error socket "Game not available") .done
    | some live => .look fun m ↦
      if (m.objects live).status ≠ .playing then .done
      else match (m.objects live).players.find? (·.id == some socket) with
      | none => .tell (.error socket "Not your turn") .done
      | some seat =>
        if seat.player.color ≠ js.turn (m.objects live).chess then
          .tell (.error socket "Not your turn") .done
        else .await (.call (.persistMove (m.objects live).gameId user seat.player requested)) fun
          | none => .tell (.error socket "Unable to record move") .done
          | some none => .tell (.error socket "Illegal move") .done
          | some (some persisted) =>
            .store (·.modify live (·.moved persisted)) (.look fun m' ↦
              .tell (.moveMade (m'.objects live) persisted.move)
              (if js.isGameOver (m'.objects live).chess then
                let outcome := outcomeOf js (m'.objects live).chess
                let winner := (m'.objects live).nameOf outcome.2
                .await (.call (.finalize (m'.objects live).room outcome.1 outcome.2 now)) fun
                  | none => .tell (.error socket "Move recorded; unable to finalize game") .done
                  | some finalized => announce live outcome.1 winner finalized .done
              else .done))

/-- `game_over`, `gameSocket.js:538–561`. -/
def gameOverTask (socket : Nat) (now : Nat) (room : Nat) : RoomCode js :=
  refreshRoomFromDb room fun
    | none => .done
    | some live => .look fun m ↦
      if !(m.objects live).players.any (·.id == some socket) then
        .tell (.error socket "Not authorized") .done
      else if !js.isGameOver (m.objects live).chess then .tell (.error socket "Game not over") .done
      else if (m.objects live).status = .finished then .done
      else
        let outcome := outcomeOf js (m.objects live).chess
        let winner := (m.objects live).nameOf outcome.2
        .await (.call (.finalize (m.objects live).room outcome.1 outcome.2 now)) fun
          | none => .throw "finalize failed"
          | some finalized => announce live outcome.1 winner finalized .done

/-- The opponent of a seat. -/
def RoomObject.opponent (o : RoomObject js) (seat : Seat) : Option Player :=
  (o.players.find? fun other ↦ other.player.color != seat.player.color).map Seat.player

/-- `resign`, `gameSocket.js:563–581`. -/
def resignTask (socket : Nat) (now : Nat) (room : Nat) : RoomCode js :=
  refreshRoomFromDb room fun
    | none => .done
    | some live => .look fun m ↦
      if (m.objects live).status ≠ .playing then .done
      else match (m.objects live).players.find? (·.id == some socket) with
      | none => .tell (.error socket "Not authorized") .done
      | some caller =>
        let opponent := (m.objects live).opponent caller
        .await (.call (.finalize (m.objects live).room .resign (opponent.map Player.color) now)) fun
          | none => .throw "finalize failed"
          | some finalized => announce live .resign (opponent.bind Player.name) finalized .done

/-! ### accept_rematch -/

/-- `{ ...player, color: player.color === "w" ? "b" : "w" }`. -/
def Seat.switched (seat : Seat) : Seat := { seat with player := seat.player.switched }

/-- The room object of the new game, `gameSocket.js:630–640`. -/
def RoomObject.rematched (o : RoomObject js) (gameId : Nat) (players : List Seat) (chess : js.Game)
    (now : Nat) : RoomObject js :=
  { o with
    gameId := gameId
    players := players
    chess := chess
    moves := []
    createdAt := now
    status := .playing }

/-- `accept_rematch` once the votes are counted, `gameSocket.js:617–645`. -/
def rematchTask (live : Nat) (count newId now : Nat) : RoomCode js :=
  .look fun m ↦ .await (.presence (m.objects live).id) fun fetched ↦ .look fun m' ↦
    if count < 2 ∨ allPresent (m.objects live).users fetched (m'.objects live) = false then .done
    else
      let switched := (m'.objects live).players.map Seat.switched
      match switched.find? (·.player.color == .w), switched.find? (·.player.color == .b) with
      | some white, some black =>
        .await (.call (.rematch (m'.objects live).gameId (some (m'.objects live).id) white.player
          black.player newId now)) fun
          | none => .throw "rematch failed"
          | some game => .look fun m'' ↦
            match js.loadOr game.boardFen with
            | none => .store (·.modify live fun o ↦
                { o with gameId := game.id, players := switched }) (.throw "Invalid FEN")
            | some chess =>
              .store (·.modify live (·.rematched game.id switched chess now))
                (clearVotes (m''.objects live).gameId (.look fun m₃ ↦
                  .tell (.gameStart (m₃.objects live)) .done))
      | _, _ => .throw "white or black is undefined"

/-- `accept_rematch`, `gameSocket.js:592–646`. -/
def acceptTask (backend : VoteBackend) (socket : Nat) (newId now : Nat) (room : Nat) :
    RoomCode js :=
  refreshRoomFromDb room fun
    | none => .tell (.error socket "Not authorized") .done
    | some live => .look fun m ↦
      if (m.objects live).status ≠ .finished then .tell (.error socket "Not authorized") .done
      else match (m.objects live).players.find? (·.id == some socket) with
      | none => .tell (.error socket "Not authorized") .done
      | some voter => addVote backend (m.objects live).gameId voter.player.userId fun
        | none => .tell (.error socket "Rematch temporarily unavailable") .done
        | some count => rematchTask live count newId now

/-! ### leave_room, disconnect -/

/-- The players with the socket of the `i`th taken off. -/
def RoomObject.detachAt (o : RoomObject js) (i : Nat) : RoomObject js :=
  { o with players := o.players.modify i (·.hold none) }

/-- `leave_room` from its detach on, `gameSocket.js:692–699`; `i` is the player's index. -/
def departTask (live : Nat) (i : Nat) (seat : Seat) (socket : Nat) : RoomCode js :=
  .store (·.modify live (·.detachAt i)) (.look fun m ↦
    removeVote (m.objects live).gameId seat.player.userId (.look fun m' ↦
      if (m'.objects live).status = .finished ∧ (m'.objects live).socketless then
        .store (·.evict (m'.objects live).id) (.tell (.left socket) .done)
      else .tell (.left socket) .done))

/-- `leave_room`, `gameSocket.js:661–704`. -/
def leaveTask (socket : Nat) (now : Nat) (room : Nat) : RoomCode js :=
  refreshRoomFromDb room fun
    | none => .look fun m ↦
      if (m.objects room).players.any (·.id == some socket) then
        .store (·.modify room (·.detach socket)) (.tell (.left socket) .done)
      else .tell (.leaveRefused socket "Not authorized") .done
    | some live => .look fun m ↦
      match (m.objects live).players.findIdx? (·.id == some socket),
          (m.objects live).players.find? (·.id == some socket) with
      | some i, some seat =>
        if (m.objects live).status = .playing then
          let opponent := (m.objects live).opponent seat
          .await (.call (.finalize (m.objects live).room .resign (opponent.map Player.color) now))
            fun
            | none => .throw "finalize failed"
            | some finalized => announce live .resign (opponent.bind Player.name) finalized
              (departTask live i seat socket)
        else departTask live i seat socket
      | _, _ => .tell (.leaveRefused socket "Not authorized") .done

/-- The task of `disconnect`, `gameSocket.js:713–724`. It does not refresh. -/
def disconnectTask (socket : Nat) (room : Nat) : RoomCode js :=
  .look fun m ↦
    let live := (m.activeRooms.get (m.objects room).id).getD room
    match (m.objects live).players.find? (·.id == some socket) with
    | none => .done
    | some seat => .store (·.modify live (·.detach socket))
      (removeVote (m.objects live).gameId seat.player.userId (.look fun m' ↦
        let rest : RoomCode js :=
          if (m'.objects live).status = .finished ∧ (m'.objects live).socketless then
            .store (·.evict (m'.objects live).id) .done
          else .done
        if (m'.objects live).status = .playing then
          .tell (.opponentDisconnected (m'.objects live) socket) rest
        else rest))

end Handlers

end ChessStack.Server
