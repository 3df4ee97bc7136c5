import ChessStack.Js.Map
import ChessStack.Library.Async
import ChessStack.Server.Tasks
import Mathlib.Logic.Function.Basic

/-!
# The memory of one process

Library `Server`. What `Chess-Backend/src/socket/gameSocket.js` keeps in memory: the room objects
with the sockets attached to their seats, the cache `activeRooms`, and the hydrations in flight.
What its functions wait for is a request: a snapshot, a transaction, the sockets present in a
room, or a command on the rematch votes of `Chess-Backend/src/services/rematchVotes.js`.
-/

namespace ChessStack.Server

open ChessStack.Chess ChessStack.Js ChessStack.Library ChessStack.Store

/-! ### Room objects -/

/-- An element of `room.players` and the socket attached to it. -/
structure Seat where
  player : Player
  id : Option Nat
  deriving DecidableEq, Repr

/-- `player.id = id`. -/
def Seat.hold (seat : Seat) (id : Option Nat) : Seat := { seat with id := id }

/-- `player.userId === userId && !player.id`. -/
def Seat.freeOf (seat : Seat) (userId : Nat) : Bool :=
  seat.player.userId == some userId && seat.id.isNone

section

variable (js : ChessJs)

/-- A room object, `gameSocket.js:114–133`. `operation` is the last task of its chain, `none`
where the chain is a promise that was born settled. -/
structure RoomObject where
  id : String
  gameId : Nat
  players : List Seat
  chess : js.Game
  status : RoomStatus
  moves : List MoveRow
  createdAt : Nat
  operation : Option Nat

/-- The memory of a process. Room objects are known by their reference. A hydration leaves the
object it made, if it made one, to those that wait for it. -/
structure Memory where
  objects : Nat → RoomObject js
  allocated : Nat
  activeRooms : JsMap String Nat
  hydrating : JsMap String Nat
  hydrated : Nat → Option (Option Nat)
  draining : Bool
  listening : Bool

end

section

variable {js : ChessJs}

/-- The room as transactions and decisions see it. -/
def RoomObject.room (o : RoomObject js) : Room js where
  id := some o.id
  gameId := o.gameId
  players := o.players.map Seat.player
  chess := o.chess
  status := o.status
  moves := o.moves
  createdAt := o.createdAt

/-- `room.players.every(player => !player.id)`. -/
def RoomObject.socketless (o : RoomObject js) : Bool := o.players.all (·.id.isNone)

/-- The object made of a room that was built from a snapshot: no socket is attached. -/
def RoomObject.ofRoom (roomId : String) (built : Room js) : RoomObject js where
  id := roomId
  gameId := built.gameId
  players := built.players.map fun player ↦ ⟨player, none⟩
  chess := built.chess
  status := built.status
  moves := built.moves
  createdAt := built.createdAt
  operation := none

/-- The socket a user has in a room object: `new Map(players.map(p => [p.userId, p.id]))`. -/
def RoomObject.socketOf (o : RoomObject js) (userId : Option Nat) : Option Nat :=
  (o.players.reverse.find? (·.player.userId == userId)).bind Seat.id

/-- What a refresh puts in place of the current object, `gameSocket.js:243–252`. -/
def RoomObject.rebuilt (current : RoomObject js) (roomId : String) (built : Room js) :
    RoomObject js :=
  { RoomObject.ofRoom roomId built with
    players := built.players.map fun player ↦ ⟨player, current.socketOf player.userId⟩
    operation := current.operation }

/-- `player.id = null` for the first player the socket is attached to. -/
def RoomObject.detach (o : RoomObject js) (socket : Nat) : RoomObject js :=
  { o with players := updateFirst (·.id == some socket) (·.hold none) o.players }

/-- `reconnecting.id = socket.id` for the first free seat of the user. -/
def RoomObject.reattach (o : RoomObject js) (userId socket : Nat) : RoomObject js :=
  { o with players := updateFirst (·.freeOf userId) (·.hold (some socket)) o.players }

namespace Memory

/-- The memory of a process that is not running. -/
def empty : Memory js where
  objects _ := ⟨"", 0, [], js.start, .waiting, [], 0, none⟩
  allocated := 0
  activeRooms := .empty
  hydrating := .empty
  hydrated _ := none
  draining := false
  listening := false

/-- `activeRooms.get(roomId) || room`. -/
def current (m : Memory js) (roomId : String) (ref : Nat) : RoomObject js :=
  m.objects ((m.activeRooms.get roomId).getD ref)

/-- Change an object. -/
def modify (m : Memory js) (ref : Nat) (f : RoomObject js → RoomObject js) : Memory js :=
  { m with objects := Function.update m.objects ref (f (m.objects ref)) }

/-- A new object, in the cache under its room id. -/
def add (m : Memory js) (o : RoomObject js) : Memory js :=
  { m with
    objects := Function.update m.objects m.allocated o
    allocated := m.allocated + 1
    activeRooms := m.activeRooms.set o.id m.allocated }

/-- `activeRooms.delete(roomId)`. -/
def evict (m : Memory js) (roomId : String) : Memory js :=
  { m with activeRooms := m.activeRooms.delete roomId }

/-- Whether the cached room has no local socket. -/
def socketless (m : Memory js) (roomId : String) : Bool :=
  match m.activeRooms.get roomId with
  | some ref => (m.objects ref).socketless
  | none => false

/-- `evictIfSocketless(cacheKey)`, `gameSocket.js:210–213`. -/
def evictIfSocketless (m : Memory js) (roomId : String) : Memory js :=
  if m.socketless roomId then m.evict roomId else m

end Memory

end

/-! ### Room ids -/

/-- `ROOM_ID_FORMAT`, `/^[A-Z0-9\-_]{7}$/`. -/
def isRoomId (text : String) : Bool :=
  text.length == 7 && text.toList.all fun c ↦
    ('A' ≤ c && c ≤ 'Z') || ('0' ≤ c && c ≤ '9') || c == '-' || c == '_'

/-- `normalizeRoomId`, `gameSocket.js:141–144`, of a text already in upper case. -/
def normalizeRoomId (text : String) : Option String := if isRoomId text then some text else none

/-! ### Rematch votes -/

/-- Where votes are kept: in the process, or in the Redis all processes share. -/
inductive VoteBackend where
  | localBackend
  | redisBackend
  deriving DecidableEq

/-- A command on the vote set of a game. `addLocal` is `addVote` of the local backend, which does
not wait; its other two functions do what `SREM` and `DEL` do. -/
inductive VoteCommand where
  | sadd (gameId user : Nat)
  | expire (gameId : Nat)
  | scard (gameId : Nat)
  | srem (gameId user : Nat)
  | del (gameId : Nat)
  | addLocal (gameId user : Nat)
  deriving DecidableEq

namespace VoteCommand

/-- The key the command is about. -/
def gameId : VoteCommand → Nat
  | .sadd gameId _ | .expire gameId | .scard gameId | .srem gameId _ | .del gameId
  | .addLocal gameId _ => gameId

/-- The set after the command. -/
def apply (voters : List Nat) : VoteCommand → List Nat
  | .sadd _ user | .addLocal _ user => voters.insert user
  | .srem _ user => voters.erase user
  | .del _ => []
  | .expire _ | .scard _ => voters

/-- The reply of the command, for the set before it. -/
def reply (voters : List Nat) : VoteCommand → Nat
  | .sadd _ user => if user ∈ voters then 0 else 1
  | .expire _ => if voters = [] then 0 else 1
  | .scard _ => voters.length
  | .srem _ user => if user ∈ voters then 1 else 0
  | .del _ => if voters = [] then 0 else 1
  | .addLocal _ user => (voters.insert user).length

end VoteCommand

/-! ### Requests -/

section

variable (js : ChessJs)

/-- What a function waits for. `tick` is a promise that has settled. -/
inductive Await where
  | tick
  | snapshot (roomId : String)
  | call (c : Call js)
  | presence (roomId : String)
  | vote (c : VoteCommand)

/-- The answers; `none` where the promise rejects. A presence query that fails counts nobody. -/
def Answer : Await js → Type
  | .tick => Unit
  | .snapshot _ => Option (Option GameSnapshot)
  | .call c => Option (Result js c)
  | .presence _ => List Nat
  | .vote _ => Option Nat

/-- What clients are sent. A room in a message is the object at that moment. -/
inductive Message where
  | error (socket : Nat) (text : String)
  | roomCreated (socket : Nat) (roomId : String) (color : Color)
  | gameStart (room : RoomObject js)
  | roomRejoined (socket : Nat) (room : RoomObject js) (color : Color)
  | gameReplayed (socket : Nat) (room : RoomObject js)
  | moveMade (room : RoomObject js) (move : Canonical)
  | gameEnded (room : RoomObject js) (result : GameResult) (winner : Option String)
      (eloChange : Option EloChange)
  | rematchRequested (room : RoomObject js) (socket : Nat)
  | opponentDisconnected (room : RoomObject js) (socket : Nat)
  | left (socket : Nat)
  | leaveRefused (socket : Nat) (text : String)

/-- An asynchronous function of a process. -/
abbrev RoomCode := Code (Memory js) (Await js) (Answer js) (Message js)

end

end ChessStack.Server
