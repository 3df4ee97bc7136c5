import ChessStack.Library.Machine
import ChessStack.Server.Handlers

/-!
# The processes of the game server

Library `Server`. Any number of processes of `Chess-Backend/src/socket/gameSocket.js` over one
database, their sockets and the tasks in flight. A step is one turn of one event loop, or a
request being served outside: turns of one process do not overlap, and whatever a task waits for
may be served at any later time, and its reply may come later still or be lost. Transactions are
served whole here; that their statements interleave without a difference is
`Library.ReadCommitted` and what is built on it.
-/

namespace ChessStack.Server

open ChessStack.Chess ChessStack.Js ChessStack.Library ChessStack.Store

/-- How the server is deployed. -/
structure Deployment where
  computeNewRatings : Int → Int → Score → Int × Int
  accounts : List SocketUser
  votes : VoteBackend

/-! ### Outside the processes -/

/-- The database and the vote sets of each store, by game. -/
structure Outside where
  db : Db
  votes : Nat → Nat → List Nat

namespace Outside

/-- The store a process keeps its votes in. -/
def storeOf (D : Deployment) (process : Nat) : Nat :=
  match D.votes with
  | .localBackend => process
  | .redisBackend => 0

/-- The vote set of a game, replaced. -/
def setVotes (o : Outside) (store gameId : Nat) (voters : List Nat) : Outside :=
  { o with votes := Function.update o.votes store (Function.update (o.votes store) gameId voters) }

variable {js : ChessJs}

/-- Serve a request of a process. `fetched` is what a presence query returns. -/
def serve (D : Deployment) (process : Nat) (fetched : List Nat) (o : Outside) :
    (r : Await js) → Option (Answer js r × Outside)
  | .tick => some ((), o)
  | .snapshot roomId => some (some (findRoomSnapshot o.db roomId), o)
  | .call c => (backend.run (prog js D.computeNewRatings c) o.db).map fun (value, db) ↦
      (some value, { o with db := db })
  | .presence _ => some (fetched, o)
  | .vote c =>
    let voters := o.votes (storeOf D process) c.gameId
    some (some (c.reply voters), o.setVotes (storeOf D process) c.gameId (c.apply voters))

end Outside

/-- The answer to a request that fails, where it can. -/
def Await.failed {js : ChessJs} : (r : Await js) → Option (Answer js r)
  | .tick => none
  | .snapshot _ => some none
  | .call _ => some none
  | .presence _ => some []
  | .vote _ => some none

/-! ### Tasks in flight -/

/-- Where a task comes from. `newId` and `now` are what the sequence and the clock will give. -/
inductive Origin where
  | event (socket : Nat) (user : SocketUser) (packet : Packet) (newId now : Nat)
  | disconnect (socket : Nat)
  | hydration (roomId : String)

/-- A function of a handler: its number, its process and where it comes from. -/
structure Caller where
  job : Nat
  process : Nat
  origin : Origin

section

variable (js : ChessJs)

/-- How far an asynchronous function is. A join waits for its room first. A function that waits
has its request outside; one in `turn` has its answer. One is `dead` whose process is gone. -/
inductive Phase where
  | fetched (room : Nat)
  | fetching (hydration : Nat)
  | queued
  | waiting (c : RoomCode js)
  | turn (c : RoomCode js)
  | caught (room : Nat) (text : String)
  | settled
  | dead

/-- A room task, the function that will submit one, or another function of a handler. `room` is
the object a task was submitted on, `after` the task before it on the chain. -/
structure Job where
  caller : Caller
  room : Option Nat
  after : Option Nat
  phase : Phase js

/-- A client's connection. -/
structure Socket where
  process : Nat
  user : SocketUser
  connected : Bool

/-- A drain of the room chains: the tails it waits for, and how it has returned. -/
structure Drain where
  tails : List (Option Nat)
  timedOut : Option Bool

/-- What has happened. A request may have been served although its reply never arrives. -/
inductive Event where
  | served (c : Caller) (r : Await js) (answer : Answer js r) (arrived : Bool)
      (before after : Outside)
  | evaporated (store gameId : Nat)
  | lost (store : Nat)
  | told (c : Caller) (m : Message js)

/-- The state of the whole system. -/
structure World where
  outside : Outside
  memory : Nat → Memory js
  sockets : Nat → Option Socket
  jobs : Nat → Job js
  created : Nat
  drains : Nat → Option Drain
  log : List (Event js)

end

/-- The task a handler submits on a room. -/
def Origin.task {js : ChessJs} (D : Deployment) : Origin → Nat → RoomCode js
  | .event socket user packet newId now, room =>
    match packet with
    | .joinRoom _ => joinTask socket user room
    | .makeMove _ move => moveTask socket user move now room
    | .gameOver _ => gameOverTask socket now room
    | .resign _ => resignTask socket now room
    | .acceptRematch _ => acceptTask D.votes socket newId now room
    | .leaveRoom _ => leaveTask socket now room
    | .createRoom _ | .requestRematch _ => .done
  | .disconnect socket, room => disconnectTask socket room
  | .hydration _, _ => .done

namespace World

variable {js : ChessJs}

/-- The system before the first connection: every process has started on the fresh tables. -/
def start (d : Db) : World js where
  outside := ⟨d, fun _ _ ↦ []⟩
  memory _ := { Memory.empty with listening := true }
  sockets _ := none
  jobs j := ⟨⟨j, 0, .disconnect 0⟩, none, none, .settled⟩
  created := 0
  drains _ := none
  log := []

/-! ### Turns -/

/-- A process drains. -/
def setDrain (w : World js) (process : Nat) (drain : Drain) : World js :=
  { w with drains := Function.update w.drains process (some drain) }

/-- A socket as it is now. -/
def setSocket (w : World js) (s : Nat) (socket : Socket) : World js :=
  { w with sockets := Function.update w.sockets s (some socket) }

/-- The memory of a process as it is now. -/
def setMemory (w : World js) (process : Nat) (m : Memory js) : World js :=
  { w with memory := Function.update w.memory process m }

/-- A function as it is now. -/
def setJob (w : World js) (j : Nat) (job : Job js) : World js :=
  { w with jobs := Function.update w.jobs j job }

/-- Where a function is now. -/
def setPhase (w : World js) (j : Nat) (phase : Phase js) : World js :=
  w.setJob j { w.jobs j with phase := phase }

/-- Something happens. -/
def say (w : World js) (e : Event js) : World js := { w with log := w.log ++ [e] }

/-- Where a function runs. -/
def host (c : Caller) : Host (World js) (Memory js) (Message js) where
  memory w := w.memory c.process
  put w m := w.setMemory c.process m
  say w m := w.say (.told c m)

/-- A job tells a client. -/
def tell (w : World js) (j : Nat) (m : Message js) : World js := w.say (.told (w.jobs j).caller m)

/-- What follows the rejection of a room's task: a join goes to its `catch`, another event tells
its refusal. -/
def reject (w : World js) (j room : Nat) (text : String) : World js :=
  match (w.jobs j).caller.origin with
  | .event socket _ packet _ _ =>
    match packet with
    | .joinRoom _ => w.setPhase j (.caught room text)
    | _ => (w.tell j (packet.refusal socket)).setPhase j .settled
  | .disconnect _ | .hydration _ => w.setPhase j .settled

/-- What becomes of a job after its turn. -/
def rest (w : World js) (j : Nat) : RoomCode js → World js
  | .done => w.setPhase j .settled
  | .throw text => w.reject j ((w.jobs j).room.getD 0) text
  | c => w.setPhase j (.waiting c)

/-- Run a job's function up to its next await or its end. -/
def run (w : World js) (j : Nat) (c : RoomCode js) : World js :=
  (c.exec (host (w.jobs j).caller) w).1.rest j (c.exec (host (w.jobs j).caller) w).2

/-- `roomTask(room, task)`, `gameSocket.js:65–77`. -/
def roomTask (w : World js) (j room : Nat) : World js :=
  let process := (w.jobs j).caller.process
  let m := w.memory process
  if m.draining then w.reject j room "Server is shutting down"
  else (w.setMemory process (m.modify room fun o ↦ { o with operation := some j })).setJob j
    { w.jobs j with room := some room, after := (m.objects room).operation, phase := .queued }

/-- A new function of a process. -/
def create (w : World js) (process : Nat) (origin : Origin) (phase : Phase js) : World js :=
  { w with
    jobs := Function.update w.jobs w.created ⟨⟨w.created, process, origin⟩, none, none, phase⟩
    created := w.created + 1 }

/-! ### Events of sockets -/

/-- `join_room` up to its first await: `getRoom(roomId)`, `gameSocket.js:179–193, 420–424`. The
first join that misses the cache starts the hydration. -/
def joinRoom (w : World js) (process : Nat) (origin : Origin) (socket : Nat) (roomId : String) :
    World js :=
  let m := w.memory process
  match normalizeRoomId roomId with
  | none => (w.create process origin .settled).tell w.created (.error socket "Room not found")
  | some name =>
    match m.activeRooms.get name with
    | some room => w.create process origin (.fetched room)
    | none =>
      match m.hydrating.get name with
      | some hydration => w.create process origin (.fetching hydration)
      | none =>
        let w' := (w.setMemory process { m with hydrating := m.hydrating.set name w.created }).create
          process (.hydration name) .settled
        (w'.run w.created (hydrateRoom w.created name)).create process origin (.fetching w.created)

/-- `getCachedRoom(roomId)`, `gameSocket.js:199–203`. -/
def cached (w : World js) (process : Nat) (roomId : String) : Option Nat :=
  (normalizeRoomId roomId).bind (w.memory process).activeRooms.get

/-- What a handler does where the room is not cached. -/
def absent (w : World js) (j socket : Nat) : Packet → World js
  | .makeMove _ _ => w.tell j (.error socket "Game not available")
  | .leaveRoom _ => w.tell j (.left socket)
  | _ => w

/-- A handler that needs its room cached. -/
def submit (w : World js) (process : Nat) (origin : Origin) (socket : Nat) (packet : Packet)
    (roomId : String) : World js :=
  let w' := w.create process origin .settled
  match w.cached process roomId with
  | some room => w'.roomTask w.created room
  | none => w'.absent w.created socket packet

/-- The handler of an event. `createRoom` comes with the room id it has generated, which no
cached room has. -/
def handle (w : World js) (process socket : Nat) (user : SocketUser) (packet : Packet)
    (newId now : Nat) : Option (World js) :=
  let origin := Origin.event socket user packet newId now
  match packet with
  | .createRoom roomId =>
    if isRoomId roomId ∧ (w.memory process).activeRooms.get roomId = none then
      some ((w.create process origin .settled).run w.created
        (createRoomCode roomId socket user newId now))
    else none
  | .joinRoom roomId => some (w.joinRoom process origin socket roomId)
  | .requestRematch roomId =>
    match w.cached process roomId with
    | some room =>
      let o := (w.memory process).objects room
      if o.players.any (·.id == some socket) ∧ o.status = .finished then
        some ((w.create process origin .settled).tell w.created (.rematchRequested o socket))
      else some (w.create process origin .settled)
    | none => some (w.create process origin .settled)
  | .makeMove roomId _ | .gameOver roomId | .resign roomId | .acceptRematch roomId
  | .leaveRoom roomId => some (w.submit process origin socket packet roomId)

/-- The first cached room a socket is attached to. -/
def roomOf (w : World js) (process socket : Nat) : Option Nat :=
  ((w.memory process).activeRooms.entries.find? fun e ↦
    ((w.memory process).objects e.2).players.any (·.id == some socket)).map Prod.snd

/-- The handler of `disconnect`, `gameSocket.js:706–732`: it stops at the first room. -/
def hangUp (w : World js) (process socket : Nat) : World js :=
  match w.roomOf process socket with
  | some room => (w.create process (.disconnect socket) .settled).roomTask w.created room
  | none => w

/-! ### Steps -/

/-- A task that is done for those behind it on the chain. -/
def finished (w : World js) : Option Nat → Bool
  | none => true
  | some j =>
    match (w.jobs j).phase with
    | .settled | .caught _ _ | .dead => true
    | _ => false

/-- One turn of a job. -/
def proceed (D : Deployment) (w : World js) (j : Nat) : Option (World js) :=
  let job := w.jobs j
  match job.phase with
  | .fetched room => some (w.roomTask j room)
  | .fetching hydration =>
    match (w.memory job.caller.process).hydrated hydration with
    | some (some room) => some (w.roomTask j room)
    | some none =>
      match job.caller.origin with
      | .event socket _ _ _ _ =>
        some ((w.tell j (.error socket "Room not found")).setPhase j .settled)
      | _ => none
    | none => none
  | .queued =>
    match job.room with
    | some room =>
      if w.finished job.after then some (w.run j (job.caller.origin.task D room)) else none
    | none => none
  | .turn c => some (w.run j c)
  | .caught room text =>
    match job.caller.origin with
    | .event socket _ packet _ _ =>
      let m := w.memory job.caller.process
      some (((w.setMemory job.caller.process (m.evictIfSocketless (m.objects room).id)).tell j
        (if text = "Already joined" then .error socket text else packet.refusal socket)).setPhase j
          .settled)
    | .disconnect _ | .hydration _ => none
  | .waiting _ | .settled | .dead => none

/-- How a request comes back. -/
inductive Reply where
  | arrives (fetched : List Nat)
  | lost
  | fails

/-- A request has been served. -/
def served (w : World js) (j : Nat) (r : Await js) (answer : Answer js r) (arrived : Bool)
    (o : Outside) : World js :=
  { w with
    outside := o
    log := w.log ++ [.served (w.jobs j).caller r answer arrived w.outside o] }

/-- What a job asked for is served, or fails. -/
def perform (D : Deployment) (w : World js) (j : Nat) (reply : Reply) : Option (World js) :=
  match (w.jobs j).phase with
  | .waiting (.await r k) =>
    match reply with
    | .arrives fetched =>
      match w.outside.serve D (w.jobs j).caller.process fetched r with
      | some (answer, o) => some ((w.served j r answer true o).setPhase j (.turn (k answer)))
      | none => none
    | .lost =>
      match w.outside.serve D (w.jobs j).caller.process [] r, r.failed with
      | some (answer, o), some failed =>
        some ((w.served j r answer false o).setPhase j (.turn (k failed)))
      | _, _ => none
    | .fails =>
      match r.failed with
      | some failed => some (w.setPhase j (.turn (k failed)))
      | none => none
  | _ => none

/-- `Game.findRecoverable()`, `Game.js:71–80`. -/
def findRecoverable (d : Db) : List GameSnapshot :=
  ((d.games.rows.filter fun row ↦ row.status == .inProgress && row.gameMode == .multiplayer &&
    row.roomId.isSome).insertionSort fun a b ↦ a.id ≤ b.id).map
    fun row ↦ ⟨row, (d.movesOf row.id).insertionSort fun a b ↦ a.moveNumber ≤ b.moveNumber⟩

/-- `rebuildActiveRooms()`, `gameSocket.js:136–145`, and the start of the server. -/
def rebuildActiveRooms (m : Memory js) (d : Db) : List GameSnapshot → Option (Memory js × Db)
  | [] => some ({ m with listening := true }, d)
  | snapshot :: snapshots =>
    match buildRoomFromSnapshot js snapshot with
    | some built => rebuildActiveRooms (m.add (.ofRoom (built.id.getD "") built)) d snapshots
    | none =>
      match backend.run (abandonMany snapshot.game.id) d with
      | some (_, d') => rebuildActiveRooms m d' snapshots
      | none => none

/-- `drainRoomOperations(budgetMs)`, `gameSocket.js:750–772`, up to its await. -/
def drainRooms (w : World js) (process budget : Nat) : Drain :=
  let m := w.memory process
  let tails := m.activeRooms.entries.map fun e ↦ (m.objects e.2).operation
  if tails = [] then ⟨[], some false⟩
  else if budget = 0 then ⟨tails, some true⟩
  else ⟨tails, none⟩

/-- What can happen next: to a socket, to a function, to the votes, or to a process. -/
inductive Label where
  | connect (socket process : Nat) (user : SocketUser)
  | packet (socket : Nat) (packet : Packet) (newId now : Nat)
  | disconnect (socket : Nat)
  | proceed (job : Nat)
  | perform (job : Nat) (reply : Reply)
  | evaporate (store gameId : Nat)
  | sigterm (process : Nat)
  | drain (process budget : Nat)
  | drained (process : Nat)
  | timeout (process : Nat)
  | crash (process : Nat)
  | restart (process : Nat)

/-- The votes a process keeps itself are gone with it; `rematchVotes.js:47–63`. -/
def loseVotes (D : Deployment) (w : World js) (process : Nat) : World js :=
  match D.votes with
  | .redisBackend => w
  | .localBackend =>
    ({ w with outside := { w.outside with
        votes := Function.update w.outside.votes process fun _ ↦ [] } } : World js).say (.lost process)

/-- The process is gone, with its functions, its sockets and its memory. -/
def crash (w : World js) (process : Nat) : World js :=
  { w with
    memory := Function.update w.memory process Memory.empty
    sockets := fun s ↦ (w.sockets s).map fun socket ↦
      if socket.process = process then { socket with connected := false } else socket
    jobs := fun j ↦
      if (w.jobs j).caller.process = process then { w.jobs j with phase := .dead } else w.jobs j
    drains := Function.update w.drains process none }

/-- The world after it, if it can happen. -/
def next (D : Deployment) (w : World js) : Label → Option (World js)
  | .connect s process user =>
    if (w.sockets s).isNone ∧ (w.memory process).listening ∧ !(w.memory process).draining ∧
        user ∈ D.accounts then
      some (w.setSocket s ⟨process, user, true⟩)
    else none
  | .packet s packet newId now => do
    let socket ← w.sockets s
    if socket.connected then w.handle socket.process s socket.user packet newId now else none
  | .disconnect s => do
    let socket ← w.sockets s
    if socket.connected then
      some ((w.setSocket s { socket with connected := false }).hangUp socket.process s)
    else none
  | .proceed j => w.proceed D j
  | .perform j reply => w.perform D j reply
  | .evaporate store gameId =>
    some (({ w with outside := w.outside.setVotes store gameId [] } : World js).say
      (.evaporated store gameId))
  | .sigterm process => some (w.setMemory process { w.memory process with draining := true })
  | .drain process budget =>
    if (w.memory process).draining ∧ (w.drains process).isNone then
      some (w.setDrain process (w.drainRooms process budget))
    else none
  | .drained process => do
    let drain ← w.drains process
    if drain.timedOut = none ∧ drain.tails.all w.finished then
      some (w.setDrain process { drain with timedOut := some false })
    else none
  | .timeout process => do
    let drain ← w.drains process
    if drain.timedOut = none then
      some (w.setDrain process { drain with timedOut := some true })
    else none
  | .crash process => some ((w.loseVotes D process).crash process)
  | .restart process =>
    if (w.memory process).listening then none
    else (rebuildActiveRooms .empty w.outside.db (findRecoverable w.outside.db)).map fun booted ↦
      ({ w with outside := { w.outside with db := booted.2 } } : World js).setMemory process booted.1

end World

/-- The processes of the server, from fresh tables. -/
def processes (js : ChessJs) (D : Deployment) : Machine (World js) World.Label where
  init w := ∃ d, Fresh D.accounts d ∧ w = World.start d
  step w l w' := w.next D l = some w'

end ChessStack.Server
