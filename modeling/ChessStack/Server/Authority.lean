import ChessStack.Server.Follow
import ChessStack.Server.Lingering
import ChessStack.Server.Rematch

/-!
# What the handlers count on

Library `Server`. A handler of `Chess-Backend/src/socket/gameSocket.js` knows its player by the
socket attached to a seat of a room object in the memory of its process. What holds of these
objects, of the tables and of the votes between any two turns, what a task may count on while it
waits, and what it is entitled to ask of the database and of Redis.
-/

namespace ChessStack.Server

open ChessStack.Chess ChessStack.Js ChessStack.Library ChessStack.Store

/-- The user sits in the game. -/
def SeatedIn (d : Db) (gameId userId : Nat) : Prop :=
  ∃ row, d.game? gameId = some row ∧
    (row.whiteUserId = some userId ∨ row.blackUserId = some userId ∧ row.blackUsername.isSome)

/-- The user has the black seat of the game. -/
def PlaysBlack (d : Db) (gameId userId : Nat) : Prop :=
  ∃ row, d.game? gameId = some row ∧ row.blackUserId = some userId ∧ row.blackUsername.isSome

/-! ### The log -/

namespace Event

variable {js : ChessJs}

/-- What an event does to the vote set of a game. -/
def voters (D : Deployment) (store gameId : Nat) (voters : List Nat) : Event js → List Nat
  | .served c (.vote command) _ _ _ _ =>
    if Outside.storeOf D c.process = store ∧ command.gameId = gameId then command.apply voters
    else voters
  | .evaporated store' gameId' => if store' = store ∧ gameId' = gameId then [] else voters
  | .lost store' => if store' = store then [] else voters
  | _ => voters

end Event

/-- The user has sent `accept_rematch`. -/
def Origin.Accepts (origin : Origin) (userId : Nat) : Prop :=
  ∃ socket user roomId newId now,
    origin = .event socket user (.acceptRematch roomId) newId now ∧ user.id = userId

/-- The events by which a player moves or ends a game. -/
def Packet.Plays : Packet → Prop
  | .makeMove _ _ | .gameOver _ | .resign _ | .leaveRoom _ => True
  | _ => False

section Log

variable {js : ChessJs}

/-- The function was served with the request. -/
def ServedWith (log : List (Event js)) (c : Caller) (r : Await js) : Prop :=
  ∃ a arrived before after, Event.served c r a arrived before after ∈ log

/-- The vote set of a game, as the commands made it. -/
def votersOf (D : Deployment) (log : List (Event js)) (store gameId : Nat) : List Nat :=
  log.foldl (Event.voters D store gameId) []

/-- A command that adds the user's vote for the game. -/
def VoteCommand.Adds (command : VoteCommand) (gameId userId : Nat) : Prop :=
  command = .sadd gameId userId ∨ command = .addLocal gameId userId

/-- A command that counts the votes for the game. -/
def VoteCommand.Counts (command : VoteCommand) (gameId : Nat) : Prop :=
  command = .scard gameId ∨ ∃ userId, command = .addLocal gameId userId

/-- The user's vote for the game was added for an `accept_rematch` of the user. -/
def Voted (log : List (Event js)) (gameId userId : Nat) : Prop :=
  ∃ c command a arrived before after, c.origin.Accepts userId ∧ command.Adds gameId userId ∧
    Event.served c (.vote command) a arrived before after ∈ log

/-- The function has counted the votes for the game with those of these users in the set. -/
def Counted (D : Deployment) (log : List (Event js)) (c : Caller) (gameId : Nat)
    (users : List Nat) : Prop :=
  ∃ command a arrived before after, command.Counts gameId ∧
    Event.served c (.vote command) a arrived before after ∈ log ∧
    ∀ userId ∈ users, userId ∈ after.votes (Outside.storeOf D c.process) gameId

/-- The black seat of the game was given to the user. -/
def Granted (log : List (Event js)) (c : Caller) (gameId : Nat) (user : SocketUser) : Prop :=
  ∃ row arrived before after,
    Event.served c (.call (.claimBlack gameId user)) (some (some row)) arrived before after ∈ log

/-- Some function was served when the black seat of the game was free. -/
def SawVacant (log : List (Event js)) (gameId : Nat) : Prop :=
  ∃ c r a arrived before after row, Event.served c r a arrived before after ∈ log ∧
    before.db.game? gameId = some row ∧ row.blackUsername = none

/-! ### What is told -/

/-- The message tells a client that it is in the game. -/
def Message.Joins (gameId : Nat) : Message js → Prop
  | .gameStart room | .roomRejoined _ room _ | .gameReplayed _ room => room.gameId = gameId
  | _ => False

/-- The message tells the user that it plays Black in the game. -/
def Message.JoinsBlack (gameId : Nat) (user : SocketUser) : Message js → Prop
  | .gameStart room => room.gameId = gameId ∧ user.player .b ∈ room.players.map Seat.player
  | .roomRejoined _ room color =>
    room.gameId = gameId ∧ user.player .b ∈ room.players.map Seat.player ∧ color = .b
  | _ => False

/-- A join is told of games only in which its user sits, and to play Black only where it does. -/
def ToldOk (d : Db) (c : Caller) (m : Message js) : Prop :=
  ∀ socket user roomId newId now, c.origin = .event socket user (.joinRoom roomId) newId now →
    ∀ gameId, (m.Joins gameId → SeatedIn d gameId user.id) ∧
      (m.JoinsBlack gameId user → PlaysBlack d gameId user.id)

/-! ### What may be asked for -/

/-- The events that make a call, and the seat its user has. -/
def Origin.Calls (origin : Origin) : Call js → Db → Prop
  | .create _ _ user _, _ => ∃ socket roomId newId now,
      origin = .event socket user (.createRoom roomId) newId now
  | .claimBlack _ user, _ => ∃ socket roomId newId now,
      origin = .event socket user (.joinRoom roomId) newId now
  | .persistMove gameId user _ _, d => ∃ socket roomId move newId now,
      origin = .event socket user (.makeMove roomId move) newId now ∧ SeatedIn d gameId user.id
  | .finalize room _ _ _, d => ∃ socket user packet newId now,
      origin = .event socket user packet newId now ∧ packet.Plays ∧ SeatedIn d room.gameId user.id
  | .rematch gameId .., d => ∃ userId, origin.Accepts userId ∧ SeatedIn d gameId userId
  | .abandonMany _, _ => False

variable (js)

/-- What a call assumes. -/
structure CallPre (D : Deployment) (c : Caller) (call : Call js) (d : Db)
    (log : List (Event js)) : Prop where
  game : Pre js D.accounts call d
  rooms : RematchPre js call d
  origin : c.origin.Calls call d
  vacant : ∀ gameId user, call = .claimBlack gameId user → SawVacant log gameId
  counted : ∀ gameId roomId white black newId now,
    call = .rematch gameId roomId white black newId now → ∃ whiteId blackId, whiteId ≠ blackId ∧
      white.userId = some whiteId ∧ black.userId = some blackId ∧
      Counted D log c gameId [whiteId, blackId]

variable {js}

/-- What a request assumes of the tables and of what has happened. -/
def AwaitPre (D : Deployment) (c : Caller) (r : Await js) (d : Db) (log : List (Event js)) : Prop :=
  match r with
  | .tick | .snapshot _ | .presence _ => True
  | .call call => CallPre js D c call d log
  | .vote command =>
    (∀ gameId userId, command.Adds gameId userId → c.origin.Accepts userId ∧
      SeatedIn d gameId userId ∧ ∀ command', ¬ ServedWith log c (.vote command')) ∧
    (∀ gameId, command = .scard gameId →
      ∃ userId, ServedWith log c (.vote (.sadd gameId userId)))

end Log

/-! ### What always holds -/

section World

variable {js : ChessJs}

/-- The socket is the user's. -/
def World.SocketIs (w : World js) (socket : Nat) (user : SocketUser) : Prop :=
  ∃ connection, w.sockets socket = some connection ∧ connection.user = user

/-- A room object seats nobody the tables do not, and the socket of a seat is its user's. -/
structure ObjectOk (w : World js) (o : RoomObject js) : Prop where
  seats : ∃ row, w.outside.db.game? o.gameId = some row ∧
    ∀ seat ∈ o.players, seat.player ∈ playersOf row
  sockets : ∀ seat ∈ o.players, ∀ socket, seat.id = some socket →
    ∃ user, w.SocketIs socket user ∧ seat.player.userId = some user.id

variable (D : Deployment) (at_ : js.Game → Position → Prop)

/-- What holds of the tables between any two steps. -/
structure TablesOk (d : Db) : Prop where
  rows : DbOk js at_ D.accounts d
  holders : OneHolder d
  vacant : ∀ id row, d.game? id = some row → row.blackUsername = none → row.status = .inProgress

/-- What held when a request was served, after what the log tells. -/
structure ServedOk (log : List (Event js)) (c : Caller) (r : Await js) (a : Answer js r)
    (before after : Outside) : Prop where
  served : ∃ fetched, before.serve D c.process fetched r = some (a, after)
  votes : before.votes = votersOf D log
  pre : AwaitPre D c r before.db log
  tables : TablesOk D at_ before.db
  voters : ∀ store gameId, ∀ userId ∈ before.votes store gameId,
    SeatedIn before.db gameId userId ∧ Voted log gameId userId
  past : ∀ c' r' a' arrived before' after', Event.served c' r' a' arrived before' after' ∈ log →
    Onward before'.db before.db
  granted : ∀ c' gameId user, Granted log c' gameId user →
    ∃ row, before.db.game? gameId = some row ∧ row.blackUsername.isSome

/-- What is known of an entry from the log before it. -/
def EntryOk (log : List (Event js)) : Event js → Prop
  | .served c r a _ before after => ServedOk D at_ log c r a before after
  | _ => True

/-- What holds of the system between any two steps, whatever its functions wait for. -/
structure WorldOk (w : World js) : Prop where
  tables : TablesOk D at_ w.outside.db
  coherent : ∀ process, (w.memory process).Coherent
  objects : ∀ process ref, ref < (w.memory process).allocated →
    ObjectOk w ((w.memory process).objects ref)
  users : ∀ socket user, w.SocketIs socket user → user ∈ D.accounts
  votes : w.outside.votes = votersOf D w.log
  voters : ∀ store gameId, ∀ userId ∈ w.outside.votes store gameId,
    SeatedIn w.outside.db gameId userId ∧ Voted w.log gameId userId
  log : Recorded (EntryOk D at_) w.log
  past : ∀ c r a arrived before after, Event.served c r a arrived before after ∈ w.log →
    Onward before.db w.outside.db
  granted : ∀ c gameId user, Granted w.log c gameId user →
    ∃ row, w.outside.db.game? gameId = some row ∧ row.blackUsername.isSome
  filled : ∀ gameId, SawVacant w.log gameId → ∀ row, w.outside.db.game? gameId = some row →
    row.blackUsername.isSome → ∃ c user, Granted w.log c gameId user
  told : ∀ c m, Event.told c m ∈ w.log → ToldOk w.outside.db c m

/-! ### The rules of a task -/

/-- What a task can count on later. `own` is the object its refresh has made, which nobody else
writes but for the sockets of its seats. -/
structure Later (c : Caller) (own : Option Nat) (w w' : World js) : Prop where
  db : Onward w.outside.db w'.outside.db
  rooms : RoomsOnward w.outside.db w'.outside.db
  sockets : ∀ socket user, w.SocketIs socket user → w'.SocketIs socket user
  log : ∃ more, w'.log = w.log ++ more
  allocated : (w.memory c.process).allocated ≤ (w'.memory c.process).allocated
  own : ∀ ref, own = some ref →
    ((w'.memory c.process).objects ref).room = ((w.memory c.process).objects ref).room

/-- What a task can count on while it waits and is not served. -/
structure Rely (c : Caller) (own : Option Nat) (w w' : World js) : Prop extends Later c own w w' where
  served : ∀ r a arrived before after, Event.served c r a arrived before after ∈ w'.log →
    Event.served c r a arrived before after ∈ w.log

/-- In its own turns. -/
structure Guar (c : Caller) (own : Option Nat) (w : World js) (own' : Option Nat)
    (w' : World js) : Prop where
  outside : w'.outside = w.outside
  sockets : w'.sockets = w.sockets
  jobs : w'.jobs = w.jobs
  created : w'.created = w.created
  drains : w'.drains = w.drains
  memory : ∀ process, process ≠ c.process → w'.memory process = w.memory process
  log : ∃ messages : List (Message js), w'.log = w.log ++ messages.map (Event.told c)
  allocated : (w.memory c.process).allocated ≤ (w'.memory c.process).allocated
  listening : (w'.memory c.process).listening = (w.memory c.process).listening
  rooms : ∀ ref, ref < (w.memory c.process).allocated → own ≠ some ref →
    ((w'.memory c.process).objects ref).room = ((w.memory c.process).objects ref).room
  own : own' = own ∨ ∃ ref, own' = some ref ∧ (w.memory c.process).allocated ≤ ref ∧
    ref < (w'.memory c.process).allocated

/-- The system after a request was served. -/
def World.recorded (w : World js) (c : Caller) (r : Await js) (a : Answer js r) (arrived : Bool)
    (o : Outside) : World js :=
  { w with outside := o, log := w.log ++ [.served c r a arrived w.outside o] }

/-- What becomes of a request: it is served and answered, served with its reply lost, or fails. -/
inductive Serves (c : Caller) (r : Await js) (a : Answer js r) (w : World js) : World js → Prop
  | arrives {fetched : List Nat} {o : Outside} :
      w.outside.serve D c.process fetched r = some (a, o) → Serves c r a w (w.recorded c r a true o)
  | lost {a' : Answer js r} {o : Outside} : w.outside.serve D c.process [] r = some (a', o) →
      r.failed = some a → Serves c r a w (w.recorded c r a' false o)
  | fails : r.failed = some a → Serves c r a w w

/-- A player the seat was given to, and who got the reply, has been told. -/
def Post (c : Caller) (log : List (Event js)) : Prop :=
  ∀ gameId user row before after,
    Event.served c (.call (.claimBlack gameId user)) (some (some row)) true before after ∈ log →
      ∃ m, Event.told c m ∈ log ∧ m.JoinsBlack gameId user

/-- The rules by which a function uses its room. -/
def roomRules (c : Caller) : Code.Rules (World js) (Await js) (Answer js) (Option Nat) where
  inv := WorldOk D at_
  rely := Rely c
  guar := Guar c
  pre _ r w := AwaitPre D c r w.outside.db w.log
  serves := Serves D c
  post w := Post c w.log

/-! ### What lasts -/

variable {D at_} {c : Caller} {own : Option Nat} {w w' w'' : World js}

/-- Who sits in a game keeps the seat. -/
theorem SeatedIn.onward {d d' : Db} {gameId userId : Nat} (h : SeatedIn d gameId userId)
    (hd : Onward d d') : SeatedIn d' gameId userId := by
  obtain ⟨row, hrow, hseat⟩ := h
  obtain ⟨row', hrow', hon⟩ := hd _ _ hrow
  refine ⟨row', hrow', ?_⟩
  rcases hseat with hwhite | ⟨hblack, hsome⟩
  · exact Or.inl (hon.white.1.trans hwhite)
  · obtain ⟨hid, hname⟩ := hon.black hsome
    exact Or.inr ⟨hid.trans hblack, hname ▸ hsome⟩

/-- Who plays Black goes on playing Black. -/
theorem PlaysBlack.onward {d d' : Db} {gameId userId : Nat} (h : PlaysBlack d gameId userId)
    (hd : Onward d d') : PlaysBlack d' gameId userId := by
  obtain ⟨row, hrow, hseat, hsome⟩ := h
  obtain ⟨row', hrow', hon⟩ := hd _ _ hrow
  obtain ⟨hid, hname⟩ := hon.black hsome
  exact ⟨row', hrow', hid.trans hseat, hname ▸ hsome⟩

/-- No player leaves a game. -/
theorem playersOf_subset {d d' : Db} {id : Nat} {row row' : GameRow}
    (h : RowOnward d d' id row row') {player : Player} (hmem : player ∈ playersOf row) :
    player ∈ playersOf row' := by
  cases hname : row.blackUsername with
  | some name =>
    rw [playersOf_onward h (by rw [hname]; rfl)]
    exact hmem
  | none =>
    unfold playersOf at hmem ⊢
    rw [hname, List.mem_singleton] at hmem
    rw [h.white.1, h.white.2, hmem]
    exact List.mem_cons_self

/-- A room in order stays in order. -/
theorem ObjectOk.onward {o : RoomObject js} (h : ObjectOk w o)
    (hd : Onward w.outside.db w'.outside.db)
    (hsockets : ∀ socket user, w.SocketIs socket user → w'.SocketIs socket user) :
    ObjectOk w' o where
  seats := by
    obtain ⟨row, hrow, hseats⟩ := h.seats
    obtain ⟨row', hrow', hon⟩ := hd _ _ hrow
    exact ⟨row', hrow', fun seat hseat ↦ playersOf_subset hon (hseats seat hseat)⟩
  sockets seat hseat socket hid := by
    obtain ⟨user, hsocket, huser⟩ := h.sockets seat hseat socket hid
    exact ⟨user, hsockets _ _ hsocket, huser⟩

/-- A world is not before itself. -/
theorem Later.refl (c : Caller) (own : Option Nat) (w : World js) : Later c own w w where
  db := Onward.refl _
  rooms := RoomsOnward.refl _
  sockets _ _ h := h
  log := ⟨[], (List.append_nil _).symm⟩
  allocated := Nat.le_refl _
  own _ _ := rfl

/-- Later than later is later. -/
theorem Later.trans (h : Later c own w w') (h' : Later c own w' w'') : Later c own w w'' where
  db := h.db.trans h'.db
  rooms := h.rooms.trans h'.rooms
  sockets socket user hs := h'.sockets _ _ (h.sockets _ _ hs)
  log := by
    obtain ⟨more, hmore⟩ := h.log
    obtain ⟨more', hmore'⟩ := h'.log
    exact ⟨more ++ more', by rw [hmore', hmore, List.append_assoc]⟩
  allocated := Nat.le_trans h.allocated h'.allocated
  own ref href := (h'.own ref href).trans (h.own ref href)

/-- What has happened has happened. -/
theorem Later.mem_log (h : Later c own w w') : ∀ e ∈ w.log, e ∈ w'.log := by
  intro e he
  obtain ⟨more, hmore⟩ := h.log
  rw [hmore]
  exact List.mem_append_left _ he

/-- Nothing has been done. -/
theorem Rely.refl (c : Caller) (own : Option Nat) (w : World js) : Rely c own w w where
  toLater := Later.refl c own w
  served _ _ _ _ _ h := h

private theorem Rely.trans (h : Rely c own w w') (h' : Rely c own w' w'') : Rely c own w w'' where
  toLater := h.toLater.trans h'.toLater
  served _ _ _ _ _ he := h.served _ _ _ _ _ (h'.served _ _ _ _ _ he)

/-- A function that does nothing keeps its guarantee. -/
theorem Guar.refl (c : Caller) (own : Option Nat) (w : World js) : Guar c own w own w where
  outside := rfl
  sockets := rfl
  jobs := rfl
  created := rfl
  drains := rfl
  memory _ _ := rfl
  log := ⟨[], (List.append_nil _).symm⟩
  allocated := Nat.le_refl _
  listening := rfl
  rooms _ _ _ := rfl
  own := Or.inl rfl

/-- What a function does in two turns. -/
theorem Guar.trans {own' own'' : Option Nat} (h : Guar c own w own' w')
    (h' : Guar c own' w' own'' w'') : Guar c own w own'' w'' where
  outside := h'.outside.trans h.outside
  sockets := h'.sockets.trans h.sockets
  jobs := h'.jobs.trans h.jobs
  created := h'.created.trans h.created
  drains := h'.drains.trans h.drains
  memory process hne := (h'.memory process hne).trans (h.memory process hne)
  log := by
    obtain ⟨messages, hlog⟩ := h.log
    obtain ⟨messages', hlog'⟩ := h'.log
    exact ⟨messages ++ messages', by rw [hlog', hlog, List.append_assoc, List.map_append]⟩
  allocated := Nat.le_trans h.allocated h'.allocated
  listening := h'.listening.trans h.listening
  rooms ref href hne := by
    refine (h'.rooms ref (Nat.lt_of_lt_of_le href h.allocated) ?_).trans (h.rooms ref href hne)
    rcases h.own with heq | ⟨ref', heq, hle, -⟩
    · exact heq ▸ hne
    · rw [heq]
      intro hcontra
      have := Option.some.inj hcontra
      omega
  own := by
    have hle := h.allocated
    rcases h'.own with heq | ⟨ref, heq, hle', hlt⟩
    · rcases h.own with heq' | ⟨ref, heq', hle', hlt⟩
      · exact Or.inl (heq.trans heq')
      · exact Or.inr ⟨ref, heq.trans heq', hle', Nat.lt_of_lt_of_le hlt h'.allocated⟩
    · exact Or.inr ⟨ref, heq, Nat.le_trans hle hle', hlt⟩

private theorem SawVacant.mono {log log' : List (Event js)} {gameId : Nat}
    (h : SawVacant log gameId)
    (hlog : ∀ e ∈ log, e ∈ log') : SawVacant log' gameId := by
  obtain ⟨c, r, a, arrived, before, after, row, hmem, hrow⟩ := h
  exact ⟨c, r, a, arrived, before, after, row, hlog _ hmem, hrow⟩

/-- What has been counted stays counted. -/
theorem Counted.mono {log log' : List (Event js)} {gameId : Nat} {users : List Nat}
    (h : Counted D log c gameId users) (hlog : ∀ e ∈ log, e ∈ log') :
    Counted D log' c gameId users := by
  obtain ⟨command, a, arrived, before, after, hcounts, hmem, husers⟩ := h
  exact ⟨command, a, arrived, before, after, hcounts, hlog _ hmem, husers⟩

/-- Who has voted has voted. -/
theorem Voted.mono {log log' : List (Event js)} {gameId userId : Nat} (h : Voted log gameId userId)
    (hlog : ∀ e ∈ log, e ∈ log') : Voted log' gameId userId := by
  obtain ⟨c, command, a, arrived, before, after, haccepts, hadds, hmem⟩ := h
  exact ⟨c, command, a, arrived, before, after, haccepts, hadds, hlog _ hmem⟩

/-- A seat that was granted stays granted. -/
theorem Granted.mono {log log' : List (Event js)} {gameId : Nat} {user : SocketUser}
    (h : Granted log c gameId user) (hlog : ∀ e ∈ log, e ∈ log') : Granted log' c gameId user := by
  obtain ⟨row, arrived, before, after, hmem⟩ := h
  exact ⟨row, arrived, before, after, hlog _ hmem⟩

private theorem Origin.Calls.onward {origin : Origin} {call : Call js} {d d' : Db}
    (h : origin.Calls call d) (hd : Onward d d') : origin.Calls call d' := by
  cases call with
  | create id roomId user now => exact h
  | claimBlack gameId user => exact h
  | persistMove gameId sender player requested =>
    obtain ⟨socket, roomId, move, newId, now, horigin, hseated⟩ := h
    exact ⟨socket, roomId, move, newId, now, horigin, hseated.onward hd⟩
  | finalize room result winnerColor now =>
    obtain ⟨socket, user, packet, newId, now, horigin, hplays, hseated⟩ := h
    exact ⟨socket, user, packet, newId, now, horigin, hplays, hseated.onward hd⟩
  | rematch gameId roomId white black newId now =>
    obtain ⟨userId, haccepts, hseated⟩ := h
    exact ⟨userId, haccepts, hseated.onward hd⟩
  | abandonMany id => exact h

/-- What a request needs survives the turns of the others. -/
theorem AwaitPre.stable {r : Await js} (h : AwaitPre D c r w.outside.db w.log)
    (hrely : Rely c own w w') : AwaitPre D c r w'.outside.db w'.log := by
  cases r with
  | tick => trivial
  | snapshot roomId => trivial
  | presence roomId => trivial
  | call call =>
    obtain ⟨hgame, hrooms, horigin, hvacant, hcounted⟩ := h
    constructor
    · exact hgame.stable call hrely.db
    · exact hrooms.stable call hrely.rooms
    · exact horigin.onward hrely.db
    · exact fun gameId user heq ↦ (hvacant gameId user heq).mono hrely.mem_log
    · intro gameId roomId white black newId now heq
      obtain ⟨whiteId, blackId, hne, hwhite, hblack, hcount⟩ := hcounted _ _ _ _ _ _ heq
      exact ⟨whiteId, blackId, hne, hwhite, hblack, hcount.mono hrely.mem_log⟩
  | vote command =>
    obtain ⟨hadds, hcounts⟩ := h
    constructor
    · intro gameId userId heq
      obtain ⟨haccepts, hseated, hfirst⟩ := hadds gameId userId heq
      refine ⟨haccepts, hseated.onward hrely.db, fun command' hserved ↦ hfirst command' ?_⟩
      obtain ⟨a, arrived, before, after, hmem⟩ := hserved
      exact ⟨a, arrived, before, after, hrely.served _ _ _ _ _ hmem⟩
    · intro gameId heq
      obtain ⟨userId, a, arrived, before, after, hmem⟩ := hcounts gameId heq
      exact ⟨userId, a, arrived, before, after, hrely.mem_log _ hmem⟩

/-- What a function has achieved survives the turns of the others. -/
theorem Post.stable (h : Post c w.log) (hrely : Rely c own w w') : Post c w'.log := by
  intro gameId user row before after he
  obtain ⟨m, hm, hjoins⟩ := h gameId user row before after (hrely.served _ _ _ _ _ he)
  exact ⟨m, hrely.mem_log _ hm, hjoins⟩

/-- The rules of a room are stable. -/
theorem roomRules_lawful : (roomRules D at_ c).Lawful where
  guar_refl := Guar.refl c
  guar_trans _ _ _ _ _ _ := Guar.trans
  rely_trans _ _ _ _ := Rely.trans
  pre_stable _ _ _ _ h hrely _ := AwaitPre.stable h hrely
  post_stable _ _ _ h hrely := Post.stable h hrely

end World

end ChessStack.Server
