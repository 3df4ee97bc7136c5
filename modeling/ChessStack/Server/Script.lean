import ChessStack.Library.Serial
import ChessStack.Server.Tasks
import ChessStack.Server.Reference

/-!
# Scripted runs of the server

Library `Server`. A script lists what the clients request and which task of
`Chess-Backend/src/socket/gameSocket.js` goes on next. Every script of known accounts is a run
of the server, so a run can be evaluated with the reference engine.
-/

namespace ChessStack.Server

open ChessStack.Chess ChessStack.Js ChessStack.Library ChessStack.Store

/-- A client event that starts a task. -/
inductive Request where
  | createRoom (id : Nat) (roomId : String) (user : SocketUser) (now : Nat)
  | joinRoom (roomId : String) (user : SocketUser)
  | makeMove (roomId : String) (user : SocketUser) (requested : Option Json) (now : Nat)
  | gameOver (roomId : String) (user : SocketUser) (now : Nat)
  | concede (roomId : String) (user : SocketUser) (now : Nat)

/-- The user who sends a request. -/
def Request.user : Request → SocketUser
  | .createRoom _ _ user _ => user
  | .joinRoom _ user => user
  | .makeMove _ user _ _ => user
  | .gameOver _ user _ => user
  | .concede _ user _ => user

/-- The task a request starts. -/
def Request.task (js : ChessJs) : Request → GameTask js
  | .createRoom id roomId user now => Server.createRoom js id roomId user now
  | .joinRoom roomId user => Server.joinRoom js roomId user
  | .makeMove roomId user requested now => Server.makeMove js roomId user requested now
  | .gameOver roomId user now => Server.gameOver js roomId user now
  | .concede roomId user now => Server.concede js roomId user now

/-- One line of a script: a request becomes task `i`, or task `i` goes on, loses the reply to
its commit, or has its transaction fail. -/
inductive Line where
  | start (i : Nat) (request : Request)
  | go (i : Nat)
  | lose (i : Nat)
  | fail (i : Nat)

/-- What a line does. -/
def Line.action (js : ChessJs) : Line → System.Action Db (Call js) (Result js)
  | .start i request => .spawn i (request.task js)
  | .go i => .go i
  | .lose i => .lose i
  | .fail i => .fail i

/-- A line requests on behalf of an account only. -/
def Line.From (accounts : List SocketUser) : Line → Prop
  | .start _ request => request.user ∈ accounts
  | _ => True

/-- A line names its user. -/
instance (accounts : List SocketUser) : DecidablePred (Line.From accounts) := by
  intro line
  cases line <;> unfold Line.From <;> infer_instance

variable {js : ChessJs} {accounts : List SocketUser}
  {computeNewRatings : Int → Int → Score → Int × Int}

private theorem spawn_request {request : Request} (h : request.user ∈ accounts) :
    Spawn js accounts (request.task js) := by
  cases request with
  | createRoom id roomId user now => exact .createRoom h
  | joinRoom roomId user => exact .joinRoom h
  | makeMove roomId user requested now => exact .makeMove h
  | gameOver roomId user now => exact .gameOver h
  | concede roomId user now => exact .concede h

/-- What a line starts is a task of the server. -/
theorem action_of {line : Line} (h : line.From accounts) :
    (line.action js).Of (server js computeNewRatings accounts) := by
  cases line with
  | start i request => exact spawn_request h
  | _ => trivial

/-- The state a script leads to from the tables `d`. -/
def play (js : ChessJs) (computeNewRatings : Int → Int → Score → Int × Int)
    (accounts : List SocketUser) (d : Db) (lines : List Line) :
    Option (System.AtomicState Db (Call js) (Result js)) :=
  (server js computeNewRatings accounts).performAll ⟨d, fun _ ↦ .done, []⟩
    (lines.map (Line.action js))

/-- What a list of actions leads to from the tables `d` is reached. -/
theorem performed_reachable {d : Db} (hd : Fresh accounts d)
    {actions : List (System.Action Db (Call js) (Result js))}
    (hactions : ∀ action ∈ actions, action.Of (server js computeNewRatings accounts))
    {s : System.AtomicState Db (Call js) (Result js)}
    (h : (server js computeNewRatings accounts).performAll ⟨d, fun _ ↦ .done, []⟩ actions = some s) :
    ((server js computeNewRatings accounts).sessions (always js)).Reachable
      (s.resting Change Key Stmt Ans) := by
  apply System.reachable_resting
  have hinit : ((server js computeNewRatings accounts).atomic (always js)).init
      ⟨d, fun _ ↦ .done, []⟩ := ⟨hd, rfl, fun _ ↦ rfl⟩
  exact System.performAll_reachable (fun _ _ ↦ trivial) (.init hinit) hactions h

/-- A script is a run of the server. -/
theorem play_reachable {d : Db} (hd : Fresh accounts d) {lines : List Line}
    (hlines : ∀ line ∈ lines, line.From accounts)
    {s : System.AtomicState Db (Call js) (Result js)}
    (h : play js computeNewRatings accounts d lines = some s) :
    ((server js computeNewRatings accounts).sessions (always js)).Reachable
      (s.resting Change Key Stmt Ans) := by
  refine performed_reachable hd (fun action haction ↦ ?_) h
  obtain ⟨line, hline, rfl⟩ := List.mem_map.mp haction
  exact action_of (hlines line hline)

/-! ### Two accounts -/

/-- The accounts of the evaluated runs. -/
def ada : SocketUser := ⟨1, "ada", by decide, by decide, by decide⟩
/-- The account that plays Black. -/
def ben : SocketUser := ⟨2, "ben", by decide, by decide, by decide⟩

/-- Their tables before the first game. -/
def twoUsers : Db where
  games := ⟨[], List.nodup_nil⟩
  moves := []
  users := ⟨[⟨1, "ada", 1200⟩, ⟨2, "ben", 1200⟩], by decide⟩
  scores := []
  userAchievements := []
  achievements := achievementCatalogue

/-- A server starts with these tables. -/
theorem fresh_twoUsers : Fresh [ada, ben] twoUsers where
  games := rfl
  moves := rfl
  scores := rfl
  userAchievements := rfl
  achievements := rfl
  users := by
    intro user huser
    simp only [List.mem_cons, List.not_mem_nil, or_false] at huser
    rcases huser with rfl | rfl <;> decide

/-- What `utils/elo.js` computes for two players of equal rating. -/
def equalRatings (white black : Int) : Score → Int × Int
  | .win => (white + 16, black - 16)
  | .loss => (white - 16, black + 16)
  | .draw => (white, black)

/-- `{ from, to }` of a move. -/
def moveRequest (src dst : String) : Option Json := some (.obj [("from", .str src), ("to", .str dst)])

/-- `{ from, to, promotion }` of a move. -/
def promotionRequest (src dst kind : String) : Option Json :=
  some (.obj [("from", .str src), ("to", .str dst), ("promotion", .str kind)])

/-- A room of both, `ada` playing White. -/
def opening : List Line :=
  [.start 0 (.createRoom 1 "ABCDEFG" ada 0), .go 0, .start 1 (.joinRoom "ABCDEFG" ben), .go 1, .go 1]

/-- A move by `user`, stored as task `i`. -/
def moveLines (i : Nat) (user : SocketUser) (src dst : String) : List Line :=
  [.start i (.makeMove "ABCDEFG" user (moveRequest src dst) 60000), .go i, .go i]

/-- One move, and Black resigns. -/
def oneMoveGame : List Line :=
  opening ++ moveLines 2 ada "f2" "f3" ++
    [Line.start 3 (.concede "ABCDEFG" ben 60000), .go 3, .go 3]

/-- One move, and three resignations read the room before any is settled: the first aborts, the second
settles the game, and the third comes too late. -/
def racingEnd : List Line :=
  opening ++ moveLines 2 ada "f2" "f3" ++
    [Line.start 3 (.concede "ABCDEFG" ben 60000), .start 4 (.concede "ABCDEFG" ada 60000),
      .start 5 (.concede "ABCDEFG" ben 60000), .go 3, .go 4, .go 5, .fail 3, .go 4, .go 5]

/-- Black castles while a white pawn takes its way to the eighth row; then Black resigns. -/
def promotingGame : List Line :=
  opening ++ moveLines 2 ada "a2" "a4" ++ moveLines 3 ben "g8" "f6" ++ moveLines 4 ada "a4" "a5" ++
    moveLines 5 ben "g7" "g6" ++ moveLines 6 ada "a5" "a6" ++ moveLines 7 ben "f8" "g7" ++
    moveLines 8 ada "a6" "b7" ++ moveLines 9 ben "e8" "g8" ++
    [Line.start 10 (.makeMove "ABCDEFG" ada (promotionRequest "b7" "a8" "q") 60000), .go 10, .go 10,
      .start 11 (.concede "ABCDEFG" ben 60000), .go 11, .go 11]

/-- `promotingGame` is played to its end. -/
theorem play_promotingGame :
    ∃ s, play reference equalRatings [ada, ben] twoUsers promotingGame = some s ∧
    ∃ row, s.db.game? 1 = some row ∧ row.id = 1 ∧ row.status = .finished ∧
      (s.db.movesOf 1).map MoveRow.san =
        ["a4", "Nf6", "a5", "g6", "a6", "Bg7", "axb7", "O-O", "bxa8=Q"] := by
  have hrun : (play reference equalRatings [ada, ben] twoUsers promotingGame).any (fun s ↦
      (s.db.game? 1).any fun row ↦ row.id == 1 && row.status == .finished &&
        (s.db.movesOf 1).map MoveRow.san ==
          ["a4", "Nf6", "a5", "g6", "a6", "Bg7", "axb7", "O-O", "bxa8=Q"]) = true := by
    decide +kernel
  obtain ⟨s, hplay, hfacts⟩ := Option.any_eq_true _ _ |>.mp hrun
  obtain ⟨row, hrow, hfacts⟩ := Option.any_eq_true _ _ |>.mp hfacts
  simp only [Bool.and_eq_true, beq_iff_eq] at hfacts
  exact ⟨s, hplay, row, hrow, hfacts.1.1, hfacts.1.2, hfacts.2⟩

/-- A room of two players that has come to its end after one move. -/
def endedRoom (js : ChessJs) (gameId : Nat) (white black : SocketUser) : Room js where
  id := none
  gameId := gameId
  players := [⟨some white.username, .w, some white.id⟩, ⟨some black.username, .b, some black.id⟩]
  chess := js.start
  status := .playing
  moves := [⟨gameId, 1, .w, "f2", "f3", "wP", none, "f3", "", none⟩]
  createdAt := 0

/-- The row of a game in progress. -/
def activeGame (id : Nat) : GameRow :=
  { id := id, roomId := none, whiteUserId := none, blackUserId := none, whiteUsername := none,
    blackUsername := none, gameMode := .multiplayer, status := .inProgress, result := none,
    winnerColor := none, boardFen := none, startedAt := 0 }

end ChessStack.Server
