import ChessStack.Library.Protocol
import ChessStack.Server.Record

/-!
# The protocol of the game tables

Library `Server`. What always holds of the tables the game server writes, how a game's row can
move on, and what each transaction of `Chess-Backend/src/socket/gameSocket.js` is entitled to
assume of the room its task was given. Every transaction keeps it and every task follows it,
whatever the other tasks, on this replica or another, do in between.
-/

namespace ChessStack.Server

open ChessStack.Chess ChessStack.Js ChessStack.Library ChessStack.Store

/-- The user in the seat of a colour. -/
def seat (row : GameRow) : Color → Option Nat
  | .w => row.whiteUserId
  | .b => row.blackUserId

/-! ### The invariant of the tables -/

section Invariant

variable (js : ChessJs) (at_ : js.Game → Position → Prop) (accounts : List SocketUser)

/-- The black seat is free, or taken by an account other than White's. -/
def BlackSeat (row : GameRow) : Prop :=
  (row.blackUserId = none ∧ row.blackUsername = none) ∨
    ∃ user ∈ accounts, row.blackUserId = some user.id ∧ row.blackUsername = some user.username ∧
      row.whiteUserId ≠ some user.id

/-- What holds of a game's row in the tables `d`. -/
structure RowOk (d : Db) (row : GameRow) : Prop where
  mode : row.gameMode = .multiplayer
  white : ∃ user ∈ accounts, row.whiteUserId = some user.id ∧ row.whiteUsername = some user.username
  black : BlackSeat accounts row
  legal : ∃ p, LegalGame js at_ (d.movesOf row.id) p
  board : row.boardFen = some (lastFen (d.movesOf row.id))
  waiting : row.blackUsername = none → d.movesOf row.id = []
  unscored : row.status ≠ .finished → d.scoresOfGame row.id = []

/-- What holds of the tables. -/
structure DbOk (d : Db) : Prop where
  rows : ∀ id row, d.game? id = some row → RowOk js at_ accounts d row
  orphans : ∀ id, d.game? id = none → d.movesOf id = [] ∧ d.scoresOfGame id = []
  users : ∀ user ∈ accounts, d.userExists user.id = true
  catalogue : d.achievements = achievementCatalogue

end Invariant

/-- Both seats of the row are taken, by two accounts. -/
structure Seats (row : GameRow) (white black : SocketUser) : Prop where
  whiteId : row.whiteUserId = some white.id
  whiteName : row.whiteUsername = some white.username
  blackId : row.blackUserId = some black.id
  blackName : row.blackUsername = some black.username
  distinct : white.id ≠ black.id

/-- The player an account is in the seat of a colour. -/
def SocketUser.player (user : SocketUser) (color : Color) : Player :=
  ⟨some user.username, color, some user.id⟩

section Seats

variable {js : ChessJs} {at_ : js.Game → Position → Prop} {accounts : List SocketUser} {d : Db}
  {row : GameRow} {white black : SocketUser}

/-- A game with a black player has both seats taken by accounts. -/
theorem RowOk.seats (h : RowOk js at_ accounts d row) (hsome : row.blackUsername.isSome) :
    ∃ white ∈ accounts, ∃ black ∈ accounts, Seats row white black := by
  obtain ⟨white, hwhite, hid, hname⟩ := h.white
  obtain ⟨-, hnone⟩ | ⟨black, hblack, hid', hname', hne⟩ := h.black
  · rw [hnone] at hsome
    cases hsome
  · refine ⟨white, hwhite, black, hblack, hid, hname, hid', hname', ?_⟩
    rw [hid] at hne
    simpa using hne

/-- The players of a full game. -/
theorem Seats.players (h : Seats row white black) :
    playersOf row = [white.player .w, black.player .b] := by
  rw [playersOf, h.whiteName, h.whiteId, h.blackName, h.blackId]
  dsimp only
  rw [if_neg black.named]
  rfl

/-- The white seat of a full game. -/
theorem Seats.whiteSeat (h : Seats row white black) :
    seatOf (playersOf row) .w = some (white.player .w, white.id) := by
  rw [h.players, seatOf]
  change (if white.id = 0 then none else _) = _
  rw [if_neg white.idPos.ne']

/-- The black seat of a full game. -/
theorem Seats.blackSeat (h : Seats row white black) :
    seatOf (playersOf row) .b = some (black.player .b, black.id) := by
  rw [h.players, seatOf]
  change (if black.id = 0 then none else _) = _
  rw [if_neg black.idPos.ne']

end Seats

/-! ### How a row moves on -/

/-- How the row of a game and its moves can change: seats once taken stay, moves are only added,
the board changes with the moves, and what is settled stays as it is. -/
structure RowOnward (d d' : Db) (id : Nat) (row row' : GameRow) : Prop where
  white : row'.whiteUserId = row.whiteUserId ∧ row'.whiteUsername = row.whiteUsername
  black : row.blackUsername.isSome → row'.blackUserId = row.blackUserId ∧
    row'.blackUsername = row.blackUsername
  moves : ∃ more, d'.movesOf id = d.movesOf id ++ more
  board : d'.movesOf id = d.movesOf id → row'.boardFen = row.boardFen
  settled : row.status ≠ .inProgress → row'.status = row.status ∧ row'.result = row.result ∧
    row'.winnerColor = row.winnerColor ∧ d'.movesOf id = d.movesOf id

/-- How the tables can change: no game's row is lost. -/
def Onward (d d' : Db) : Prop :=
  ∀ id row, d.game? id = some row → ∃ row', d'.game? id = some row' ∧ RowOnward d d' id row row'

/-- A row that stays, with its moves. -/
theorem RowOnward.of_movesOf {d d' : Db} {id : Nat} {row : GameRow}
    (h : d'.movesOf id = d.movesOf id) : RowOnward d d' id row row where
  white := ⟨rfl, rfl⟩
  black _ := ⟨rfl, rfl⟩
  moves := ⟨[], by rw [h, List.append_nil]⟩
  board _ := rfl
  settled _ := ⟨rfl, rfl, rfl, h⟩

private theorem RowOnward.trans {d d' d'' : Db} {id : Nat} {row row' row'' : GameRow}
    (h : RowOnward d d' id row row') (h' : RowOnward d' d'' id row' row'') :
    RowOnward d d'' id row row'' where
  white := ⟨h'.white.1.trans h.white.1, h'.white.2.trans h.white.2⟩
  black hsome := by
    obtain ⟨hid, hname⟩ := h.black hsome
    obtain ⟨hid', hname'⟩ := h'.black (hname ▸ hsome)
    exact ⟨hid'.trans hid, hname'.trans hname⟩
  moves := by
    obtain ⟨more, hmore⟩ := h.moves
    obtain ⟨more', hmore'⟩ := h'.moves
    exact ⟨more ++ more', by rw [hmore', hmore, List.append_assoc]⟩
  board heq := by
    obtain ⟨more, hmore⟩ := h.moves
    obtain ⟨more', hmore'⟩ := h'.moves
    rw [hmore', hmore, List.append_assoc, List.append_right_eq_self, List.append_eq_nil_iff] at heq
    obtain ⟨rfl, rfl⟩ := heq
    rw [List.append_nil] at hmore hmore'
    exact (h'.board hmore').trans (h.board hmore)
  settled hdone := by
    obtain ⟨hstatus, hresult, hwinner, hmoves⟩ := h.settled hdone
    obtain ⟨hstatus', hresult', hwinner', hmoves'⟩ := h'.settled (hstatus ▸ hdone)
    exact ⟨hstatus'.trans hstatus, hresult'.trans hresult, hwinner'.trans hwinner,
      hmoves'.trans hmoves⟩

/-- Tables are onward from themselves. -/
theorem Onward.refl (d : Db) : Onward d d := fun _ row hrow ↦ ⟨row, hrow, .of_movesOf rfl⟩

/-- Onward from onward. -/
theorem Onward.trans {d d' d'' : Db} (h : Onward d d') (h' : Onward d' d'') : Onward d d'' := by
  intro id row hrow
  obtain ⟨row', hrow', hon⟩ := h id row hrow
  obtain ⟨row'', hrow'', hon'⟩ := h' id row' hrow'
  exact ⟨row'', hrow'', hon.trans hon'⟩

/-! ### What the calls assume -/

section Pre

variable (js : ChessJs)

/-- The object and the game's row agree on the position. -/
def Current (row : GameRow) (chess : js.Game) : Prop :=
  ∃ fen g, row.boardFen = some fen ∧ js.load fen = some g ∧ js.turn g = js.turn chess ∧
    js.isGameOver g = js.isGameOver chess ∧ js.isCheckmate g = js.isCheckmate chess

/-- The room a task was given was built from its game when both seats were taken. As long as
the game has no more moves than the room, the room's position is the game's. -/
def RoomOk (d : Db) (room : Room js) : Prop :=
  ∃ row, d.game? room.gameId = some row ∧ room.players = playersOf row ∧
    row.blackUsername.isSome ∧ room.moves.length ≤ (d.movesOf room.gameId).length ∧
    (room.moves.length = (d.movesOf room.gameId).length → Current js row room.chess)

/-- The result a task may settle a room with. -/
def Decided (room : Room js) (result : GameResult) (winnerColor : Option Color) : Prop :=
  result = .resign ∨
    (js.isGameOver room.chess = true ∧ (result, winnerColor) = outcomeOf js room.chess)

/-- The player is the account. -/
def Player.Is (player : Player) (user : SocketUser) : Prop :=
  player.userId = some user.id ∧ player.name = some user.username

/-- What each call assumes of the tables. -/
def Pre (accounts : List SocketUser) : Call js → Db → Prop
  | .create _ _ user _, _ => user ∈ accounts
  | .claimBlack gameId user, d => user ∈ accounts ∧
      ∃ row, d.game? gameId = some row ∧ row.whiteUserId ≠ some user.id
  | .persistMove gameId sender player _, d => ∃ row, d.game? gameId = some row ∧
      row.blackUsername.isSome ∧ seat row player.color = some sender.id
  | .finalize room result winnerColor _, d => RoomOk js d room ∧ Decided js room result winnerColor
  | .rematch _ _ white black _ _, _ => ∃ user ∈ accounts, ∃ user' ∈ accounts, white.Is user ∧
      black.Is user' ∧ user.id ≠ user'.id
  | .abandonMany _, _ => True

/-- The protocol of the game tables. -/
def gameProtocol (at_ : js.Game → Position → Prop) (accounts : List SocketUser) :
    System.Protocol Db (Call js) where
  inv := DbOk js at_ accounts
  rely := Onward
  pre := Pre js accounts

end Pre

section Stable

variable {js : ChessJs} {d d' : Db}

/-- The seats of a full game do not change. -/
theorem seat_onward {id : Nat} {row row' : GameRow} (h : RowOnward d d' id row row')
    (hsome : row.blackUsername.isSome) (color : Color) : seat row' color = seat row color := by
  cases color with
  | w => exact h.white.1
  | b => exact (h.black hsome).1

/-- The players of a full game do not change. -/
theorem playersOf_onward {id : Nat} {row row' : GameRow} (h : RowOnward d d' id row row')
    (hsome : row.blackUsername.isSome) : playersOf row' = playersOf row := by
  unfold playersOf
  rw [h.white.1, h.white.2, (h.black hsome).1, (h.black hsome).2]

/-- A room read from the tables stays true of them. -/
theorem RoomOk.stable {room : Room js} (h : RoomOk js d room) (hd : Onward d d') :
    RoomOk js d' room := by
  obtain ⟨row, hrow, hplayers, hsome, hle, hcurrent⟩ := h
  obtain ⟨row', hrow', hon⟩ := hd _ row hrow
  obtain ⟨more, hmore⟩ := hon.moves
  refine ⟨row', hrow', ?_, ?_, ?_, ?_⟩
  · rw [playersOf_onward hon hsome, hplayers]
  · rw [(hon.black hsome).2]
    exact hsome
  · rw [hmore, List.length_append]
    omega
  · intro heq
    rw [hmore, List.length_append] at heq
    have hnil : more = [] := List.length_eq_zero_iff.mp (by omega)
    rw [hnil, List.append_nil] at hmore
    obtain ⟨fen, g, hfen, hg⟩ := hcurrent (by omega)
    exact ⟨fen, g, (hon.board hmore).trans hfen, hg⟩

/-- What a call needs survives the commits of the others. -/
theorem Pre.stable {accounts : List SocketUser} (c : Call js) (h : Pre js accounts c d)
    (hd : Onward d d') : Pre js accounts c d' := by
  cases c with
  | create id roomId user now => exact h
  | claimBlack gameId user =>
    obtain ⟨huser, row, hrow, hne⟩ := h
    obtain ⟨row', hrow', hon⟩ := hd _ row hrow
    exact ⟨huser, row', hrow', hon.white.1 ▸ hne⟩
  | persistMove gameId sender player requested =>
    obtain ⟨row, hrow, hsome, hseat⟩ := h
    obtain ⟨row', hrow', hon⟩ := hd _ row hrow
    refine ⟨row', hrow', ?_, (seat_onward hon hsome _).trans hseat⟩
    rw [(hon.black hsome).2]
    exact hsome
  | finalize room result winnerColor now => exact ⟨h.1.stable hd, h.2⟩
  | rematch gameId roomId white black newId now => exact h
  | abandonMany id => trivial

end Stable

/-! ### The calls keep the protocol -/

section Keep

variable {js : ChessJs} {at_ : js.Game → Position → Prop} {accounts : List SocketUser}
  {d d' : Db} {row : GameRow}

private theorem RowOk.congr (h : RowOk js at_ accounts d row)
    (hmoves : d'.movesOf row.id = d.movesOf row.id)
    (hscores : d'.scoresOfGame row.id = d.scoresOfGame row.id) :
    RowOk js at_ accounts d' row where
  mode := h.mode
  white := h.white
  black := h.black
  legal := hmoves ▸ h.legal
  board := hmoves ▸ h.board
  waiting := hmoves ▸ h.waiting
  unscored := hscores ▸ h.unscored

/-- A row version in order replaces the row of its game. -/
theorem DbOk.putGame (h : DbOk js at_ accounts d) (hrow : RowOk js at_ accounts d row) :
    DbOk js at_ accounts (d.apply (.putGame row)) where
  rows id row' hrow' := by
    rw [Db.game?_apply, Change.game] at hrow'
    split at hrow'
    · obtain rfl := Option.some.inj hrow'
      exact hrow.congr rfl rfl
    · exact (h.rows id row' hrow').congr rfl rfl
  orphans id hnone := by
    rw [Db.game?_apply, Option.or_eq_none_iff] at hnone
    exact h.orphans id hnone.2
  users := h.users
  catalogue := h.catalogue

private theorem Onward.putGame (h : ∀ old, d.game? row.id = some old →
    RowOnward d (d.apply (.putGame row)) row.id old row) : Onward d (d.apply (.putGame row)) := by
  intro id old hold
  rw [Db.game?_apply, Change.game]
  split
  · next heq =>
    subst heq
    exact ⟨row, rfl, h old hold⟩
  · exact ⟨old, hold, .of_movesOf rfl⟩

/-- A new game of an account. -/
theorem DbOk.newGame (h : DbOk js at_ accounts d) (hfresh : d.game? row.id = none)
    (hmode : row.gameMode = .multiplayer) (hboard : row.boardFen = some startFen)
    (hwhite : ∃ user ∈ accounts, row.whiteUserId = some user.id ∧
      row.whiteUsername = some user.username) (hblack : BlackSeat accounts row) :
    DbOk js at_ accounts (d.apply (.putGame row)) ∧ Onward d (d.apply (.putGame row)) := by
  obtain ⟨hmoves, hscores⟩ := h.orphans _ hfresh
  constructor
  · apply h.putGame
    refine ⟨hmode, hwhite, hblack, ?_, ?_, fun _ ↦ hmoves, fun _ ↦ hscores⟩
    · rw [hmoves]
      exact ⟨.initial, .start⟩
    · rw [hmoves]
      exact hboard
  · apply Onward.putGame
    intro old hold
    rw [hfresh] at hold
    cases hold

/-- `create` keeps the tables in order. -/
theorem keep_create {id : Nat} {roomId : String} {user : SocketUser} {now : Nat} {value : GameRow}
    (h : DbOk js at_ accounts d) (huser : user ∈ accounts)
    (hrun : backend.run (create id (some roomId) (some user.id) (some user.username) now) d =
      some (value, d')) : DbOk js at_ accounts d' ∧ Onward d d' := by
  obtain ⟨hfresh, -, rfl, rfl⟩ := create_run hrun
  exact h.newGame hfresh rfl rfl ⟨user, huser, rfl, rfl⟩ (Or.inl ⟨rfl, rfl⟩)

/-- `claimBlack` keeps the tables in order. -/
theorem keep_claimBlack {gameId : Nat} {user : SocketUser} {value : Option GameRow}
    (h : DbOk js at_ accounts d) (huser : user ∈ accounts)
    (hne : ∃ row, d.game? gameId = some row ∧ row.whiteUserId ≠ some user.id)
    (hrun : backend.run (claimBlack gameId user) d = some (value, d')) :
    DbOk js at_ accounts d' ∧ Onward d d' := by
  obtain ⟨-, rfl, -⟩ | ⟨row, hrow, hactive, hfree, -, rfl⟩ := claimBlack_run hrun
  · exact ⟨h, .refl _⟩
  obtain ⟨row', hrow', hne⟩ := hne
  rw [hrow] at hrow'
  obtain rfl := Option.some.inj hrow'
  have hok := h.rows _ _ hrow
  constructor
  · apply h.putGame
    refine ⟨hok.mode, hok.white, Or.inr ⟨user, huser, rfl, rfl, hne⟩, hok.legal, hok.board,
      nofun, hok.unscored⟩
  · apply Onward.putGame
    intro old hold
    change d.game? row.id = some old at hold
    rw [Db.id_of_game? hrow, hrow] at hold
    obtain rfl := Option.some.inj hold
    refine ⟨⟨rfl, rfl⟩, ?_, ⟨[], (List.append_nil _).symm⟩, fun _ ↦ rfl,
      fun _ ↦ ⟨rfl, rfl, rfl, rfl⟩⟩
    intro hsome
    rw [hfree] at hsome
    cases hsome

/-- `abandonMany` keeps the tables in order. -/
theorem keep_abandonMany {id value : Nat} (h : DbOk js at_ accounts d)
    (hrun : backend.run (abandonMany id) d = some (value, d')) :
    DbOk js at_ accounts d' ∧ Onward d d' := by
  obtain rfl | ⟨row, hrow, hactive, rfl⟩ := abandonMany_run hrun
  · exact ⟨h, .refl _⟩
  have hok := h.rows _ _ hrow
  constructor
  · apply h.putGame
    refine ⟨hok.mode, hok.white, hok.black, hok.legal, hok.board, hok.waiting, fun _ ↦ ?_⟩
    exact hok.unscored (by rw [hactive]; decide)
  · apply Onward.putGame
    intro old hold
    change d.game? row.id = some old at hold
    rw [Db.id_of_game? hrow, hrow] at hold
    obtain rfl := Option.some.inj hold
    refine ⟨⟨rfl, rfl⟩, fun _ ↦ ⟨rfl, rfl⟩, ⟨[], (List.append_nil _).symm⟩, fun _ ↦ rfl, ?_⟩
    exact fun hdone ↦ absurd hactive hdone

/-- `rematch` keeps the tables in order. -/
theorem keep_rematch {gameId : Nat} {roomId : Option String} {white black : Player}
    {newId now : Nat} {value : GameRow} (h : DbOk js at_ accounts d)
    (hpre : ∃ user ∈ accounts, ∃ user' ∈ accounts, white.Is user ∧ black.Is user' ∧
      user.id ≠ user'.id)
    (hrun : backend.run (rematch gameId roomId white black newId now) d = some (value, d')) :
    DbOk js at_ accounts d' ∧ Onward d d' := by
  obtain ⟨old, new, hnew, -⟩ := rematch_run hrun
  obtain ⟨user, huser, user', huser', ⟨hid, hname⟩, ⟨hid', hname'⟩, hne⟩ := hpre
  have hok := h.rows _ _ hnew.found
  have hkey := Db.id_of_game? hnew.found
  have hnewId : new.id = newId := by rw [hnew.created]
  -- The old game gives up its room id.
  have hreleased : DbOk js at_ accounts (d.apply (.putGame { old with roomId := none })) ∧
      Onward d (d.apply (.putGame { old with roomId := none })) := by
    constructor
    · apply h.putGame
      exact ⟨hok.mode, hok.white, hok.black, hok.legal, hok.board, hok.waiting, hok.unscored⟩
    · apply Onward.putGame
      intro row hrow
      change d.game? old.id = some row at hrow
      rw [hkey, hnew.found] at hrow
      obtain rfl := Option.some.inj hrow
      exact ⟨⟨rfl, rfl⟩, fun _ ↦ ⟨rfl, rfl⟩, ⟨[], (List.append_nil _).symm⟩, fun _ ↦ rfl,
        fun _ ↦ ⟨rfl, rfl, rfl, rfl⟩⟩
  -- The new one takes it, first without, then with its black player.
  have hfresh : (d.apply (.putGame { old with roomId := none })).game? new.id = none := by
    rw [Db.game?_apply, Option.or_eq_none_iff, hnewId]
    refine ⟨if_neg ?_, hnew.fresh⟩
    intro heq
    have hfound := hnew.found
    rw [← hkey, ← heq, hnew.fresh] at hfound
    cases hfound
  have hcreated := hreleased.1.newGame
    (show Db.game? _ ({ new with blackUserId := none, blackUsername := none } : GameRow).id = none from
      hfresh) (by rw [hnew.created]) (by rw [hnew.created])
    ⟨user, huser, by rw [hnew.created]; exact hid, by rw [hnew.created]; exact hname⟩
    (Or.inl ⟨rfl, rfl⟩)
  have hrowOk := hcreated.1.rows new.id { new with blackUserId := none, blackUsername := none } (by
    rw [Db.game?_apply, Change.game, if_pos rfl, Option.some_or])
  rw [hnew.after]
  constructor
  · apply hcreated.1.putGame
    refine ⟨hrowOk.mode, hrowOk.white, Or.inr ⟨user', huser', ?_, ?_, ?_⟩, hrowOk.legal,
      hrowOk.board, fun _ ↦ hrowOk.waiting rfl, hrowOk.unscored⟩
    · rw [hnew.created]
      exact hid'
    · rw [hnew.created]
      exact hname'
    · rw [hnew.created]
      dsimp only
      rw [hid]
      simpa using hne
  · refine hreleased.2.trans (hcreated.2.trans (Onward.putGame ?_))
    intro row hrow
    rw [Db.game?_apply, Change.game, if_pos rfl, Option.some_or, Option.some.injEq] at hrow
    subst hrow
    refine ⟨⟨rfl, rfl⟩, nofun, ⟨[], (List.append_nil _).symm⟩, fun _ ↦ rfl,
      fun _ ↦ ⟨rfl, rfl, rfl, rfl⟩⟩

/-- The board the transaction loads is at the position the recorded moves lead to, and the
stored move is legal there. -/
theorem StoresMove.legal (hjs : js.Follows at_) {gameId : Nat} {color : Color}
    {requested : Option Json} {chess : js.Game} {persisted : Persisted js}
    (hs : StoresMove js gameId color requested d row chess persisted d')
    (hok : RowOk js at_ accounts d row) :
    ∃ p, LegalGame js at_ (d.movesOf gameId ++ [persisted.record]) p ∧ at_ persisted.chess p := by
  have hid := Db.id_of_game? hs.found
  obtain ⟨p, hlegal⟩ := hok.legal
  obtain ⟨g, hload, hat⟩ := hlegal.load_last hjs
  have hloaded := hs.loaded
  rw [hok.board, ChessJs.loadOr, if_neg hlegal.lastFen_ne, hload] at hloaded
  obtain rfl := Option.some.inj hloaded
  obtain ⟨m, -, hm, hat', hof⟩ := hjs.move_legal _ _ _ _ _ hat hs.moved
  obtain ⟨g', hload', hatg'⟩ := hjs.load_fen _ _ hat'
  rw [hid] at hlegal
  have hturn : color = p.turn := hs.turn.symm.trans (hjs.turn _ _ hat)
  refine ⟨p.play m, hlegal.move (g := g') ?_ ?_ ?_ hm ?_ hatg' ?_, hat'⟩
  · rw [hs.record]
    exact hlegal.nextNumber_eq
  · rw [hs.record]
    exact hturn
  · rw [hs.record]
    change moveNamed persisted.move.fromSquare persisted.move.toSquare persisted.move.promotion = _
    rw [hof.fromSquare, hof.toSquare, hof.promotion]
    exact moveNamed_of_legal hm
  · rw [hs.record]
    exact hload'
  · rw [hs.record]
    exact hjs.fen_ne _

/-- A stored move leaves every other game's moves alone. -/
theorem StoresMove.movesOf {gameId : Nat} {color : Color} {requested : Option Json}
    {chess : js.Game} {persisted : Persisted js}
    (hs : StoresMove js gameId color requested d row chess persisted d') (id : Nat) :
    d'.movesOf id = d.movesOf id ++ if id = gameId then [persisted.record] else [] := by
  rw [hs.after, Db.movesOf_apply, Db.movesOf_apply]
  have hgame : persisted.record.gameId = gameId := by rw [hs.record]; rfl
  simp only [Change.moves, List.append_nil, hgame, eq_comm]

/-- A stored move changes its game and no other. -/
theorem StoresMove.game? {gameId : Nat} {color : Color} {requested : Option Json}
    {chess : js.Game} {persisted : Persisted js}
    (hs : StoresMove js gameId color requested d row chess persisted d') (id : Nat) :
    d'.game? id = if id = gameId then
      some { row with boardFen := some (js.fen persisted.chess) } else d.game? id := by
  rw [hs.after, Db.game?_apply, Db.game?_apply]
  simp only [Change.game, Option.none_or, Db.id_of_game? hs.found]
  split <;> rfl

/-- `persistMoveAtomic` keeps the tables in order. -/
theorem keep_persistMove (hjs : js.Follows at_) {gameId : Nat} {sender : SocketUser}
    {player : Player} {requested : Option Json} {value : Option (Persisted js)}
    (h : DbOk js at_ accounts d)
    (hpre : ∃ row, d.game? gameId = some row ∧ row.blackUsername.isSome ∧
      seat row player.color = some sender.id)
    (hrun : backend.run (persistMoveAtomic js gameId player.color requested) d =
      some (value, d')) : DbOk js at_ accounts d' ∧ Onward d d' := by
  obtain ⟨-, rfl⟩ | ⟨row, chess, persisted, rfl, hs⟩ := persistMoveAtomic_run hrun
  · exact ⟨h, .refl _⟩
  obtain ⟨row', hrow', hsome, -⟩ := hpre
  rw [hs.found] at hrow'
  obtain rfl := Option.some.inj hrow'
  have hok := h.rows _ _ hs.found
  have hid := Db.id_of_game? hs.found
  have hscores : d'.scores = d.scores := by
    rw [hs.after, Db.scores_apply, Db.scores_apply]
    exact (List.append_nil _).trans (List.append_nil _)
  have hscoresOf : ∀ id, d'.scoresOfGame id = d.scoresOfGame id := by
    intro id
    unfold Db.scoresOfGame
    rw [hscores]
  constructor
  · constructor
    · intro id row₁ hrow₁
      rw [hs.game?] at hrow₁
      split at hrow₁
      · next heq =>
        obtain rfl := Option.some.inj hrow₁
        have hmoves : d'.movesOf row.id = d.movesOf row.id ++ [persisted.record] := by
          rw [hs.movesOf, if_pos hid]
        obtain ⟨p, hlegal, -⟩ := hs.legal hjs hok
        refine ⟨hok.mode, hok.white, hok.black, ⟨p, ?_⟩, ?_, ?_, ?_⟩
        · rw [hmoves, hid]
          exact hlegal
        · rw [hmoves, lastFen_append, hs.record]
          rfl
        · intro hnone
          rw [hnone] at hsome
          cases hsome
        · rw [hscoresOf]
          exact hok.unscored
      · next hne =>
        have hok₁ := h.rows _ _ hrow₁
        refine hok₁.congr ?_ (hscoresOf _)
        rw [hs.movesOf, Db.id_of_game? hrow₁, if_neg hne, List.append_nil]
    · intro id hnone
      rw [hs.game?] at hnone
      split at hnone
      · cases hnone
      · next hne =>
        rw [hs.movesOf, if_neg hne, List.append_nil, hscoresOf]
        exact h.orphans id hnone
    · intro user huser
      rw [hs.after, Db.userExists_apply, Db.userExists_apply]
      exact h.users user huser
    · rw [hs.after, Db.achievements_apply, Db.achievements_apply]
      exact h.catalogue
  · intro id old hold
    rw [hs.game?]
    split
    · next heq =>
      subst heq
      rw [hs.found] at hold
      obtain rfl := Option.some.inj hold
      have hmoves : d'.movesOf id = d.movesOf id ++ [persisted.record] := by
        rw [hs.movesOf, if_pos rfl]
      refine ⟨_, rfl, ⟨rfl, rfl⟩, fun _ ↦ ⟨rfl, rfl⟩, ⟨_, hmoves⟩, ?_, ?_⟩
      · intro heq
        rw [hmoves, List.append_right_eq_self] at heq
        cases heq
      · exact fun hdone ↦ absurd hs.active hdone
    · next hne =>
      have hmoves : d'.movesOf id = d.movesOf id := by
        rw [hs.movesOf, if_neg hne, List.append_nil]
      exact ⟨old, hold, .of_movesOf hmoves⟩

/-- A finalization of a room with both seats taken settles its game or changes nothing. -/
theorem finalize_cases {computeNewRatings : Int → Int → Score → Int × Int} {room : Room js}
    {result : GameResult} {winnerColor : Option Color} {now : Nat} {value : Finalized}
    (h : DbOk js at_ accounts d) (hroom : RoomOk js d room) (hrun : backend.run
      (finalizeGameAtomic computeNewRatings room result winnerColor now) d = some (value, d')) :
    ((∀ row, d.game? room.gameId = some row → row.status ≠ .inProgress) ∧
      value = ⟨false, none⟩ ∧ d' = d) ∨
    ∃ row, ∃ white ∈ accounts, ∃ black ∈ accounts, ∃ whiteUser blackUser,
      Seats row white black ∧ whiteUser.id = white.id ∧ blackUser.id = black.id ∧
      Settles computeNewRatings room result winnerColor now d row (white.player .w)
        (black.player .b) whiteUser blackUser value d' := by
  obtain ⟨row, hrow, hplayers, hsome, -⟩ := hroom
  obtain ⟨white, hwhite, black, hblack, hseats⟩ := (h.rows _ _ hrow).seats hsome
  obtain hleft | ⟨hfree, -⟩ | ⟨row', whiteP, blackP, whiteUser, blackUser, hs⟩ :=
    finalizeGameAtomic_run hrun
  · exact Or.inl hleft
  · rw [hplayers, hseats.whiteSeat, hseats.blackSeat] at hfree
    rcases hfree with hfree | hfree <;> cases hfree
  · have hw := hs.whiteSeat
    have hb := hs.blackSeat
    rw [hplayers, hseats.whiteSeat, Option.some.injEq, Prod.mk.injEq] at hw
    rw [hplayers, hseats.blackSeat, Option.some.injEq, Prod.mk.injEq] at hb
    obtain ⟨rfl, hwid⟩ := hw
    obtain ⟨rfl, hbid⟩ := hb
    have hsame := hs.found
    rw [hrow] at hsame
    obtain rfl := Option.some.inj hsame
    exact Or.inr ⟨row, white, hwhite, black, hblack, whiteUser, blackUser, hseats, hwid.symm,
      hbid.symm, hs⟩

/-- `finalizeGameAtomic` keeps the tables in order. -/
theorem keep_finalize {computeNewRatings : Int → Int → Score → Int × Int} {room : Room js}
    {result : GameResult} {winnerColor : Option Color} {now : Nat} {value : Finalized}
    (h : DbOk js at_ accounts d) (hroom : RoomOk js d room) (hrun : backend.run
      (finalizeGameAtomic computeNewRatings room result winnerColor now) d = some (value, d')) :
    DbOk js at_ accounts d' ∧ Onward d d' := by
  obtain ⟨-, -, rfl⟩ | ⟨row, white, -, black, -, whiteUser, blackUser, -, -, -, hs⟩ :=
    finalize_cases h hroom hrun
  · exact ⟨h, .refl _⟩
  have hok := h.rows _ _ hs.found
  have hid := Db.id_of_game? hs.found
  have hscores : ∀ id, id ≠ room.gameId → d'.scoresOfGame id = d.scoresOfGame id := by
    intro id hne
    rw [hs.scoresOfGame, if_neg hne, List.append_nil]
  constructor
  · constructor
    · intro id row' hrow'
      rw [hs.game?] at hrow'
      split at hrow'
      · obtain rfl := Option.some.inj hrow'
        have hmoves : d'.movesOf row.id = d.movesOf row.id := hs.movesOf _
        exact ⟨hok.mode, hok.white, hok.black, hmoves ▸ hok.legal, hmoves ▸ hok.board,
          hmoves ▸ hok.waiting, fun hne ↦ absurd rfl hne⟩
      · next hne =>
        apply (h.rows _ _ hrow').congr (hs.movesOf _)
        rw [Db.id_of_game? hrow']
        exact hscores id hne
    · intro id hnone
      rw [hs.game?] at hnone
      split at hnone
      · cases hnone
      · next hne =>
        rw [hs.movesOf, hscores id hne]
        exact h.orphans id hnone
    · intro user huser
      rw [hs.userExists]
      exact h.users user huser
    · rw [hs.achievements]
      exact h.catalogue
  · intro id old hold
    rw [hs.game?]
    split
    · next heq =>
      rw [heq, hs.found] at hold
      obtain rfl := Option.some.inj hold
      exact ⟨_, rfl, ⟨rfl, rfl⟩, fun _ ↦ ⟨rfl, rfl⟩, ⟨[], by rw [hs.movesOf, List.append_nil]⟩,
        fun _ ↦ rfl, fun hdone ↦ absurd hs.active hdone⟩
    · exact ⟨old, hold, .of_movesOf (hs.movesOf id)⟩

end Keep

end ChessStack.Server
