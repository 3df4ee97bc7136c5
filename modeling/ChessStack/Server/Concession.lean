import ChessStack.Server.Follow
import ChessStack.Server.Script

/-!
# When a finalization can commit

Library `Server`. `finalizeGameAtomic` of `Chess-Backend/src/socket/gameSocket.js` writes values
it takes from the room into tables whose constraints come from four migrations. In every
reachable state the constraints accept a settlement of a game in progress exactly when the room
has a move and its numbers fit their columns.
-/

namespace ChessStack.Server

open ChessStack.Chess ChessStack.Js ChessStack.Library ChessStack.Store

section Recordable

variable {js : ChessJs} (computeNewRatings : Int → Int → Score → Int × Int)

/-- What `scores_moves_positive_check` and the INTEGER columns ask of a settlement: a first move
was made, and the moves, the seconds and the ratings are in range. -/
structure Recordable (d : Db) (room : Room js) (winnerColor : Option Color) (now : Nat) : Prop where
  moved : room.moves ≠ []
  moves : fitsInteger room.moves.length = true
  duration : fitsInteger (durationOf room.createdAt now) = true
  ratings : ∀ white black whiteUser blackUser, seatOf room.players .w = some white →
    seatOf room.players .b = some black → d.user? white.2 = some whiteUser →
    d.user? black.2 = some blackUser →
    fitsInteger (computeNewRatings whiteUser.eloRating blackUser.eloRating (whiteScore winnerColor)).1
      = true ∧
    fitsInteger (computeNewRatings whiteUser.eloRating blackUser.eloRating (whiteScore winnerColor)).2
      = true

variable {room : Room js} {winnerColor : Option Color} {now : Nat}

/-- A score row of an account is valid when the room's numbers are. -/
theorem score_valid_iff (user : SocketUser) (color : Color) (userId : Nat) :
    (room.score winnerColor now (user.player color) userId).valid = true ↔
      room.moves ≠ [] ∧ fitsInteger room.moves.length = true ∧
        fitsInteger (durationOf room.createdAt now) = true := by
  have hname : (user.player color).name.any (fun name ↦ decide (name.length ≤ 20)) = true :=
    decide_eq_true user.short
  unfold ScoreRow.valid Room.score scoreRow
  dsimp only
  rw [hname, Bool.and_true, Bool.and_eq_true, Bool.and_eq_true, decide_eq_true_iff,
    List.length_pos_iff, and_assoc]

end Recordable

/-! ### The constraints accept a recordable settlement -/

section Succeeds

variable {js : ChessJs} {at_ : js.Game → Position → Prop} {accounts : List SocketUser}
  {computeNewRatings : Int → Int → Score → Int × Int} {d : Db} {room : Room js}
  {result : GameResult} {winnerColor : Option Color} {now : Nat} {row : GameRow}

private theorem finishGame_succeeds (hrow : d.game? room.gameId = some row)
    (hactive : row.status = .inProgress) :
    backend.run (finishGame room.gameId result winnerColor) d =
      some ((1 : Nat), d.apply (.putGame (finishedRow row result winnerColor))) := by
  refine run_sql_of_exec d [.putGame (finishedRow row result winnerColor)] ?_
  exact congrArg some (counted_of_fits d hrow (by simp [hactive]))

private theorem setElo_succeeds {userId : Nat} {elo : Int} (huser : d.userExists userId = true)
    (hfits : fitsInteger elo = true) :
    backend.run (setElo userId elo) d = some ((1 : Nat), d.apply (.setElo userId elo)) := by
  refine run_sql_of_exec d [.setElo userId elo] ?_
  rw [Store.exec, if_pos huser, if_pos hfits]

private theorem exists_user? {id : Nat} (h : d.userExists id = true) :
    ∃ user, d.user? id = some user ∧ user.id = id := by
  obtain ⟨user, huser⟩ := Option.isSome_iff_exists.mp h
  exact ⟨user, huser, Db.id_of_user? huser⟩

private theorem find?_locked {white black : UserRow} {users : List UserRow}
    (hne : white.id ≠ black.id)
    (h : users = [white, black] ∨ users = [black, white]) :
    users.length = 2 ∧ users.find? (·.id == white.id) = some white ∧
      users.find? (·.id == black.id) = some black := by
  rcases h with rfl | rfl
  · simp [hne]
  · simp [hne.symm]

/-- The two scores of an unscored game are recorded, one after the other. -/
theorem recordScores_succeed {white black : Player} {whiteId blackId : Nat}
    (hne : whiteId ≠ blackId) (hwhite : d.userExists whiteId = true)
    (hblack : d.userExists blackId = true) (hgame : (d.game? room.gameId).isSome = true)
    (hcat : d.achievements = achievementCatalogue) (hunscored : d.scoresOfGame room.gameId = [])
    (hwhiteValid : (room.score winnerColor now white whiteId).valid = true)
    (hblackValid : (room.score winnerColor now black blackId).valid = true) :
    ∃ d₁ d₂,
      backend.run (recordScore room.gameId room.moves.length (durationOf room.createdAt now) white
        whiteId winnerColor) d = some ((), d₁) ∧
      backend.run (recordScore room.gameId room.moves.length (durationOf room.createdAt now) black
        blackId winnerColor) d₁ = some ((), d₂) := by
  have hnone : ∀ score ∈ d.scores, score.gameId ≠ room.gameId := by
    intro score hscore hid
    have hmem : score ∈ d.scoresOfGame room.gameId :=
      List.mem_filter.mpr ⟨hscore, beq_iff_eq.mpr hid⟩
    rw [hunscored] at hmem
    cases hmem
  obtain ⟨keys, hrun⟩ := recordScore_succeeds hwhiteValid
    (fun score hscore ↦ hnone score (List.mem_of_mem_filter hscore)) hwhite hgame hcat
  have hfirst : ∀ score ∈ (backend.applyAll d (scoreChanges
      (room.score winnerColor now white whiteId) keys)).scoresOf blackId,
      score.gameId ≠ room.gameId := by
    intro score hscore
    obtain ⟨hscore, hid⟩ := List.mem_filter.mp hscore
    rw [scores_applyAll, scores_scoreChanges, List.mem_append, List.mem_singleton] at hscore
    rcases hscore with hscore | rfl
    · exact hnone score hscore
    · exact absurd (beq_iff_eq.mp hid) hne
  obtain ⟨keys', hrun'⟩ := recordScore_succeeds hblackValid hfirst
    (by rw [userExists_applyAll, hblack])
    (by rw [game?_applyAll _ _ _ (game_scoreChanges _ _ _), hgame])
    (by rw [achievements_applyAll, hcat])
  exact ⟨_, _, hrun, hrun'⟩

/-- A settlement the constraints accept goes through. -/
theorem finalizeGameAtomic_succeeds {white black : SocketUser} (hok : DbOk js at_ accounts d)
    (hwhite : white ∈ accounts) (hblack : black ∈ accounts) (hseats : Seats row white black)
    (hplayers : room.players = playersOf row) (hrow : d.game? room.gameId = some row)
    (hactive : row.status = .inProgress)
    (hrec : Recordable computeNewRatings d room winnerColor now) :
    (backend.run (finalizeGameAtomic computeNewRatings room result winnerColor now) d).isSome := by
  have hwhiteSeat : seatOf room.players .w = some (white.player .w, white.id) :=
    hplayers ▸ hseats.whiteSeat
  have hblackSeat : seatOf room.players .b = some (black.player .b, black.id) :=
    hplayers ▸ hseats.blackSeat
  obtain ⟨whiteUser, hwhiteUser, hwid⟩ := exists_user? (hok.users white hwhite)
  obtain ⟨blackUser, hblackUser, hbid⟩ := exists_user? (hok.users black hblack)
  have hne : whiteUser.id ≠ blackUser.id := by
    rw [hwid, hbid]
    exact hseats.distinct
  obtain ⟨hwhiteFits, hblackFits⟩ :=
    hrec.ratings _ _ whiteUser blackUser hwhiteSeat hblackSeat hwhiteUser hblackUser
  have hvalid : ∀ (user : SocketUser) color userId,
      (room.score winnerColor now (user.player color) userId).valid = true :=
    fun user color userId ↦ (score_valid_iff user color userId).mpr
      ⟨hrec.moved, hrec.moves, hrec.duration⟩
  have hid := Db.id_of_game? hrow
  -- The store after the game's row is finished and both ratings are set.
  obtain ⟨d₁, hd₁⟩ : ∃ d₁, d₁ = d.apply (.putGame (finishedRow row result winnerColor)) := ⟨_, rfl⟩
  have huser : ∀ id, d₁.user? id = d.user? id := by
    intro id
    rw [hd₁, Db.user?_apply]
    exact Option.map_id'
  have hexists : ∀ user ∈ accounts, d₁.userExists user.id = true := by
    intro user hmem
    rw [hd₁, Db.userExists_apply]
    exact hok.users user hmem
  obtain ⟨hcount, hfindWhite, hfindBlack⟩ := find?_locked hne (lockUsers_rows (d := d₁) hne
    (by rw [huser, hwid, hwhiteUser]) (by rw [huser, hbid, hblackUser]))
  rw [hwid, hbid] at hcount hfindWhite hfindBlack
  obtain ⟨d₂, hd₂⟩ : ∃ d₂, d₂ = (d₁.apply (.setElo white.id (computeNewRatings whiteUser.eloRating
      blackUser.eloRating (whiteScore winnerColor)).1)).apply (.setElo black.id
        (computeNewRatings whiteUser.eloRating blackUser.eloRating (whiteScore winnerColor)).2) :=
    ⟨_, rfl⟩
  have hunscored : d₂.scoresOfGame room.gameId = [] := by
    rw [hd₂, Db.scoresOfGame_apply, Db.scoresOfGame_apply, hd₁, Db.scoresOfGame_apply, ← hid,
      (hok.rows _ row hrow).unscored (by rw [hactive]; decide)]
    rfl
  have hgame : (d₂.game? room.gameId).isSome = true := by
    rw [hd₂, Db.game?_apply, Db.game?_apply, hd₁, Db.game?_apply, hrow]
    simp [Change.game]
  obtain ⟨d₃, d₄, hscore, hscore'⟩ := recordScores_succeed hseats.distinct
    (by rw [hd₂, Db.userExists_apply, Db.userExists_apply, hexists white hwhite])
    (by rw [hd₂, Db.userExists_apply, Db.userExists_apply, hexists black hblack]) hgame
    (by rw [hd₂, Db.achievements_apply, Db.achievements_apply, hd₁, Db.achievements_apply,
      hok.catalogue]) hunscored (hvalid white .w white.id) (hvalid black .b black.id)
  rw [finalizeGameAtomic, Database.run_bind, finishGame_succeeds hrow hactive, Option.bind_some,
    ← hd₁]
  dsimp only
  rw [if_neg Nat.one_ne_zero, if_neg (not_not.mpr rfl), hwhiteSeat, hblackSeat]
  dsimp only
  rw [Database.run_bind, run_lockUsers, Option.bind_some]
  dsimp only
  rw [if_neg (not_not.mpr hcount), hfindWhite, hfindBlack]
  dsimp only
  rw [Database.run_bind, setElo_succeeds (hexists white hwhite) hwhiteFits, Option.bind_some,
    Database.run_bind, setElo_succeeds (by rw [Db.userExists_apply, hexists black hblack])
      hblackFits, Option.bind_some, ← hd₂]
  rw [if_neg (by simp), Database.run_bind, hscore, Option.bind_some, Database.run_bind, hscore',
    Option.bind_some]
  rfl

end Succeeds

/-- In every reachable state, a settlement of a game in progress that a task is about to run or
is running commits exactly when the constraints accept what it writes. -/
theorem finalize_commits_iff {js : ChessJs} {at_ : js.Game → Position → Prop}
    {accounts : List SocketUser} {computeNewRatings : Int → Int → Score → Int × Int}
    (hjs : js.Follows at_)
    {s : System.SessionState Db Change Key Stmt Ans (Call js) (Result js)}
    (hs : ((server js computeNewRatings accounts).sessions (always js)).Reachable s)
    {i : Nat} {room : Room js} {result : GameResult} {winnerColor : Option Color} {now : Nat}
    {next : Finalized → GameTask js}
    (hi : (s.slots i).task = .call (.finalize room result winnerColor now) next)
    {row : GameRow} (hrow : s.db.game? room.gameId = some row) (hactive : row.status = .inProgress) :
    (backend.run (finalizeGameAtomic computeNewRatings room result winnerColor now) s.db).isSome ↔
      Recordable computeNewRatings s.db room winnerColor now := by
  have hkept := System.Protocol.kept (gameProtocol_sound hjs) backend_lawful hs
  have hsafe := hkept.safe i
  rw [show s.settled.tasks i = _ from hi] at hsafe
  have hroom : RoomOk js s.db room := hsafe.1.1
  constructor
  · intro hsome
    obtain ⟨⟨value, d'⟩, hrun⟩ := Option.isSome_iff_exists.mp hsome
    obtain ⟨hdone, -, -⟩ | ⟨row', white, hwhite, black, hblack, whiteUser, blackUser, hseats, hwid,
      hbid, hset⟩ := finalize_cases hkept.inv hroom hrun
    · exact absurd hactive (hdone row hrow)
    · obtain ⟨hmoved, hmoves, hduration⟩ := (score_valid_iff _ _ _).mp hset.whiteValid
      refine ⟨hmoved, hmoves, hduration, ?_⟩
      intro whiteSeat blackSeat whiteUser' blackUser' hw hb hwu hbu
      rw [hset.whiteSeat, Option.some.injEq] at hw
      rw [hset.blackSeat, Option.some.injEq] at hb
      subst hw hb
      obtain rfl := Option.some.inj (hset.whiteFound.symm.trans hwu)
      obtain rfl := Option.some.inj (hset.blackFound.symm.trans hbu)
      exact hset.ratingsFit
  · intro hrec
    obtain ⟨row', hrow', hplayers, hsome, -⟩ := hroom
    obtain rfl := Option.some.inj (hrow.symm.trans hrow')
    obtain ⟨white, hwhite, black, hblack, hseats⟩ :=
      RowOk.seats (hkept.inv.rows _ row hrow) hsome
    exact finalizeGameAtomic_succeeds hkept.inv hwhite hblack hseats hplayers hrow hactive hrec

/-- The finalization a task is about to call. -/
def pendingFinalize {js : ChessJs} :
    GameTask js → Option (Room js × GameResult × Option Color × Nat)
  | .call (.finalize room result winnerColor now) _ => some (room, result, winnerColor, now)
  | _ => none

private theorem eq_call_of_pendingFinalize {js : ChessJs} {t : GameTask js} {room : Room js}
    {result : GameResult} {winnerColor : Option Color} {now : Nat}
    (h : pendingFinalize t = some (room, result, winnerColor, now)) :
    ∃ next, t = .call (.finalize room result winnerColor now) next := by
  unfold pendingFinalize at h
  split at h
  · next next =>
    obtain ⟨rfl, rfl, rfl, rfl⟩ := by simpa using h
    exact ⟨next, rfl⟩
  · cases h

/-- White resigns after the moves of `lines`; the resignation has read the room. -/
def resigning (lines : List Line) : List Line :=
  opening ++ lines ++ [Line.start 9 (.concede "ABCDEFG" ada 60000), .go 9]

/-- Task 9 is about to resign a game in progress, with this many moves, for White, and its
transaction commits or not. -/
def Resigns (s : System.AtomicState Db (Call reference) (Result reference)) (moves : Nat)
    (commits : Bool) : Bool :=
  (pendingFinalize (s.tasks 9)).any fun (room, result, winnerColor, now) ↦
    (s.db.game? room.gameId).any fun row ↦
      row.status == .inProgress && row.blackUsername.isSome && room.moves.length == moves &&
        (backend.run (finalizeGameAtomic equalRatings room result winnerColor now) s.db).isSome
          == commits

/-- What `Resigns` says of the state it leads to. -/
theorem resigns_cases {lines : List Line} {moves : Nat} {commits : Bool}
    (hlines : ∀ line ∈ lines, line.From [ada, ben])
    (h : (play reference equalRatings [ada, ben] twoUsers (resigning lines)).any
      (Resigns · moves commits) = true) :
    ∃ s : System.SessionState Db Change Key Stmt Ans (Call reference) (Result reference),
    ((server reference equalRatings [ada, ben]).sessions (always reference)).Reachable s ∧
    ∃ room result winnerColor now next row,
      (s.slots 9).task = .call (.finalize room result winnerColor now) next ∧
      s.db.game? room.gameId = some row ∧ row.status = .inProgress ∧ row.blackUsername.isSome ∧
      room.moves.length = moves ∧
      (backend.run (finalizeGameAtomic equalRatings room result winnerColor now) s.db).isSome =
        commits := by
  obtain ⟨s, hplay, h⟩ := Option.any_eq_true _ _ |>.mp h
  obtain ⟨⟨room, result, winnerColor, now⟩, hpending, h⟩ := Option.any_eq_true _ _ |>.mp h
  obtain ⟨row, hrow, h⟩ := Option.any_eq_true _ _ |>.mp h
  obtain ⟨next, htask⟩ := eq_call_of_pendingFinalize hpending
  simp only [Bool.and_eq_true, beq_iff_eq] at h
  obtain ⟨⟨⟨hactive, hseated⟩, hmoves⟩, hcommits⟩ := h
  have hall : ∀ line ∈ resigning lines, line.From [ada, ben] := by
    intro line hline
    rcases List.mem_append.mp hline with hline | hline
    · rcases List.mem_append.mp hline with hline | hline
      · exact (by decide : ∀ line ∈ opening, line.From [ada, ben]) line hline
      · exact hlines line hline
    · exact (by decide : ∀ line ∈ [Line.start 9 (.concede "ABCDEFG" ada 60000), .go 9],
        line.From [ada, ben]) line hline
  exact ⟨_, play_reachable fresh_twoUsers hall hplay, room, result, winnerColor, now, next, row,
    htask, hrow, hactive, hseated, hmoves, hcommits⟩

/-- A concession after one move commits. -/
theorem finalize_commits_iff_oneMove :
    ∃ s : System.SessionState Db Change Key Stmt Ans (Call reference) (Result reference),
    ∃ room : Room reference, ∃ winnerColor now, room.moves.length = 1 ∧
      Recordable equalRatings s.db room winnerColor now := by
  obtain ⟨s, hs, room, result, winnerColor, now, next, row, htask, hrow, hactive, -, hmoves,
    hcommits⟩ := @resigns_cases (moveLines 2 ada "f2" "f3") 1 true (by decide) (by decide +kernel)
  exact ⟨s, room, winnerColor, now, hmoves,
    (finalize_commits_iff reference_follows hs htask hrow hactive).mp hcommits⟩

/-- A resignation before the first move cannot be settled: both scores have `moves = 0`. -/
theorem not_commits_noMoves :
    ∃ s : System.SessionState Db Change Key Stmt Ans (Call reference) (Result reference),
    ((server reference equalRatings [ada, ben]).sessions (always reference)).Reachable s ∧
    ∃ room result winnerColor now next row,
      (s.slots 9).task = .call (.finalize room result winnerColor now) next ∧
      s.db.game? room.gameId = some row ∧ row.status = .inProgress ∧ row.blackUsername.isSome ∧
      room.moves.length = 0 ∧
      (backend.run (finalizeGameAtomic equalRatings room result winnerColor now) s.db).isSome =
        false :=
  @resigns_cases [] 0 false (by decide) (by decide +kernel)

end ChessStack.Server
