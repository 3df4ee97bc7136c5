import ChessStack.Server.Finalize
import ChessStack.Server.Reference
import ChessStack.Server.Script

/-!
# Achievements

Library `Server`. The rules of the catalogue that `003_achievements.sql` seeds, as
`Chess-Backend/src/models/Achievement.js` computes them from the history a client sends, and the
keys that `finalizeGameAtomic` inserts for the players of a multiplayer game.
-/

namespace ChessStack.Server

open ChessStack.Chess ChessStack.Js ChessStack.Library ChessStack.Store

/-! ### The catalogue -/

/-- The letter of a colour in the name of a piece. -/
def colorText : Color → String
  | .w => "w"
  | .b => "b"

/-- `m.captured && m.captured[0] === color`. -/
def tookFrom (color : String) (captured : Option String) : Bool :=
  captured.any fun piece ↦ piece ≠ "" && (piece.toList.take 1 == color.toList)

/-- The side of a colour has lost a piece. -/
def LostPiece (color : Color) (moves : List MoveRow) : Prop :=
  ∃ m ∈ moves, tookFrom (colorText color) m.capturedPiece = true

/-- The side of a colour has lost its queen. -/
def LostQueen (color : Color) (moves : List MoveRow) : Prop :=
  ∃ m ∈ moves, m.capturedPiece = some (colorText color ++ "Q")

/-- The rules of the catalogue, `003_achievements.sql:24–33`, for one player of a finished game:
`won` tells whether he won it, `wins` counts his wins with it. -/
inductive Earns (color : Color) (won : Prop) (wins : Nat) (moves : List MoveRow) : String → Prop
  | firstGame : Earns color won wins moves "first_game"
  | firstWin : won → 1 ≤ wins → Earns color won wins moves "first_win"
  | wins5 : won → 5 ≤ wins → Earns color won wins moves "wins_5"
  | wins10 : won → 10 ≤ wins → Earns color won wins moves "wins_10"
  | wins25 : won → 25 ≤ wins → Earns color won wins moves "wins_25"
  | quickWin : won → moves.length ≤ 15 → Earns color won wins moves "quick_win"
  | marathon : 60 ≤ moves.length → Earns color won wins moves "marathon"
  | flawless : won → ¬ LostPiece color moves → Earns color won wins moves "flawless"
  | comeback : won → LostQueen color moves → Earns color won wins moves "comeback"

/-! ### A game that a client reports -/

/-- An element of `moveHistory`. -/
structure HistoryMove where
  color : String
  captured : Option String

/-- The keys that `Achievement.checkAndAward` tries, `Achievement.js:32–66`; `wins` is what the
count over the player's scores gives. -/
def checkAndAward (wins moves : Nat) (winner : Bool) (moveHistory : List HistoryMove) :
    List String :=
  ["first_game"] ++
  (if winner then
    (if 1 ≤ wins then ["first_win"] else []) ++ (if 5 ≤ wins then ["wins_5"] else []) ++
    (if 10 ≤ wins then ["wins_10"] else []) ++ (if 25 ≤ wins then ["wins_25"] else []) ++
    (if moves ≤ 15 then ["quick_win"] else []) ++
    (match moveHistory.getLast? with
    | some last =>
      if last.color = "" then [] else
        (if !moveHistory.any (fun m ↦ tookFrom last.color m.captured) then ["flawless"] else []) ++
        (if moveHistory.any (fun m ↦ m.captured == some (last.color ++ "Q")) then ["comeback"]
          else [])
    | none => [])
  else []) ++
  (if 60 ≤ moves then ["marathon"] else [])

/-- The history of a game in the form a client keeps it. -/
def historyOf (moves : List MoveRow) : List HistoryMove :=
  moves.map fun m ↦ ⟨colorText m.playerColor, m.capturedPiece⟩

private theorem mem_achievementKeys {wins : Option Nat} {moves : Nat} {key : String} :
    key ∈ achievementKeys wins moves ↔ key = "first_game" ∨ (60 ≤ moves ∧ key = "marathon") ∨
      ∃ w, wins = some w ∧ ((1 ≤ w ∧ key = "first_win") ∨ (5 ≤ w ∧ key = "wins_5") ∨
        (10 ≤ w ∧ key = "wins_10") ∨ (25 ≤ w ∧ key = "wins_25") ∨
        (moves ≤ 15 ∧ key = "quick_win")) := by
  unfold achievementKeys
  cases wins with
  | none => simp
  | some w =>
    simp only [List.mem_append, List.mem_singleton, List.mem_ite_nil_right, Option.some.injEq,
      exists_eq_left']
    refine or_assoc.trans (or_congr_right (or_comm.trans (or_congr_right ?_)))
    simp only [or_assoc]

/-- The catalogue has two rules more than the keys of the game server. -/
theorem earns_iff {color : Color} {won : Prop} [Decidable won] {wins : Nat} {moves : List MoveRow}
    {key : String} : Earns color won wins moves key ↔
      key ∈ achievementKeys (if won then some wins else none) moves.length ∨
        won ∧ (key = "flawless" ∧ ¬ LostPiece color moves ∨
          key = "comeback" ∧ LostQueen color moves) := by
  rw [mem_achievementKeys]
  constructor
  · intro h
    cases h with
    | firstGame => exact .inl (.inl rfl)
    | marathon h => exact .inl (.inr (.inl ⟨h, rfl⟩))
    | flawless hwon h => exact .inr ⟨hwon, .inl ⟨rfl, h⟩⟩
    | comeback hwon h => exact .inr ⟨hwon, .inr ⟨rfl, h⟩⟩
    | firstWin hwon h | wins5 hwon h | wins10 hwon h | wins25 hwon h | quickWin hwon h =>
      refine .inl (.inr (.inr ⟨wins, if_pos hwon, ?_⟩))
      simp [h]
  · rintro ((rfl | ⟨h, rfl⟩ | ⟨w, hw, h⟩) | ⟨hwon, ⟨rfl, h⟩ | ⟨rfl, h⟩⟩)
    · exact .firstGame
    · exact .marathon h
    · split at hw
      · next hwon =>
        obtain rfl := Option.some.inj hw
        rcases h with ⟨h, rfl⟩ | ⟨h, rfl⟩ | ⟨h, rfl⟩ | ⟨h, rfl⟩ | ⟨h, rfl⟩
        · exact .firstWin hwon h
        · exact .wins5 hwon h
        · exact .wins10 hwon h
        · exact .wins25 hwon h
        · exact .quickWin hwon h
      · cases hw
    · exact .flawless hwon h
    · exact .comeback hwon h

private theorem any_historyOf (moves : List MoveRow) (f : Option String → Bool) :
    (historyOf moves).any (fun m ↦ f m.captured) = moves.any fun m ↦ f m.capturedPiece := by
  unfold historyOf
  rw [List.any_map]
  rfl

/-- `checkAndAward` awards what the catalogue says, when a winner has made the last move. -/
theorem checkAndAward_iff {color : Color} {wins : Nat} {winner : Bool} {moves : List MoveRow}
    (hlast : winner = true → moves.getLast?.map MoveRow.playerColor = some color) (key : String) :
    key ∈ checkAndAward wins moves.length winner (historyOf moves) ↔
      Earns color (winner = true) wins moves key := by
  rw [earns_iff, mem_achievementKeys]
  cases winner with
  | false => simp [checkAndAward]
  | true =>
    obtain ⟨last, hrow, rfl⟩ := Option.map_eq_some_iff.mp (hlast rfl)
    have hhistory : (historyOf moves).getLast? = some ⟨colorText last.playerColor, last.capturedPiece⟩ := by
      rw [historyOf, List.getLast?_map, hrow]
      rfl
    have hne : colorText last.playerColor ≠ "" := by
      cases last.playerColor <;> decide
    have hpiece : moves.any (fun m ↦ tookFrom (colorText last.playerColor) m.capturedPiece) = true ↔
        LostPiece last.playerColor moves := List.any_eq_true
    have hqueen : moves.any (fun m ↦ m.capturedPiece == some (colorText last.playerColor ++ "Q")) =
        true ↔ LostQueen last.playerColor moves := by
      rw [List.any_eq_true]
      simp only [beq_iff_eq]
      rfl
    have hpieces := any_historyOf moves (tookFrom (colorText last.playerColor))
    have hqueens := any_historyOf moves (· == some (colorText last.playerColor ++ "Q"))
    unfold checkAndAward
    simp only [hhistory, hne, hpieces, hqueens, if_true, if_false, List.mem_append,
      List.mem_singleton, List.mem_ite_nil_right, ← hpiece, ← hqueen, Bool.not_eq_true,
      Bool.not_eq_eq_eq_not, Option.some.injEq, exists_eq_left', true_and, Bool.not_true]
    simp only [and_comm, or_assoc, or_comm, or_left_comm]

/-! ### What a finalization inserts -/

/-- The wins of a user. -/
def winsOf (d : Db) (userId : Nat) : Nat := ((d.scoresOf userId).filter (·.winner)).length

private theorem statements_sql (stmt : Stmt) (d : Db) :
    backend.statements (sql stmt) d = [stmt] := by
  rw [sql, Tx.stmt, Database.statements]
  cases backend.exec stmt d <;> rfl

private theorem statements_sql_bind {Value : Type} {stmt : Stmt} {f : Ans stmt → GameTx Value}
    {d d' : Db}
    {a : Ans stmt} (h : backend.run (sql stmt) d = some (a, d')) :
    backend.statements (sql stmt >>= f) d = stmt :: backend.statements (f a) d' := by
  rw [Database.statements_bind h, statements_sql]
  rfl

private theorem winsOf_applyAll {d : Db} {cs : List Change} {userId : Nat}
    (h : ∀ row ∈ cs.flatMap Change.scores, row.userId ≠ userId) :
    winsOf (backend.applyAll d cs) userId = winsOf d userId := by
  have hnone : (cs.flatMap Change.scores).filter (fun row ↦ row.userId == userId) = [] := by
    rw [List.filter_eq_nil_iff]
    intro row hrow
    simpa using h row hrow
  unfold winsOf Db.scoresOf
  rw [scores_applyAll, List.filter_append, hnone, List.append_nil]

section Record

variable {gameId moves duration userId : Nat} {player : Player} {winnerColor : Option Color}
  {d d' : Db}

private theorem winsOf_insertAchievements {keys : List String} {value : Unit}
    (h : backend.run (insertAchievements userId keys) d = some (value, d')) :
    winsOf d' userId = winsOf d userId := by
  obtain ⟨fresh, rfl⟩ := run_insertAchievements h
  apply winsOf_applyAll
  intro row hrow
  obtain ⟨c, hc, hrow⟩ := List.mem_flatMap.mp hrow
  obtain ⟨key, -, rfl⟩ := List.mem_map.mp hc
  cases hrow

/-- The statements for one player: the wins are counted with the score just inserted. -/
theorem recordScore_statements (h : backend.run
    (recordScore gameId moves duration player userId winnerColor) d = some ((), d')) :
    backend.statements (recordScore gameId moves duration player userId winnerColor) d =
      .insertScore (scoreRow gameId moves duration player userId winnerColor) ::
        ((if some player.color = winnerColor then [Stmt.countWins userId] else []) ++
          [Stmt.insertAchievements userId (achievementKeys
            (if some player.color = winnerColor then some (winsOf d' userId) else none) moves)]) := by
  rw [recordScore, Database.run_bind, Option.bind_eq_some_iff] at h
  obtain ⟨⟨inserted, d₁⟩, hinsert, h⟩ := h
  refine (statements_sql_bind hinsert).trans (congrArg _ ?_)
  dsimp only at h ⊢
  by_cases hone : inserted ≠ (1 : Nat)
  · rw [if_pos hone] at h
    cases h
  · rw [if_neg hone] at h ⊢
    by_cases hwon : some player.color = winnerColor
    · rw [if_pos hwon, Database.run_bind, run_countWins, Option.bind_some] at h
      rw [if_pos hwon, if_pos hwon, if_pos hwon, winsOf_insertAchievements h]
      refine (statements_sql_bind (run_countWins d₁ userId)).trans (congrArg _ ?_)
      exact statements_sql _ d₁
    · rw [if_neg hwon, if_neg hwon, if_neg hwon]
      exact statements_sql _ d₁

end Record

section Finalize

variable {js : ChessJs} {computeNewRatings : Int → Int → Score → Int × Int} {room : Room js}
  {result : GameResult} {winnerColor : Option Color} {now : Nat} {d d' : Db} {value : Finalized}
  {white black : Player} {whiteId blackId : Nat}

private theorem color_of_seatOf {players : List Player} {color : Color} {player : Player}
    {userId : Nat}
    (h : seatOf players color = some (player, userId)) : player.color = color := by
  simp only [seatOf, Option.bind_eq_bind, Option.bind_eq_some_iff] at h
  obtain ⟨found, hfind, id, -, h⟩ := h
  split at h
  · cases h
  · cases h
    simpa using List.find?_some hfind

/-- The keys for the player of a colour. -/
def keysOf (d' : Db) (winnerColor : Option Color) (moves : Nat) (color : Color) (userId : Nat) :
    List String :=
  achievementKeys (if winnerColor = some color then some (winsOf d' userId) else none) moves

/-- The statements of a finalization that settles a game. -/
theorem finalize_statements (h : backend.run
      (finalizeGameAtomic computeNewRatings room result winnerColor now) d = some (value, d'))
    (hwhite : seatOf room.players .w = some (white, whiteId))
    (hblack : seatOf room.players .b = some (black, blackId)) (hsettled : value.settled = true) :
    whiteId ≠ blackId ∧ ∃ whiteElo blackElo d₁ d₂,
      backend.run (recordScore room.gameId room.moves.length (durationOf room.createdAt now) white
        whiteId winnerColor) d₁ = some ((), d₂) ∧
      backend.run (recordScore room.gameId room.moves.length (durationOf room.createdAt now) black
        blackId winnerColor) d₂ = some ((), d') ∧
      backend.statements (finalizeGameAtomic computeNewRatings room result winnerColor now) d =
        [Stmt.finishGame room.gameId result winnerColor, .lockUsers [whiteId, blackId],
          .setElo whiteId whiteElo, .setElo blackId blackElo] ++
        (backend.statements (recordScore room.gameId room.moves.length
          (durationOf room.createdAt now) white whiteId winnerColor) d₁ ++
        backend.statements (recordScore room.gameId room.moves.length
          (durationOf room.createdAt now) black blackId winnerColor) d₂) := by
  rw [finalizeGameAtomic, Database.run_bind, Option.bind_eq_some_iff] at h
  obtain ⟨⟨finished, d₁⟩, hfinish, h⟩ := h
  dsimp only at h
  by_cases hzero : (finished : Nat) = 0
  · rw [if_pos hzero] at h
    obtain ⟨rfl, -⟩ := Prod.mk.inj (Option.some.inj h)
    cases hsettled
  · rw [if_neg hzero] at h
    by_cases hone : (finished : Nat) ≠ 1
    · rw [if_pos hone] at h
      cases h
    · rw [if_neg hone, hwhite, hblack] at h
      dsimp only at h
      rw [Database.run_bind, run_lockUsers, Option.bind_some] at h
      split at h
      · cases h
      · next hcount =>
        have hne : whiteId ≠ blackId := by
          rintro rfl
          exact hcount (lockUsers_same d₁ whiteId)
        split at h
        · next whiteUser blackUser hwhiteUser hblackUser =>
          rw [Database.run_bind, Option.bind_eq_some_iff] at h
          obtain ⟨⟨whiteUpdate, d₂⟩, hwhiteElo, h⟩ := h
          rw [Database.run_bind, Option.bind_eq_some_iff] at h
          obtain ⟨⟨blackUpdate, d₃⟩, hblackElo, h⟩ := h
          dsimp only at h
          split at h
          · cases h
          · next hupdates =>
            rw [Database.run_bind, Option.bind_eq_some_iff] at h
            obtain ⟨⟨⟨⟩, d₄⟩, hwhiteScore, h⟩ := h
            rw [Database.run_bind, Option.bind_eq_some_iff] at h
            obtain ⟨⟨⟨⟩, d₅⟩, hblackScore, h⟩ := h
            obtain ⟨rfl, rfl⟩ := Prod.mk.inj (Option.some.inj h)
            let elo := computeNewRatings whiteUser.eloRating blackUser.eloRating (whiteScore winnerColor)
            refine ⟨hne, elo.1, elo.2, d₃, d₄, hwhiteScore, hblackScore, ?_⟩
            refine (statements_sql_bind hfinish).trans (congrArg _ ?_)
            dsimp only
            rw [if_neg hzero, if_neg hone, hwhite, hblack]
            dsimp only
            refine (statements_sql_bind (run_lockUsers d₁ [whiteId, blackId])).trans (congrArg _ ?_)
            rw [if_neg hcount, hwhiteUser, hblackUser]
            dsimp only
            refine (statements_sql_bind hwhiteElo).trans (congrArg _ ?_)
            refine (statements_sql_bind hblackElo).trans (congrArg _ ?_)
            rw [if_neg hupdates, Database.statements_bind hwhiteScore,
              Database.statements_bind hblackScore]
            exact congrArg _ (List.append_nil _)
        · cases h

/-- A key that a finalization inserts for a user. -/
def Inserts (tx : GameTx Finalized) (d : Db) (userId : Nat) (key : String) : Prop :=
  ∃ keys, .insertAchievements userId keys ∈ backend.statements tx d ∧ key ∈ keys

private theorem mem_recordScore_statements {gameId moves duration userId id : Nat} {player : Player}
    {keys : List String} (h : backend.run
      (recordScore gameId moves duration player userId winnerColor) d = some ((), d')) :
    .insertAchievements id keys ∈
        backend.statements (recordScore gameId moves duration player userId winnerColor) d ↔
      id = userId ∧ keys = keysOf d' winnerColor moves player.color userId := by
  rw [recordScore_statements h, keysOf]
  simp only [eq_comm (a := winnerColor), List.mem_cons, List.mem_append, List.mem_ite_nil_right,
    List.not_mem_nil, or_false, reduceCtorEq, and_false, false_or, Stmt.insertAchievements.injEq]

/-- The keys that a finalization inserts, for each player once. -/
theorem inserts_iff (h : backend.run
      (finalizeGameAtomic computeNewRatings room result winnerColor now) d = some (value, d'))
    (hwhite : seatOf room.players .w = some (white, whiteId))
    (hblack : seatOf room.players .b = some (black, blackId)) (hsettled : value.settled = true)
    (key : String) :
    (Inserts (finalizeGameAtomic computeNewRatings room result winnerColor now) d whiteId key ↔
      key ∈ keysOf d' winnerColor room.moves.length .w whiteId) ∧
    (Inserts (finalizeGameAtomic computeNewRatings room result winnerColor now) d blackId key ↔
      key ∈ keysOf d' winnerColor room.moves.length .b blackId) := by
  obtain ⟨hne, whiteElo, blackElo, d₁, d₂, hwhiteScore, hblackScore, htrace⟩ :=
    finalize_statements h hwhite hblack hsettled
  -- White's wins are not touched by Black's score.
  have hwins : winsOf d₂ whiteId = winsOf d' whiteId := by
    obtain ⟨-, -, keys, rfl⟩ := recordScore_run hblackScore
    refine (winsOf_applyAll fun row hrow ↦ ?_).symm
    rw [scores_scoreChanges, List.mem_singleton] at hrow
    rw [hrow]
    exact hne.symm
  have hmem : ∀ id keys, .insertAchievements id keys ∈ backend.statements
      (finalizeGameAtomic computeNewRatings room result winnerColor now) d ↔
        id = whiteId ∧ keys = keysOf d' winnerColor room.moves.length .w whiteId ∨
        id = blackId ∧ keys = keysOf d' winnerColor room.moves.length .b blackId := by
    intro id keys
    rw [htrace, List.mem_append, List.mem_append, mem_recordScore_statements hwhiteScore,
      mem_recordScore_statements hblackScore, color_of_seatOf hwhite, color_of_seatOf hblack, keysOf,
      hwins]
    simp [keysOf]
  unfold Inserts
  constructor
  · simp [hmem, hne]
  · simp [hmem, hne.symm]

private theorem keysOf_iff {moves : List MoveRow} {color : Color} {userId : Nat} :
    (∀ key, key ∈ keysOf d' winnerColor moves.length color userId ↔
      Earns color (winnerColor = some color) (winsOf d' userId) moves key) ↔
    (winnerColor = some color → LostPiece color moves ∧ ¬ LostQueen color moves) := by
  constructor
  · intro h hwon
    have hkey : ∀ key, key ∈ keysOf d' winnerColor moves.length color userId →
        key ≠ "flawless" ∧ key ≠ "comeback" := by
      intro key hmem
      rw [keysOf, mem_achievementKeys] at hmem
      rcases hmem with rfl | ⟨-, rfl⟩ | ⟨w, -, ⟨-, rfl⟩ | ⟨-, rfl⟩ | ⟨-, rfl⟩ | ⟨-, rfl⟩ | ⟨-, rfl⟩⟩ <;>
        decide
    constructor
    · by_contra hlost
      exact (hkey _ ((h _).mpr (.flawless hwon hlost))).1 rfl
    · intro hqueen
      exact (hkey _ ((h _).mpr (.comeback hwon hqueen))).2 rfl
  · intro h key
    rw [earns_iff, keysOf]
    refine ⟨.inl, ?_⟩
    rintro (hkey | ⟨hwon, ⟨-, hlost⟩ | ⟨-, hqueen⟩⟩)
    · exact hkey
    · exact absurd (h hwon).1 hlost
    · exact absurd hqueen (h hwon).2

/-- A finalization inserts the keys the catalogue gives both players, unless the winner has lost no
piece or has lost the queen. -/
theorem awards_iff (h : backend.run
      (finalizeGameAtomic computeNewRatings room result winnerColor now) d = some (value, d'))
    (hwhite : seatOf room.players .w = some (white, whiteId))
    (hblack : seatOf room.players .b = some (black, blackId)) (hsettled : value.settled = true) :
    ((∀ key, Inserts (finalizeGameAtomic computeNewRatings room result winnerColor now) d whiteId key ↔
        Earns .w (winnerColor = some .w) (winsOf d' whiteId) room.moves key) ∧
      ∀ key, Inserts (finalizeGameAtomic computeNewRatings room result winnerColor now) d blackId key ↔
        Earns .b (winnerColor = some .b) (winsOf d' blackId) room.moves key) ↔
    ∀ color, winnerColor = some color → LostPiece color room.moves ∧ ¬ LostQueen color room.moves := by
  have hinserts := inserts_iff h hwhite hblack hsettled
  have hwhiteKeys : ∀ key, _ := fun key ↦ (hinserts key).1
  have hblackKeys : ∀ key, _ := fun key ↦ (hinserts key).2
  simp only [hwhiteKeys, hblackKeys]
  rw [keysOf_iff, keysOf_iff]
  constructor
  · rintro ⟨hw, hb⟩ color hwon
    cases color with
    | w => exact hw hwon
    | b => exact hb hwon
  · intro hall
    exact ⟨hall .w, hall .b⟩

end Finalize

/-! ### Two games -/

/-- A game of `ada` and `ben`. -/
def oneGame : Db := { twoUsers with games := ⟨[activeGame 1], by decide⟩ }

/-- Black resigns after White's first move: White has lost no piece, and the key is not inserted. -/
theorem flawless_missed : ∃ value d', backend.run (finalizeGameAtomic equalRatings
      (endedRoom reference 1 ada ben) .resign (some .w) 60000) oneGame = some (value, d') ∧
    value.settled = true ∧
    Earns .w (some Color.w = some .w) (winsOf d' 1) (endedRoom reference 1 ada ben).moves "flawless" ∧
    ¬ Inserts (finalizeGameAtomic equalRatings (endedRoom reference 1 ada ben) .resign (some .w) 60000)
      oneGame 1 "flawless" := by
  have hrun : (backend.run (finalizeGameAtomic equalRatings (endedRoom reference 1 ada ben) .resign
      (some .w) 60000) oneGame).any (fun x ↦ x.1.settled) = true := by
    decide +kernel
  obtain ⟨⟨value, d'⟩, hfinal, hsettled⟩ := Option.any_eq_true _ _ |>.mp hrun
  refine ⟨value, d', hfinal, hsettled, .flawless rfl ?_, fun hinserted ↦ ?_⟩
  · unfold LostPiece
    decide
  · have hkey := ((inserts_iff hfinal rfl rfl hsettled "flawless").1.mp hinserted)
    rw [keysOf, mem_achievementKeys] at hkey
    revert hkey
    simp

/-- The same game in which Black has taken a pawn. -/
def pawnLost : Room reference :=
  { endedRoom reference 1 ada ben with
    moves := [⟨1, 1, .w, "e2", "e4", "wP", none, "e4", "", none⟩,
      ⟨1, 2, .b, "d7", "d5", "bP", none, "d5", "", none⟩,
      ⟨1, 3, .w, "a2", "a3", "wP", none, "a3", "", none⟩,
      ⟨1, 4, .b, "d5", "e4", "bP", some "wP", "dxe4", "", none⟩] }

/-- A win in which a pawn was lost earns no `flawless`. -/
theorem awards_iff_pawnLost : ∃ value d', backend.run (finalizeGameAtomic equalRatings pawnLost
      .resign (some .w) 60000) oneGame = some (value, d') ∧
    ∀ key, Inserts (finalizeGameAtomic equalRatings pawnLost .resign (some .w) 60000) oneGame 1 key ↔
      Earns .w (some Color.w = some .w) (winsOf d' 1) pawnLost.moves key := by
  have hrun : (backend.run (finalizeGameAtomic equalRatings pawnLost .resign (some .w) 60000)
      oneGame).any (fun x ↦ x.1.settled) = true := by
    decide +kernel
  obtain ⟨⟨value, d'⟩, hfinal, hsettled⟩ := Option.any_eq_true _ _ |>.mp hrun
  refine ⟨value, d', hfinal, ((awards_iff hfinal rfl rfl hsettled).mpr ?_).1⟩
  rintro color hcolor
  obtain rfl := Option.some.inj hcolor
  unfold LostPiece LostQueen
  decide

end ChessStack.Server
