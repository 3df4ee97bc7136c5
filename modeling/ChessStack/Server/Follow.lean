import ChessStack.Server.Protocol

/-!
# The tasks follow the protocol

Library `Server`. Every task of `Chess-Backend/src/socket/gameSocket.js` calls its transactions
as the protocol of the game tables asks, so in every run, under every interleaving, the tables
stay in order and each committed call met its precondition.
-/

namespace ChessStack.Server

open ChessStack.Chess ChessStack.Js ChessStack.Library ChessStack.Store

variable {js : ChessJs} {at_ : js.Game → Position → Prop} {accounts : List SocketUser}
  {computeNewRatings : Int → Int → Score → Int × Int} {d d' : Db} {row : GameRow}

/-- The room was read from the tables as they are. -/
structure Live (js : ChessJs) (d : Db) (row : GameRow) (live : Room js) : Prop where
  found : d.game? live.gameId = some row
  players : live.players = playersOf row
  status : live.status = if row.status = .finished then .finished
    else if (playersOf row).length = 2 then .playing else .waiting
  moves : live.moves.length = (d.movesOf live.gameId).length
  chess : ∃ fen, row.boardFen = some fen ∧ js.load fen = some live.chess

/-- What a refresh builds from tables in order. -/
theorem live_of_snapshot (h : DbOk js at_ accounts d) {roomId : String} {snapshot : GameSnapshot}
    {live : Room js} (hsnap : findRoomSnapshot d roomId = some snapshot)
    (hlive : buildRoomFromSnapshot js snapshot = some live) : ∃ row, Live js d row live := by
  obtain ⟨row, hrow, rfl⟩ := Option.map_eq_some_iff.mp hsnap
  have hfound := Db.game?_of_mem (List.mem_of_find?_eq_some hrow)
  have hok := h.rows _ _ hfound
  obtain ⟨p, hlegal⟩ := hok.legal
  simp only [buildRoomFromSnapshot, checkpoint, hok.board, if_neg hlegal.lastFen_ne] at hlive
  obtain ⟨chess, hchess, rfl⟩ := Option.map_eq_some_iff.mp hlive
  exact ⟨row, hfound, rfl, rfl, List.length_insertionSort _ _, _, hok.board, hchess⟩

/-- A refresh leaves the rest of its task a room read from tables in order. -/
theorem refreshed_safe {S : System Db Change Key Cell ((Nat → Bool) × List String) Stmt Ans
    (Call js) (Result js)} {roomId : String} {next : Room js → GameTask js}
    (h : ∀ d row live, DbOk js at_ accounts d → Live js d row live →
      (gameProtocol js at_ accounts).Safe S (next live) d) (d : Db) :
    (gameProtocol js at_ accounts).Safe S (refreshed js roomId next) d := by
  intro d' hinv _
  dsimp only
  split
  · trivial
  · next snapshot hsnap =>
    split
    · split
      · exact ⟨trivial, fun _ _ _ _ _ _ _ ↦ trivial⟩
      · next live hlive =>
        obtain ⟨row, hrow⟩ := live_of_snapshot hinv hsnap hlive
        exact h d' row live hinv hrow
    · trivial

private theorem Live.current {live : Room js} (h : Live js d row live) :
    Current js row live.chess := by
  obtain ⟨fen, hfen, hload⟩ := h.chess
  exact ⟨fen, live.chess, hfen, hload, rfl, rfl, rfl⟩

/-- A room with both seats taken that follows its row is in order. -/
theorem Live.roomOk {live : Room js} (h : Live js d row live) (hsome : row.blackUsername.isSome) :
    RoomOk js d live :=
  ⟨row, h.found, h.players, hsome, h.moves.le, fun _ ↦ h.current⟩

/-- A player is the user in the seat of their colour. -/
theorem seat_of_mem {player : Player} (h : player ∈ playersOf row) :
    seat row player.color = player.userId := by
  unfold playersOf at h
  rcases List.mem_cons.mp h with rfl | h
  · rfl
  · split at h
    · split at h
      · cases h
      · rw [List.mem_singleton.mp h]
        rfl
    · cases h

/-- A room that plays has both seats taken. -/
theorem Live.seated_of_playing {live : Room js} (h : Live js d row live)
    (hplaying : live.status = .playing) : row.blackUsername.isSome := by
  rw [h.status] at hplaying
  cases hname : row.blackUsername with
  | some name => rfl
  | none =>
    have hlen : (playersOf row).length = 1 := by rw [playersOf, hname]; rfl
    rw [hlen, if_neg (show ¬ 1 = 2 by decide)] at hplaying
    split at hplaying <;> cases hplaying

/-- A game that is over has both seats taken. -/
theorem Live.seated_of_over (hjs : js.Follows at_) (hok : RowOk js at_ accounts d row)
    {live : Room js} (h : Live js d row live) (hover : js.isGameOver live.chess = true) :
    row.blackUsername.isSome := by
  cases hname : row.blackUsername with
  | some name => rfl
  | none =>
    obtain ⟨fen, hfen, hload⟩ := h.chess
    obtain ⟨g, hstart, -, hopen⟩ := hjs.load_start
    have hboard := hok.board
    rw [hok.waiting hname, hfen, Option.some.injEq] at hboard
    rw [hboard] at hload
    obtain rfl := Option.some.inj (hstart.symm.trans hload)
    rw [hover] at hopen
    cases hopen

/-- The room as the task goes on with it after its move is stored. -/
theorem roomOk_after (hjs : js.Follows at_) {live : Room js} {d₁ d₂ : Db} {row₁ : GameRow}
    {color : Color} {requested : Option Json} {chess : js.Game} {persisted : Persisted js}
    (h : Live js d row live) (hsome : row.blackUsername.isSome) (hd : Onward d d₁)
    (hok : RowOk js at_ accounts d₁ row₁)
    (hs : StoresMove js live.gameId color requested d₁ row₁ chess persisted d₂) :
    RoomOk js d₂
      { live with chess := persisted.chess, moves := live.moves ++ [persisted.record] } := by
  obtain ⟨row', hrow', hon⟩ := hd _ _ h.found
  rw [hs.found] at hrow'
  obtain rfl := Option.some.inj hrow'
  obtain ⟨more, hmore⟩ := hon.moves
  have hmoves : d₂.movesOf live.gameId = d₁.movesOf live.gameId ++ [persisted.record] := by
    rw [hs.movesOf, if_pos rfl]
  refine ⟨{ row₁ with boardFen := some (js.fen persisted.chess) }, ?_, ?_, ?_, ?_, fun _ ↦ ?_⟩
  · rw [hs.game?, if_pos rfl]
  · exact h.players.trans (playersOf_onward hon hsome).symm
  · change row₁.blackUsername.isSome
    rw [(hon.black hsome).2]
    exact hsome
  · simp only [hmoves, hmore, List.length_append, h.moves, List.length_singleton]
    omega
  · obtain ⟨p, hlegal, hat⟩ := hs.legal hjs hok
    obtain ⟨g, hload, hatg⟩ := hjs.load_fen _ _ hat
    obtain ⟨p₀, hlegal₀⟩ := hok.legal
    have hloaded := hs.loaded
    rw [hok.board, ChessJs.loadOr, if_neg hlegal₀.lastFen_ne] at hloaded
    refine ⟨_, g, rfl, hload, ?_, hjs.over_reloaded _ _ _ _ _ _ hloaded hs.moved hload, ?_⟩
    · rw [hjs.turn _ _ hat, hjs.turn _ _ hatg]
    · rw [Bool.eq_iff_iff, hjs.checkmate _ _ hat, hjs.checkmate _ _ hatg]

section Tasks

variable {roomId : String} {user : SocketUser}

private theorem joinRoom_safe (huser : user ∈ accounts) (d : Db) :
    (gameProtocol js at_ accounts).Safe (server js computeNewRatings accounts)
      (joinRoom js roomId user) d := by
  apply refreshed_safe
  intro d row live hinv hlive
  split
  · trivial
  · next hother =>
    split
    · trivial
    · refine ⟨⟨huser, row, hlive.found, ?_⟩, fun _ _ _ _ _ _ _ ↦ trivial⟩
      intro hwhite
      apply hother
      rw [hlive.players, List.any_eq_true]
      exact ⟨_, List.mem_cons_self, beq_iff_eq.mpr hwhite⟩

private theorem makeMove_safe (hjs : js.Follows at_) (requested : Option Json) (now : Nat)
    (d : Db) :
    (gameProtocol js at_ accounts).Safe (server js computeNewRatings accounts)
      (makeMove js roomId user requested now) d := by
  apply refreshed_safe
  intro d row live hinv hlive
  split
  · trivial
  · next hplaying =>
    rw [not_not] at hplaying
    have hsome := hlive.seated_of_playing hplaying
    split
    · trivial
    · next player hplayer =>
      split
      · trivial
      · refine ⟨⟨row, hlive.found, hsome, ?_⟩, ?_⟩
        · rw [hlive.players] at hplayer
          rw [seat_of_mem (List.mem_of_find?_eq_some hplayer)]
          simpa using List.find?_some hplayer
        · intro d₁ value d₂ hinv₁ hd hpre hrun
          obtain ⟨rfl, -⟩ | ⟨row₁, chess, persisted, rfl, hs⟩ := persistMoveAtomic_run hrun
          · trivial
          · dsimp only
            split
            · next hover =>
              refine ⟨⟨?_, Or.inr ⟨hover, rfl⟩⟩, fun _ _ _ _ _ _ _ ↦ trivial⟩
              exact roomOk_after hjs hlive hsome hd (hinv₁.rows _ _ hs.found) hs
            · trivial

private theorem gameOver_safe (hjs : js.Follows at_) (now : Nat) (d : Db) :
    (gameProtocol js at_ accounts).Safe (server js computeNewRatings accounts)
      (gameOver js roomId user now) d := by
  apply refreshed_safe
  intro d row live hinv hlive
  split
  · trivial
  · split
    · trivial
    · next hover =>
      rw [Bool.not_eq_true, Bool.not_eq_false'] at hover
      have hsome := hlive.seated_of_over hjs (hinv.rows _ _ hlive.found) hover
      split
      · trivial
      · exact ⟨⟨hlive.roomOk hsome, Or.inr ⟨hover, rfl⟩⟩, fun _ _ _ _ _ _ _ ↦ trivial⟩

private theorem concede_safe (now : Nat) (d : Db) :
    (gameProtocol js at_ accounts).Safe (server js computeNewRatings accounts)
      (concede js roomId user now) d := by
  apply refreshed_safe
  intro d row live hinv hlive
  split
  · trivial
  · next hplaying =>
    rw [not_not] at hplaying
    split
    · trivial
    · exact ⟨⟨hlive.roomOk (hlive.seated_of_playing hplaying), Or.inl rfl⟩,
        fun _ _ _ _ _ _ _ ↦ trivial⟩

private theorem acceptRematch_safe (newId now : Nat) (d : Db) :
    (gameProtocol js at_ accounts).Safe (server js computeNewRatings accounts)
      (acceptRematch js roomId user newId now) d := by
  apply refreshed_safe
  intro d row live hinv hlive
  split
  · trivial
  · split
    · trivial
    · dsimp only
      split
      · next white black hwhite hblack =>
        refine ⟨?_, fun _ _ _ _ _ _ _ ↦ trivial⟩
        rw [hlive.players] at hwhite hblack
        cases hname : row.blackUsername with
        | none =>
          -- With one player, switched to black, nobody is white.
          have hone : playersOf row = [⟨row.whiteUsername, .w, row.whiteUserId⟩] := by
            rw [playersOf, hname]
          rw [hone] at hwhite
          cases hwhite
        | some name =>
          obtain ⟨user, huser, user', huser', hseats⟩ :=
            (hinv.rows _ _ hlive.found).seats (by rw [hname]; rfl)
          rw [hseats.players] at hwhite hblack
          obtain rfl := Option.some.inj hwhite
          obtain rfl := Option.some.inj hblack
          exact ⟨user', huser', user, huser, ⟨rfl, rfl⟩, ⟨rfl, rfl⟩, hseats.distinct.symm⟩
      · trivial

/-- Every task a client can start is safe. -/
theorem spawn_safe (hjs : js.Follows at_) {t : GameTask js} (h : Spawn js accounts t) (d : Db) :
    (gameProtocol js at_ accounts).Safe (server js computeNewRatings accounts) t d := by
  cases h with
  | createRoom huser => exact ⟨huser, fun _ _ _ _ _ _ _ ↦ trivial⟩
  | joinRoom huser => exact joinRoom_safe huser d
  | makeMove _ => exact makeMove_safe hjs _ _ d
  | gameOver _ => exact gameOver_safe hjs _ d
  | concede _ => exact concede_safe _ d
  | acceptRematch _ => exact acceptRematch_safe _ _ d
  | abandonMany => exact ⟨trivial, fun _ _ _ _ _ _ _ ↦ trivial⟩

end Tasks

/-- The server keeps the protocol of its tables. -/
theorem gameProtocol_sound (hjs : js.Follows at_) :
    (gameProtocol js at_ accounts).Sound (server js computeNewRatings accounts) where
  start d hd := by
    constructor
    · intro id row hrow
      have hmem := List.mem_of_find?_eq_some hrow
      rw [hd.games] at hmem
      cases hmem
    · intro id _
      unfold Db.movesOf Db.scoresOfGame
      rw [hd.moves, hd.scores]
      exact ⟨rfl, rfl⟩
    · exact hd.users
    · exact hd.achievements
  refl := Onward.refl
  trans _ _ _ := Onward.trans
  stable c _ _ := Pre.stable c
  commit c d value d' hinv hpre hrun := by
    cases c with
    | create id roomId user now => exact keep_create hinv hpre hrun
    | claimBlack gameId user => exact keep_claimBlack hinv hpre.1 hpre.2 hrun
    | persistMove gameId sender player requested => exact keep_persistMove hjs hinv hpre hrun
    | finalize room result winnerColor now => exact keep_finalize hinv hpre.1 hrun
    | rematch gameId roomId white black newId now => exact keep_rematch hinv hpre hrun
    | abandonMany id => exact keep_abandonMany hinv hrun
  spawn _ ht d _ := spawn_safe hjs ht d

end ChessStack.Server
