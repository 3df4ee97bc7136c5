import ChessStack.Server.Follow
import ChessStack.Server.Script

/-!
# The persisted move log is one legal game

Library `Server`. In every committed state of every interleaving of the transactions of
`Chess-Backend/src/socket/gameSocket.js`, the rows of a game in `moves` are the moves that were
sent and accepted, in order, each by the user in the seat of its colour, and they are one legal
game that stops when the game leaves `in_progress`.
-/

namespace ChessStack.Server

open ChessStack.Chess ChessStack.Js ChessStack.Library ChessStack.Store

/-- The move of a game an outcome stored, with its sender. -/
def sentBy {js : ChessJs} (gameId : Nat) :
    Outcome Db (Call js) (Result js) → List (SocketUser × MoveRow)
  | .committed (.persistMove id sender _ _) (some persisted) _ _ _ =>
    if id = gameId then [(sender, persisted.record)] else []
  | _ => []

/-- The stored moves of a game with their senders, in the order of their commits. -/
def sentMoves {js : ChessJs} (log : Log js) (gameId : Nat) : List (SocketUser × MoveRow) := log.flatMap (sentBy gameId)

/-- The moves of a game's row are one legal game, and were sent by the users in its seats. -/
structure Logged (js : ChessJs) (at_ : js.Game → Position → Prop)
    (log : Log js) (d : Db) (row : GameRow) : Prop where
  numbers : (d.movesOf row.id).map MoveRow.moveNumber = List.range' 1 (d.movesOf row.id).length
  colors : ∀ i move, (d.movesOf row.id)[i]? = some move → move.playerColor = colorAt i
  sent : (sentMoves log row.id).map Prod.snd = d.movesOf row.id
  senders : ∀ sender move, (sender, move) ∈ sentMoves log row.id →
    seat row move.playerColor = some sender.id
  legal : ∃ p, LegalGame js at_ (d.movesOf row.id) p
  board : row.boardFen = some (lastFen (d.movesOf row.id))

section Moves

variable {js : ChessJs} {at_ : js.Game → Position → Prop} {accounts : List SocketUser}
  {computeNewRatings : Int → Int → Score → Int × Int} {d d' : Db}

/-- A commit adds to the moves of a game what it was sent to store. -/
theorem movesOf_commit {c : Call js} {value : Result js c} {answered : Bool}
    (hinv : DbOk js at_ accounts d) (hpre : Pre js accounts c d)
    (hrun : backend.run (prog js computeNewRatings c) d = some (value, d')) (id : Nat) :
    d'.movesOf id = d.movesOf id ++
      (sentBy id (.committed c value d d' answered)).map Prod.snd := by
  cases c with
  | create newId roomId user now =>
    obtain ⟨-, -, -, rfl⟩ := create_run hrun
    exact (List.append_nil _).symm
  | claimBlack gameId user =>
    obtain ⟨-, rfl, -⟩ | ⟨row, -, -, -, -, rfl⟩ := claimBlack_run hrun <;>
      exact (List.append_nil _).symm
  | persistMove gameId sender player requested =>
    obtain ⟨rfl, rfl⟩ | ⟨row, chess, persisted, rfl, hs⟩ := persistMoveAtomic_run hrun
    · exact (List.append_nil _).symm
    · rw [hs.movesOf, sentBy]
      by_cases hid : id = gameId
      · rw [if_pos hid, if_pos hid.symm]
        rfl
      · rw [if_neg hid, if_neg (Ne.symm hid)]
        rfl
  | finalize room result winnerColor now =>
    obtain ⟨-, -, rfl⟩ | ⟨row, white, -, black, -, whiteUser, blackUser, -, -, -, hs⟩ :=
      finalize_cases hinv hpre.1 hrun
    · exact (List.append_nil _).symm
    · rw [hs.movesOf]
      exact (List.append_nil _).symm
  | rematch gameId roomId white black newId now =>
    obtain ⟨old, new, hnew, -⟩ := rematch_run hrun
    rw [hnew.after]
    exact (List.append_nil _).symm
  | abandonMany gameId =>
    obtain rfl | ⟨row, -, -, rfl⟩ := abandonMany_run hrun <;> exact (List.append_nil _).symm

/-- What the log says of the senders of a game's moves. -/
structure Senders (log : Log js) (d : Db) : Prop where
  sent : ∀ id, (sentMoves log id).map Prod.snd = d.movesOf id
  seats : ∀ id sender move, (sender, move) ∈ sentMoves log id →
    ∃ row, d.game? id = some row ∧ row.blackUsername.isSome ∧
      seat row move.playerColor = some sender.id

/-- A sender sits in the seat of the colour of the move. -/
theorem seat_of_sent {c : Call js} {value : Result js c} {answered : Bool}
    (hpre : Pre js accounts c d)
    (hrun : backend.run (prog js computeNewRatings c) d = some (value, d')) {id : Nat}
    {sender : SocketUser} {move : MoveRow}
    (h : (sender, move) ∈ sentBy id (.committed c value d d' answered)) :
    ∃ row, d.game? id = some row ∧ row.blackUsername.isSome ∧
      seat row move.playerColor = some sender.id := by
  cases c with
  | persistMove gameId sender' player requested =>
    obtain ⟨rfl, -⟩ | ⟨row, chess, persisted, rfl, hs⟩ := persistMoveAtomic_run hrun
    · cases h
    · rw [sentBy, List.mem_ite_nil_right, List.mem_singleton] at h
      obtain ⟨rfl, heq⟩ := h
      obtain ⟨rfl, rfl⟩ := Prod.mk.inj heq
      obtain ⟨row', hrow', hsome, hseat⟩ := hpre
      refine ⟨row', hrow', hsome, ?_⟩
      rw [hs.record]
      exact hseat
  | _ => cases h

/-- The moves sent in two logs. -/
theorem sentMoves_append (log log' : Log js) (id : Nat) :
    sentMoves (log ++ log') id = sentMoves log id ++ sentMoves log' id := List.flatMap_append

private theorem senders_of_trace (hjs : js.Follows at_) {allowed : Call js → Db → Prop}
    {log : Log js}
    (h : (gameProtocol js at_ accounts).Trace (server js computeNewRatings accounts) allowed log d) :
    Senders log d := by
  refine h.rule (J := Senders) ?_ ?_ ?_
  · intro d hd
    refine ⟨fun id ↦ ?_, fun _ _ _ h ↦ absurd h List.not_mem_nil⟩
    unfold Db.movesOf
    rw [hd.moves]
    rfl
  · intro log d c value d' answered ih hinv hpre _ hrun
    have hon := ((gameProtocol_sound hjs).commit c d value d' hinv hpre hrun).2
    constructor
    · intro id
      rw [sentMoves_append, List.map_append, ih.sent, movesOf_commit hinv hpre hrun id]
      congr 1
      exact congrArg _ (List.append_nil _)
    · intro id sender move hmem
      rw [sentMoves_append, List.mem_append] at hmem
      have hseat : ∃ row, d.game? id = some row ∧ row.blackUsername.isSome ∧
          seat row move.playerColor = some sender.id := by
        rcases hmem with hmem | hmem
        · exact ih.seats id sender move hmem
        · obtain ⟨_, hout, hmem⟩ := List.mem_flatMap.mp hmem
          rw [List.mem_singleton.mp hout] at hmem
          exact seat_of_sent hpre hrun hmem
      obtain ⟨row, hrow, hsome, hseat⟩ := hseat
      obtain ⟨row', hrow', hstep⟩ := hon id row hrow
      refine ⟨row', hrow', ?_, (seat_onward hstep hsome _).trans hseat⟩
      rw [(hstep.black hsome).2]
      exact hsome
  · intro log d c ih
    have hsame : ∀ id, sentMoves (log ++ [.failed c]) id = sentMoves log id := by
      intro id
      rw [sentMoves_append]
      exact List.append_nil _
    constructor
    · intro id
      rw [hsame]
      exact ih.sent id
    · intro id sender move hmem
      rw [hsame] at hmem
      exact ih.seats id sender move hmem

end Moves

/-- In every committed state each game's moves are one legal game sent by the users in its
seats, and from the moment the game has left `in_progress` no move is added. -/
theorem moves_legal_game {js : ChessJs} {at_ : js.Game → Position → Prop}
    {accounts : List SocketUser} {computeNewRatings : Int → Int → Score → Int × Int}
    (hjs : js.Follows at_)
    {s : System.SessionState Db Change Key Stmt Ans (Call js) (Result js)}
    (hs : ((server js computeNewRatings accounts).sessions (always js)).Reachable s)
    {id : Nat} {row : GameRow} (hrow : s.db.game? id = some row) :
    Logged js at_ s.log s.db row ∧ (row.status ≠ .inProgress → ∀ s',
      ((server js computeNewRatings accounts).sessions (always js)).Steps s s' →
      s'.db.movesOf row.id = s.db.movesOf row.id) := by
  have hkept := System.Protocol.kept (gameProtocol_sound hjs) backend_lawful hs
  have hok := hkept.inv.rows id row hrow
  have hid := Db.id_of_game? hrow
  have hsent := senders_of_trace hjs hkept.trace
  obtain ⟨p, hlegal⟩ := hok.legal
  constructor
  · refine ⟨hlegal.numbers, hlegal.colors, hsent.sent row.id, ?_, hok.legal, hok.board⟩
    intro sender move hmem
    obtain ⟨row', hrow', -, hseat⟩ := hsent.seats row.id sender move hmem
    change s.db.game? row.id = some row' at hrow'
    rw [hid, hrow] at hrow'
    obtain rfl := Option.some.inj hrow'
    exact hseat
  · intro hdone s' hsteps
    obtain ⟨row', -, hon⟩ :=
      System.Protocol.rely_of_steps (gameProtocol_sound hjs) backend_lawful hs hsteps id row hrow
    rw [hid]
    exact (hon.settled hdone).2.2.2

/-- A game with a capture, castling and a promotion. -/
theorem moves_legal_game_promotingGame :
    ∃ s : System.SessionState Db Change Key Stmt Ans (Call reference) (Result reference),
    ∃ row, s.db.game? 1 = some row ∧ (s.db.movesOf row.id).map MoveRow.san =
        ["a4", "Nf6", "a5", "g6", "a6", "Bg7", "axb7", "O-O", "bxa8=Q"] ∧
      Logged reference AtPosition s.log s.db row ∧ ∀ s',
        ((server reference equalRatings [ada, ben]).sessions (always reference)).Steps s s' →
        s'.db.movesOf row.id = s.db.movesOf row.id := by
  obtain ⟨s, hplay, row, hrow, hid, hfin, hmoves⟩ := play_promotingGame
  have hs := play_reachable fresh_twoUsers (by decide) hplay
  have h := moves_legal_game reference_follows hs hrow
  exact ⟨_, row, hrow, hid ▸ hmoves, h.1, h.2 (by rw [hfin]; decide)⟩

end ChessStack.Server
