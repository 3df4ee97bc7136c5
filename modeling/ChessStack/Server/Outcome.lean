import ChessStack.Library.Watched
import ChessStack.Server.GameLog
import ChessStack.Server.Settlement

/-!
# The recorded outcome and the committed moves

Library `Server`. A move and the settlement it leads to are two transactions, and a concession
decides on a snapshot it read before
(`Chess-Backend/src/socket/gameSocket.js:497–534, 563–580, 682–691`). The outcomes of the finished
games match their moves as long as no move overtakes a settlement between its read and its commit
and no concession overtakes the settlement of a move that ended the game; the first settlement that
is overtaken records a wrong outcome.
-/

namespace ChessStack.Server

open ChessStack.Chess ChessStack.Js ChessStack.Library ChessStack.Store

variable {js : ChessJs} {at_ : js.Game → Position → Prop} {accounts : List SocketUser}
  {computeNewRatings : Int → Int → Score → Int × Int} {d d' : Db}

/-- The last persisted position of a game. -/
def LastPosition (js : ChessJs) (d : Db) (id : Nat) (g : js.Game) : Prop :=
  js.load (lastFen (d.movesOf id)) = some g

/-- What a finished game's row and scores say is what its moves say. -/
structure OutcomeMatches (js : ChessJs) (at_ : js.Game → Position → Prop) (d : Db) (row : GameRow) :
    Prop where
  checkmate : ∀ p, LegalGame js at_ (d.movesOf row.id) p → Checkmate p →
    row.result = some .checkmate ∧ row.winnerColor = some p.turn.other
  draw : ∀ g, LastPosition js d row.id g → js.isGameOver g = true → js.isCheckmate g = false →
    row.result = some .draw ∧ row.winnerColor = none
  resign : row.result = some .resign → ∀ g, LastPosition js d row.id g → js.isGameOver g = false
  scores : ∀ score ∈ d.scoresOfGame row.id, score.moves = (d.movesOf row.id).length

/-- Every finished game's outcome matches its moves. -/
def OutcomesMatch (js : ChessJs) (at_ : js.Game → Position → Prop) (d : Db) : Prop :=
  ∀ id row, d.game? id = some row → row.status = .finished → OutcomeMatches js at_ d row

/-- When it committed, the settlement's room had every move of the game, and a concession ended
a game whose position was not over. -/
structure Settlement.Timely (st : Settlement js) : Prop where
  moves : st.room.moves.length = (st.before.movesOf st.room.gameId).length
  resign : st.result = .resign → ∀ g, LastPosition js st.before st.room.gameId g →
    js.isGameOver g = false

/-- Where a settlement came from, and that its game has not moved since. -/
structure Settlement.From (at_ : js.Game → Position → Prop) (accounts : List SocketUser)
    (st : Settlement js) (d : Db) : Prop where
  tables : DbOk js at_ accounts st.before
  room : RoomOk js st.before st.room
  decided : Decided js st.room st.result st.winnerColor
  done : ∃ row, d.game? st.room.gameId = some row ∧ row.status ≠ .inProgress
  moves : d.movesOf st.room.gameId = st.before.movesOf st.room.gameId

/-- A settlement stays where it came from while the tables move on. -/
theorem Settlement.From.onward {st : Settlement js} (h : st.From at_ accounts d)
    (hon : Onward d d') : st.From at_ accounts d' := by
  obtain ⟨row, hrow, hdone⟩ := h.done
  obtain ⟨row', hrow', hstep⟩ := hon _ row hrow
  obtain ⟨hstatus, -, -, hmoves⟩ := hstep.settled hdone
  exact ⟨h.tables, h.room, h.decided, ⟨row', hrow', hstatus ▸ hdone⟩, hmoves.trans h.moves⟩

/-- The settlement a commit is comes from the tables before it. -/
theorem Settlement.From.commit {c : Call js} {value : Result js c} {answered : Bool} {id : Nat}
    {st : Settlement js} (hinv : DbOk js at_ accounts d) (hpre : Pre js accounts c d)
    (hrun : backend.run (prog js computeNewRatings c) d = some (value, d'))
    (hst : st ∈ settlementOf id (.committed c value d d' answered)) : st.From at_ accounts d' := by
  cases c with
  | finalize room result winnerColor now =>
    rw [settlementOf, List.mem_ite_nil_right, List.mem_singleton] at hst
    obtain ⟨⟨hsettled, -⟩, rfl⟩ := hst
    obtain ⟨-, rfl, -⟩ | ⟨row, white, -, black, -, old, old', -, -, -, hs⟩ :=
      finalize_cases hinv hpre.1 hrun
    · cases hsettled
    · refine ⟨hinv, hpre.1, hpre.2, ⟨finishedRow row result winnerColor, ?_, nofun⟩,
        hs.movesOf room.gameId⟩
      rw [hs.game?, if_pos rfl]
  | _ => cases hst

/-- Every settlement of a run is of a game that has not moved since. -/
theorem from_of_trace (hjs : js.Follows at_) {allowed : Call js → Db → Prop} {log : Log js}
    (h : (gameProtocol js at_ accounts).Trace (server js computeNewRatings accounts) allowed log d) :
    ∀ id, ∀ st ∈ settlements log id, st.From at_ accounts d := by
  refine h.rule (J := fun log d ↦ ∀ id, ∀ st ∈ settlements log id, st.From at_ accounts d) ?_ ?_ ?_
  · exact fun _ _ _ _ hst ↦ absurd hst List.not_mem_nil
  · intro log d c value d' answered ih hinv hpre _ hrun id st hst
    rw [settlements_append, settlements_singleton, List.mem_append] at hst
    rcases hst with hst | hst
    · exact (ih id st hst).onward ((gameProtocol_sound hjs).commit c d value d' hinv hpre hrun).2
    · exact .commit hinv hpre hrun hst
  · intro log d c ih id st hst
    rw [settlements_append, settlements_singleton, List.mem_append] at hst
    rcases hst with hst | hst
    · exact ih id st hst
    · cases hst

/-- A room with every move of its game is at the game's last position. -/
theorem Settlement.From.current {st : Settlement js} (h : st.From at_ accounts d)
    (hmoves : st.room.moves.length = (st.before.movesOf st.room.gameId).length) :
    ∃ g, LastPosition js d st.room.gameId g ∧ js.turn g = js.turn st.room.chess ∧
      js.isGameOver g = js.isGameOver st.room.chess ∧
      js.isCheckmate g = js.isCheckmate st.room.chess := by
  obtain ⟨row, hrow, -, -, -, hcurrent⟩ := h.room
  obtain ⟨fen, g, hfen, hload, hg⟩ := hcurrent hmoves
  have hboard := (h.tables.rows _ row hrow).board
  rw [Db.id_of_game? hrow, hfen, Option.some.injEq] at hboard
  refine ⟨g, ?_, hg⟩
  rw [LastPosition, h.moves, ← hboard]
  exact hload

/-- A game has one last position. -/
theorem lastPosition_unique {id : Nat} {g g' : js.Game} (h : LastPosition js d id g)
    (h' : LastPosition js d id g') : g = g' := Option.some.inj (h.symm.trans h')

/-- The last position of a legal game is its end. -/
theorem lastPosition_of_legal (hjs : js.Follows at_) {id : Nat} {p : Position}
    (h : LegalGame js at_ (d.movesOf id) p) : ∃ g, LastPosition js d id g ∧ at_ g p :=
  h.load_last hjs

/-- The outcome a settlement recorded in its room's last position. -/
theorem outcome_of_decided (hjs : js.Follows at_) {st : Settlement js} {row : GameRow} {g : js.Game}
    (hdecided : Decided js st.room st.result st.winnerColor) (hresult : row.result = some st.result)
    (hwinner : row.winnerColor = st.winnerColor) (hg : LastPosition js d row.id g)
    (hturn : js.turn g = js.turn st.room.chess)
    (hmate : js.isCheckmate g = js.isCheckmate st.room.chess)
    (hresign : st.result = .resign → js.isGameOver g = false)
    (hscores : ∀ score ∈ d.scoresOfGame row.id, score.moves = (d.movesOf row.id).length) :
    OutcomeMatches js at_ d row := by
  have hcheck : ∀ p, LegalGame js at_ (d.movesOf row.id) p → Checkmate p →
      js.isCheckmate g = true ∧ js.turn g = p.turn := by
    intro p hlegal hp
    obtain ⟨g', hg', hat⟩ := lastPosition_of_legal hjs hlegal
    obtain rfl := lastPosition_unique hg hg'
    exact ⟨(hjs.checkmate g p hat).mpr hp, hjs.turn g p hat⟩
  rcases hdecided with hconcede | ⟨hend, houtcome⟩
  · have hopen := hresign hconcede
    constructor
    · intro p hlegal hp
      have hclosed := hjs.over_of_checkmate g (hcheck p hlegal hp).1
      rw [hopen] at hclosed
      cases hclosed
    · intro g' hg' hclosed
      rw [← lastPosition_unique hg hg', hopen] at hclosed
      cases hclosed
    · intro _ g' hg'
      rw [← lastPosition_unique hg hg', hopen]
    · exact hscores
  · unfold outcomeOf at houtcome
    constructor
    · intro p hlegal hp
      obtain ⟨hpos, hside⟩ := hcheck p hlegal hp
      rw [← hmate, if_pos hpos, ← hturn, hside] at houtcome
      obtain ⟨hres, hwin⟩ := Prod.mk.inj houtcome
      exact ⟨hresult.trans (congrArg some hres), hwinner.trans hwin⟩
    · intro g' hg' _ hnot
      rw [← lastPosition_unique hg hg'] at hnot
      rw [← hmate, hnot, if_neg Bool.false_ne_true] at houtcome
      obtain ⟨hres, hwin⟩ := Prod.mk.inj houtcome
      exact ⟨hresult.trans (congrArg some hres), hwinner.trans hwin⟩
    · intro hconcede
      rw [hresult, Option.some.injEq] at hconcede
      split at houtcome <;> cases hconcede.symm.trans (Prod.mk.inj houtcome).1
    · exact hscores

/-- The outcome of a finished game matches its moves if and only if its settlement was timely. -/
theorem outcomeMatches_iff_timely (hjs : js.Follows at_)
    {s : System.SessionState Db Change Key Stmt Ans (Call js) (Result js)}
    (hs : ((server js computeNewRatings accounts).sessions (always js)).Reachable s)
    {id : Nat} {row : GameRow} (hrow : s.db.game? id = some row) (hfin : row.status = .finished) :
    OutcomeMatches js at_ s.db row ↔ ∀ st ∈ settlements s.log id, st.Timely := by
  have hkept := System.Protocol.kept (gameProtocol_sound hjs) backend_lawful hs
  have hid := Db.id_of_game? hrow
  subst hid
  obtain ⟨st, hst, hresult, hwinner, hscores, white, hwhite, black, hblack, hseats, hgame, hzero,
    happ⟩ := (account_of_trace hjs hkept.trace).settled _ row hrow hfin
  have hscores : s.db.scoresOfGame row.id =
      [st.room.score st.winnerColor st.now (white.player .w) white.id,
        st.room.score st.winnerColor st.now (black.player .b) black.id] := by
    have hafter := happ.scores
    rw [hgame, hzero, List.nil_append] at hafter
    exact hscores.trans hafter
  have hfrom := from_of_trace hjs hkept.trace row.id st (hst ▸ List.mem_singleton_self st)
  have hmoves : (s.db.movesOf row.id).length = (st.before.movesOf st.room.gameId).length := by
    rw [← hgame]
    exact congrArg List.length hfrom.moves
  rw [show settlements s.log row.id = [st] from hst, List.forall_mem_singleton]
  constructor
  · intro hok
    constructor
    · rw [← hmoves]
      exact hok.scores _ (hscores ▸ List.mem_cons_self)
    · intro hconcede g hg
      refine hok.resign (hresult.trans (congrArg some hconcede)) g ?_
      rw [LastPosition, ← hgame]
      rw [LastPosition, ← hfrom.moves] at hg
      exact hg
  · intro htimely
    obtain ⟨g, hg, hturn, -, hmate⟩ := hfrom.current htimely.moves
    refine outcome_of_decided hjs hfrom.decided hresult hwinner (hgame ▸ hg) hturn hmate ?_ ?_
    · intro hconcede
      refine htimely.resign hconcede g ?_
      rw [LastPosition, ← hfrom.moves]
      exact hg
    · intro score hscore
      rw [hscores] at hscore
      rw [hmoves, ← htimely.moves]
      simp only [List.mem_cons, List.not_mem_nil, or_false] at hscore
      rcases hscore with rfl | rfl <;> rfl

/-- All outcomes match if and only if all settlements were timely. -/
theorem outcomesMatch_iff_timely (hjs : js.Follows at_)
    {s : System.SessionState Db Change Key Stmt Ans (Call js) (Result js)}
    (hs : ((server js computeNewRatings accounts).sessions (always js)).Reachable s) :
    OutcomesMatch js at_ s.db ↔ ∀ id, ∀ st ∈ settlements s.log id, st.Timely := by
  have hkept := System.Protocol.kept (gameProtocol_sound hjs) backend_lawful hs
  have haccount := account_of_trace hjs hkept.trace
  constructor
  · intro hall id st hst
    have hsome : settlements s.log id ≠ [] := List.ne_nil_of_mem hst
    cases hrow : s.db.game? id with
    | none => exact absurd (haccount.missing id hrow) hsome
    | some row =>
      have hfin : row.status = .finished := by
        by_contra hne
        exact hsome (haccount.unsettled id row hrow hne)
      exact (outcomeMatches_iff_timely hjs hs hrow hfin).mp (hall id row hrow hfin) st hst
  · intro htimely id row hrow hfin
    exact (outcomeMatches_iff_timely hjs hs hrow hfin).mpr (htimely id)

/-! ### What a settlement has missed -/

/-- What a finalization knows of its game: its room has the moves of the game, but for those its
task has missed. -/
def Knows : Call js → Db → Log js → Prop
  | .finalize room _ _ _, d, missed =>
    room.moves.length + (sentMoves missed room.gameId).length = (d.movesOf room.gameId).length
  | _, _, _ => True

/-- The moves that others have stored meanwhile. -/
theorem length_movesOf_passed {outs : Log js} (h : System.Passed
    (server js computeNewRatings accounts) (gameProtocol js at_ accounts) d outs d') (id : Nat) :
    (d'.movesOf id).length = (d.movesOf id).length + (sentMoves outs id).length := by
  induction h with
  | refl => rfl
  | @commit outs d' d'' c value answered _ hinv hpre hrun ih =>
    rw [@movesOf_commit _ _ _ _ _ _ _ _ answered hinv hpre hrun id, sentMoves_append,
      List.length_append, List.length_append, ih, List.length_map, Nat.add_assoc]
    exact congrArg (fun n ↦ _ + (_ + n)) (congrArg List.length (List.append_nil _)).symm
  | failed _ ih =>
    rw [sentMoves_append, List.length_append, ih]
    rfl

section Tasks

variable {roomId : String} {user : SocketUser}

/-- A refresh leaves the rest of its task a room with all moves of its game. -/
theorem refreshed_aware {next : Room js → GameTask js}
    (h : ∀ d row live, DbOk js at_ accounts d → Live js d row live →
      System.Aware (server js computeNewRatings accounts) (gameProtocol js at_ accounts) Knows
        (next live) d []) (d : Db) (missed : Log js) :
    System.Aware (server js computeNewRatings accounts) (gameProtocol js at_ accounts) Knows
      (refreshed js roomId next) d missed := by
  intro d' hinv
  dsimp only
  split
  · trivial
  · next snapshot hsnap =>
    split
    · split
      · exact ⟨trivial, fun _ _ _ _ _ _ _ _ ↦ trivial⟩
      · next live hlive =>
        obtain ⟨row, hrow⟩ := live_of_snapshot hinv hsnap hlive
        exact h d' row live hinv hrow
    · trivial

/-- A room just read has all moves of its game. -/
theorem Live.knows {row : GameRow} {live : Room js} (h : Live js d row live) (result : GameResult)
    (winnerColor : Option Color) (now : Nat) : Knows (.finalize live result winnerColor now) d [] :=
  h.moves

/-- The room of a move's own settlement has the move. -/
theorem makeMove_aware (requested : Option Json) (now : Nat) (missed : Log js) :
    System.Aware (server js computeNewRatings accounts) (gameProtocol js at_ accounts) Knows
      (makeMove js roomId user requested now) d missed := by
  refine refreshed_aware (fun d row live hinv hlive ↦ ?_) d missed
  split
  · trivial
  · split
    · trivial
    · split
      · trivial
      · refine ⟨trivial, fun outs d₁ value d₂ hpassed _ _ hrun ↦ ?_⟩
        obtain ⟨rfl, -⟩ | ⟨row₁, chess, persisted, rfl, hs⟩ := persistMoveAtomic_run hrun
        · trivial
        · dsimp only
          split
          · refine ⟨?_, fun _ _ _ _ _ _ _ _ ↦ trivial⟩
            have hmissed := length_movesOf_passed hpassed live.gameId
            have hlen := hlive.moves
            simp only [Knows, hs.movesOf, if_true, List.length_append, List.length_singleton,
              List.nil_append]
            omega
          · trivial

/-- Every task of a client finalizes a room whose moves it has read. -/
theorem told_knows (at_ : js.Game → Position → Prop) :
    System.Told (server js computeNewRatings accounts) (gameProtocol js at_ accounts) Knows where
  stable c d missed outs d' h hpassed := by
    cases c with
    | finalize room result winnerColor now =>
      have hmissed := length_movesOf_passed hpassed room.gameId
      simp only [Knows, sentMoves_append, List.length_append] at h ⊢
      omega
    | _ => trivial
  spawn t ht d missed hinv := by
    cases ht with
    | createRoom _ => exact ⟨trivial, fun _ _ _ _ _ _ _ _ ↦ trivial⟩
    | joinRoom _ =>
      refine refreshed_aware (fun d row live _ _ ↦ ?_) d missed
      split
      · trivial
      · split
        · trivial
        · exact ⟨trivial, fun _ _ _ _ _ _ _ _ ↦ trivial⟩
    | makeMove _ => exact makeMove_aware _ _ missed
    | gameOver _ =>
      refine refreshed_aware (fun d row live _ hlive ↦ ?_) d missed
      split
      · trivial
      · split
        · trivial
        · split
          · trivial
          · exact ⟨hlive.knows _ _ _, fun _ _ _ _ _ _ _ _ ↦ trivial⟩
    | concede _ =>
      refine refreshed_aware (fun d row live _ hlive ↦ ?_) d missed
      split
      · trivial
      · split
        · trivial
        · exact ⟨hlive.knows _ _ _, fun _ _ _ _ _ _ _ _ ↦ trivial⟩
    | acceptRematch _ =>
      refine refreshed_aware (fun d row live _ _ ↦ ?_) d missed
      split
      · trivial
      · split
        · trivial
        · dsimp only
          split
          · exact ⟨trivial, fun _ _ _ _ _ _ _ _ ↦ trivial⟩
          · trivial
    | abandonMany => exact ⟨trivial, fun _ _ _ _ _ _ _ _ ↦ trivial⟩

end Tasks

/-! ### Moves that end the game -/

/-- Whether the move of a game that an outcome stored ended the game. -/
def endingOf (gameId : Nat) : Outcome Db (Call js) (Result js) → List Bool
  | .committed (.persistMove id _ _ _) (some persisted) _ _ _ =>
    if id = gameId then [js.isGameOver persisted.chess] else []
  | _ => []

/-- Of the stored moves of a game, in the order of their commits, whether they ended it. -/
def endings (log : Log js) (gameId : Nat) : List Bool := log.flatMap (endingOf gameId)

/-- The last move stored has ended the game if and only if the last position is over. -/
def EndsAt (js : ChessJs) (log : Log js) (d : Db) : Prop := ∀ id g, LastPosition js d id g →
  ((endings log id).getLast? = some true ↔ js.isGameOver g = true)

/-- A commit keeps track of the moves that end games. -/
theorem EndsAt.commit (hjs : js.Follows at_) {log : Log js} {c : Call js} {value : Result js c}
    {answered : Bool} (h : EndsAt js log d) (hinv : DbOk js at_ accounts d)
    (hpre : Pre js accounts c d)
    (hrun : backend.run (prog js computeNewRatings c) d = some (value, d')) :
    EndsAt js (log ++ [.committed c value d d' answered]) d' := by
  intro id g hg
  have hmoves := @movesOf_commit _ _ _ _ _ _ _ _ answered hinv hpre hrun id
  have hlog : endings (log ++ [.committed c value d d' answered]) id =
      endings log id ++ endingOf id (.committed c value d d' answered) := by
    rw [endings, List.flatMap_append]
    exact congrArg (_ ++ ·) (List.append_nil _)
  rw [hlog]
  -- a commit that stores no move of the game leaves its last position
  have hother : endingOf id (.committed c value d d' answered) = [] →
      sentBy id (.committed c value d d' answered) = [] →
      ((endings log id ++ endingOf id (.committed c value d d' answered)).getLast? = some true ↔
        js.isGameOver g = true) := by
    intro hending hsent
    rw [hsent, List.map_nil, List.append_nil] at hmoves
    rw [hending, List.append_nil]
    rw [LastPosition, hmoves] at hg
    exact h id g hg
  cases c with
  | persistMove gameId sender player requested =>
    obtain ⟨rfl, -⟩ | ⟨row, chess, persisted, rfl, hs⟩ := persistMoveAtomic_run hrun
    · exact hother rfl rfl
    · by_cases hid : gameId = id
      · subst hid
        obtain ⟨p, hlegal⟩ := (hinv.rows _ row hs.found).legal
        have hloaded := hs.loaded
        rw [(hinv.rows _ row hs.found).board, ChessJs.loadOr, if_neg hlegal.lastFen_ne] at hloaded
        rw [LastPosition, hs.movesOf, if_pos rfl, lastFen_append, hs.record] at hg
        rw [endingOf, if_pos rfl, List.getLast?_concat, Option.some.injEq,
          hjs.over_reloaded _ _ _ _ _ _ hloaded hs.moved hg]
      · exact hother (if_neg hid) (if_neg hid)
  | _ => exact hother rfl rfl

/-- The log of every run tells which games have been moved to their end. -/
theorem endsAt_of_trace (hjs : js.Follows at_) {allowed : Call js → Db → Prop} {log : Log js}
    (h : (gameProtocol js at_ accounts).Trace (server js computeNewRatings accounts) allowed log d) :
    EndsAt js log d := by
  refine h.rule (J := EndsAt js) ?_ ?_ ?_
  · intro d hd id g hg
    obtain ⟨g₀, hstart, -, hopen⟩ := hjs.load_start
    have hnone : d.movesOf id = [] := by
      unfold Db.movesOf
      rw [hd.moves]
      rfl
    rw [LastPosition, hnone] at hg
    obtain rfl := Option.some.inj (hstart.symm.trans hg)
    rw [hopen]
    exact iff_of_false nofun Bool.false_ne_true
  · intro log d c value d' answered ih hinv hpre _ hrun
    exact ih.commit hjs hinv hpre hrun
  · intro log d c ih id g hg
    have hsame : endings (log ++ [Outcome.failed c]) id = endings log id := by
      rw [endings, List.flatMap_append]
      exact List.append_nil _
    rw [hsame]
    exact ih id g hg

/-! ### Settlements in time -/

/-- A finalization of a game in progress commits in time: no other task has committed a move of the
game since the finalizing task read its room, and a concession does not come after a move that
ended the game. -/
def InTime (p : System.AtomicState Db (Call js) (Result js) × System.Missed Db (Call js) (Result js)) :
    System.Watch Db (Call js) (Result js) → Prop
  | (i, [.committed (.finalize room result _ _) _ _ _ _]) =>
    (p.1.db.game? room.gameId).any (·.status == .inProgress) = true →
      sentMoves (p.2 i) room.gameId = [] ∧
        (result = .resign → (endings p.1.log room.gameId).getLast? ≠ some true)
  | _ => True

/-- Whether a step is in time is read off the tables and what its task has missed. -/
instance (p : System.AtomicState Db (Call js) (Result js) × System.Missed Db (Call js) (Result js))
    (l : System.Watch Db (Call js) (Result js)) : Decidable (InTime p l) := by
  unfold InTime
  split <;> infer_instance

/-- A finalization that settles its game is timely exactly when it commits in time. -/
theorem timely_iff (hjs : js.Follows at_) {log missed : Log js} (st : Settlement js)
    (hinv : DbOk js at_ accounts st.before) (hroom : RoomOk js st.before st.room)
    (hends : EndsAt js log st.before)
    (hknows : Knows (.finalize st.room st.result st.winnerColor st.now) st.before missed) :
    st.Timely ↔ sentMoves missed st.room.gameId = [] ∧
      (st.result = .resign → (endings log st.room.gameId).getLast? ≠ some true) := by
  obtain ⟨row, hrow, -⟩ := hroom
  obtain ⟨p, hlegal⟩ := (hinv.rows _ row hrow).legal
  rw [Db.id_of_game? hrow] at hlegal
  obtain ⟨g, hg, -⟩ := lastPosition_of_legal hjs hlegal
  have hover := hends _ g hg
  change _ + _ = _ at hknows
  constructor
  · intro h
    constructor
    · have hlen := h.moves
      exact List.length_eq_zero_iff.mp (by omega)
    · intro hconcede hlast
      have hopen := h.resign hconcede g hg
      rw [hover.mp hlast] at hopen
      cases hopen
  · rintro ⟨hmissed, hconcede⟩
    constructor
    · rw [hmissed, List.length_nil, Nat.add_zero] at hknows
      exact hknows
    · intro hresign g' hg'
      rw [lastPosition_unique hg' hg]
      exact Bool.eq_false_iff.mpr fun hclosed ↦ hconcede hresign (hover.mpr hclosed)

/-- The settlements of a watched step are timely if and only if the step is in time. -/
theorem inTime_iff (hjs : js.Follows at_)
    {p p' : System.SessionState Db Change Key Stmt Ans (Call js) (Result js) ×
      System.Missed Db (Call js) (Result js)} {l : System.Watch Db (Call js) (Result js)}
    (h : System.WatchedOk (server js computeNewRatings accounts) (always js)
      (gameProtocol js at_ accounts) Knows p)
    (hst : ((server js computeNewRatings accounts).watched (always js)).step p l p') :
    InTime (p.1.settled, p.2) l ↔ ∀ id, ∀ st ∈ settlements l.2 id, st.Timely := by
  obtain ⟨hbrings, -⟩ := h.step (gameProtocol_sound hjs) backend_lawful (told_knows at_) hst
  obtain ⟨i, outs⟩ := l
  generalize p'.1.db = d' at hbrings
  cases hbrings with
  | nothing => exact iff_of_true trivial fun _ _ hst ↦ absurd hst List.not_mem_nil
  | failed => exact iff_of_true trivial fun _ _ hst ↦ absurd hst List.not_mem_nil
  | @committed c next value after answered hi hinv hpre hrun =>
    cases c with
    | finalize room result winnerColor now =>
      have hknows := h.aware i
      rw [show (p.1.slots i).task = _ from hi] at hknows
      obtain ⟨hsettles, rfl, -⟩ | ⟨row, white, -, black, -, old, old', -, -, -, hs⟩ :=
        finalize_cases hinv hpre.1 hrun
      · refine iff_of_true (fun hactive ↦ ?_) fun id st hst ↦ ?_
        · obtain ⟨row, hrow, hactive⟩ := (Option.any_eq_true _ _).mp hactive
          exact absurd (beq_iff_eq.mp hactive) (hsettles row hrow)
        · rw [settlements_singleton] at hst
          exact absurd hst List.not_mem_nil
      · have hactive : (p.1.settled.db.game? room.gameId).any (·.status == .inProgress) = true := by
          rw [hs.found, Option.any_some, hs.active]
          rfl
        have htimely := timely_iff hjs ⟨room, result, winnerColor, now, value.eloChange,
          p.1.settled.db, d'⟩ hinv hpre.1 (endsAt_of_trace hjs h.kept.trace) hknows.1
        rw [InTime, forall_prop_of_true hactive]
        refine htimely.symm.trans ⟨fun htimely id st hst ↦ ?_, fun hall ↦ hall room.gameId _ ?_⟩
        · rw [settlements_singleton, settlementOf, List.mem_ite_nil_right, List.mem_singleton] at hst
          exact hst.2 ▸ htimely
        · rw [settlements_singleton, settlementOf, hs.value, if_pos ⟨rfl, rfl⟩]
          exact List.mem_singleton_self _
    | _ => exact iff_of_true trivial fun _ _ hst ↦ absurd hst List.not_mem_nil

/-- As long as every settlement commits in time, the outcomes of the finished games match their
moves in every state of a run; and the first settlement that does not makes an outcome that does
not match. -/
theorem outcome_matches_iff (hjs : js.Follows at_)
    {p : System.SessionState Db Change Key Stmt Ans (Call js) (Result js) ×
      System.Missed Db (Call js) (Result js)}
    (hp : ((server js computeNewRatings accounts).guarded (always js) InTime).Reachable p) :
    OutcomesMatch js at_ p.1.db ∧
    ∀ l p', ((server js computeNewRatings accounts).watched (always js)).step p l p' →
      (OutcomesMatch js at_ p'.1.db ↔ InTime (p.1.settled, p.2) l) := by
  -- a step in time, and no other, keeps the settlements timely
  have hnext : ∀ p l p', System.WatchedOk (server js computeNewRatings accounts) (always js)
      (gameProtocol js at_ accounts) Knows p →
      ((server js computeNewRatings accounts).watched (always js)).step p l p' →
      OutcomesMatch js at_ p.1.db →
      (OutcomesMatch js at_ p'.1.db ↔ InTime (p.1.settled, p.2) l) := by
    intro p l p' hok hst hmatch
    have hok' := (hok.step (gameProtocol_sound hjs) backend_lawful (told_knows at_) hst).2
    rw [outcomesMatch_iff_timely hjs hok'.reachable, inTime_iff hjs hok hst]
    have hbefore := (outcomesMatch_iff_timely hjs hok.reachable).mp hmatch
    have hlog : ∀ id, settlements p'.1.log id = settlements p.1.log id ++ settlements l.2 id :=
      fun id ↦ (congrArg (settlements · id) hst.2.1).trans (settlements_append _ _ id)
    constructor
    · intro hall id st hmem
      exact hall id st (hlog id ▸ List.mem_append_right _ hmem)
    · intro hall id st hmem
      rw [hlog, List.mem_append] at hmem
      exact hmem.elim (hbefore id st) (hall id st)
  have hok := System.watched_ok (gameProtocol_sound hjs) backend_lawful
    (told_knows at_) (Machine.Reachable.of_restrict hp)
  suffices hmatch : OutcomesMatch js at_ p.1.db from
    ⟨hmatch, fun l p' hst ↦ hnext p l p' hok hst hmatch⟩
  clear hok
  induction hp with
  | @init p h0 =>
    intro id row hrow
    have hempty : p.1.db.games.rows = [] := h0.1.1.games
    have hmem := List.mem_of_find?_eq_some hrow
    rw [hempty] at hmem
    cases hmem
  | @step p p' l hreach hst ih =>
    have hok := System.watched_ok (gameProtocol_sound hjs) backend_lawful
      (told_knows at_) (Machine.Reachable.of_restrict hreach)
    exact (hnext p l p' hok hst.2 ih).mpr hst.1

/-- Two moves, and both players resign at once: Black's resignation settles the game. -/
def racingResignations : List Line :=
  opening ++ moveLines 2 ada "e2" "e4" ++ moveLines 3 ben "e7" "e5" ++
    [Line.start 4 (.concede "ABCDEFG" ben 60000), .start 5 (.concede "ABCDEFG" ada 60000), .go 4,
      .go 5, .go 4, .go 5]

/-- Two resignations race, and the outcome matches. -/
theorem outcome_matches_iff_racing :
    ∃ p : System.SessionState Db Change Key Stmt Ans (Call reference) (Result reference) ×
      System.Missed Db (Call reference) (Result reference), ∃ row,
      ((server reference equalRatings [ada, ben]).sessions (always reference)).Reachable p.1 ∧
      p.1.db.game? 1 = some row ∧ row.status = .finished ∧
      OutcomeMatches reference AtPosition p.1.db row := by
  have hrun : ((racingResignations.map (Line.action reference)).foldlM
      ((server reference equalRatings [ada, ben]).watch fun p l ↦ decide (InTime p l))
      (⟨twoUsers, fun _ ↦ .done, []⟩, fun _ ↦ [])).any (fun p ↦
      (p.1.db.game? 1).any fun row ↦ row.status == .finished) = true := by
    decide +kernel
  obtain ⟨p, hplay, hfacts⟩ := (Option.any_eq_true _ _).mp hrun
  obtain ⟨row, hrow, hfin⟩ := (Option.any_eq_true _ _).mp hfacts
  have hlines : ∀ line ∈ racingResignations, line.From [ada, ben] := by decide
  have hp : ((server reference equalRatings [ada, ben]).guarded (always reference) InTime).Reachable
      (p.1.resting Change Key Stmt Ans, p.2) := System.watch_reachable
    (p := (⟨twoUsers, fun _ ↦ .done, []⟩, fun _ ↦ [])) (fun _ _ ↦ trivial) (fun _ _ ↦ trivial)
    (fun _ _ h ↦ of_decide_eq_true h) (.init ⟨⟨fresh_twoUsers, rfl, fun _ ↦ rfl⟩, rfl⟩)
    (fun action haction ↦ by
      obtain ⟨line, hline, rfl⟩ := List.mem_map.mp haction
      exact action_of (hlines line hline)) hplay
  exact ⟨_, row, System.reachable_of_watched (Machine.Reachable.of_restrict hp), hrow,
    beq_iff_eq.mp hfin, (outcome_matches_iff reference_follows hp).1 1 row hrow (beq_iff_eq.mp hfin)⟩

/-- White's resignation has read the room after the first move; on another replica Black moves
before it is settled. -/
def staleResignation : List Line :=
  opening ++ moveLines 2 ada "f2" "f3" ++ [Line.start 3 (.concede "ABCDEFG" ada 60000), .go 3] ++
    moveLines 4 ben "e7" "e5" ++ [Line.go 3]

/-- After `staleResignation` both scores say one move, and the game has two. -/
theorem not_matches_staleResignation :
    ∃ s : System.SessionState Db Change Key Stmt Ans (Call reference) (Result reference),
    ((server reference equalRatings [ada, ben]).sessions (always reference)).Reachable s ∧
    ∃ row, s.db.game? 1 = some row ∧ row.status = .finished ∧
      ¬ OutcomeMatches reference AtPosition s.db row := by
  have hrun : (play reference equalRatings [ada, ben] twoUsers staleResignation).any (fun s ↦
      (s.db.game? 1).any fun row ↦ row.status == .finished &&
        (s.db.scoresOfGame row.id).any fun score ↦
          score.moves != (s.db.movesOf row.id).length) = true := by
    decide +kernel
  obtain ⟨s, hplay, hfacts⟩ := Option.any_eq_true _ _ |>.mp hrun
  obtain ⟨row, hrow, hfacts⟩ := Option.any_eq_true _ _ |>.mp hfacts
  rw [Bool.and_eq_true, beq_iff_eq, List.any_eq_true] at hfacts
  obtain ⟨hfin, score, hscore, hne⟩ := hfacts
  refine ⟨_, play_reachable fresh_twoUsers (by decide) hplay, row, hrow, hfin, ?_⟩
  intro hok
  exact bne_iff_ne.mp hne (hok.scores score hscore)

end ChessStack.Server
