import ChessStack.Server.Follow
import ChessStack.Server.Script

/-!
# A game is settled once

Library `Server`. Any number of `finalizeGameAtomic` calls, from any task on any replica and with
any results, race for a game (`Chess-Backend/src/socket/gameSocket.js`). At most one of them
settles it; ratings, scores and result all come from that one, and every other call changes
nothing and answers so.
-/

namespace ChessStack.Server

open ChessStack.Chess ChessStack.Js ChessStack.Library ChessStack.Store

/-- A committed call that settled a game, with the tables before and after. -/
structure Settlement (js : ChessJs) where
  room : Room js
  result : GameResult
  winnerColor : Option Color
  now : Nat
  eloChange : Option EloChange
  before : Db
  after : Db

/-- The settlement of a game an outcome is. -/
def settlementOf {js : ChessJs} (gameId : Nat) :
    Outcome Db (Call js) (Result js) → List (Settlement js)
  | .committed (.finalize room result winnerColor now) value before after _ =>
    if value.settled ∧ room.gameId = gameId then
      [⟨room, result, winnerColor, now, value.eloChange, before, after⟩]
    else []
  | _ => []

/-- The settlements of a game among the outcomes of a run. -/
def settlements {js : ChessJs} (log : Log js) (gameId : Nat) : List (Settlement js) :=
  log.flatMap (settlementOf gameId)

/-- The game's row left `in_progress` with this outcome. -/
def leaves {js : ChessJs} (gameId : Nat) : Outcome Db (Call js) (Result js) → Bool
  | .committed _ _ before after _ =>
    (before.game? gameId).any (·.status == .inProgress) &&
      (after.game? gameId).any (·.status != .inProgress)
  | .failed _ => false

/-- The settlement took the game of two accounts from `in_progress` to its own result, set the
ratings of both from their ratings at that moment, and gave the game its two scores. -/
structure Settlement.Applied {js : ChessJs} (computeNewRatings : Int → Int → Score → Int × Int)
    (st : Settlement js) (white black : SocketUser) : Prop where
  game : ∃ row, st.before.game? st.room.gameId = some row ∧ row.status = .inProgress ∧
    Seats row white black ∧
    st.after.game? st.room.gameId = some (finishedRow row st.result st.winnerColor)
  ratings : ∃ old old', st.before.user? white.id = some old ∧ st.before.user? black.id = some old' ∧
    st.after.user? white.id = some { old with eloRating :=
      (computeNewRatings old.eloRating old'.eloRating (whiteScore st.winnerColor)).1 } ∧
    st.after.user? black.id = some { old' with eloRating :=
      (computeNewRatings old.eloRating old'.eloRating (whiteScore st.winnerColor)).2 } ∧
    st.eloChange = some
      ⟨⟨some white.username, old.eloRating,
        (computeNewRatings old.eloRating old'.eloRating (whiteScore st.winnerColor)).1⟩,
      ⟨some black.username, old'.eloRating,
        (computeNewRatings old.eloRating old'.eloRating (whiteScore st.winnerColor)).2⟩⟩
  others : ∀ id, id ≠ white.id → id ≠ black.id → st.after.user? id = st.before.user? id
  scores : st.after.scoresOfGame st.room.gameId = st.before.scoresOfGame st.room.gameId ++
    [st.room.score st.winnerColor st.now (white.player .w) white.id,
      st.room.score st.winnerColor st.now (black.player .b) black.id]

section Commits

variable {js : ChessJs} {at_ : js.Game → Position → Prop} {accounts : List SocketUser}
  {computeNewRatings : Int → Int → Score → Int × Int} {d d' : Db}

/-- A commit that settles no game: no rating or score changes, and no game becomes finished. -/
structure Quiet (d d' : Db) (out : Outcome Db (Call js) (Result js)) : Prop where
  settlement : ∀ id, settlementOf id out = []
  users : ∀ id, d'.user? id = d.user? id
  scores : d'.scores = d.scores
  finished : ∀ id row, d'.game? id = some row → row.status = .finished →
    ∃ old, d.game? id = some old ∧ old.status = .finished

/-- A commit that settles a game: this one and no other. -/
structure Settling (accounts : List SocketUser)
    (computeNewRatings : Int → Int → Score → Int × Int) (d d' : Db)
    (out : Outcome Db (Call js) (Result js)) (st : Settlement js) : Prop where
  before : st.before = d
  after : st.after = d'
  settlement : ∀ id, settlementOf id out = if st.room.gameId = id then [st] else []
  applied : ∃ white ∈ accounts, ∃ black ∈ accounts, st.Applied computeNewRatings white black
  games : ∀ id, id ≠ st.room.gameId → d'.game? id = d.game? id
  scores : ∀ id, id ≠ st.room.gameId → d'.scoresOfGame id = d.scoresOfGame id

private theorem finished_putGame {row : GameRow} (hrow : row.status = .finished → ∃ old,
    d.game? row.id = some old ∧ old.status = .finished) (id : Nat) (new : GameRow)
    (h : (d.apply (.putGame row)).game? id = some new) (hnew : new.status = .finished) :
    ∃ old, d.game? id = some old ∧ old.status = .finished := by
  rw [Db.game?_apply, Change.game] at h
  split at h
  · next heq =>
    obtain rfl := Option.some.inj h
    exact heq ▸ hrow hnew
  · exact ⟨new, h, hnew⟩

/-- A new row version that is not finished makes a quiet commit. -/
theorem quiet_putGame {row : GameRow} {out : Outcome Db (Call js) (Result js)}
    (hrow : row.status ≠ .finished) (hout : ∀ id, settlementOf id out = []) :
    Quiet d (d.apply (.putGame row)) out where
  settlement := hout
  users _ := rfl
  scores := rfl
  finished := finished_putGame fun h ↦ absurd h hrow

private theorem quiet_refl {out : Outcome Db (Call js) (Result js)}
    (hout : ∀ id, settlementOf id out = []) : Quiet d d out where
  settlement := hout
  users _ := rfl
  scores := rfl
  finished _ row hrow hfin := ⟨row, hrow, hfin⟩

/-- The settlement of a finalization that settled. -/
theorem settling_finalize {room : Room js} {result : GameResult} {winnerColor : Option Color}
    {now : Nat} {value : Finalized} {answered : Bool} {row : GameRow} {white black : SocketUser}
    {old old' : UserRow} (hwhite : white ∈ accounts) (hblack : black ∈ accounts)
    (hseats : Seats row white black) (hold : old.id = white.id) (hold' : old'.id = black.id)
    (hs : Settles computeNewRatings room result winnerColor now d row (white.player .w)
      (black.player .b) old old' value d') :
    Settling accounts computeNewRatings d d'
      (.committed (.finalize room result winnerColor now) value d d' answered)
      ⟨room, result, winnerColor, now, value.eloChange, d, d'⟩ where
  before := rfl
  after := rfl
  settlement id := by
    change (if value.settled = true ∧ room.gameId = id then _ else _) = _
    rw [hs.value]
    simp only [true_and]
  applied := by
    refine ⟨white, hwhite, black, hblack, ?_, ?_, ?_, ?_⟩
    · refine ⟨row, hs.found, hs.active, hseats, ?_⟩
      dsimp only
      rw [hs.game?, if_pos rfl]
    · refine ⟨old, old', hold ▸ hs.whiteFound, hold' ▸ hs.blackFound, ?_, ?_, ?_⟩
      · dsimp only
        rw [hs.user?, ← hold, hs.whiteFound, Option.map_some]
        simp only [Change.user, if_true, hs.distinct, if_false]
      · dsimp only
        rw [hs.user?, ← hold', hs.blackFound, Option.map_some]
        simp only [Change.user, if_true, hs.distinct.symm, if_false]
      · dsimp only
        rw [hs.value]
        rfl
    · intro id hid hid'
      dsimp only
      rw [hs.user?]
      cases huser : d.user? id with
      | none => rfl
      | some user =>
        have hkey := Db.id_of_user? huser
        rw [Option.map_some]
        simp only [Change.user, hkey, hold, hold', hid, hid', if_false]
    · dsimp only
      rw [hs.scoresOfGame, if_pos rfl, hold, hold']
  games id hid := by
    rw [hs.game?, if_neg hid]
  scores id hid := by
    rw [hs.scoresOfGame, if_neg hid, List.append_nil]

/-- Every commit is quiet or settles one game. -/
theorem commit_quiet_or_settling {c : Call js} {value : Result js c} {answered : Bool}
    (hinv : DbOk js at_ accounts d) (hpre : Pre js accounts c d)
    (hrun : backend.run (prog js computeNewRatings c) d = some (value, d')) :
    Quiet d d' (.committed c value d d' answered) ∨ ∃ st,
      Settling accounts computeNewRatings d d' (.committed c value d d' answered) st := by
  cases c with
  | create newId roomId user now =>
    obtain ⟨-, -, rfl, rfl⟩ := create_run hrun
    exact Or.inl (quiet_putGame nofun fun _ ↦ rfl)
  | claimBlack gameId user =>
    obtain ⟨-, rfl, -⟩ | ⟨row, -, hactive, -, -, rfl⟩ := claimBlack_run hrun
    · exact Or.inl (quiet_refl fun _ ↦ rfl)
    · refine Or.inl (quiet_putGame ?_ fun _ ↦ rfl)
      rw [hactive]
      decide
  | persistMove gameId sender player requested =>
    obtain ⟨rfl, rfl⟩ | ⟨row, chess, persisted, rfl, hs⟩ := persistMoveAtomic_run hrun
    · exact Or.inl (quiet_refl fun _ ↦ rfl)
    · refine Or.inl ⟨fun _ ↦ rfl, ?_, ?_, ?_⟩
      · intro id
        rw [hs.after]
        rfl
      · rw [hs.after]
        rfl
      · intro id new hnew hfin
        rw [hs.game?] at hnew
        split at hnew
        · obtain rfl := Option.some.inj hnew
          exact absurd (hs.active.symm.trans hfin) (by decide)
        · exact ⟨new, hnew, hfin⟩
  | finalize room result winnerColor now =>
    obtain ⟨-, rfl, rfl⟩ | ⟨row, white, hwhite, black, hblack, old, old', hseats, hold, hold', hs⟩ :=
      finalize_cases hinv hpre.1 hrun
    · exact Or.inl (quiet_refl fun _ ↦ rfl)
    · exact Or.inr ⟨_, settling_finalize hwhite hblack hseats hold hold' hs⟩
  | rematch gameId roomId white black newId now =>
    obtain ⟨old, new, hnew, -⟩ := rematch_run hrun
    refine Or.inl ⟨fun _ ↦ rfl, ?_, ?_, ?_⟩
    · intro id
      rw [hnew.after]
      rfl
    · rw [hnew.after]
      rfl
    · intro id row hrow hfin
      rw [hnew.after] at hrow
      have hactive : new.status ≠ .finished := by
        rw [hnew.created]
        exact nofun
      obtain ⟨row₁, hrow₁, hfin₁⟩ :=
        finished_putGame (fun h ↦ absurd h hactive) id row hrow hfin
      obtain ⟨row₂, hrow₂, hfin₂⟩ :=
        finished_putGame (by exact fun h ↦ absurd h hactive) id row₁ hrow₁ hfin₁
      refine finished_putGame (fun _ ↦ ⟨old, ?_, hnew.finished⟩) id row₂ hrow₂ hfin₂
      exact (Db.id_of_game? hnew.found).symm ▸ hnew.found
  | abandonMany gameId =>
    obtain rfl | ⟨row, -, -, rfl⟩ := abandonMany_run hrun
    · exact Or.inl (quiet_refl fun _ ↦ rfl)
    · exact Or.inl (quiet_putGame nofun fun _ ↦ rfl)

/-! ### Over a whole run -/

/-- What the outcomes of a run say of its games: a game is settled when and only when it is
finished, once, and then its row and its scores are those of the settlement. -/
structure Account (accounts : List SocketUser)
    (computeNewRatings : Int → Int → Score → Int × Int) (log : Log js) (d : Db) : Prop where
  missing : ∀ id, d.game? id = none → settlements log id = []
  unsettled : ∀ id row, d.game? id = some row → row.status ≠ .finished → settlements log id = []
  settled : ∀ id row, d.game? id = some row → row.status = .finished →
    ∃ st, settlements log id = [st] ∧ row.result = some st.result ∧
      row.winnerColor = st.winnerColor ∧ d.scoresOfGame id = st.after.scoresOfGame id ∧
      ∃ white ∈ accounts, ∃ black ∈ accounts, Seats row white black ∧
        st.room.gameId = id ∧ st.before.scoresOfGame id = [] ∧
        st.Applied computeNewRatings white black

/-- The settlements in two logs. -/
theorem settlements_append (log log' : Log js) (id : Nat) :
    settlements (log ++ log') id = settlements log id ++ settlements log' id :=
  List.flatMap_append

/-- The settlement of one outcome. -/
theorem settlements_singleton (out : Outcome Db (Call js) (Result js)) (id : Nat) :
    settlements [out] id = settlementOf id out := List.append_nil _

private theorem Seats.onward {id : Nat} {row row' : GameRow} {white black : SocketUser}
    (h : Seats row white black) (hon : RowOnward d d' id row row') : Seats row' white black := by
  obtain ⟨hid, hname⟩ := hon.black (by rw [h.blackName]; rfl)
  exact ⟨hon.white.1.trans h.whiteId, hon.white.2.trans h.whiteName, hid.trans h.blackId,
    hname.trans h.blackName, h.distinct⟩

/-- A quiet commit keeps the account. -/
theorem Account.quiet {log : Log js} {out : Outcome Db (Call js) (Result js)}
    (h : Account accounts computeNewRatings log d) (hon : Onward d d') (hq : Quiet d d' out) :
    Account accounts computeNewRatings (log ++ [out]) d' := by
  have hsame : ∀ id, settlements (log ++ [out]) id = settlements log id := by
    intro id
    rw [settlements_append, settlements_singleton, hq.settlement, List.append_nil]
  constructor
  · intro id hnone
    rw [hsame]
    cases hrow : d.game? id with
    | none => exact h.missing id hrow
    | some row =>
      obtain ⟨row', hrow', -⟩ := hon id row hrow
      rw [hnone] at hrow'
      cases hrow'
  · intro id row' hrow' hne
    rw [hsame]
    cases hrow : d.game? id with
    | none => exact h.missing id hrow
    | some row =>
      apply h.unsettled id row hrow
      intro hfin
      obtain ⟨row₁, hrow₁, hstep⟩ := hon id row hrow
      rw [hrow'] at hrow₁
      obtain rfl := Option.some.inj hrow₁
      apply hne
      rw [(hstep.settled (by rw [hfin]; decide)).1, hfin]
  · intro id row' hrow' hfin'
    rw [hsame]
    obtain ⟨row, hrow, hfin⟩ := hq.finished id row' hrow' hfin'
    obtain ⟨st, hst, hresult, hwinner, hscores, white, hwhite, black, hblack, hseats, hrest⟩ :=
      h.settled id row hrow hfin
    obtain ⟨row₁, hrow₁, hstep⟩ := hon id row hrow
    rw [hrow'] at hrow₁
    obtain rfl := Option.some.inj hrow₁
    obtain ⟨-, hresult', hwinner', -⟩ := hstep.settled (by rw [hfin]; decide)
    have hscores' : d'.scoresOfGame id = d.scoresOfGame id := by
      unfold Db.scoresOfGame
      rw [hq.scores]
    exact ⟨st, hst, hresult'.trans hresult, hwinner'.trans hwinner, hscores'.trans hscores,
      white, hwhite, black, hblack, hseats.onward hstep, hrest⟩

/-- A settling commit opens the account of its game. -/
theorem Account.settling {log : Log js} {out : Outcome Db (Call js) (Result js)}
    {st : Settlement js} (h : Account accounts computeNewRatings log d)
    (hinv : DbOk js at_ accounts d)
    (hs : Settling accounts computeNewRatings d d' out st) :
    Account accounts computeNewRatings (log ++ [out]) d' := by
  obtain ⟨white, hwhite, black, hblack, happ⟩ := hs.applied
  obtain ⟨row, hrow, hactive, hseats, hrow'⟩ := happ.game
  rw [hs.before] at hrow
  rw [hs.after] at hrow'
  have hother : ∀ id, id ≠ st.room.gameId →
      settlements (log ++ [out]) id = settlements log id := by
    intro id hne
    rw [settlements_append, settlements_singleton, hs.settlement, if_neg (Ne.symm hne),
      List.append_nil]
  constructor
  · intro id hnone
    by_cases hid : id = st.room.gameId
    · rw [hid, hrow'] at hnone
      cases hnone
    · rw [hs.games id hid] at hnone
      rw [hother id hid]
      exact h.missing id hnone
  · intro id row₁ hrow₁ hne
    by_cases hid : id = st.room.gameId
    · rw [hid, hrow'] at hrow₁
      obtain rfl := Option.some.inj hrow₁
      exact absurd rfl hne
    · rw [hs.games id hid] at hrow₁
      rw [hother id hid]
      exact h.unsettled id row₁ hrow₁ hne
  · intro id row₁ hrow₁ hfin
    by_cases hid : id = st.room.gameId
    · subst hid
      rw [hrow'] at hrow₁
      obtain rfl := Option.some.inj hrow₁
      have hnone := h.unsettled _ row hrow (by rw [hactive]; decide)
      have hunscored := (hinv.rows _ row hrow).unscored (by rw [hactive]; decide)
      rw [Db.id_of_game? hrow] at hunscored
      refine ⟨st, ?_, rfl, rfl, by rw [hs.after], white, hwhite, black, hblack,
        ⟨hseats.whiteId, hseats.whiteName, hseats.blackId, hseats.blackName, hseats.distinct⟩,
        rfl, by rw [hs.before]; exact hunscored, happ⟩
      rw [settlements_append, settlements_singleton, hnone, hs.settlement, if_pos rfl,
        List.nil_append]
    · rw [hs.games id hid] at hrow₁
      rw [hother id hid, hs.scores id hid]
      exact h.settled id row₁ hrow₁ hfin

/-- Every run accounts for its settlements. -/
theorem account_of_trace (hjs : js.Follows at_) {allowed : Call js → Db → Prop} {log : Log js}
    (h : (gameProtocol js at_ accounts).Trace (server js computeNewRatings accounts) allowed log d) :
    Account accounts computeNewRatings log d := by
  refine h.rule (J := Account accounts computeNewRatings) ?_ ?_ ?_
  · intro d hd
    have hnone : ∀ id, d.game? id = none := by
      intro id
      unfold Db.game?
      rw [hd.games]
      rfl
    refine ⟨fun _ _ ↦ rfl, fun _ _ _ _ ↦ rfl, fun id row hrow ↦ ?_⟩
    rw [hnone] at hrow
    cases hrow
  · intro log d c value d' answered ih hinv hpre _ hrun
    have hon := ((gameProtocol_sound hjs).commit c d value d' hinv hpre hrun).2
    obtain hq | ⟨st, hs⟩ := commit_quiet_or_settling hinv hpre hrun
    · exact ih.quiet hon hq
    · exact ih.settling hinv hs
  · intro log d c ih
    exact ih.quiet (.refl d) (quiet_refl fun _ ↦ rfl)

/-- How often a game's row has left `in_progress`. -/
structure LeftOnce (log : Log js) (d : Db) (id : Nat) : Prop where
  once : (log.filter (leaves id)).length ≤ 1
  missing : d.game? id = none → log.filter (leaves id) = []
  active : ∀ row, d.game? id = some row → row.status = .inProgress → log.filter (leaves id) = []

private theorem LeftOnce.commit {log : Log js} {c : Call js} {value : Result js c} {answered : Bool}
    {id : Nat} (h : LeftOnce log d id) (hon : Onward d d') :
    LeftOnce (log ++ [.committed c value d d' answered]) d' id := by
  have hstays : ∀ row', d'.game? id = some row' → row'.status = .inProgress →
      leaves id (.committed c value d d' answered) = false := by
    intro row' hrow' hactive
    rw [leaves, hrow', Option.any_some, hactive]
    exact Bool.and_false _
  have hnone : d'.game? id = none → d.game? id = none := by
    intro hnone
    cases hrow : d.game? id with
    | none => rfl
    | some row =>
      obtain ⟨row', hrow', -⟩ := hon id row hrow
      rw [hnone] at hrow'
      cases hrow'
  constructor
  · rw [List.filter_append, List.length_append]
    cases hleaves : leaves id (.committed c value d d' answered) with
    | false =>
      rw [List.filter_singleton, hleaves]
      exact h.once
    | true =>
      rw [leaves, Bool.and_eq_true, Option.any_eq_true] at hleaves
      obtain ⟨⟨row, hrow, hactive⟩, -⟩ := hleaves
      rw [h.active row hrow (by simpa using hactive), List.length_nil, Nat.zero_add]
      exact List.length_filter_le _ _
  · intro hmissing
    rw [List.filter_append, h.missing (hnone hmissing), List.nil_append, List.filter_singleton,
      leaves, hnone hmissing]
    rfl
  · intro row' hrow' hactive
    rw [List.filter_append, List.filter_singleton, hstays row' hrow' hactive]
    cases hrow : d.game? id with
    | none => exact List.append_eq_nil_iff.mpr ⟨h.missing hrow, rfl⟩
    | some row =>
      refine List.append_eq_nil_iff.mpr ⟨h.active row hrow ?_, rfl⟩
      obtain ⟨row₁, hrow₁, hstep⟩ := hon id row hrow
      rw [hrow'] at hrow₁
      obtain rfl := Option.some.inj hrow₁
      by_contra hdone
      rw [(hstep.settled hdone).1] at hactive
      exact hdone hactive

private theorem leftOnce_of_trace (hjs : js.Follows at_) {allowed : Call js → Db → Prop}
    {log : Log js}
    (h : (gameProtocol js at_ accounts).Trace (server js computeNewRatings accounts) allowed log d)
    (id : Nat) : LeftOnce log d id := by
  refine h.rule (J := fun log d ↦ LeftOnce log d id) ?_ ?_ ?_
  · intro d _
    exact ⟨Nat.zero_le _, fun _ ↦ rfl, fun _ _ _ ↦ rfl⟩
  · intro log d c value d' answered ih hinv hpre _ hrun
    exact ih.commit ((gameProtocol_sound hjs).commit c d value d' hinv hpre hrun).2
  · intro log d c ih
    have hsame : (log ++ [Outcome.failed c]).filter (leaves id) = log.filter (leaves id) := by
      rw [List.filter_append]
      exact List.append_nil _
    exact ⟨hsame ▸ ih.once, hsame ▸ ih.missing, hsame ▸ ih.active⟩

/-- What one outcome can be to the settlements: a finalization settles or has changed nothing,
and whatever changes a rating or a score is a settlement. -/
structure OutcomeOk (out : Outcome Db (Call js) (Result js)) : Prop where
  finalize : ∀ room result winnerColor now value before after answered,
    out = .committed (.finalize room result winnerColor now) value before after answered →
    settlementOf room.gameId out ≠ [] ∨ (value = ⟨false, none⟩ ∧ after = before)
  ratings : ∀ c value before after answered, out = .committed c value before after answered →
    (∃ id, settlementOf id out ≠ []) ∨
      ((∀ id, after.user? id = before.user? id) ∧ after.scores = before.scores)

private theorem outcomeOk_commit {c : Call js} {value : Result js c} {answered : Bool}
    (hinv : DbOk js at_ accounts d) (hpre : Pre js accounts c d)
    (hrun : backend.run (prog js computeNewRatings c) d = some (value, d')) :
    OutcomeOk (.committed c value d d' answered) where
  finalize room result winnerColor now value before after answered heq := by
    cases heq
    obtain ⟨-, rfl, rfl⟩ | ⟨row, white, hwhite, black, hblack, old, old', hseats, hold, hold', hs⟩ :=
      finalize_cases hinv hpre.1 hrun
    · exact Or.inr ⟨rfl, rfl⟩
    · left
      rw [(settling_finalize hwhite hblack hseats hold hold' hs).settlement, if_pos rfl]
      exact List.cons_ne_nil _ _
  ratings c' value' before after answered' heq := by
    cases heq
    obtain hq | ⟨st, hs⟩ := commit_quiet_or_settling hinv hpre hrun
    · exact Or.inr ⟨hq.users, hq.scores⟩
    · refine Or.inl ⟨st.room.gameId, ?_⟩
      rw [hs.settlement, if_pos rfl]
      exact List.cons_ne_nil _ _

private theorem outcomeOk_of_trace {allowed : Call js → Db → Prop} {log : Log js}
    (h : (gameProtocol js at_ accounts).Trace (server js computeNewRatings accounts) allowed log d) :
    ∀ out ∈ log, OutcomeOk out := by
  refine h.rule (J := fun log _ ↦ ∀ out ∈ log, OutcomeOk out) ?_ ?_ ?_
  · exact fun _ _ _ hout ↦ absurd hout List.not_mem_nil
  · intro log d c value d' answered ih hinv hpre _ hrun out hout
    rcases List.mem_append.mp hout with hout | hout
    · exact ih out hout
    · rw [List.mem_singleton.mp hout]
      exact outcomeOk_commit hinv hpre hrun
  · intro log d c ih out hout
    rcases List.mem_append.mp hout with hout | hout
    · exact ih out hout
    · rw [List.mem_singleton.mp hout]
      constructor
      · intro _ _ _ _ _ _ _ _ heq
        cases heq
      · intro _ _ _ _ _ heq
        cases heq

end Commits

/-- A game has been settled by exactly one call, or by none. -/
structure SettledOnce {js : ChessJs} (accounts : List SocketUser)
    (computeNewRatings : Int → Int → Score → Int × Int) (log : Log js) (d : Db) (row : GameRow) :
    Prop where
  leaves : (log.filter (leaves row.id)).length ≤ 1
  finished : row.status = .finished → ∃ st, settlements log row.id = [st] ∧
    row.result = some st.result ∧ row.winnerColor = st.winnerColor ∧
    ∃ white ∈ accounts, ∃ black ∈ accounts, Seats row white black ∧
      st.Applied computeNewRatings white black ∧
      d.scoresOfGame row.id = [st.room.score st.winnerColor st.now (white.player .w) white.id,
        st.room.score st.winnerColor st.now (black.player .b) black.id]
  unfinished : row.status ≠ .finished → d.scoresOfGame row.id = [] ∧
    ∀ room result winnerColor now value before after answered,
      Outcome.committed (.finalize room result winnerColor now) value before after answered ∈ log →
      room.gameId = row.id → value = ⟨false, none⟩ ∧ after = before
  calls : ∀ room result winnerColor now value before after answered,
    Outcome.committed (.finalize room result winnerColor now) value before after answered ∈ log →
    value.settled = false → value = ⟨false, none⟩ ∧ after = before
  ratings : ∀ c value before after answered, Outcome.committed c value before after answered ∈ log →
    (∀ id, settlementOf id (.committed c value before after answered) = []) →
    (∀ id, after.user? id = before.user? id) ∧ after.scores = before.scores

/-- However many finalizations race for a game, on any replicas and with any results, and
whichever of them abort: it is settled by exactly one of them, or by none and then unchanged. -/
theorem settled_once {js : ChessJs} {at_ : js.Game → Position → Prop}
    {accounts : List SocketUser} {computeNewRatings : Int → Int → Score → Int × Int}
    (hjs : js.Follows at_)
    {s : System.SessionState Db Change Key Stmt Ans (Call js) (Result js)}
    (hs : ((server js computeNewRatings accounts).sessions fun _ _ ↦ True).Reachable s)
    {id : Nat} {row : GameRow} (hrow : s.db.game? id = some row) :
    SettledOnce accounts computeNewRatings s.log s.db row := by
  have hkept := System.Protocol.kept (gameProtocol_sound hjs) backend_lawful hs
  have hid := Db.id_of_game? hrow
  subst hid
  have haccount := account_of_trace hjs hkept.trace
  have hout := outcomeOk_of_trace hkept.trace
  have hmem : ∀ out ∈ s.log, ∀ id, settlements s.log id = [] → settlementOf id out = [] := by
    intro out hout id hnil
    exact List.flatMap_eq_nil_iff.mp hnil out hout
  constructor
  · exact (leftOnce_of_trace hjs hkept.trace row.id).once
  · intro hfin
    obtain ⟨st, hst, hresult, hwinner, hscores, white, hwhite, black, hblack, hseats, hgame, hzero,
      happ⟩ := haccount.settled _ row hrow hfin
    refine ⟨st, hst, hresult, hwinner, white, hwhite, black, hblack, hseats, happ, ?_⟩
    have hafter := happ.scores
    rw [hgame, hzero, List.nil_append] at hafter
    exact hscores.trans hafter
  · intro hne
    refine ⟨(hkept.inv.rows _ row hrow).unscored hne, ?_⟩
    intro room result winnerColor now value before after answered hcall hgame
    obtain hsettled | hsame := (hout _ hcall).finalize _ _ _ _ _ _ _ _ rfl
    · rw [hgame] at hsettled
      exact absurd (hmem _ hcall row.id (haccount.unsettled _ row hrow hne)) hsettled
    · exact hsame
  · intro room result winnerColor now value before after answered hcall hvalue
    obtain hsettled | hsame := (hout _ hcall).finalize _ _ _ _ _ _ _ _ rfl
    · refine absurd ?_ hsettled
      refine if_neg fun h ↦ ?_
      rw [hvalue] at h
      exact Bool.false_ne_true h.1
    · exact hsame
  · intro c value before after answered hcall hnone
    obtain ⟨id, hsettled⟩ | hsame := (hout _ hcall).ratings _ _ _ _ _ rfl
    · exact absurd (hnone id) hsettled
    · exact hsame

/-- A finalization that finds its game settled. -/
def isLate : Outcome Db (Call reference) (Result reference) → Bool
  | .committed (.finalize ..) value .. => !value.settled
  | _ => false

/-- One of three resignations aborts, one settles the game, and one is late. -/
theorem settled_once_racing :
    ∃ s : System.SessionState Db Change Key Stmt Ans (Call reference) (Result reference),
    ∃ row, s.db.game? 1 = some row ∧ row.status = .finished ∧ s.log.any isLate = true ∧
      SettledOnce [ada, ben] equalRatings s.log s.db row := by
  have hrun : (play reference equalRatings [ada, ben] twoUsers racingEnd).any (fun s ↦
      (s.db.game? 1).any fun row ↦ row.status == .finished && s.log.any isLate) = true := by
    decide +kernel
  obtain ⟨s, hplay, hfacts⟩ := Option.any_eq_true _ _ |>.mp hrun
  obtain ⟨row, hrow, hfacts⟩ := Option.any_eq_true _ _ |>.mp hfacts
  rw [Bool.and_eq_true, beq_iff_eq] at hfacts
  have hs := play_reachable fresh_twoUsers (by decide) hplay
  exact ⟨_, row, hrow, hfacts.1, hfacts.2, settled_once reference_follows hs hrow⟩

end ChessStack.Server
