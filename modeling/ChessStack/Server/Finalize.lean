import ChessStack.Server.Effects

/-!
# What a finalization does

Library `Server`. `finalizeGameAtomic` of `Chess-Backend/src/socket/gameSocket.js` as a whole:
a committed run found the game no longer in progress and did nothing, or settled it with every
change it lists; and when the constraints let it commit.
-/

namespace ChessStack.Server

open ChessStack.Chess ChessStack.Js ChessStack.Library ChessStack.Store

/-! ### One player's score and achievements -/

private theorem achievementKeys_subset (wins : Option Nat) (moves : Nat) :
    ∀ key ∈ achievementKeys wins moves, key ∈ achievementCatalogue := by
  intro key hkey
  unfold achievementKeys at hkey
  simp only [List.mem_append, List.mem_singleton] at hkey
  unfold achievementCatalogue
  rcases hkey with (rfl | hkey) | hkey
  · simp
  · cases wins with
    | none => cases hkey
    | some wins =>
      simp only [List.mem_append, List.mem_ite_nil_right, List.mem_singleton] at hkey
      rcases hkey with (((⟨-, rfl⟩ | ⟨-, rfl⟩) | ⟨-, rfl⟩) | ⟨-, rfl⟩) | ⟨-, rfl⟩ <;> simp
  · rw [List.mem_ite_nil_right, List.mem_singleton] at hkey
    rw [hkey.2]
    simp

/-- A player's score and new achievements, as changes. -/
def scoreChanges (row : ScoreRow) (keys : List String) : List Change :=
  .addScore row :: keys.map (.addAchievement row.userId)

section Record

variable {gameId moves duration userId : Nat} {player : Player} {winnerColor : Option Color}
  {d d' : Db}

/-- The number of wins of a user. -/
theorem run_countWins (d : Db) (userId : Nat) : backend.run (countWins userId) d =
    some (((d.scoresOf userId).filter (·.winner)).length, d) := rfl

/-- The achievements inserted are those the user lacks. -/
theorem run_insertAchievements {keys : List String} {value : Unit}
    (h : backend.run (insertAchievements userId keys) d = some (value, d')) :
    ∃ fresh : List String, d' = backend.applyAll d (fresh.map (.addAchievement userId)) := by
  obtain ⟨cs, hexec, rfl⟩ := exec_of_run_sql d h
  simp only [Store.exec] at hexec
  split at hexec
  · obtain ⟨rfl, -⟩ := Prod.mk.inj (Option.some.inj hexec)
    exact ⟨_, rfl⟩
  · cases hexec

private theorem insertAchievements_succeeds {keys : List String}
    (huser : d.userExists userId = true)
    (hkeys : ∀ key ∈ keys, key ∈ d.achievements) :
    ∃ fresh : List String, backend.run (insertAchievements userId keys) d =
      some ((), backend.applyAll d (fresh.map (.addAchievement userId))) := by
  refine ⟨keys.dedup.filter fun key ↦ !(d.achievementsOf userId).contains key,
    run_sql_of_exec d _ (if_pos ?_)⟩
  rw [huser, Bool.true_and, List.all_eq_true]
  intro key hkey
  rw [List.contains_iff_mem]
  exact hkeys key (List.mem_dedup.mp (List.mem_of_mem_filter hkey))

/-- A recorded score satisfied the constraints and was the player's first for the game. -/
theorem recordScore_run (h : backend.run
    (recordScore gameId moves duration player userId winnerColor) d = some ((), d')) :
    (scoreRow gameId moves duration player userId winnerColor).valid = true ∧
      (∀ row ∈ d.scoresOf userId, row.gameId ≠ gameId) ∧
      ∃ keys, d' = backend.applyAll d
        (scoreChanges (scoreRow gameId moves duration player userId winnerColor) keys) := by
  rw [recordScore, Database.run_bind, Option.bind_eq_some_iff] at h
  obtain ⟨⟨inserted, d₁⟩, hinsert, h⟩ := h
  obtain ⟨cs, hexec, rfl⟩ := exec_of_run_sql d hinsert
  simp only [Store.exec] at hexec
  split at hexec
  · cases hexec
  · next hvalid =>
    split at hexec
    · obtain ⟨-, rfl⟩ := Prod.mk.inj (Option.some.inj hexec)
      cases h
    · next hfirst =>
      split at hexec
      · obtain ⟨rfl, rfl⟩ := Prod.mk.inj (Option.some.inj hexec)
        rw [if_neg (not_not.mpr rfl)] at h
        have hnone : ∀ row ∈ d.scoresOf userId, row.gameId ≠ gameId := by
          intro row hrow hid
          apply hfirst
          rw [List.any_eq_true]
          exact ⟨row, hrow, beq_iff_eq.mpr hid⟩
        refine ⟨by simpa using hvalid, hnone, ?_⟩
        by_cases hwon : some player.color = winnerColor
        · rw [if_pos hwon, Database.run_bind, Option.bind_eq_some_iff] at h
          obtain ⟨⟨wins, d₂⟩, hwins, h⟩ := h
          rw [run_countWins] at hwins
          obtain ⟨-, rfl⟩ := Prod.mk.inj (Option.some.inj hwins)
          exact run_insertAchievements h
        · rw [if_neg hwon] at h
          exact run_insertAchievements h
      · cases hexec

/-- What lets a score be recorded. -/
theorem recordScore_succeeds
    (hvalid : (scoreRow gameId moves duration player userId winnerColor).valid = true)
    (hfirst : ∀ row ∈ d.scoresOf userId, row.gameId ≠ gameId) (huser : d.userExists userId = true)
    (hgame : (d.game? gameId).isSome = true) (hcat : d.achievements = achievementCatalogue) :
    ∃ keys, backend.run (recordScore gameId moves duration player userId winnerColor) d =
      some ((), backend.applyAll d
        (scoreChanges (scoreRow gameId moves duration player userId winnerColor) keys)) := by
  have hnone : ((d.scoresOf userId).any (·.gameId == gameId)) = false := by
    rw [List.any_eq_false]
    intro row hrow
    simpa using hfirst row hrow
  have hinsert : backend.run
      (insertScore (scoreRow gameId moves duration player userId winnerColor)) d =
      some ((1 : Nat), d.apply
        (.addScore (scoreRow gameId moves duration player userId winnerColor))) := by
    refine run_sql_of_exec d
      [.addScore (scoreRow gameId moves duration player userId winnerColor)] ?_
    rw [Store.exec, hvalid, if_neg (by decide)]
    change (if ((d.scoresOf userId).any (·.gameId == gameId)) = true then _ else _) = _
    rw [hnone, if_neg Bool.false_ne_true]
    change (if (d.userExists userId && (d.game? gameId).isSome) = true then _ else _) = _
    rw [huser, hgame]
    rfl
  have hkeys : ∀ wins, ∃ fresh : List String, backend.run
      (insertAchievements userId (achievementKeys wins moves))
      (d.apply (.addScore (scoreRow gameId moves duration player userId winnerColor))) = some ((),
        backend.applyAll (d.apply
          (.addScore (scoreRow gameId moves duration player userId winnerColor)))
          (fresh.map (.addAchievement userId))) := by
    intro wins
    apply insertAchievements_succeeds
    · rw [Db.userExists_apply]
      exact huser
    · rw [Db.achievements_apply, hcat]
      exact achievementKeys_subset wins moves
  rw [recordScore, Database.run_bind, hinsert, Option.bind_some, if_neg (not_not.mpr rfl)]
  by_cases hwon : some player.color = winnerColor
  · rw [if_pos hwon, Database.run_bind, run_countWins, Option.bind_some]
    obtain ⟨fresh, hfresh⟩ := hkeys _
    exact ⟨fresh, hfresh⟩
  · rw [if_neg hwon]
    obtain ⟨fresh, hfresh⟩ := hkeys none
    exact ⟨fresh, hfresh⟩

end Record

/-! ### The whole transaction -/

/-- The version of a game's row that settles it. -/
def finishedRow (row : GameRow) (result : GameResult) (winnerColor : Option Color) : GameRow :=
  { row with status := .finished, result := some result, winnerColor := winnerColor }

/-- The rows of two existing users, by ascending id. -/
theorem lockUsers_rows {d : Db} {white black : UserRow} (hne : white.id ≠ black.id)
    (hwhite : d.user? white.id = some white) (hblack : d.user? black.id = some black) :
    ([white.id, black.id].dedup.insertionSort (· ≤ ·)).filterMap d.user? = [white, black] ∨
    ([white.id, black.id].dedup.insertionSort (· ≤ ·)).filterMap d.user? = [black, white] := by
  have hdedup : [white.id, black.id].dedup = [white.id, black.id] := by
    rw [List.dedup_eq_self]
    simpa using hne
  rw [hdedup, List.insertionSort_cons, List.insertionSort_cons, List.insertionSort_nil,
    List.orderedInsert_nil, List.orderedInsert]
  split
  · left
    simp [hwhite, hblack]
  · right
    simp [List.orderedInsert, hwhite, hblack]

/-- One id locks at most one row. -/
theorem lockUsers_same (d : Db) (id : Nat) :
    (([id, id].dedup.insertionSort (· ≤ ·)).filterMap d.user?).length ≠ 2 := by
  have hdedup : [id, id].dedup = [id] := by
    rw [List.dedup_cons_of_mem List.mem_cons_self, List.dedup_eq_self]
    exact List.nodup_singleton id
  have hle := List.length_filterMap_le d.user? ([id, id].dedup.insertionSort (· ≤ ·))
  rw [List.length_insertionSort, hdedup, List.length_singleton] at hle
  rw [hdedup]
  omega

/-- A user found among the locked rows is the user of that id. -/
theorem user?_of_locked {d : Db} {ids : List Nat} {id : Nat} {user : UserRow}
    (h : ((ids.dedup.insertionSort (· ≤ ·)).filterMap d.user?).find? (·.id == id) = some user) :
    d.user? id = some user ∧ user.id = id := by
  obtain ⟨i, -, hi⟩ := List.mem_filterMap.mp (List.mem_of_find?_eq_some h)
  have hid : user.id = id := by simpa using List.find?_some h
  have hkey := Db.id_of_user? hi
  rw [← hid, hkey]
  exact ⟨hi, rfl⟩

/-- The users locked, in the order of their ids. -/
theorem run_lockUsers (d : Db) (ids : List Nat) : backend.run (lockUsers ids) d =
    some ((ids.dedup.insertionSort (· ≤ ·)).filterMap d.user?, d) := rfl

/-- The changes of a settled game with both seats taken. -/
def settlingChanges (row : GameRow) (whiteElo blackElo : Int) (white black : ScoreRow)
    (whiteKeys blackKeys : List String) : List Change :=
  [Change.putGame row, .setElo white.userId whiteElo, .setElo black.userId blackElo] ++
    scoreChanges white whiteKeys ++ scoreChanges black blackKeys

section Changes

variable (d : Db) (row : GameRow) (whiteElo blackElo : Int) (white black : ScoreRow)
  (whiteKeys blackKeys : List String)

/-- A score touches no game. -/
theorem game_scoreChanges (id : Nat) : ∀ c ∈ scoreChanges white whiteKeys, c.game id = none := by
  intro c hc
  rcases List.mem_cons.mp hc with rfl | hc
  · rfl
  · obtain ⟨key, -, rfl⟩ := List.mem_map.mp hc
    rfl

/-- The score that is added. -/
theorem scores_scoreChanges : (scoreChanges white whiteKeys).flatMap Change.scores = [white] := by
  have hkeys : (whiteKeys.map (Change.addAchievement white.userId)).flatMap Change.scores = [] := by
    rw [List.flatMap_eq_nil_iff]
    intro c hc
    obtain ⟨key, -, rfl⟩ := List.mem_map.mp hc
    rfl
  rw [scoreChanges, List.flatMap_cons, hkeys]
  rfl

private theorem user_scoreChanges (user : UserRow) :
    (scoreChanges white whiteKeys).foldl (fun user c ↦ c.user user) user = user := by
  unfold scoreChanges
  rw [List.foldl_cons]
  induction whiteKeys with
  | nil => rfl
  | cons key keys ih => exact ih

private theorem game?_settling (id : Nat) :
    (backend.applyAll d (settlingChanges row whiteElo blackElo white
    black whiteKeys blackKeys)).game? id = if id = row.id then some row else d.game? id := by
  unfold settlingChanges
  rw [List.append_assoc, Database.applyAll_append, game?_applyAll]
  · change (((d.apply (.putGame row)).apply (.setElo _ _)).apply (.setElo _ _)).game? id = _
    rw [Db.game?_apply, Db.game?_apply, Db.game?_apply]
    simp only [Change.game, Option.none_or]
    split <;> rfl
  · intro c hc
    rcases List.mem_append.mp hc with hc | hc
    · exact game_scoreChanges white whiteKeys id c hc
    · exact game_scoreChanges black blackKeys id c hc

private theorem movesOf_settling (id : Nat) :
    (backend.applyAll d (settlingChanges row whiteElo blackElo
    white black whiteKeys blackKeys)).movesOf id = d.movesOf id := by
  rw [movesOf_applyAll]
  simp [settlingChanges, scoreChanges]

private theorem scores_settling :
    (backend.applyAll d (settlingChanges row whiteElo blackElo white black
    whiteKeys blackKeys)).scores = d.scores ++ [white, black] := by
  rw [scores_applyAll, settlingChanges, List.flatMap_append, List.flatMap_append,
    scores_scoreChanges, scores_scoreChanges]
  rfl

/-- Each of the two ratings is set once, and no other. -/
theorem user?_settling (id : Nat) : (backend.applyAll d (settlingChanges row whiteElo blackElo white
    black whiteKeys blackKeys)).user? id = (d.user? id).map fun user ↦
      (Change.setElo black.userId blackElo).user ((Change.setElo white.userId whiteElo).user user) := by
  rw [user?_applyAll]
  congr 1
  funext user
  rw [settlingChanges, List.foldl_append, List.foldl_append, user_scoreChanges, user_scoreChanges]
  rfl

end Changes

section Settles

variable {js : ChessJs} (computeNewRatings : Int → Int → Score → Int × Int) (room : Room js)
  (result : GameResult) (winnerColor : Option Color) (now : Nat)

/-- The score row a finalization inserts for a player. -/
def Room.score (room : Room js) (winnerColor : Option Color) (now : Nat) (player : Player)
    (userId : Nat) : ScoreRow :=
  scoreRow room.gameId room.moves.length (durationOf room.createdAt now) player userId winnerColor

/-- The call has settled the game: ratings, scores and achievements of both seats. -/
structure Settles (d : Db) (row : GameRow) (white black : Player) (whiteUser blackUser : UserRow)
    (value : Finalized) (d' : Db) : Prop where
  found : d.game? room.gameId = some row
  active : row.status = .inProgress
  whiteSeat : seatOf room.players .w = some (white, whiteUser.id)
  blackSeat : seatOf room.players .b = some (black, blackUser.id)
  whiteFound : d.user? whiteUser.id = some whiteUser
  blackFound : d.user? blackUser.id = some blackUser
  distinct : whiteUser.id ≠ blackUser.id
  whiteValid : (room.score winnerColor now white whiteUser.id).valid = true
  blackValid : (room.score winnerColor now black blackUser.id).valid = true
  ratingsFit :
    fitsInteger (computeNewRatings whiteUser.eloRating blackUser.eloRating (whiteScore winnerColor)).1
      = true ∧
    fitsInteger (computeNewRatings whiteUser.eloRating blackUser.eloRating (whiteScore winnerColor)).2
      = true
  value : value = ⟨true, some
    ⟨⟨white.name, whiteUser.eloRating,
      (computeNewRatings whiteUser.eloRating blackUser.eloRating (whiteScore winnerColor)).1⟩,
    ⟨black.name, blackUser.eloRating,
      (computeNewRatings whiteUser.eloRating blackUser.eloRating (whiteScore winnerColor)).2⟩⟩⟩
  after : ∃ whiteKeys blackKeys, d' = backend.applyAll d (settlingChanges
    (finishedRow row result winnerColor)
    (computeNewRatings whiteUser.eloRating blackUser.eloRating (whiteScore winnerColor)).1
    (computeNewRatings whiteUser.eloRating blackUser.eloRating (whiteScore winnerColor)).2
    (room.score winnerColor now white whiteUser.id) (room.score winnerColor now black blackUser.id)
    whiteKeys blackKeys)

variable {computeNewRatings room result winnerColor now} {d d' : Db} {value : Finalized}

private theorem run_setElo {userId : Nat} {elo : Int} {d d' : Db}
    (h : backend.run (setElo userId elo) d = some ((1 : Nat), d')) :
    fitsInteger elo = true ∧ d' = d.apply (.setElo userId elo) := by
  obtain ⟨cs, hexec, rfl⟩ := exec_of_run_sql d h
  simp only [Store.exec] at hexec
  split at hexec
  · split at hexec
    · next hfits =>
      obtain ⟨rfl, -⟩ := Prod.mk.inj (Option.some.inj hexec)
      exact ⟨hfits, rfl⟩
    · cases hexec
  · cases hexec

/-- A committed finalization did nothing to a game no longer in progress, finished a game with
a free seat, or settled the game. -/
theorem finalizeGameAtomic_run (h : backend.run
    (finalizeGameAtomic computeNewRatings room result winnerColor now) d = some (value, d')) :
    ((∀ row, d.game? room.gameId = some row → row.status ≠ .inProgress) ∧
      value = ⟨false, none⟩ ∧ d' = d) ∨
    ((seatOf room.players .w = none ∨ seatOf room.players .b = none) ∧ ∃ row,
      d.game? room.gameId = some row ∧ row.status = .inProgress ∧ value = ⟨true, none⟩ ∧
      d' = d.apply (.putGame (finishedRow row result winnerColor))) ∨
    ∃ row white black whiteUser blackUser, Settles computeNewRatings room result winnerColor now d
      row white black whiteUser blackUser value d' := by
  rw [finalizeGameAtomic, Database.run_bind, Option.bind_eq_some_iff] at h
  obtain ⟨⟨finished, d₁⟩, hfinish, h⟩ := h
  obtain ⟨cs, hexec, rfl⟩ := exec_of_run_sql d hfinish
  obtain ⟨row, hrow, hfits, rfl, hd₁⟩ | ⟨hnone, rfl, hd₁⟩ := counted_cases d hexec
  · rw [hd₁] at h
    dsimp only at h
    rw [if_neg Nat.one_ne_zero, if_neg (not_not.mpr rfl)] at h
    have hactive : row.status = .inProgress := by simpa using hfits
    cases hwhite : seatOf room.players .w with
    | none =>
      rw [hwhite] at h
      obtain ⟨rfl, rfl⟩ := Prod.mk.inj (Option.some.inj h)
      exact Or.inr (Or.inl ⟨Or.inl rfl, row, hrow, hactive, rfl, rfl⟩)
    | some whiteSeat =>
      cases hblack : seatOf room.players .b with
      | none =>
        rw [hwhite, hblack] at h
        obtain ⟨rfl, rfl⟩ := Prod.mk.inj (Option.some.inj h)
        exact Or.inr (Or.inl ⟨Or.inr rfl, row, hrow, hactive, rfl, rfl⟩)
      | some blackSeat =>
        rw [hwhite, hblack] at h
        obtain ⟨white, whiteId⟩ := whiteSeat
        obtain ⟨black, blackId⟩ := blackSeat
        refine Or.inr (Or.inr ⟨row, white, black, ?_⟩)
        dsimp only at h
        rw [Database.run_bind, run_lockUsers, Option.bind_some] at h
        split at h
        · cases h
        · next hcount =>
          split at h
          · next whiteUser blackUser hwhiteUser hblackUser =>
            obtain ⟨hwhiteFound, rfl⟩ := user?_of_locked hwhiteUser
            obtain ⟨hblackFound, rfl⟩ := user?_of_locked hblackUser
            have hdistinct : whiteUser.id ≠ blackUser.id := by
              intro heq
              apply hcount
              rw [heq]
              exact lockUsers_same d _
            rw [Database.run_bind, Option.bind_eq_some_iff] at h
            obtain ⟨⟨whiteUpdate, d₂⟩, hwhiteElo, h⟩ := h
            rw [Database.run_bind, Option.bind_eq_some_iff] at h
            obtain ⟨⟨blackUpdate, d₃⟩, hblackElo, h⟩ := h
            split at h
            · cases h
            · next hupdates =>
              rw [not_or, not_not, not_not] at hupdates
              obtain ⟨rfl, rfl⟩ := hupdates
              obtain ⟨hwhiteFits, rfl⟩ := run_setElo hwhiteElo
              obtain ⟨hblackFits, rfl⟩ := run_setElo hblackElo
              rw [Database.run_bind, Option.bind_eq_some_iff] at h
              obtain ⟨⟨⟨⟩, d₄⟩, hwhiteScore, h⟩ := h
              rw [Database.run_bind, Option.bind_eq_some_iff] at h
              obtain ⟨⟨⟨⟩, d₅⟩, hblackScore, h⟩ := h
              obtain ⟨rfl, rfl⟩ := Prod.mk.inj (Option.some.inj h)
              obtain ⟨hwhiteValid, -, whiteKeys, rfl⟩ := recordScore_run hwhiteScore
              obtain ⟨hblackValid, -, blackKeys, rfl⟩ := recordScore_run hblackScore
              refine ⟨whiteUser, blackUser, hrow, hactive, hwhite, hblack, hwhiteFound,
                hblackFound, hdistinct, hwhiteValid, hblackValid, ⟨hwhiteFits, hblackFits⟩, rfl, whiteKeys,
                blackKeys, ?_⟩
              rw [settlingChanges, Database.applyAll_append, Database.applyAll_append]
              rfl
          · cases h
  · rw [hd₁] at h
    obtain ⟨rfl, rfl⟩ := Prod.mk.inj (Option.some.inj h)
    refine Or.inl ⟨?_, rfl, rfl⟩
    intro row hrow
    simpa using hnone row hrow

section Tables

variable {row : GameRow} {white black : Player} {whiteUser blackUser : UserRow}
  (hs : Settles computeNewRatings room result winnerColor now d row white black whiteUser blackUser
    value d')

include hs

/-- A settlement finishes its game and no other. -/
theorem Settles.game? (id : Nat) : d'.game? id =
    if id = room.gameId then some (finishedRow row result winnerColor) else d.game? id := by
  obtain ⟨whiteKeys, blackKeys, rfl⟩ := hs.after
  rw [game?_settling, ← Db.id_of_game? hs.found]
  rfl

/-- A settlement moves nothing. -/
theorem Settles.movesOf (id : Nat) : d'.movesOf id = d.movesOf id := by
  obtain ⟨whiteKeys, blackKeys, rfl⟩ := hs.after
  exact movesOf_settling d _ _ _ _ _ _ _ id

/-- Two scores, both of the settled game. -/
theorem Settles.scoresOfGame (id : Nat) : d'.scoresOfGame id = d.scoresOfGame id ++
    if id = room.gameId then [room.score winnerColor now white whiteUser.id,
      room.score winnerColor now black blackUser.id] else [] := by
  obtain ⟨whiteKeys, blackKeys, rfl⟩ := hs.after
  unfold Db.scoresOfGame
  rw [scores_settling, List.filter_append]
  congr 1
  by_cases hid : id = room.gameId
  · rw [if_pos hid, List.filter_eq_self]
    intro score hscore
    simp only [List.mem_cons, List.not_mem_nil, or_false] at hscore
    rcases hscore with rfl | rfl <;> exact beq_iff_eq.mpr hid.symm
  · rw [if_neg hid, List.filter_eq_nil_iff]
    intro score hscore
    simp only [List.mem_cons, List.not_mem_nil, or_false] at hscore
    rcases hscore with rfl | rfl <;> exact fun h ↦ hid (beq_iff_eq.mp h).symm

/-- The two ratings are what the call computed, and no other changes. -/
theorem Settles.user? (id : Nat) : d'.user? id = (d.user? id).map fun user ↦
    (Change.setElo blackUser.id (computeNewRatings whiteUser.eloRating blackUser.eloRating
      (whiteScore winnerColor)).2).user
    ((Change.setElo whiteUser.id (computeNewRatings whiteUser.eloRating blackUser.eloRating
      (whiteScore winnerColor)).1).user user) := by
  obtain ⟨whiteKeys, blackKeys, rfl⟩ := hs.after
  exact user?_settling d _ _ _ _ _ _ _ id

/-- A settlement makes no user. -/
theorem Settles.userExists (id : Nat) : d'.userExists id = d.userExists id := by
  obtain ⟨whiteKeys, blackKeys, rfl⟩ := hs.after
  exact userExists_applyAll d _ id

/-- A settlement leaves the catalogue. -/
theorem Settles.achievements : d'.achievements = d.achievements := by
  obtain ⟨whiteKeys, blackKeys, rfl⟩ := hs.after
  exact achievements_applyAll d _

end Tables

end Settles

end ChessStack.Server
