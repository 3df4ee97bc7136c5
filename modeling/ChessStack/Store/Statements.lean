import ChessStack.Store.Schema
import ChessStack.Library.Session
import Mathlib.Data.List.Sort

/-!
# The statements of the game server

Library `Store`. Every statement the game transactions of
`Chess-Backend/src/models/Game.js` and `Chess-Backend/src/socket/gameSocket.js` send, what it
answers, which rows it locks and when a constraint makes it fail. The backend they form is
`Lawful`: no statement reads or writes beyond the rows it or an earlier statement has locked.
-/

namespace ChessStack.Store

open ChessStack.Chess ChessStack.Library

/-- The statements, by their SQL. -/
inductive Stmt where
  /-- `SELECT * FROM games WHERE id=$1 FOR UPDATE` -/
  | lockGame (id : Nat)
  /-- `UPDATE games SET board_fen=$2 WHERE id=$1 AND status='in_progress' RETURNING id` -/
  | updateBoard (id : Nat) (fen : String)
  /-- `INSERT INTO moves (…) SELECT $1, COALESCE(MAX(move_number),0)+1, … FROM moves
  WHERE game_id=$1 RETURNING *`; the row's number is the one the statement computes. -/
  | insertMove (row : MoveRow)
  /-- `UPDATE games SET status='finished', result=$2, winner_color=$3, …
  WHERE id=$1 AND status='in_progress' RETURNING id` -/
  | finishGame (id : Nat) (result : GameResult) (winnerColor : Option Color)
  /-- `SELECT id, elo_rating FROM users WHERE id=ANY($1::int[]) ORDER BY id FOR UPDATE` -/
  | lockUsers (ids : List Nat)
  /-- `UPDATE users SET elo_rating=$2 WHERE id=$1` -/
  | setElo (id : Nat) (elo : Int)
  /-- `INSERT INTO scores (…) VALUES (…) ON CONFLICT (game_id,user_id) … DO NOTHING` -/
  | insertScore (row : ScoreRow)
  /-- `SELECT COUNT(*)::int AS count FROM scores WHERE user_id=$1 AND winner=true` -/
  | countWins (userId : Nat)
  /-- `INSERT INTO user_achievements … SELECT $1, unnest($2::varchar[])
  ON CONFLICT (user_id,achievement_key) DO NOTHING` -/
  | insertAchievements (userId : Nat) (keys : List String)
  /-- `UPDATE games SET black_user_id=$2, black_username=$3
  WHERE id=$1 AND status='in_progress' AND black_username IS NULL RETURNING *` -/
  | setBlack (id : Nat) (userId : Nat) (username : String)
  /-- `INSERT INTO games (…) VALUES (…) RETURNING *`; `id` comes from the sequence. -/
  | insertGame (row : GameRow)
  /-- `UPDATE games SET room_id=NULL WHERE id=$1 AND status='finished'` -/
  | releaseRoom (id : Nat)
  /-- `UPDATE games SET status='abandoned', result='process_failure', …
  WHERE id=ANY($1::int[]) AND status='in_progress'`, for one id. -/
  | abandon (id : Nat)

/-- What a statement answers: rows, or the number of rows it affected. -/
def Ans : Stmt → Type
  | .lockGame _ => Option GameRow
  | .updateBoard .. => Nat
  | .insertMove _ => MoveRow
  | .finishGame .. => Nat
  | .lockUsers _ => List UserRow
  | .setElo .. => Nat
  | .insertScore _ => Nat
  | .countWins _ => Nat
  | .insertAchievements .. => Unit
  | .setBlack .. => Option GameRow
  | .insertGame _ => GameRow
  | .releaseRoom _ => Nat
  | .abandon _ => Nat

/-- A lockable row, or an entry of the unique index on room ids. The rows of moves belong to
their game, scores and achievements to their user: whoever writes them holds that row. -/
inductive Key where
  | game (id : Nat)
  | user (id : Nat)
  | room (roomId : String)
  deriving DecidableEq

/-- What a key gives access to. -/
inductive Cell where
  | game (row : Option GameRow) (moves : List MoveRow)
  | user (row : Option UserRow) (scores : List ScoreRow) (achievements : List String)
  | room (holder : Nat → Bool)

/-- The game holds the room id. -/
def Db.holds (d : Db) (roomId : String) (id : Nat) : Bool :=
  (d.game? id).any fun row ↦ row.roomId == some roomId

/-- What the tables hold under a key. -/
def Db.cell (d : Db) : Key → Cell
  | .game id => .game (d.game? id) (d.movesOf id)
  | .user id => .user (d.user? id) (d.scoresOf id) (d.achievementsOf id)
  | .room roomId => .room (d.holds roomId)

/-- What no statement changes: which users exist, and the catalogue of achievements. -/
def Db.fixed (d : Db) : (Nat → Bool) × List String := (d.userExists, d.achievements)

/-- The row locks of a statement. Foreign keys lock the rows they point to only against
deletion, which nothing here does. -/
def locks : Stmt → Db → List Key
  | .lockGame id, _ => [.game id]
  | .updateBoard id _, _ => [.game id]
  | .insertMove row, _ => [.game row.gameId]
  | .finishGame id _ _, _ => [.game id]
  | .lockUsers ids, _ => ids.map .user
  | .setElo id _, _ => [.user id]
  | .insertScore row, _ => [.user row.userId, .game row.gameId]
  | .countWins id, _ => [.user id]
  | .insertAchievements id _, _ => [.user id]
  | .setBlack id _ _, _ => [.game id]
  | .insertGame row, _ => .game row.id :: (row.roomId.map Key.room).toList
  | .releaseRoom id, d => .game id :: (((d.game? id).bind GameRow.roomId).map Key.room).toList
  | .abandon id, _ => [.game id]

/-- A conditional update of one game: the new version when the row is there and fits. -/
def updateGame (d : Db) (id : Nat) (fits : GameRow → Bool) (new : GameRow → GameRow) :
    Option GameRow :=
  (d.game? id).bind fun row ↦ if fits row then some (new row) else none

/-- The changes and the row count of a conditional update. -/
def counted (updated : Option GameRow) : List Change × Nat :=
  match updated with
  | some row => ([.putGame row], 1)
  | none => ([], 0)

/-- `COALESCE(MAX(move_number),0)+1` over the moves of a game. -/
def nextNumber (moves : List MoveRow) : Nat := (moves.map MoveRow.moveNumber).foldr max 0 + 1

/-- What a statement does, on the store it sees: its changes and its answer, or `none` when a
constraint, a foreign key or a column type rejects it. -/
def exec : (stmt : Stmt) → Db → Option (List Change × Ans stmt)
  | .lockGame id, d => some ([], d.game? id)
  | .updateBoard id fen, d => some (counted
      (updateGame d id (·.status == .inProgress) fun row ↦ { row with boardFen := some fen }))
  | .insertMove row, d =>
    let row := { row with moveNumber := nextNumber (d.movesOf row.gameId) }
    if row.valid && (d.game? row.gameId).isSome then some ([.addMove row], row) else none
  | .finishGame id result winnerColor, d => some (counted
      (updateGame d id (·.status == .inProgress) fun row ↦
        { row with status := .finished, result := some result, winnerColor := winnerColor }))
  | .lockUsers ids, d => some ([], (ids.dedup.insertionSort (· ≤ ·)).filterMap d.user?)
  | .setElo id elo, d =>
    if d.userExists id then (if fitsInteger elo then some ([.setElo id elo], (1 : Nat)) else none)
    else some ([], (0 : Nat))
  | .insertScore row, d =>
    if !row.valid then none
    else if (d.scoresOf row.userId).any (·.gameId == row.gameId) then some ([], (0 : Nat))
    else if d.userExists row.userId && (d.game? row.gameId).isSome then
      some ([.addScore row], (1 : Nat))
    else none
  | .countWins id, d => some ([], ((d.scoresOf id).filter (·.winner)).length)
  | .insertAchievements id keys, d =>
    let fresh := keys.dedup.filter fun key ↦ !(d.achievementsOf id).contains key
    if d.userExists id && fresh.all d.achievements.contains then
      some (fresh.map (.addAchievement id), ())
    else none
  | .setBlack id userId username, d =>
    if d.userExists userId && username.length ≤ 20 then
      let updated := updateGame d id (fun row ↦ row.status == .inProgress && row.blackUsername.isNone)
        fun row ↦ { row with blackUserId := some userId, blackUsername := some username }
      some ((counted updated).1, updated)
    else none
  | .insertGame row, d =>
    if (d.game? row.id).isSome || row.roomId.any d.roomTaken then none
    else some ([.putGame row], row)
  | .releaseRoom id, d => some (counted
      (updateGame d id (·.status == .finished) fun row ↦ { row with roomId := none }))
  | .abandon id, d => some (counted
      (updateGame d id (·.status == .inProgress) fun row ↦
        { row with status := .abandoned, result := some .processFailure }))

/-- The database of the game server. -/
def backend : Database Db Change Key Cell ((Nat → Bool) × List String) Stmt Ans where
  apply := Db.apply
  cell k d := d.cell k
  fixed := Db.fixed
  locks := locks
  exec := exec

/-! ### The backend is lawful -/

private theorem Db.holds_apply (d : Db) (c : Change) (roomId : String) (id : Nat) :
    (d.apply c).holds roomId id =
      ((c.game id).or (d.game? id)).any fun row ↦ row.roomId == some roomId := by
  unfold Db.holds
  rw [Db.game?_apply]

/-- A change acts on each cell by itself. -/
theorem cell_apply_congr (k : Key) (c : Change) (d d' : Db) (h : d.cell k = d'.cell k) :
    (d.apply c).cell k = (d'.apply c).cell k := by
  cases k with
  | game id =>
    obtain ⟨hrow, hmoves⟩ := Cell.game.inj h
    simp only [Db.cell, Db.game?_apply, Db.movesOf_apply, hrow, hmoves]
  | user id =>
    obtain ⟨hrow, hscores, hach⟩ := Cell.user.inj h
    simp only [Db.cell, Db.user?_apply, Db.scoresOf_apply, Db.achievementsOf_apply, hrow, hscores,
      hach]
  | room roomId =>
    have hh := Cell.room.inj h
    refine congrArg Cell.room (funext fun id ↦ ?_)
    rw [Db.holds_apply, Db.holds_apply]
    cases c.game id with
    | some row => rfl
    | none => exact congrFun hh id

private theorem fixed_apply (d : Db) (c : Change) : (d.apply c).fixed = d.fixed := by
  unfold Db.fixed
  rw [Db.achievements_apply]
  exact congrArg (·, d.achievements) (funext fun id ↦ d.userExists_apply c id)

section Congr

variable {d d' : Db} {held : List Key}

private theorem game?_congr (h : backend.Agree held d d') {id : Nat} (hk : .game id ∈ held) :
    d.game? id = d'.game? id := (Cell.game.inj (h.cell _ hk)).1

private theorem movesOf_congr (h : backend.Agree held d d') {id : Nat} (hk : .game id ∈ held) :
    d.movesOf id = d'.movesOf id := (Cell.game.inj (h.cell _ hk)).2

private theorem user?_congr (h : backend.Agree held d d') {id : Nat} (hk : .user id ∈ held) :
    d.user? id = d'.user? id := (Cell.user.inj (h.cell _ hk)).1

private theorem scoresOf_congr (h : backend.Agree held d d') {id : Nat} (hk : .user id ∈ held) :
    d.scoresOf id = d'.scoresOf id := (Cell.user.inj (h.cell _ hk)).2.1

private theorem achievementsOf_congr (h : backend.Agree held d d') {id : Nat}
    (hk : .user id ∈ held) :
    d.achievementsOf id = d'.achievementsOf id := (Cell.user.inj (h.cell _ hk)).2.2

private theorem roomTaken_congr (h : backend.Agree held d d') {roomId : String}
    (hk : .room roomId ∈ held) : d.roomTaken roomId = d'.roomTaken roomId := by
  have hholds : d.holds roomId = d'.holds roomId := Cell.room.inj (h.cell _ hk)
  have hiff : ∀ d : Db, d.roomTaken roomId = true ↔ ∃ id, d.holds roomId id = true := by
    intro d
    rw [Db.roomTaken_iff]
    simp only [Db.holds, Option.any_eq_true, beq_iff_eq]
  rw [Bool.eq_iff_iff, hiff, hiff, hholds]

private theorem userExists_congr (h : backend.Agree held d d') (id : Nat) :
    d.userExists id = d'.userExists id := congrFun (congrArg Prod.fst h.fixed) id

private theorem achievements_congr (h : backend.Agree held d d') :
    d.achievements = d'.achievements :=
  congrArg Prod.snd h.fixed

end Congr

private theorem locks_congr (stmt : Stmt) (d d' : Db) (h : backend.Agree (locks stmt d) d d') :
    locks stmt d = locks stmt d' := by
  cases stmt with
  | releaseRoom id => simp only [locks, game?_congr h List.mem_cons_self]
  | _ => rfl

private theorem updateGame_congr {d d' : Db} {id : Nat} (h : d.game? id = d'.game? id)
    (fits : GameRow → Bool) (new : GameRow → GameRow) :
    updateGame d id fits new = updateGame d' id fits new := by
  unfold updateGame
  rw [h]

/-- What a statement does depends only on the rows it locks. -/
theorem exec_congr (stmt : Stmt) (d d' : Db) (h : backend.Agree (locks stmt d) d d') :
    exec stmt d = exec stmt d' := by
  cases stmt with
  | lockGame id => simp only [exec, game?_congr h List.mem_cons_self]
  | updateBoard id fen => simp only [exec, updateGame_congr (game?_congr h List.mem_cons_self)]
  | insertMove row =>
    simp only [exec, movesOf_congr h List.mem_cons_self, game?_congr h List.mem_cons_self]
  | finishGame id result winnerColor =>
    simp only [exec, updateGame_congr (game?_congr h List.mem_cons_self)]
  | lockUsers ids =>
    have hrows : (ids.dedup.insertionSort (· ≤ ·)).filterMap d.user? =
        (ids.dedup.insertionSort (· ≤ ·)).filterMap d'.user? := by
      apply List.filterMap_congr
      intro id hid
      rw [List.mem_insertionSort, List.mem_dedup] at hid
      exact user?_congr h (List.mem_map_of_mem hid)
    simp only [exec, hrows]
  | setElo id elo => simp only [exec, userExists_congr h]
  | insertScore row =>
    simp only [exec, scoresOf_congr h List.mem_cons_self, userExists_congr h,
      game?_congr h (List.mem_cons_of_mem _ List.mem_cons_self)]
  | countWins id => simp only [exec, scoresOf_congr h List.mem_cons_self]
  | insertAchievements id keys =>
    simp only [exec, achievementsOf_congr h List.mem_cons_self, userExists_congr h,
      achievements_congr h]
  | setBlack id userId username =>
    simp only [exec, userExists_congr h, updateGame_congr (game?_congr h List.mem_cons_self)]
  | insertGame row =>
    have hroom : row.roomId.any d.roomTaken = row.roomId.any d'.roomTaken := by
      cases hr : row.roomId with
      | none => rfl
      | some roomId =>
        apply roomTaken_congr h
        simp [locks, hr]
    simp only [exec, game?_congr h List.mem_cons_self, hroom]
  | releaseRoom id => simp only [exec, updateGame_congr (game?_congr h List.mem_cons_self)]
  | abandon id => simp only [exec, updateGame_congr (game?_congr h List.mem_cons_self)]

/-- The rows a list of changes leaves alone: a key untouched by each of them. -/
def Change.spares (c : Change) (d : Db) : Key → Prop
  | .game id => c.game id = none ∧ c.moves id = []
  | .user id => (∀ row, row.id = id → c.user row = row) ∧
      (∀ row ∈ c.scores, row.userId ≠ id) ∧ c.achievements id = []
  | .room roomId => ∀ id row, c.game id = some row →
      (row.roomId == some roomId) = d.holds roomId id

private theorem cell_apply_of_spares {d : Db} {c : Change} {k : Key} (h : c.spares d k) :
    (d.apply c).cell k = d.cell k := by
  cases k with
  | game id =>
    obtain ⟨hgame, hmoves⟩ := h
    simp only [Db.cell, Db.game?_apply, Db.movesOf_apply, hgame, hmoves, List.append_nil,
      Option.none_or]
  | user id =>
    obtain ⟨huser, hscores, hach⟩ := h
    have hrow : (d.user? id).map c.user = d.user? id := by
      cases hu : d.user? id with
      | none => rfl
      | some row => exact congrArg some (huser row (Db.id_of_user? hu))
    have hnew : (c.scores.filter fun row ↦ row.userId == id) = [] := by
      rw [List.filter_eq_nil_iff]
      intro row hmem
      simpa using hscores row hmem
    simp only [Db.cell, Db.user?_apply, Db.scoresOf_apply, Db.achievementsOf_apply, hrow, hnew,
      hach, List.append_nil]
  | room roomId =>
    refine congrArg Cell.room (funext fun id ↦ ?_)
    rw [Db.holds_apply]
    cases hg : c.game id with
    | none => rfl
    | some row => exact h id row hg

/-- A conditional update that keeps the room id touches the row of its game only. -/
theorem updateGame_spares {d : Db} {id : Nat} {fits : GameRow → Bool} {new : GameRow → GameRow}
    (hid : ∀ row, (new row).id = row.id) (hroom : ∀ row, (new row).roomId = row.roomId)
    {k : Key} (hk : k ≠ .game id) :
    (backend.applyAll d (counted (updateGame d id fits new)).1).cell k = d.cell k := by
  unfold counted
  split
  · next row hrow =>
    obtain ⟨old, hold, hrow⟩ := Option.bind_eq_some_iff.mp hrow
    split at hrow
    · obtain rfl := Option.some.inj hrow
      have hkey := Db.id_of_game? hold
      refine cell_apply_of_spares (c := .putGame (new old)) ?_
      cases k with
      | game id' =>
        refine ⟨if_neg ?_, rfl⟩
        rw [hid, hkey]
        rintro rfl
        exact hk rfl
      | user id' => exact ⟨fun _ _ ↦ rfl, nofun, rfl⟩
      | room roomId =>
        intro id' row' hrow'
        simp only [Change.game] at hrow'
        split at hrow'
        · next heq =>
          obtain rfl := Option.some.inj hrow'
          rw [heq, hid, hkey, hroom]
          unfold Db.holds
          rw [hold]
          rfl
        · cases hrow'
    · cases hrow
  · rfl

private theorem spares_room {d : Db} {c : Change} (h : ∀ id, c.game id = none) (roomId : String) :
    c.spares d (.room roomId) := by
  intro id row hrow
  rw [h id] at hrow
  cases hrow

/-- A statement that makes one change touches what its locks name. -/
theorem frame_single {d : Db} {c : Change} {k : Key} (h : c.spares d k) :
    (backend.applyAll d [c]).cell k = d.cell k := cell_apply_of_spares h

private theorem spares_addMove (d : Db) {row : MoveRow} {k : Key} (hk : k ≠ .game row.gameId) :
    (Change.addMove row).spares d k := by
  cases k with
  | game id =>
    refine ⟨rfl, if_neg ?_⟩
    rintro rfl
    exact hk rfl
  | user id => exact ⟨fun _ _ ↦ rfl, nofun, rfl⟩
  | room roomId => exact spares_room (fun _ ↦ rfl) roomId

private theorem spares_setElo (d : Db) {id : Nat} {elo : Int} {k : Key} (hk : k ≠ .user id) :
    (Change.setElo id elo).spares d k := by
  cases k with
  | game id' => exact ⟨rfl, rfl⟩
  | user id' =>
    refine ⟨fun row hrow ↦ if_neg ?_, nofun, rfl⟩
    rintro rfl
    exact hk (hrow ▸ rfl)
  | room roomId => exact spares_room (fun _ ↦ rfl) roomId

private theorem spares_addScore (d : Db) {row : ScoreRow} {k : Key} (hk : k ≠ .user row.userId) :
    (Change.addScore row).spares d k := by
  cases k with
  | game id => exact ⟨rfl, rfl⟩
  | user id =>
    refine ⟨fun _ _ ↦ rfl, ?_, rfl⟩
    intro row' hrow'
    rw [List.mem_singleton.mp hrow']
    rintro rfl
    exact hk rfl
  | room roomId => exact spares_room (fun _ ↦ rfl) roomId

private theorem spares_addAchievement (d : Db) {id : Nat} {key : String} {k : Key}
    (hk : k ≠ .user id) :
    (Change.addAchievement id key).spares d k := by
  cases k with
  | game id' => exact ⟨rfl, rfl⟩
  | user id' =>
    refine ⟨fun _ _ ↦ rfl, nofun, if_neg ?_⟩
    rintro rfl
    exact hk rfl
  | room roomId => exact spares_room (fun _ ↦ rfl) roomId

private theorem frame_addAchievements (d : Db) (id : Nat) (keys : List String) {k : Key}
    (hk : k ≠ .user id) :
    (backend.applyAll d (keys.map (.addAchievement id))).cell k = d.cell k := by
  induction keys generalizing d with
  | nil => rfl
  | cons key keys ih => exact (ih _).trans (cell_apply_of_spares (spares_addAchievement d hk))

/-- A new game takes a free key and a free room id. -/
theorem spares_insertGame {d : Db} {row : GameRow} {k : Key} (hkey : d.game? row.id = none)
    (hk : k ∉ locks (.insertGame row) d) : (Change.putGame row).spares d k := by
  rw [locks, List.mem_cons, not_or] at hk
  cases k with
  | game id =>
    refine ⟨if_neg ?_, rfl⟩
    rintro rfl
    exact hk.1 rfl
  | user id => exact ⟨fun _ _ ↦ rfl, nofun, rfl⟩
  | room roomId =>
    intro id row' hrow
    simp only [Change.game] at hrow
    split at hrow
    · next heq =>
      obtain rfl := Option.some.inj hrow
      have hne : row.roomId ≠ some roomId := by
        intro hr
        apply hk.2
        simp [hr]
      rw [heq, Db.holds, hkey]
      simpa using hne
    · cases hrow

/-- Releasing a room id touches the game and the id it held. -/
theorem spares_releaseRoom {d : Db} {row : GameRow} {id : Nat} {k : Key}
    (hrow : d.game? id = some row) (hk : k ∉ locks (.releaseRoom id) d) :
    (Change.putGame { row with roomId := none }).spares d k := by
  have hkey := Db.id_of_game? hrow
  rw [locks, List.mem_cons, not_or, hrow] at hk
  cases k with
  | game id' =>
    refine ⟨if_neg ?_, rfl⟩
    rintro rfl
    exact hk.1 (hkey ▸ rfl)
  | user id' => exact ⟨fun _ _ ↦ rfl, nofun, rfl⟩
  | room roomId =>
    intro id' row' hrow'
    simp only [Change.game] at hrow'
    split at hrow'
    · next heq =>
      obtain rfl := Option.some.inj hrow'
      have hne : row.roomId ≠ some roomId := by
        intro hr
        apply hk.2
        simp [hr]
      rw [heq, hkey, Db.holds, hrow]
      simpa using hne
    · cases hrow'

/-- A statement changes only what its locks name. -/
theorem frame (stmt : Stmt) (d : Db) (cs : List Change) (a : Ans stmt)
    (h : exec stmt d = some (cs, a)) (k : Key) (hk : k ∉ locks stmt d) :
    (backend.applyAll d cs).cell k = d.cell k := by
  cases stmt with
  | lockGame id => obtain rfl := (Prod.mk.inj (Option.some.inj h)).1; rfl
  | updateBoard id fen =>
    have hcs : (counted _).1 = cs := congrArg Prod.fst (Option.some.inj h)
    rw [← hcs]
    apply updateGame_spares
    · exact fun _ ↦ rfl
    · exact fun _ ↦ rfl
    · exact List.ne_of_not_mem_cons hk
  | insertMove row =>
    simp only [exec] at h
    split at h
    · obtain rfl := (Prod.mk.inj (Option.some.inj h)).1
      exact frame_single (spares_addMove d (List.ne_of_not_mem_cons hk))
    · cases h
  | finishGame id result winnerColor =>
    have hcs : (counted _).1 = cs := congrArg Prod.fst (Option.some.inj h)
    rw [← hcs]
    apply updateGame_spares
    · exact fun _ ↦ rfl
    · exact fun _ ↦ rfl
    · exact List.ne_of_not_mem_cons hk
  | lockUsers ids => obtain rfl := (Prod.mk.inj (Option.some.inj h)).1; rfl
  | setElo id elo =>
    simp only [exec] at h
    split at h
    · split at h
      · obtain rfl := (Prod.mk.inj (Option.some.inj h)).1
        exact frame_single (spares_setElo d (List.ne_of_not_mem_cons hk))
      · cases h
    · obtain rfl := (Prod.mk.inj (Option.some.inj h)).1
      rfl
  | insertScore row =>
    simp only [exec] at h
    split at h
    · cases h
    · split at h
      · obtain rfl := (Prod.mk.inj (Option.some.inj h)).1
        rfl
      · split at h
        · obtain rfl := (Prod.mk.inj (Option.some.inj h)).1
          exact frame_single (spares_addScore d (List.ne_of_not_mem_cons hk))
        · cases h
  | countWins id => obtain rfl := (Prod.mk.inj (Option.some.inj h)).1; rfl
  | insertAchievements id keys =>
    simp only [exec] at h
    split at h
    · obtain rfl := (Prod.mk.inj (Option.some.inj h)).1
      exact frame_addAchievements d id _ (List.ne_of_not_mem_cons hk)
    · cases h
  | setBlack id userId username =>
    simp only [exec] at h
    split at h
    · obtain rfl := (Prod.mk.inj (Option.some.inj h)).1
      apply updateGame_spares
      · exact fun _ ↦ rfl
      · exact fun _ ↦ rfl
      · exact List.ne_of_not_mem_cons hk
    · cases h
  | insertGame row =>
    simp only [exec] at h
    split at h
    · cases h
    · next hfree =>
      obtain rfl := (Prod.mk.inj (Option.some.inj h)).1
      refine frame_single (spares_insertGame ?_ hk)
      rw [← Option.not_isSome_iff_eq_none]
      exact fun hs ↦ hfree (by simp [hs])
  | releaseRoom id =>
    simp only [exec, updateGame, counted] at h
    cases hrow : d.game? id with
    | none =>
      rw [hrow] at h
      obtain rfl := (Prod.mk.inj (Option.some.inj h)).1
      rfl
    | some row =>
      rw [hrow, Option.bind_some] at h
      by_cases hf : (row.status == .finished) = true
      · rw [if_pos hf] at h
        obtain rfl := (Prod.mk.inj (Option.some.inj h)).1
        exact frame_single (spares_releaseRoom hrow hk)
      · rw [if_neg hf] at h
        obtain rfl := (Prod.mk.inj (Option.some.inj h)).1
        rfl
  | abandon id =>
    have hcs : (counted _).1 = cs := congrArg Prod.fst (Option.some.inj h)
    rw [← hcs]
    apply updateGame_spares
    · exact fun _ ↦ rfl
    · exact fun _ ↦ rfl
    · exact List.ne_of_not_mem_cons hk

/-- Statements change nothing but what they lock, and read nothing else. -/
theorem backend_lawful : backend.Lawful where
  apply_congr := cell_apply_congr
  apply_fixed := fixed_apply
  locks_congr := locks_congr
  exec_congr := exec_congr
  frame := frame

end ChessStack.Store
