import ChessStack.Server.Follow
import ChessStack.Server.Script

/-!
# Rematches

Library `Server`. The transaction of `accept_rematch` in
`Chess-Backend/src/socket/gameSocket.js` takes the room id from the finished game and gives it
to a new one. A task may hold a game that was finished long ago and has given up its room since;
what keeps it from a second rematch is the unique index, for the room id is never free in
between.
-/

namespace ChessStack.Server

open ChessStack.Chess ChessStack.Js ChessStack.Library ChessStack.Store

/-! ### Who holds a room id -/

/-- No room id is held by two games. -/
def OneHolder (d : Db) : Prop :=
  ∀ name id id', d.holds name id = true → d.holds name id' = true → id = id'

private theorem holds_iff {d : Db} {name : String} {id : Nat} :
    d.holds name id = true ↔ ∃ row, d.game? id = some row ∧ row.roomId = some name := by
  simp only [Db.holds, Option.any_eq_true, beq_iff_eq]

private theorem taken_iff {d : Db} {name : String} :
    d.roomTaken name = true ↔ ∃ id, d.holds name id = true := by
  rw [Db.roomTaken_iff]
  simp only [holds_iff]

/-- How the row of a game can change: it keeps its room id or gives it up, and its seats once
taken stay. -/
structure RowKept (row row' : GameRow) : Prop where
  room : row'.roomId = row.roomId ∨ row'.roomId = none
  white : row'.whiteUserId = row.whiteUserId ∧ row'.whiteUsername = row.whiteUsername
  black : row.blackUsername.isSome → row'.blackUserId = row.blackUserId ∧
    row'.blackUsername = row.blackUsername

/-- How the tables can change: no row is lost, and a room id once held is always held. -/
structure RoomsOnward (d d' : Db) : Prop where
  rows : ∀ id row, d.game? id = some row → ∃ row', d'.game? id = some row' ∧ RowKept row row'
  held : ∀ name, d.roomTaken name = true → d'.roomTaken name = true

private theorem RowKept.refl (row : GameRow) : RowKept row row :=
  ⟨Or.inl rfl, ⟨rfl, rfl⟩, fun _ ↦ ⟨rfl, rfl⟩⟩

private theorem RowKept.trans {row row' row'' : GameRow} (h : RowKept row row')
    (h' : RowKept row' row'') :
    RowKept row row'' where
  room := by
    rcases h'.room with heq | hnone
    · rw [heq]
      exact h.room
    · exact Or.inr hnone
  white := ⟨h'.white.1.trans h.white.1, h'.white.2.trans h.white.2⟩
  black hsome := by
    obtain ⟨hid, hname⟩ := h.black hsome
    obtain ⟨hid', hname'⟩ := h'.black (hname ▸ hsome)
    exact ⟨hid'.trans hid, hname'.trans hname⟩

/-- Rooms are onward from themselves. -/
theorem RoomsOnward.refl (d : Db) : RoomsOnward d d :=
  ⟨fun _ row hrow ↦ ⟨row, hrow, .refl row⟩, fun _ h ↦ h⟩

/-- Onward from onward. -/
theorem RoomsOnward.trans {d d' d'' : Db} (h : RoomsOnward d d') (h' : RoomsOnward d' d'') :
    RoomsOnward d d'' where
  rows id row hrow := by
    obtain ⟨row', hrow', hkept⟩ := h.rows id row hrow
    obtain ⟨row'', hrow'', hkept'⟩ := h'.rows id row' hrow'
    exact ⟨row'', hrow'', hkept.trans hkept'⟩
  held name hheld := h'.held name (h.held name hheld)

/-! ### One row changes -/

section Update

variable {d d' : Db} {gameId : Nat} {row : GameRow}

private theorem holds_update (hgame : ∀ id, d'.game? id = if id = gameId then some row else d.game? id)
    (name : String) (id : Nat) :
    d'.holds name id = if id = gameId then row.roomId == some name else d.holds name id := by
  rw [Db.holds, hgame]
  split <;> rfl

/-- A new version of a row that keeps its room id. -/
theorem keep_update {old : GameRow} (h : OneHolder d) (hold : d.game? gameId = some old)
    (hgame : ∀ id, d'.game? id = if id = gameId then some row else d.game? id)
    (hroom : row.roomId = old.roomId) (hkept : RowKept old row) :
    OneHolder d' ∧ RoomsOnward d d' := by
  have hsame : ∀ name id, d'.holds name id = d.holds name id := by
    intro name id
    rw [holds_update hgame]
    split
    · next heq => rw [heq, Db.holds, hold, hroom, Option.any_some]
    · rfl
  refine ⟨?_, ?_, ?_⟩
  · intro name id id'
    rw [hsame, hsame]
    exact h name id id'
  · intro id row' hrow'
    rw [hgame]
    split
    · next heq =>
      rw [heq, hold, Option.some.injEq] at hrow'
      exact ⟨row, rfl, hrow' ▸ hkept⟩
    · exact ⟨row', hrow', .refl row'⟩
  · intro name
    rw [taken_iff, taken_iff]
    simp only [hsame]
    exact id

/-- A new game takes a free room id. -/
theorem keep_insert (h : OneHolder d) (hfresh : d.game? gameId = none)
    (hgame : ∀ id, d'.game? id = if id = gameId then some row else d.game? id)
    (hfree : ∀ name, row.roomId = some name → d.roomTaken name = false) :
    OneHolder d' ∧ RoomsOnward d d' := by
  have hunheld : ∀ name id, row.roomId = some name → d.holds name id = true → False := by
    intro name id hname hholds
    have htaken := taken_iff.mpr ⟨id, hholds⟩
    rw [hfree name hname] at htaken
    cases htaken
  refine ⟨?_, ?_, ?_⟩
  · intro name id id' hid hid'
    rw [holds_update hgame] at hid hid'
    split at hid <;> split at hid'
    · next heq heq' => rw [heq, heq']
    · exact (hunheld name id' (beq_iff_eq.mp hid) hid').elim
    · exact (hunheld name id (beq_iff_eq.mp hid') hid).elim
    · exact h name id id' hid hid'
  · intro id row' hrow'
    refine ⟨row', ?_, .refl row'⟩
    rw [hgame, if_neg]
    · exact hrow'
    · rintro rfl
      rw [hfresh] at hrow'
      cases hrow'
  · intro name hheld
    obtain ⟨id, hid⟩ := taken_iff.mp hheld
    refine taken_iff.mpr ⟨id, ?_⟩
    rw [holds_update hgame, if_neg]
    · exact hid
    · rintro rfl
      rw [Db.holds, hfresh] at hid
      cases hid

/-- A game after a row was put. -/
theorem game?_putGame (d : Db) (row : GameRow) (id : Nat) :
    (d.apply (.putGame row)).game? id = if id = row.id then some row else d.game? id := by
  rw [Db.game?_apply, Change.game]
  split <;> rfl

/-- The same for a row put in the place of the one found under its key. -/
theorem keep_putGame {old : GameRow} (h : OneHolder d) (hold : d.game? gameId = some old)
    (hid : row.id = old.id) (hroom : row.roomId = old.roomId) (hkept : RowKept old row) :
    OneHolder (d.apply (.putGame row)) ∧ RoomsOnward d (d.apply (.putGame row)) := by
  refine keep_update h hold (fun id ↦ ?_) hroom hkept
  rw [game?_putGame, hid, Db.id_of_game? hold]

end Update

/-! ### The protocol of room ids -/

section Protocol

variable (js : ChessJs)

/-- The players are those of the row with their colours switched. -/
structure Switched (row : GameRow) (white black : Player) : Prop where
  seated : row.blackUsername.isSome
  white : white.userId = row.blackUserId ∧ white.name = row.blackUsername
  black : black.userId = row.whiteUserId ∧ black.name = row.whiteUsername

/-- What a rematch assumes of its game: it held the room id when the room was read, and whoever
held it since has passed it on. -/
def RematchPre : Call js → Db → Prop
  | .rematch gameId roomId white black _ _, d => ∃ row name, d.game? gameId = some row ∧
      roomId = some name ∧ d.roomTaken name = true ∧
      (row.roomId = some name ∨ row.roomId = none) ∧ Switched row white black
  | _, _ => True

/-- The protocol of room ids. -/
def roomProtocol : System.Protocol Db (Call js) where
  inv := OneHolder
  rely := RoomsOnward
  pre := RematchPre js

end Protocol

section Keep

variable {js : ChessJs} {accounts : List SocketUser}
  {computeNewRatings : Int → Int → Score → Int × Int} {d d' : Db}

/-- A rematch with switched colours stays one. -/
theorem Switched.stable {row row' : GameRow} {white black : Player} (h : Switched row white black)
    (hkept : RowKept row row') : Switched row' white black where
  seated := by
    rw [(hkept.black h.seated).2]
    exact h.seated
  white := by
    rw [(hkept.black h.seated).1, (hkept.black h.seated).2]
    exact h.white
  black := by
    rw [hkept.white.1, hkept.white.2]
    exact h.black

/-- What a rematch needs survives the commits of the others. -/
theorem RematchPre.stable (c : Call js) (h : RematchPre js c d) (hd : RoomsOnward d d') :
    RematchPre js c d' := by
  cases c with
  | rematch gameId roomId white black newId now =>
    obtain ⟨row, name, hrow, hname, hheld, hroom, hswitched⟩ := h
    obtain ⟨row', hrow', hkept⟩ := hd.rows _ _ hrow
    refine ⟨row', name, hrow', hname, hd.held name hheld, ?_, hswitched.stable hkept⟩
    rcases hkept.room with heq | hnone
    · rw [heq]
      exact hroom
    · exact Or.inr hnone
  | _ => trivial

private theorem keep_rooms_persistMove {gameId : Nat} {color : Color} {requested : Option Json}
    {value : Option (Persisted js)} (h : OneHolder d) (hrun : backend.run
      (persistMoveAtomic js gameId color requested) d = some (value, d')) :
    OneHolder d' ∧ RoomsOnward d d' := by
  obtain ⟨-, rfl⟩ | ⟨row, chess, persisted, rfl, hs⟩ := persistMoveAtomic_run hrun
  · exact ⟨h, .refl _⟩
  · exact keep_update h hs.found hs.game? rfl ⟨Or.inl rfl, ⟨rfl, rfl⟩, fun _ ↦ ⟨rfl, rfl⟩⟩

private theorem keep_rooms_claimBlack {gameId : Nat} {user : SocketUser} {value : Option GameRow}
    (h : OneHolder d) (hrun : backend.run (claimBlack gameId user) d = some (value, d')) :
    OneHolder d' ∧ RoomsOnward d d' := by
  obtain ⟨-, rfl, -⟩ | ⟨row, hrow, -, hfree, -, rfl⟩ := claimBlack_run hrun
  · exact ⟨h, .refl _⟩
  · refine keep_putGame h hrow rfl rfl ⟨Or.inl rfl, ⟨rfl, rfl⟩, fun hsome ↦ ?_⟩
    rw [hfree] at hsome
    cases hsome

private theorem keep_rooms_finalize {room : Room js} {result : GameResult}
    {winnerColor : Option Color}
    {now : Nat} {value : Finalized} (h : OneHolder d) (hrun : backend.run
      (finalizeGameAtomic computeNewRatings room result winnerColor now) d = some (value, d')) :
    OneHolder d' ∧ RoomsOnward d d' := by
  obtain ⟨-, -, rfl⟩ | ⟨-, row, hrow, -, -, rfl⟩ | ⟨row, _, _, _, _, hs⟩ :=
    finalizeGameAtomic_run hrun
  · exact ⟨h, .refl _⟩
  · exact keep_putGame h hrow rfl rfl ⟨Or.inl rfl, ⟨rfl, rfl⟩, fun _ ↦ ⟨rfl, rfl⟩⟩
  · exact keep_update h hs.found hs.game? rfl ⟨Or.inl rfl, ⟨rfl, rfl⟩, fun _ ↦ ⟨rfl, rfl⟩⟩

private theorem keep_rooms_abandonMany {id value : Nat} (h : OneHolder d)
    (hrun : backend.run (abandonMany id) d = some (value, d')) :
    OneHolder d' ∧ RoomsOnward d d' := by
  obtain rfl | ⟨row, hrow, -, rfl⟩ := abandonMany_run hrun
  · exact ⟨h, .refl _⟩
  · exact keep_putGame h hrow rfl rfl ⟨Or.inl rfl, ⟨rfl, rfl⟩, fun _ ↦ ⟨rfl, rfl⟩⟩

private theorem keep_rooms_create {id : Nat} {roomId : Option String} {userId : Option Nat}
    {username : Option String} {now : Nat} {value : GameRow} (h : OneHolder d)
    (hrun : backend.run (create id roomId userId username now) d = some (value, d')) :
    OneHolder d' ∧ RoomsOnward d d' := by
  obtain ⟨hfresh, hfree, rfl, rfl⟩ := create_run hrun
  exact keep_insert h hfresh (game?_putGame d _) hfree

/-- A committed rematch found the room id with its game: had that game given it up before,
somebody would hold it still. -/
theorem Rematched.held {gameId newId now : Nat} {name : String} {white black : Player}
    {old new : GameRow} (h : Rematched gameId (some name) white black newId now d old new d')
    (htaken : d.roomTaken name = true) : old.roomId = some name := by
  obtain ⟨id, hid⟩ := taken_iff.mp htaken
  by_cases heq : id = gameId
  · subst heq
    rw [Db.holds, h.found] at hid
    exact beq_iff_eq.mp hid
  · have hstill : (d.apply (.putGame { old with roomId := none })).roomTaken name = true := by
      refine taken_iff.mpr ⟨id, ?_⟩
      rw [holds_update (game?_putGame d _), if_neg]
      · exact hid
      · exact Db.id_of_game? h.found ▸ heq
    rw [h.free name rfl] at hstill
    cases hstill

private theorem keep_rooms_rematch {gameId newId now : Nat} {roomId : Option String}
    {white black : Player} {value : GameRow} (h : OneHolder d)
    (hpre : ∃ name, roomId = some name ∧ d.roomTaken name = true)
    (hrun : backend.run (rematch gameId roomId white black newId now) d = some (value, d')) :
    OneHolder d' ∧ RoomsOnward d d' := by
  obtain ⟨old, new, hnew, -⟩ := rematch_run hrun
  obtain ⟨name, rfl, htaken⟩ := hpre
  have hroom := hnew.held htaken
  have hid : new.id = newId := by rw [hnew.created]
  -- The old game gives up the room id.
  let released : GameRow := { old with roomId := none }
  have hreleased : ∀ n id, (d.apply (.putGame released)).holds n id = true →
      d.holds n id = true ∧ id ≠ gameId := by
    intro n id hholds
    rw [holds_update (game?_putGame d _)] at hholds
    split at hholds
    · cases beq_iff_eq.mp hholds
    · next hne => exact ⟨hholds, Db.id_of_game? hnew.found ▸ hne⟩
  have hone : OneHolder (d.apply (.putGame released)) := fun n id id' hn hn' ↦
    h n id id' (hreleased n id hn).1 (hreleased n id' hn').1
  have hkeep : ∀ n id, d.holds n id = true → id ≠ gameId →
      (d.apply (.putGame released)).holds n id = true := by
    intro n id hholds hne
    rw [holds_update (game?_putGame d _), if_neg]
    · exact hholds
    · exact (Db.id_of_game? hnew.found).symm ▸ hne
  have hrows : ∀ id row, d.game? id = some row → ∃ row',
      (d.apply (.putGame released)).game? id = some row' ∧ RowKept row row' := by
    intro id row hrow
    rw [game?_putGame]
    split
    · next heq =>
      have hkey : old.id = gameId := Db.id_of_game? hnew.found
      rw [heq, show released.id = gameId from hkey, hnew.found, Option.some.injEq] at hrow
      exact ⟨released, rfl, hrow ▸ ⟨Or.inr rfl, ⟨rfl, rfl⟩, fun _ ↦ ⟨rfl, rfl⟩⟩⟩
    · exact ⟨row, hrow, .refl row⟩
  -- The new one takes it.
  have hfresh : (d.apply (.putGame released)).game? newId = none := by
    rw [game?_putGame, if_neg]
    · exact hnew.fresh
    · intro heq
      have hfound := hnew.found
      rw [← Db.id_of_game? hfound, ← show newId = old.id from heq, hnew.fresh] at hfound
      cases hfound
  have hgame : ∀ id, d'.game? id =
      if id = newId then some new else (d.apply (.putGame released)).game? id := by
    intro id
    rw [hnew.after, game?_putGame, game?_putGame, hid]
    split <;> rfl
  have hfree : ∀ n, new.roomId = some n → (d.apply (.putGame released)).roomTaken n = false := by
    intro n hn
    rw [hnew.created] at hn
    exact hnew.free n hn
  obtain ⟨hone', honward⟩ := keep_insert hone hfresh hgame hfree
  refine ⟨hone', ?_, ?_⟩
  · intro id row hrow
    obtain ⟨row', hrow', hkept⟩ := hrows id row hrow
    obtain ⟨row'', hrow'', hkept'⟩ := honward.rows id row' hrow'
    exact ⟨row'', hrow'', hkept.trans hkept'⟩
  · intro n hn
    obtain ⟨id, hholds⟩ := taken_iff.mp hn
    by_cases hgameId : id = gameId
    · refine taken_iff.mpr ⟨newId, ?_⟩
      rw [hgameId, Db.holds, hnew.found, Option.any_some, hroom] at hholds
      rw [holds_update hgame, if_pos rfl, hnew.created]
      exact hholds
    · exact honward.held n (taken_iff.mpr ⟨id, hkeep n id hholds hgameId⟩)

end Keep

/-! ### The tasks follow it -/

section Tasks

variable {js : ChessJs} {accounts : List SocketUser}
  {computeNewRatings : Int → Int → Score → Int × Int}

/-- A refresh leaves the rest of its task a room that holds its room id. -/
theorem refreshed_rooms {S : System Db Change Key Cell ((Nat → Bool) × List String) Stmt Ans
    (Call js) (Result js)} {roomId : String} {next : Room js → GameTask js}
    (h : ∀ d row live, d.game? live.gameId = some row → live.id = some roomId →
      row.roomId = some roomId → live.players = playersOf row →
      (roomProtocol js).Safe S (next live) d) (d : Db) :
    (roomProtocol js).Safe S (refreshed js roomId next) d := by
  intro d' _ _
  dsimp only
  split
  · trivial
  · next snapshot hsnap =>
    split
    · split
      · exact ⟨trivial, fun _ _ _ _ _ _ _ ↦ trivial⟩
      · next live hlive =>
        obtain ⟨row, hrow, rfl⟩ := Option.map_eq_some_iff.mp hsnap
        obtain ⟨chess, -, rfl⟩ := Option.map_eq_some_iff.mp hlive
        have hfits := List.find?_some hrow
        rw [Bool.and_eq_true, beq_iff_eq] at hfits
        have hfound := Db.game?_of_mem (List.mem_of_find?_eq_some hrow)
        exact h d' row _ hfound hfits.1 hfits.1 rfl
    · trivial

/-- Two players, their colours switched, are one White and one Black. -/
theorem switched_players {row : GameRow} {white black : Player}
    (hwhite : ((playersOf row).map Player.switched).find? (·.color == .w) = some white)
    (hblack : ((playersOf row).map Player.switched).find? (·.color == .b) = some black) :
    Switched row white black := by
  unfold playersOf at hwhite hblack
  split at hwhite
  · next name hname =>
    rw [hname] at hblack
    dsimp only at hwhite hblack
    split at hwhite
    · cases hwhite
    · next hne =>
      rw [if_neg hne] at hblack
      obtain rfl := Option.some.inj hwhite
      obtain rfl := Option.some.inj hblack
      refine ⟨?_, ⟨rfl, hname.symm⟩, rfl, rfl⟩
      rw [hname]
      rfl
  · cases hwhite

private theorem spawn_rooms {t : GameTask js} (h : Spawn js accounts t) (d : Db) :
    (roomProtocol js).Safe (server js computeNewRatings accounts) t d := by
  cases h with
  | createRoom _ => exact ⟨trivial, fun _ _ _ _ _ _ _ ↦ trivial⟩
  | joinRoom _ =>
    apply refreshed_rooms
    intro d row live _ _ _ _
    split
    · trivial
    · split
      · trivial
      · exact ⟨trivial, fun _ _ _ _ _ _ _ ↦ trivial⟩
  | makeMove _ =>
    apply refreshed_rooms
    intro d row live _ _ _ _
    split
    · trivial
    · split
      · trivial
      · split
        · trivial
        · refine ⟨trivial, fun _ value _ _ _ _ _ ↦ ?_⟩
          cases value with
          | none => trivial
          | some persisted =>
            dsimp only
            split
            · exact ⟨trivial, fun _ _ _ _ _ _ _ ↦ trivial⟩
            · trivial
  | gameOver _ =>
    apply refreshed_rooms
    intro d row live _ _ _ _
    split
    · trivial
    · split
      · trivial
      · split
        · trivial
        · exact ⟨trivial, fun _ _ _ _ _ _ _ ↦ trivial⟩
  | concede _ =>
    apply refreshed_rooms
    intro d row live _ _ _ _
    split
    · trivial
    · split
      · trivial
      · exact ⟨trivial, fun _ _ _ _ _ _ _ ↦ trivial⟩
  | acceptRematch _ =>
    apply refreshed_rooms
    intro d row live hrow hid hroom hplayers
    split
    · trivial
    · split
      · trivial
      · dsimp only
        rw [hplayers]
        split
        · next white black hwhite hblack =>
          refine ⟨⟨row, _, hrow, hid, ?_, Or.inl hroom, switched_players hwhite hblack⟩,
            fun _ _ _ _ _ _ _ ↦ trivial⟩
          exact Db.roomTaken_iff.mpr ⟨_, row, hrow, hroom⟩
        · trivial
  | abandonMany => exact ⟨trivial, fun _ _ _ _ _ _ _ ↦ trivial⟩

/-- The server keeps the protocol of room ids. -/
theorem roomProtocol_sound : (roomProtocol js).Sound (server js computeNewRatings accounts) where
  start d hd name id id' hid _ := by
    obtain ⟨row, hrow, -⟩ := holds_iff.mp hid
    have hmem := List.mem_of_find?_eq_some hrow
    rw [hd.games] at hmem
    cases hmem
  refl := RoomsOnward.refl
  trans _ _ _ := RoomsOnward.trans
  stable c _ _ := RematchPre.stable c
  commit c d value d' hinv hpre hrun := by
    cases c with
    | create id roomId user now => exact keep_rooms_create hinv hrun
    | claimBlack gameId user => exact keep_rooms_claimBlack hinv hrun
    | persistMove gameId sender player requested => exact keep_rooms_persistMove hinv hrun
    | finalize room result winnerColor now => exact keep_rooms_finalize hinv hrun
    | rematch gameId roomId white black newId now =>
      obtain ⟨-, name, -, hname, htaken, -⟩ := hpre
      exact keep_rooms_rematch hinv ⟨name, hname, htaken⟩ hrun
    | abandonMany id => exact keep_rooms_abandonMany hinv hrun
  spawn _ ht d _ := spawn_rooms ht d

/-- The server keeps both protocols of its tables. -/
theorem bothProtocols_sound {at_ : js.Game → Position → Prop} (hjs : js.Follows at_) :
    ((gameProtocol js at_ accounts).and (roomProtocol js)).Sound
      (server js computeNewRatings accounts) := (gameProtocol_sound hjs).and roomProtocol_sound

end Tasks

/-! ### At most one rematch -/

/-- The outcome is a committed rematch of the game. -/
def Rematches {js : ChessJs} (gameId : Nat) : Outcome Db (Call js) (Result js) → Bool
  | .committed (.rematch id ..) _ _ _ _ => id == gameId
  | _ => false

/-- The committed rematches of a game. -/
def successors {js : ChessJs} (log : Log js) (gameId : Nat) : Log js :=
  log.filter (Rematches gameId)

/-- The new game is the old one's rematch in the tables: the same room and the same two users
with their colours swapped, in progress with no moves. -/
structure Successor (old new : GameRow) (d : Db) : Prop where
  room : old.roomId.isSome ∧ new.roomId = old.roomId
  white : new.whiteUserId = old.blackUserId ∧ new.whiteUsername = old.blackUsername
  black : new.blackUserId = old.whiteUserId ∧ new.blackUsername = old.whiteUsername
  seated : new.whiteUserId.isSome ∧ new.blackUserId.isSome
  status : new.status = .inProgress
  moves : d.movesOf new.id = []

section Log

variable {js : ChessJs} {at_ : js.Game → Position → Prop} {accounts : List SocketUser}
  {computeNewRatings : Int → Int → Score → Int × Int} {d d' : Db}

/-- A committed rematch makes the successor of a finished game, which has given up its room. -/
theorem successor_of_run {gameId newId now : Nat} {roomId : Option String} {white black : Player}
    {value : GameRow} (hinv : DbOk js at_ accounts d)
    (hpre : RematchPre js (.rematch gameId roomId white black newId now) d)
    (hrun : backend.run (rematch gameId roomId white black newId now) d = some (value, d')) :
    ∃ old new, d.game? gameId = some old ∧ old.status = .finished ∧ d.game? newId = none ∧
      d'.game? newId = some new ∧ Successor old new d' ∧
      d'.game? gameId = some { old with roomId := none } := by
  obtain ⟨row, name, hrow, rfl, htaken, -, hswitched⟩ := hpre
  obtain ⟨old, new, hnew, -⟩ := rematch_run hrun
  have hroom := hnew.held htaken
  have hsame := hnew.found
  rw [hrow, Option.some.injEq] at hsame
  subst hsame
  have hid : new.id = newId := by rw [hnew.created]
  have hkey : row.id = gameId := Db.id_of_game? hrow
  have hgame : ∀ id, d'.game? id = if id = newId then some new else
      if id = gameId then some { row with roomId := none } else d.game? id := by
    intro id
    rw [hnew.after, game?_putGame, game?_putGame, game?_putGame, hid, ← hkey]
    split <;> rfl
  have hne : gameId ≠ newId := by
    rintro rfl
    rw [hnew.fresh] at hrow
    cases hrow
  refine ⟨row, new, hrow, hnew.finished, hnew.fresh, ?_, ?_, ?_⟩
  · rw [hgame, if_pos rfl]
  · have hmoves : d'.movesOf new.id = d.movesOf newId := by
      rw [hnew.after, hid]
      simp only [Db.movesOf_apply, Change.moves, List.append_nil]
    have hwhite := (hinv.rows _ _ hrow).white
    obtain ⟨user, -, huser, -⟩ := hwhite
    refine ⟨?_, ?_, ?_, ?_, ?_, hmoves.trans (hinv.orphans newId hnew.fresh).1⟩
    · rw [hroom, hnew.created]
      exact ⟨rfl, rfl⟩
    · rw [hnew.created]
      exact hswitched.white
    · rw [hnew.created]
      exact hswitched.black
    · rw [hnew.created]
      refine ⟨?_, hnew.seated.1⟩
      obtain ⟨white', -, black', -, hseats⟩ := (hinv.rows _ _ hrow).seats hswitched.seated
      change white.userId.isSome
      rw [hswitched.white.1, hseats.blackId]
      rfl
    · rw [hnew.created]
  · rw [hgame, if_neg hne, if_pos rfl]

/-- What the log says of rematches: who has a successor has no room. -/
def Spent (log : Log js) (d : Db) : Prop :=
  ∀ gameId, (successors log gameId).length ≤ 1 ∧
    (successors log gameId ≠ [] → ∃ row, d.game? gameId = some row ∧ row.roomId = none)

private theorem successors_append (log log' : Log js) (gameId : Nat) :
    successors (log ++ log') gameId = successors log gameId ++ successors log' gameId :=
  List.filter_append log log'

private theorem spent_of_trace (hjs : js.Follows at_) {allowed : Call js → Db → Prop} {log : Log js}
    (h : ((gameProtocol js at_ accounts).and (roomProtocol js)).Trace
      (server js computeNewRatings accounts) allowed log d) : Spent log d := by
  refine h.rule (J := Spent) ?_ ?_ ?_
  · exact fun d _ gameId ↦ ⟨Nat.zero_le _, fun hne ↦ absurd rfl hne⟩
  · intro log d c value d' answered ih hinv hpre _ hrun
    obtain ⟨-, -, honward⟩ := (bothProtocols_sound hjs).commit c d value d' hinv hpre hrun
    intro gameId
    obtain ⟨hle, hspent⟩ := ih gameId
    have hstays : (∃ row, d.game? gameId = some row ∧ row.roomId = none) →
        ∃ row, d'.game? gameId = some row ∧ row.roomId = none := by
      rintro ⟨row, hrow, hnone⟩
      obtain ⟨row', hrow', hkept⟩ := honward.rows _ _ hrow
      refine ⟨row', hrow', ?_⟩
      rcases hkept.room with heq | hgone
      · rw [heq, hnone]
      · exact hgone
    rw [successors_append]
    by_cases hthis : Rematches gameId (.committed c value d d' answered) = true
    · -- a rematch of this very game: it had its room until now
      cases c with
      | rematch id roomId white black newId now =>
        obtain rfl : id = gameId := beq_iff_eq.mp hthis
        obtain ⟨old, new, hold, -, -, -, hsucc, hafter⟩ :=
          successor_of_run hinv.1 hpre.2 hrun
        have hnone : successors log id = [] := by
          by_contra hne
          obtain ⟨row, hrow, hroom⟩ := hspent hne
          rw [hold, Option.some.injEq] at hrow
          have hsome := hsucc.room.1
          rw [hrow, hroom] at hsome
          cases hsome
        rw [hnone, List.nil_append]
        exact ⟨List.length_filter_le _ _, fun _ ↦ ⟨_, hafter, rfl⟩⟩
      | _ => cases hthis
    · have hnil : successors [Outcome.committed c value d d' answered] gameId = [] :=
        List.filter_cons_of_neg hthis
      rw [hnil, List.append_nil]
      exact ⟨hle, fun hne ↦ hstays (hspent hne)⟩
  · intro log d c ih gameId
    have hnil : successors [Outcome.failed c] gameId = ([] : Log js) := rfl
    rw [successors_append, hnil, List.append_nil]
    exact ih gameId

end Log

/-- Under every interleaving of tasks on any replicas, with transactions that abort anywhere: a
room id that a game holds is held by exactly one game from then on, a game has at most one
committed rematch, which makes its successor, and nothing but a committed call changes a row. -/
theorem one_rematch {js : ChessJs} {at_ : js.Game → Position → Prop} {accounts : List SocketUser}
    {computeNewRatings : Int → Int → Score → Int × Int} (hjs : js.Follows at_)
    {s : System.SessionState Db Change Key Stmt Ans (Call js) (Result js)}
    (hs : ((server js computeNewRatings accounts).sessions (always js)).Reachable s) :
    (∀ id row name, s.db.game? id = some row → row.roomId = some name → ∀ s',
      ((server js computeNewRatings accounts).sessions (always js)).Steps s s' →
      ∃! holder, s'.db.holds name holder = true) ∧
    (∀ gameId, (successors s.log gameId).length ≤ 1) ∧
    (∀ gameId roomId white black newId now value before after answered,
      .committed (.rematch gameId roomId white black newId now) value before after answered ∈ s.log →
      ∃ old new, before.game? gameId = some old ∧ old.status = .finished ∧
        before.game? newId = none ∧ after.game? newId = some new ∧ Successor old new after) ∧
    ∀ i s', ((server js computeNewRatings accounts).sessions (always js)).step s i s' →
      s'.db = s.db ∨ ∃ c value answered, s'.log = s.log ++ [.committed c value s.db s'.db answered] := by
  have hsound : ((gameProtocol js at_ accounts).and (roomProtocol js)).Sound
      (server js computeNewRatings accounts) := bothProtocols_sound hjs
  have hkept := System.Protocol.kept hsound backend_lawful hs
  refine ⟨?_, ?_, ?_, ?_⟩
  · intro id row name hrow hname s' hsteps
    have hkept' := System.Protocol.kept hsound backend_lawful (hs.steps hsteps)
    have honward := System.Protocol.rely_of_steps hsound backend_lawful hs hsteps
    have htaken := honward.2.held name (Db.roomTaken_iff.mpr ⟨id, row, hrow, hname⟩)
    obtain ⟨holder, hholder⟩ := taken_iff.mp htaken
    exact ⟨holder, hholder, fun other hother ↦ hkept'.inv.2 name other holder hother hholder⟩
  · exact fun gameId ↦ (spent_of_trace hjs hkept.trace gameId).1
  · intro gameId roomId white black newId now value before after answered hmem
    obtain ⟨hinv, hpre, hrun, -⟩ := hkept.trace.committed hsound hmem
    obtain ⟨old, new, hold, hfinished, hfresh, hnew, hsucc, -⟩ :=
      successor_of_run hinv.1 hpre.2 hrun
    exact ⟨old, new, hold, hfinished, hfresh, hnew, hsucc⟩
  · intro i s' hstep
    cases hstep with
    | commit _ _ => exact Or.inr ⟨_, _, _, rfl⟩
    | lost _ _ => exact Or.inr ⟨_, _, _, rfl⟩
    | _ => exact Or.inl rfl

/-- A finished game and its rematch, accepted by both players at once. -/
def rematchActions : List (System.Action Db (Call reference) (Result reference)) :=
  oneMoveGame.map (Line.action reference) ++
    [System.Action.spawn 4 (acceptRematch reference "ABCDEFG" ada 2 90000), .go 4,
      .spawn 5 (acceptRematch reference "ABCDEFG" ben 3 90000), .go 5, .go 5, .fail 4]

/-- One rematch is made, and it holds the room. -/
theorem one_rematch_accepted : ∃ s : System.SessionState Db Change Key Stmt Ans (Call reference)
    (Result reference), (successors s.log 1).length = 1 ∧ s.db.holds "ABCDEFG" 3 = true ∧
    (∀ gameId, (successors s.log gameId).length ≤ 1) ∧
    ∃! holder, s.db.holds "ABCDEFG" holder = true := by
  have hrun : ((server reference equalRatings [ada, ben]).performAll
      ⟨twoUsers, fun _ ↦ .done, []⟩ rematchActions).any (fun s ↦
      (s.db.game? 3).any (fun row ↦ row.roomId == some "ABCDEFG") &&
        (successors s.log 1).length == 1) = true := by decide +kernel
  obtain ⟨s, hplay, hfacts⟩ := Option.any_eq_true _ _ |>.mp hrun
  rw [Bool.and_eq_true, beq_iff_eq] at hfacts
  obtain ⟨hroom, hone⟩ := hfacts
  have hactions : ∀ action ∈ rematchActions,
      action.Of (server reference equalRatings [ada, ben]) := by
    intro action haction
    rcases List.mem_append.mp haction with haction | haction
    · obtain ⟨line, hline, rfl⟩ := List.mem_map.mp haction
      exact action_of ((show ∀ line ∈ oneMoveGame, line.From [ada, ben] by decide) line hline)
    · simp only [List.mem_cons, List.not_mem_nil, or_false] at haction
      rcases haction with rfl | rfl | rfl | rfl | rfl | rfl
      · exact Spawn.acceptRematch List.mem_cons_self
      · trivial
      · exact Spawn.acceptRematch (List.mem_cons_of_mem _ List.mem_cons_self)
      · trivial
      · trivial
      · trivial
  have hs := performed_reachable fresh_twoUsers hactions hplay
  obtain ⟨row, hrow, hname⟩ := Option.any_eq_true _ _ |>.mp hroom
  obtain ⟨hroom', honce, -, -⟩ := one_rematch reference_follows hs
  exact ⟨s.resting Change Key Stmt Ans, hone, hroom, honce, hroom' 3 row "ABCDEFG" hrow (beq_iff_eq.mp hname) _ .refl⟩

end ChessStack.Server
