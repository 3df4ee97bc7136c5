import ChessStack.Server.Tasks

/-!
# What the transactions do

Library `Server`. For each transaction everything a committed run can have done: what it found,
what it returned and the changes it made. Later proofs use these facts and never run a
transaction again.
-/

namespace ChessStack.Server

open ChessStack.Chess ChessStack.Js ChessStack.Library ChessStack.Store

/-! ### Lists of changes -/

section Changes

variable (d : Db) (cs : List Change) (id : Nat)

/-- Changes that do not touch a game leave it. -/
theorem game?_applyAll (h : ∀ c ∈ cs, c.game id = none) :
    (backend.applyAll d cs).game? id = d.game? id := by
  induction cs generalizing d with
  | nil => rfl
  | cons c cs ih =>
    refine (ih (d.apply c) fun c' hc' ↦ h c' (List.mem_cons_of_mem _ hc')).trans ?_
    rw [Db.game?_apply, h c List.mem_cons_self, Option.none_or]

/-- The moves of a game after some changes. -/
theorem movesOf_applyAll :
    (backend.applyAll d cs).movesOf id = d.movesOf id ++ cs.flatMap (·.moves id) := by
  induction cs generalizing d with
  | nil => exact (List.append_nil _).symm
  | cons c cs ih =>
    refine (ih (d.apply c)).trans ?_
    rw [Db.movesOf_apply, List.append_assoc, List.flatMap_cons]

/-- The scores after some changes. -/
theorem scores_applyAll :
    (backend.applyAll d cs).scores = d.scores ++ cs.flatMap Change.scores := by
  induction cs generalizing d with
  | nil => exact (List.append_nil _).symm
  | cons c cs ih =>
    refine (ih (d.apply c)).trans ?_
    rw [Db.scores_apply, List.append_assoc, List.flatMap_cons]

/-- A user after some changes. -/
theorem user?_applyAll : (backend.applyAll d cs).user? id =
    (d.user? id).map fun user ↦ cs.foldl (fun user c ↦ c.user user) user := by
  induction cs generalizing d with
  | nil => exact Option.map_id'.symm
  | cons c cs ih =>
    refine (ih (d.apply c)).trans ?_
    rw [Db.user?_apply, Option.map_map]
    rfl

/-- No change makes or removes a user. -/
theorem userExists_applyAll : (backend.applyAll d cs).userExists id = d.userExists id :=
  congrFun (congrArg Prod.fst (backend_lawful.fixed_applyAll d cs)) id

/-- No change touches the catalogue. -/
theorem achievements_applyAll : (backend.applyAll d cs).achievements = d.achievements :=
  congrArg Prod.snd (backend_lawful.fixed_applyAll d cs)

end Changes

/-! ### Statements -/

section Statements

variable (d : Db)

/-- A statement's answer and the store it leaves. -/
theorem run_sql (stmt : Stmt) : backend.run (sql stmt) d =
    (Store.exec stmt d).map fun x ↦ (x.2, backend.applyAll d x.1) := Database.run_stmt stmt d

/-- One statement alone, from what it executes to. -/
theorem run_sql_of_exec {stmt : Stmt} (cs : List Change) {a : Ans stmt}
    (h : Store.exec stmt d = some (cs, a)) :
    backend.run (sql stmt) d = some (a, backend.applyAll d cs) := by
  rw [run_sql, h]
  rfl

/-- What a statement that did not fail answered. -/
theorem exec_of_run_sql {stmt : Stmt} {a : Ans stmt} {d' : Db}
    (h : backend.run (sql stmt) d = some (a, d')) :
    ∃ cs, Store.exec stmt d = some (cs, a) ∧ d' = backend.applyAll d cs := by
  rw [run_sql, Option.map_eq_some_iff] at h
  obtain ⟨⟨cs, a'⟩, hexec, heq⟩ := h
  obtain ⟨rfl, rfl⟩ := Prod.mk.inj heq
  exact ⟨cs, hexec, rfl⟩

private theorem run_lockGame (id : Nat) : backend.run (lockGame id) d = some (d.game? id, d) := rfl

/-- A conditional update that finds its row. -/
theorem counted_of_fits {id : Nat} {fits : GameRow → Bool} {new : GameRow → GameRow} {row : GameRow}
    (hrow : d.game? id = some row) (hfits : fits row = true) :
    counted (updateGame d id fits new) = ([.putGame (new row)], 1) := by
  unfold updateGame
  rw [hrow, Option.bind_some, if_pos hfits]
  rfl

/-- A conditional update finds its row, or changes nothing. -/
theorem counted_cases {id : Nat} {fits : GameRow → Bool} {new : GameRow → GameRow}
    {cs : List Change} {n : Nat} (h : some (counted (updateGame d id fits new)) = some (cs, n)) :
    (∃ row, d.game? id = some row ∧ fits row = true ∧ n = 1 ∧
      backend.applyAll d cs = d.apply (.putGame (new row))) ∨
    ((∀ row, d.game? id = some row → fits row = false) ∧ n = 0 ∧ backend.applyAll d cs = d) := by
  cases hrow : d.game? id with
  | none =>
    rw [updateGame, hrow] at h
    obtain ⟨rfl, rfl⟩ := Prod.mk.inj (Option.some.inj h)
    refine Or.inr ⟨?_, rfl, rfl⟩
    intro row h
    cases h
  | some row =>
    by_cases hfits : fits row = true
    · rw [counted_of_fits d hrow hfits] at h
      obtain ⟨rfl, rfl⟩ := Prod.mk.inj (Option.some.inj h)
      exact Or.inl ⟨row, rfl, hfits, rfl, rfl⟩
    · rw [updateGame, hrow, Option.bind_some, if_neg hfits] at h
      obtain ⟨rfl, rfl⟩ := Prod.mk.inj (Option.some.inj h)
      refine Or.inr ⟨?_, rfl, rfl⟩
      intro row' h
      obtain rfl := Option.some.inj h
      exact Bool.eq_false_iff.mpr hfits

private theorem run_updateBoard (id : Nat) (fen : String) {row : GameRow}
    (hrow : d.game? id = some row)
    (hactive : row.status = .inProgress) : backend.run (updateBoard id fen) d =
      some ((1 : Nat), d.apply (.putGame { row with boardFen := some fen })) := by
  refine run_sql_of_exec d [.putGame { row with boardFen := some fen }] ?_
  exact congrArg some (counted_of_fits d hrow (by simp [hactive]))

private theorem run_insertMove {d d' : Db} {row record : MoveRow}
    (h : backend.run (insertMove row) d = some (record, d')) :
    record = { row with moveNumber := nextNumber (d.movesOf row.gameId) } ∧
      record.valid = true ∧ d' = d.apply (.addMove record) := by
  obtain ⟨cs, hexec, rfl⟩ := exec_of_run_sql d h
  simp only [Store.exec] at hexec
  split at hexec
  · next hok =>
    obtain ⟨rfl, rfl⟩ := Prod.mk.inj (Option.some.inj hexec)
    rw [Bool.and_eq_true] at hok
    exact ⟨rfl, hok.1, rfl⟩
  · cases hexec

end Statements

/-! ### persistMoveAtomic -/

/-- The transaction has stored a move of `color` and returned `persisted`. -/
structure StoresMove (js : ChessJs) (gameId : Nat) (color : Color) (requested : Option Json)
    (d : Db) (row : GameRow) (chess : js.Game) (persisted : Persisted js) (d' : Db) : Prop where
  found : d.game? gameId = some row
  active : row.status = .inProgress
  loaded : js.loadOr row.boardFen = some chess
  turn : js.turn chess = color
  moved : js.move chess (moveArg requested) = some (persisted.chess, persisted.move)
  record : persisted.record =
    { moveRow gameId color persisted.move (js.fen persisted.chess) with
      moveNumber := nextNumber (d.movesOf gameId) }
  valid : persisted.record.valid = true
  after : d' = (d.apply (.putGame { row with boardFen := some (js.fen persisted.chess) })).apply
    (.addMove persisted.record)

/-- What `persistMoveAtomic` has done when it commits. -/
theorem persistMoveAtomic_run {js : ChessJs} {gameId : Nat} {color : Color}
    {requested : Option Json} {d d' : Db} {value : Option (Persisted js)}
    (h : backend.run (persistMoveAtomic js gameId color requested) d = some (value, d')) :
    (value = none ∧ d' = d) ∨ ∃ row chess persisted, value = some persisted ∧
      StoresMove js gameId color requested d row chess persisted d' := by
  rw [persistMoveAtomic, Database.run_bind, run_lockGame, Option.bind_some] at h
  cases hrow : d.game? gameId with
  | none =>
    rw [hrow] at h
    cases h
  | some row =>
    rw [hrow] at h
    dsimp only at h
    by_cases hactive : row.status = .inProgress
    · rw [if_neg (not_not.mpr hactive)] at h
      cases hload : js.loadOr row.boardFen with
      | none =>
        rw [hload] at h
        cases h
      | some chess =>
        rw [hload] at h
        dsimp only at h
        by_cases hturn : js.turn chess = color
        · rw [if_neg (not_not.mpr hturn)] at h
          cases hmove : js.move chess (moveArg requested) with
          | none =>
            rw [hmove] at h
            obtain ⟨rfl, rfl⟩ := Prod.mk.inj (Option.some.inj h)
            exact Or.inl ⟨rfl, rfl⟩
          | some moved =>
            rw [hmove] at h
            obtain ⟨chess', move⟩ := moved
            dsimp only at h
            rw [Database.run_bind, run_updateBoard d gameId _ hrow hactive, Option.bind_some,
              if_neg (not_not.mpr rfl), Database.run_bind, Option.bind_eq_some_iff] at h
            obtain ⟨⟨record, d₁⟩, hinsert, h⟩ := h
            obtain ⟨rfl, rfl⟩ := Prod.mk.inj (Option.some.inj h)
            refine Or.inr ⟨row, chess, _, rfl, ?_⟩
            obtain ⟨hrecord, hvalid, hd'⟩ := run_insertMove hinsert
            constructor
            · exact hrow
            · exact hactive
            · exact hload
            · exact hturn
            · exact hmove
            · simpa only [Db.movesOf_apply, Change.moves, List.append_nil, moveRow] using hrecord
            · exact hvalid
            · exact hd'
        · rw [if_pos hturn] at h
          obtain ⟨rfl, rfl⟩ := Prod.mk.inj (Option.some.inj h)
          exact Or.inl ⟨rfl, rfl⟩
    · rw [if_pos hactive] at h
      cases h

/-! ### Game.js -/

/-- What `create` has done when it commits. -/
theorem create_run {id : Nat} {roomId : Option String} {whiteUserId : Option Nat}
    {whiteUsername : Option String} {now : Nat} {d d' : Db} {value : GameRow}
    (h : backend.run (create id roomId whiteUserId whiteUsername now) d = some (value, d')) :
    d.game? id = none ∧ (∀ name, roomId = some name → d.roomTaken name = false) ∧
      value = ⟨id, roomId, whiteUserId, none, whiteUsername, none, .multiplayer, .inProgress, none,
        none, some startFen, now⟩ ∧ d' = d.apply (.putGame value) := by
  obtain ⟨cs, hexec, rfl⟩ := exec_of_run_sql d h
  simp only [Store.exec] at hexec
  split at hexec
  · cases hexec
  · next hfree =>
    obtain ⟨rfl, rfl⟩ := Prod.mk.inj (Option.some.inj hexec)
    rw [Bool.or_eq_true, not_or] at hfree
    refine ⟨by simpa using hfree.1, ?_, rfl, rfl⟩
    rintro name rfl
    simpa using hfree.2

private theorem setBlack_run {id userId : Nat} {username : String} {d d' : Db}
    {value : Option GameRow}
    (h : backend.run (setBlack id userId username) d = some (value, d')) :
    (value = none ∧ d' = d) ∨ ∃ row, d.game? id = some row ∧ row.status = .inProgress ∧
      row.blackUsername = none ∧
      value = some { row with blackUserId := some userId, blackUsername := some username } ∧
      d' = d.apply
        (.putGame { row with blackUserId := some userId, blackUsername := some username }) := by
  obtain ⟨cs, hexec, rfl⟩ := exec_of_run_sql d h
  simp only [Store.exec] at hexec
  split at hexec
  · obtain ⟨rfl, rfl⟩ := Prod.mk.inj (Option.some.inj hexec)
    unfold updateGame
    cases hrow : d.game? id with
    | none => exact Or.inl ⟨rfl, rfl⟩
    | some row =>
      rw [Option.bind_some]
      split
      · next hfits =>
        rw [Bool.and_eq_true, beq_iff_eq, Option.isNone_iff_eq_none] at hfits
        exact Or.inr ⟨row, rfl, hfits.1, hfits.2, rfl, rfl⟩
      · exact Or.inl ⟨rfl, rfl⟩
  · cases hexec

/-- Nothing is claimed, the game being taken or over, or the free black seat of a live game. -/
theorem claimBlack_run {gameId : Nat} {user : SocketUser} {d d' : Db} {value : Option GameRow}
    (h : backend.run (claimBlack gameId user) d = some (value, d')) :
    (value = none ∧ d' = d ∧ ∃ row, d.game? gameId = some row ∧
      (row.status ≠ .inProgress ∨ row.blackUsername.isSome)) ∨
    ∃ row, d.game? gameId = some row ∧ row.status = .inProgress ∧
      row.blackUsername = none ∧ value.isSome ∧ d' = d.apply (.putGame
        { row with blackUserId := some user.id, blackUsername := some user.username }) := by
  rw [claimBlack, Database.run_bind, run_lockGame, Option.bind_some] at h
  cases hrow : d.game? gameId with
  | none =>
    rw [hrow] at h
    cases h
  | some row =>
    rw [hrow] at h
    change backend.run (if _ then _ else _) d = _ at h
    split at h
    · next hbusy =>
      obtain ⟨rfl, rfl⟩ := Prod.mk.inj (Option.some.inj h)
      refine Or.inl ⟨rfl, rfl, row, rfl, ?_⟩
      rcases hbusy with hover | htaken
      · exact Or.inl hover
      · obtain ⟨name, hname, -⟩ := Option.any_eq_true _ _ |>.mp htaken
        exact Or.inr (Option.isSome_iff_exists.mpr ⟨name, hname⟩)
    · rw [Database.run_bind, Option.bind_eq_some_iff] at h
      obtain ⟨⟨updated, d₁⟩, hset, h⟩ := h
      obtain ⟨rfl, -⟩ | ⟨row', hrow', hactive, hfree, rfl, rfl⟩ := setBlack_run hset
      · cases h
      · obtain ⟨rfl, rfl⟩ := Prod.mk.inj (Option.some.inj h)
        rw [hrow] at hrow'
        obtain rfl := Option.some.inj hrow'
        exact Or.inr ⟨row, rfl, hactive, hfree, rfl, rfl⟩

/-- Nothing is abandoned, or a live game. -/
theorem abandonMany_run {id : Nat} {d d' : Db} {value : Nat}
    (h : backend.run (abandonMany id) d = some (value, d')) :
    d' = d ∨ ∃ row, d.game? id = some row ∧ row.status = .inProgress ∧
      d' = d.apply (.putGame { row with status := .abandoned, result := some .processFailure }) := by
  obtain ⟨cs, hexec, rfl⟩ := exec_of_run_sql d h
  obtain ⟨row, hrow, hfits, -, hd'⟩ | ⟨-, -, hd'⟩ := counted_cases d hexec
  · exact Or.inr ⟨row, hrow, by simpa using hfits, hd'⟩
  · exact Or.inl hd'

/-- A finished game has given its room id to a new one with both seats taken. -/
structure Rematched (gameId : Nat) (roomId : Option String) (white black : Player)
    (newId now : Nat) (d : Db) (old new : GameRow) (d' : Db) : Prop where
  found : d.game? gameId = some old
  finished : old.status = .finished
  fresh : d.game? newId = none
  free : ∀ name, roomId = some name →
    (d.apply (.putGame { old with roomId := none })).roomTaken name = false
  created : new = ⟨newId, roomId, white.userId, black.userId, white.name, black.name, .multiplayer,
    .inProgress, none, none, some startFen, now⟩
  seated : black.userId.isSome ∧ black.name.isSome
  after : d' = ((d.apply (.putGame { old with roomId := none })).apply
    (.putGame { new with blackUserId := none, blackUsername := none })).apply (.putGame new)

/-- What `rematch` has done when it commits. -/
theorem rematch_run {gameId : Nat} {roomId : Option String} {white black : Player}
    {newId now : Nat} {d d' : Db} {value : GameRow}
    (h : backend.run (rematch gameId roomId white black newId now) d = some (value, d')) :
    ∃ old new, Rematched gameId roomId white black newId now d old new d' ∧
      value = { new with blackUserId := none, blackUsername := none } := by
  rw [rematch, Database.run_bind, Option.bind_eq_some_iff] at h
  obtain ⟨⟨released, d₁⟩, hrelease, h⟩ := h
  obtain ⟨cs, hexec, rfl⟩ := exec_of_run_sql d hrelease
  obtain ⟨old, hold, hfits, hcount, hd₁⟩ | ⟨-, hcount, -⟩ := counted_cases d hexec
  · subst hcount
    rw [hd₁] at h
    rw [if_neg (not_not.mpr rfl), Database.run_bind, Option.bind_eq_some_iff] at h
    obtain ⟨⟨created, d₁⟩, hcreate, h⟩ := h
    obtain ⟨hfresh, hfree, hrow, rfl⟩ := create_run hcreate
    obtain ⟨blackName, color, blackId⟩ := black
    cases blackId with
    | none => cases h
    | some userId =>
      cases blackName with
      | none => cases h
      | some name =>
        rw [Database.run_bind, Option.bind_eq_some_iff] at h
        obtain ⟨⟨joined, d₂⟩, hset, h⟩ := h
        obtain ⟨rfl, -⟩ | ⟨row, hrow', -, -, rfl, rfl⟩ := setBlack_run hset
        · cases h
        · obtain ⟨rfl, rfl⟩ := Prod.mk.inj (Option.some.inj h)
          rw [Db.game?_apply, Option.or_eq_none_iff] at hfresh
          change ((d.apply _).apply (.putGame created)).game? created.id = some row at hrow'
          rw [Db.game?_apply, Change.game, if_pos rfl, Option.some_or, Option.some.injEq] at hrow'
          subst hrow'
          have hempty : ({ created with blackUserId := none, blackUsername := none } : GameRow) =
              created := by rw [hrow]
          refine ⟨old, { created with blackUserId := some userId, blackUsername := some name },
            ⟨hold, by simpa using hfits, hfresh.2, hfree, by rw [hrow], ⟨rfl, rfl⟩, ?_⟩, hempty.symm⟩
          dsimp only
          rw [hempty]
  · subst hcount
    cases h

end ChessStack.Server
