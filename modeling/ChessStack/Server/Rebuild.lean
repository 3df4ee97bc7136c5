import ChessStack.Server.Effects
import ChessStack.Server.Reference

/-!
# Rebuilding a game from its checkpoint

Library `Server`. `buildRoomFromSnapshot` in `Chess-Backend/src/socket/gameSocket.js` has two
ways to the same room: the checkpoint in `board_fen`, or the replay of every persisted move. A
FEN tells the position and its counters but not the positions before it, so the two differ in
what they know of repetitions.
-/

namespace ChessStack.Server

open ChessStack.Chess ChessStack.Js ChessStack.Library ChessStack.Store

/-! ### What an object of the package knows -/

/-- The text of a position without its counters. -/
def positionKey (f : Fen) : String := Fen.text { f with half := 0, full := 0 }

/-- The FEN of an object and the positions it has seen, the present one included. -/
structure Seen where
  fen : Fen
  seen : List String

/-- A position just loaded. -/
def Seen.loaded (f : Fen) : Seen := ⟨f, [positionKey f]⟩

/-- The initial position. -/
def Seen.initial : Seen := .loaded reference.start

/-- One move on, with its position remembered. -/
def Seen.play (v : Seen) (m : Move) : Seen :=
  match v.fen.board m.src with
  | some q => ⟨afterMove v.fen q m, v.seen ++ [positionKey (afterMove v.fen q m)]⟩
  | none => v

/-- The position has been seen for the third time. -/
def Seen.Repeats (v : Seen) : Prop := 3 ≤ v.seen.count (positionKey v.fen)

/-- Checkmate, stalemate, insufficient material or the fifty-move rule. -/
def Ends (f : Fen) : Prop := ¬ HasMove (position f) ∨ lacksMaterial f.board = true ∨ 100 ≤ f.half

/-- What is assumed of `chess.js`: `view` is what an object knows. `move` accepts the legal moves
by their names, a FEN reloads with its counters and without the earlier positions, and
`isGameOver` covers the endings a position has of itself and the repetition of positions the
object has seen. -/
structure ChessJs.Remembers (js : ChessJs) (view : js.Game → Seen) : Prop where
  start : view js.start = .initial
  fen : ∀ g, js.fen g = (view g).fen.text
  turn : ∀ g, js.turn g = (view g).fen.turn
  load_fen : ∀ g, ∃ g', js.load (js.fen g) = some g' ∧ view g' = .loaded (view g).fen
  move_legal : ∀ g arg g' c, js.move g arg = some (g', c) → ∃ m, arg.Names m ∧
    Legal (position (view g).fen) m ∧ view g' = (view g).play m ∧ c.Of m
  move_of_legal : ∀ g arg m, Legal (position (view g).fen) m → arg.Names m → (js.move g arg).isSome
  isGameOver : ∀ g, js.isGameOver g = true ↔ Ends (view g).fen ∨ (view g).Repeats

/-- The moves `persistMoveAtomic` has stored for a game, its rows of `moves`, and `board_fen`. -/
inductive PersistedGame (js : ChessJs) (gameId : Nat) : List Move → List MoveRow → String → Prop
  | created : PersistedGame js gameId [] [] startFen
  | moved {moves : List Move} {rows : List MoveRow} {fen : String} {m : Move} {chess : js.Game}
      {arg : MoveArg} {persisted : Persisted js} {color : Color} {number : Nat}
      (h : PersistedGame js gameId moves rows fen)
      (hlegal : Legal (moves.foldl Position.play .initial) m) (hnames : arg.Names m)
      (hload : js.loadOr (some fen) = some chess)
      (hmove : js.move chess arg = some (persisted.chess, persisted.move))
      (hrecord : persisted.record =
        { moveRow gameId color persisted.move (js.fen persisted.chess) with moveNumber := number }) :
      PersistedGame js gameId (moves ++ [m]) (rows ++ [persisted.record]) (js.fen persisted.chess)

/-- What the whole game has shown. -/
def seenAfter (moves : List Move) : Seen := moves.foldl Seen.play .initial

/-! ### Names and positions -/

private theorem squareName_injective {s t : Square} (h : squareName s = squareName t) : s = t := by
  have hs := squareNamed_squareName s
  rw [h, squareNamed_squareName] at hs
  exact (Option.some.inj hs).symm

/-- A legal move names a kind just where its piece promotes. -/
theorem Legal.fits {p : Position} {m : Move} (h : Legal p m) {q : Piece}
    (hq : p.board m.src = some q) : PromotionFits q m := by
  rcases h with ⟨q', hq', -, -, hk, -⟩ | ⟨side, rfl, hcastles⟩
  · exact Option.some.inj (hq'.symm.trans hq) ▸ hk
  · obtain rfl := Option.some.inj (hcastles.king.symm.trans hq)
    unfold PromotionFits
    rw [if_neg fun hp ↦ nomatch hp.1]

/-- A legal move moves a piece. -/
theorem Legal.mover' {p : Position} {m : Move} (h : Legal p m) : ∃ q, p.board m.src = some q := by
  rcases h with ⟨q, hq, -⟩ | ⟨side, rfl, hcastles⟩
  · exact ⟨q, hq⟩
  · exact ⟨_, hcastles.king⟩

private theorem lowerLetter_injective {k k' : Kind} (h : lowerLetter k = lowerLetter k') :
    k = k' := by
  revert h
  cases k <;> cases k' <;> decide

/-- An object of names names one legal move only. -/
theorem names_unique {p : Position} {arg : MoveArg} {m m' : Move} (hm : Legal p m)
    (hm' : Legal p m') (h : arg.Names m) (h' : arg.Names m') : m = m' := by
  obtain ⟨s, t, k⟩ := m
  obtain ⟨s', t', k'⟩ := m'
  obtain ⟨hs, ht, hk⟩ := h
  obtain ⟨hs', ht', hk'⟩ := h'
  rw [hs] at hs'
  rw [ht] at ht'
  obtain rfl : s = s' := squareName_injective (Json.str.inj (Option.some.inj hs'))
  obtain rfl : t = t' := squareName_injective (Json.str.inj (Option.some.inj ht'))
  obtain ⟨q, hq⟩ := Legal.mover' hm
  have hfits := Legal.fits hm hq
  have hfits' := Legal.fits hm' hq
  unfold PromotionFits at hfits hfits'
  split at hfits
  · next hp =>
    rw [if_pos hp] at hfits'
    obtain ⟨kind, -, heq⟩ := hfits
    obtain ⟨kind', -, heq'⟩ := hfits'
    obtain rfl : k = some kind := heq
    obtain rfl : k' = some kind' := heq'
    have hletter := (hk kind rfl).symm.trans (hk' kind' rfl)
    rw [lowerLetter_injective (Json.str.inj (Option.some.inj hletter))]
  · next hp =>
    rw [if_neg hp] at hfits'
    obtain rfl : k = none := hfits
    obtain rfl : k' = none := hfits'
    rfl

private theorem text_ne_empty (f : Fen) : f.text ≠ "" := by
  intro h
  have hfields := fenFields_text f
  rw [h] at hfields
  have hlen : ([[]] : List (List Char)).length = 6 := congrArg List.length hfields
  cases hlen

/-! ### The two ways -/

/-- What the object seen moves on to. -/
theorem Seen.play_eq {v : Seen} {m : Move} {q : Piece} (hq : v.fen.board m.src = some q) :
    v.play m = ⟨afterMove v.fen q m, v.seen ++ [positionKey (afterMove v.fen q m)]⟩ := by
  unfold Seen.play
  rw [hq]

/-- Objects at one FEN move on to one FEN. -/
theorem Seen.play_fen {v v' : Seen} (h : v.fen = v'.fen) (m : Move) :
    (v.play m).fen = (v'.play m).fen := by
  unfold Seen.play
  rw [h]
  split
  · rfl
  · exact h

/-- Too few positions for a repetition. -/
theorem Seen.not_repeats {v : Seen} (h : v.seen.length < 3) : ¬ v.Repeats := by
  intro hrepeats
  have := List.count_le_length (l := v.seen) (a := positionKey v.fen)
  unfold Seen.Repeats at hrepeats
  omega

private theorem Seen.length_play (v : Seen) (m : Move) :
    (v.play m).seen.length ≤ v.seen.length + 1 := by
  unfold Seen.play
  split
  · simp
  · exact Nat.le_succ _

private theorem seenAfter_append (moves : List Move) (m : Move) :
    seenAfter (moves ++ [m]) = (seenAfter moves).play m := by
  simp only [seenAfter, List.foldl_append, List.foldl_cons, List.foldl_nil]

section Remembers

variable {js : ChessJs} {view : js.Game → Seen} (hjs : js.Remembers view)

include hjs

/-- An object plays a legal move it is given by its names. -/
theorem remembers_move {g : js.Game} {m : Move} {arg : MoveArg}
    (hm : Legal (position (view g).fen) m) (hnames : arg.Names m) :
    ∃ g' c, js.move g arg = some (g', c) ∧ view g' = (view g).play m ∧ c.Of m := by
  obtain ⟨⟨g', c⟩, hmove⟩ := Option.isSome_iff_exists.mp (hjs.move_of_legal g arg m hm hnames)
  obtain ⟨m', hnames', hm', hview, hof⟩ := hjs.move_legal g arg g' c hmove
  obtain rfl := names_unique hm hm' hnames hnames'
  exact ⟨g', c, hmove, hview, hof⟩

/-- The checkpoint is the FEN of the replayed game. -/
theorem PersistedGame.state {gameId : Nat} {moves : List Move} {rows : List MoveRow} {fen : String}
    (h : PersistedGame js gameId moves rows fen) :
    fen = (seenAfter moves).fen.text ∧
      AtPosition (seenAfter moves).fen (moves.foldl Position.play .initial) ∧
      ∃ g, replayMoves js rows = some g ∧ view g = seenAfter moves := by
  induction h with
  | created => exact ⟨startFen_eq, start_at, js.start, rfl, hjs.start⟩
  | @moved moves rows fen m chess arg persisted color number _ hlegal hnames hload hmove hrecord ih =>
    obtain ⟨hfen, hat, g, hreplay, hview⟩ := ih
    have hlegal' : Legal (position (seenAfter moves).fen) m := by
      rw [hat.2, legal_told_iff hat.1]
      exact hlegal
    -- the object `persistMoveAtomic` has loaded is at the same FEN
    obtain ⟨chess', hload', hchess⟩ := hjs.load_fen g
    rw [hjs.fen, hview, ← hfen] at hload'
    rw [hview] at hchess
    rw [ChessJs.loadOr, if_neg (hfen ▸ text_ne_empty _), hload', Option.some.injEq] at hload
    subst hload
    obtain ⟨g', c, hmove', hview', hof⟩ := remembers_move hjs (g := chess') (hchess ▸ hlegal') hnames
    rw [hmove', Option.some.injEq, Prod.mk.injEq] at hmove
    obtain ⟨rfl, rfl⟩ := hmove
    have hnext : (seenAfter (moves ++ [m])).fen = (view persisted.chess).fen := by
      rw [seenAfter_append, hview', hchess]
      have hloaded : (seenAfter moves).fen = (Seen.loaded (seenAfter moves).fen).fen := rfl
      exact Seen.play_fen hloaded m
    obtain ⟨q, hq⟩ := Legal.mover' hlegal'
    have hafter : (seenAfter (moves ++ [m])).fen = afterMove (seenAfter moves).fen q m := by
      rw [seenAfter_append, Seen.play_eq hq]
    refine ⟨by rw [hjs.fen, hnext], ?_, ?_⟩
    · rw [hafter, List.foldl_append]
      exact afterMove_at hat hlegal
    · have hnamed : MoveArg.Names ⟨some (.str persisted.record.fromSquare),
          some (.str persisted.record.toSquare), persisted.record.promotion.map .str⟩ m := by
        rw [hrecord]
        refine ⟨?_, ?_, fun k hk ↦ ?_⟩
        · exact congrArg (some ∘ Json.str) hof.fromSquare
        · exact congrArg (some ∘ Json.str) hof.toSquare
        · simp only [moveRow, hof.promotion, hk, Option.map_some]
      obtain ⟨next, c', hnextmove, hnextview, -⟩ :=
        remembers_move hjs (g := g) (hview ▸ hlegal') hnamed
      refine ⟨next, ?_, ?_⟩
      · simp only [replayMoves, List.foldlM_append, List.foldlM_cons, List.foldlM_nil]
        rw [show rows.foldlM _ js.start = some g from hreplay]
        simp [hnextmove]
      · rw [hnextview, hview, seenAfter_append]

/-- `persistMoveAtomic` stores one legal move more, made on an object that was just loaded. -/
theorem StoresMove.persistedGame {gameId : Nat} {moves : List Move} {fen : String}
    {color : Color} {requested : Option Json} {d d' : Db} {row : GameRow} {chess : js.Game}
    {persisted : Persisted js} (h : StoresMove js gameId color requested d row chess persisted d')
    (hgame : PersistedGame js gameId moves (d.movesOf gameId) fen)
    (hboard : row.boardFen = some fen) :
    ∃ m, PersistedGame js gameId (moves ++ [m]) (d'.movesOf gameId) (js.fen persisted.chess) ∧
      view persisted.chess = (Seen.loaded (seenAfter moves).fen).play m := by
  obtain ⟨hfen, hat, g, -, hview⟩ := hgame.state hjs
  have hload := h.loaded
  obtain ⟨chess', hload', hchess⟩ := hjs.load_fen g
  rw [hjs.fen, hview, ← hfen] at hload'
  rw [hboard, ChessJs.loadOr, if_neg (hfen ▸ text_ne_empty _), hload', Option.some.injEq] at hload
  subst hload
  obtain ⟨m, hnames, hlegal, hplayed, -⟩ := hjs.move_legal chess' _ _ _ h.moved
  rw [hchess, hview] at hlegal hplayed
  change Legal (position (seenAfter moves).fen) m at hlegal
  rw [hat.2, legal_told_iff hat.1] at hlegal
  have hrows : d'.movesOf gameId = d.movesOf gameId ++ [persisted.record] := by
    have hid : persisted.record.gameId = gameId := by
      rw [h.record]
      rfl
    simp [h.after, Db.movesOf_apply, Change.moves, hid]
  rw [hrows]
  exact ⟨m, .moved hgame hlegal hnames (hboard ▸ h.loaded) h.moved h.record, hplayed⟩

/-- The room built from the checkpoint holds an object that was just loaded. -/
theorem PersistedGame.built {gameId : Nat} {moves : List Move} {snapshot : GameSnapshot}
    {fen : String} (h : PersistedGame js gameId moves snapshot.moves fen)
    (hboard : snapshot.game.boardFen = some fen) :
    ∃ room, buildRoomFromSnapshot js snapshot = some room ∧
      js.loadOr snapshot.game.boardFen = some room.chess ∧
      view room.chess = .loaded (seenAfter moves).fen := by
  obtain ⟨hfen, -, replayed, -, hview⟩ := h.state hjs
  obtain ⟨chess, hload, hchess⟩ := hjs.load_fen replayed
  rw [hjs.fen, hview, ← hfen] at hload
  rw [hview] at hchess
  have hne : fen ≠ "" := hfen ▸ text_ne_empty _
  simp only [buildRoomFromSnapshot, checkpoint, ChessJs.loadOr, hboard, if_neg hne, hload,
    Option.map_some]
  exact ⟨_, rfl, rfl, hchess⟩

/-- An object that was loaded and has made at most one move has seen no repetition. -/
theorem over_reloaded {g : js.Game} (h : (view g).seen.length < 3) :
    js.isGameOver g = true ↔ Ends (view g).fen := by
  rw [hjs.isGameOver, or_iff_left (Seen.not_repeats h)]

end Remembers

/-- The moves repeat a position for the third time and no other rule ends the game. -/
def OnlyRepeats (moves : List Move) : Prop :=
  (seenAfter moves).Repeats ∧ ¬ Ends (seenAfter moves).fen

/-- Two objects give the server the same answers. -/
structure SameAnswers (js : ChessJs) (g g' : js.Game) : Prop where
  fen : js.fen g = js.fen g'
  turn : js.turn g = js.turn g'
  «over» : js.isGameOver g = js.isGameOver g'

/-- An object at the FEN of the whole game, which has seen no repetition, answers as the replay
does unless the moves only repeat. -/
theorem sameAnswers_iff {js : ChessJs} {view : js.Game → Seen} (hjs : js.Remembers view)
    {moves : List Move} {g replayed : js.Game} (hfen : (view g).fen = (seenAfter moves).fen)
    (hseen : (view g).seen.length < 3) (hreplayed : view replayed = seenAfter moves) :
    SameAnswers js g replayed ↔ ¬ OnlyRepeats moves := by
  have hover := over_reloaded hjs hseen
  have hover' := hjs.isGameOver replayed
  rw [hfen] at hover
  rw [hreplayed] at hover'
  constructor
  · rintro ⟨-, -, hsame⟩ ⟨hrepeats, hends⟩
    exact hends (hover.mp (hsame.trans (hover'.mpr (.inr hrepeats))))
  · intro h
    refine ⟨?_, ?_, Bool.eq_iff_iff.mpr ?_⟩
    · rw [hjs.fen, hjs.fen, hfen, hreplayed]
    · rw [hjs.turn, hjs.turn, hfen, hreplayed]
    · rw [hover, hover']
      constructor
      · exact Or.inl
      · rintro (hends | hrepeats)
        · exact hends
        · exact by_contra fun hends ↦ h ⟨hrepeats, hends⟩

/-- What `buildRoomFromSnapshot` and `persistMoveAtomic` derive from the checkpoint answers as
the replay of every persisted move does, until the moves do no more than repeat a position: the
room that is built, and the object `persistMoveAtomic` leaves after one move more. -/
theorem rebuild_agrees_iff {js : ChessJs} {view : js.Game → Seen} (hjs : js.Remembers view)
    {gameId : Nat} {moves : List Move} {snapshot : GameSnapshot} {fen : String}
    (h : PersistedGame js gameId moves snapshot.moves fen)
    (hboard : snapshot.game.boardFen = some fen) :
    ∃ room replayed, buildRoomFromSnapshot js snapshot = some room ∧
      js.loadOr snapshot.game.boardFen = some room.chess ∧
      replayMoves js snapshot.moves = some replayed ∧
      js.fen room.chess = js.fen replayed ∧ js.turn room.chess = js.turn replayed ∧
      (SameAnswers js room.chess replayed ↔ ¬ OnlyRepeats moves) ∧
      ∀ color requested d persisted d', d.game? gameId = some snapshot.game →
        d.movesOf gameId = snapshot.moves →
        backend.run (persistMoveAtomic js gameId color requested) d = some (some persisted, d') →
        ∃ m next, PersistedGame js gameId (moves ++ [m]) (d'.movesOf gameId)
            (js.fen persisted.chess) ∧
          replayMoves js (d'.movesOf gameId) = some next ∧
          (SameAnswers js persisted.chess next ↔ ¬ OnlyRepeats (moves ++ [m])) := by
  obtain ⟨-, -, replayed, hreplay, hview⟩ := h.state hjs
  obtain ⟨room, hroom, hloadOr, hchess⟩ := h.built hjs hboard
  have hsame : (view room.chess).fen = (seenAfter moves).fen := by
    rw [hchess]
    rfl
  refine ⟨room, replayed, hroom, hloadOr, hreplay, ?_, ?_, ?_, ?_⟩
  · rw [hjs.fen, hjs.fen, hsame, hview]
  · rw [hjs.turn, hjs.turn, hsame, hview]
  · refine sameAnswers_iff hjs hsame ?_ hview
    rw [hchess]
    exact Nat.one_lt_succ_succ 1
  · intro color requested d persisted d' hrow hmoves hrun
    obtain ⟨hnone, -⟩ | ⟨row, chess, stored, hsome, hstores⟩ := persistMoveAtomic_run hrun
    · cases hnone
    · obtain rfl := Option.some.inj hsome
      have hfound := hstores.found
      rw [hrow, Option.some.injEq] at hfound
      subst hfound
      obtain ⟨m, hgame, hplayed⟩ := hstores.persistedGame hjs (hmoves ▸ h) hboard
      obtain ⟨-, -, next, hnext, hviewNext⟩ := hgame.state hjs
      refine ⟨m, next, hgame, hnext, sameAnswers_iff hjs ?_ ?_ hviewNext⟩
      · rw [hplayed, seenAfter_append]
        have hloaded : (Seen.loaded (seenAfter moves).fen).fen = (seenAfter moves).fen := rfl
        exact Seen.play_fen hloaded m
      · have hlength := (Seen.loaded (seenAfter moves).fen).length_play m
        rw [hplayed]
        exact Nat.lt_succ_of_le hlength

/-! ### An engine that remembers -/

/-- A move of the engine that remembers its positions. -/
def rememberingMove (v : Seen) (arg : MoveArg) : Option (Seen × Canonical) :=
  (requestedMove (position v.fen) arg).bind fun m ↦
    (referenceMove v.fen arg).map fun moved ↦ (v.play m, moved.2)

/-- The reference engine, which keeps besides the positions it has seen. -/
def remembering : ChessJs where
  Game := Seen
  load fen := (readFen fen).map Seen.loaded
  start := .initial
  turn v := v.fen.turn
  move := rememberingMove
  fen v := v.fen.text
  isGameOver v := !decide (HasMove (position v.fen)) || lacksMaterial v.fen.board ||
    decide (100 ≤ v.fen.half) || decide (3 ≤ v.seen.count (positionKey v.fen))
  isCheckmate v := decide (Checkmate (position v.fen))

private theorem rememberingMove_legal {v v' : Seen} {arg : MoveArg} {c : Canonical}
    (h : rememberingMove v arg = some (v', c)) :
    ∃ m, arg.Names m ∧ Legal (position v.fen) m ∧ v' = v.play m ∧ c.Of m := by
  obtain ⟨m, hm, hrest⟩ := Option.bind_eq_some_iff.mp h
  obtain ⟨moved, hmoved, heq⟩ := Option.map_eq_some_iff.mp hrest
  obtain ⟨rfl, rfl⟩ := Prod.mk.inj heq
  refine ⟨m, (requestedMove_names hm).1, (requestedMove_names hm).2, rfl, ?_⟩
  rw [referenceMove, hm, Option.bind_some] at hmoved
  obtain ⟨q, -, rfl⟩ := Option.map_eq_some_iff.mp hmoved
  exact ⟨rfl, rfl, rfl⟩

private theorem rememberingMove_isSome {v : Seen} {arg : MoveArg} {m : Move}
    (hm : Legal (position v.fen) m) (h : arg.Names m) : (rememberingMove v arg).isSome := by
  obtain ⟨m', hm'⟩ := Option.isSome_iff_exists.mp (requestedMove_isSome hm h)
  obtain ⟨q, hq⟩ := Legal.mover' (requestedMove_names hm').2
  change v.fen.board m'.src = some q at hq
  rw [rememberingMove, referenceMove, hm', Option.bind_some, Option.bind_some, hq]
  rfl

private theorem remembering_load (fen : String) :
    remembering.load fen = (readFen fen).map Seen.loaded := rfl

private theorem remembering_load_fen (v : Seen) :
    remembering.load (remembering.fen v) = some (Seen.loaded v.fen) := by
  rw [remembering_load]
  exact congrArg (Option.map Seen.loaded) (readFen_text v.fen)

/-- The engine does as the package is assumed to. -/
theorem remembering_remembers : remembering.Remembers id where
  start := rfl
  fen _ := rfl
  turn _ := rfl
  load_fen v := ⟨.loaded v.fen, remembering_load_fen v, rfl⟩
  move_legal _ _ _ _ h := rememberingMove_legal h
  move_of_legal _ _ _ hm hnames := rememberingMove_isSome hm hnames
  isGameOver v := by
    change (_ || _) = true ↔ _
    simp only [Bool.or_eq_true, Bool.not_eq_true', decide_eq_false_iff_not, decide_eq_true_eq,
      Ends, Seen.Repeats, id_eq, or_assoc]

/-- Moves that are legal one after the other. -/
def playable : Position → List Move → Bool
  | _, [] => true
  | p, m :: moves => decide (Legal p m) && playable (p.play m) moves

/-- A game of legal moves can be persisted. -/
theorem persistedGame_of_playable {js : ChessJs} {view : js.Game → Seen} (hjs : js.Remembers view)
    (gameId : Nat) {before moves : List Move} {rows : List MoveRow} {fen : String}
    (h : PersistedGame js gameId before rows fen)
    (hmoves : playable (before.foldl Position.play .initial) moves = true) :
    ∃ rows fen, PersistedGame js gameId (before ++ moves) rows fen := by
  induction moves generalizing before rows fen with
  | nil => exact ⟨rows, fen, (List.append_nil before).symm ▸ h⟩
  | cons m moves ih =>
    rw [playable, Bool.and_eq_true, decide_eq_true_iff] at hmoves
    obtain ⟨hlegal, hmoves⟩ := hmoves
    obtain ⟨hfen, hat, g, -, hview⟩ := h.state hjs
    obtain ⟨chess, hload, hchess⟩ := hjs.load_fen g
    rw [hjs.fen, hview, ← hfen] at hload
    rw [hview] at hchess
    have hlegal' : Legal (position (view chess).fen) m := by
      rw [hchess]
      change Legal (position (seenAfter before).fen) m
      rw [hat.2, legal_told_iff hat.1]
      exact hlegal
    let arg : MoveArg := ⟨some (.str (squareName m.src)), some (.str (squareName m.dst)),
      m.promotion.map fun k ↦ .str (lowerLetter k)⟩
    have hnames : arg.Names m := ⟨rfl, rfl, fun k hk ↦ by simp only [arg, hk, Option.map_some]⟩
    obtain ⟨next, move, hmove, -, -⟩ := remembers_move hjs hlegal' hnames
    have hloadOr : js.loadOr (some fen) = some chess := by
      rw [ChessJs.loadOr, if_neg (hfen ▸ text_ne_empty _), hload]
    let persisted : Persisted js :=
      ⟨next, move, { moveRow gameId .w move (js.fen next) with moveNumber := 1 }⟩
    have hmove' : js.move chess arg = some (persisted.chess, persisted.move) := hmove
    have hrecord : persisted.record = { moveRow gameId .w persisted.move (js.fen persisted.chess)
      with moveNumber := 1 } := rfl
    have hnext := PersistedGame.moved h hlegal hnames hloadOr hmove' hrecord
    obtain ⟨rows', fen', hgame⟩ := ih hnext (by rw [List.foldl_append]; exact hmoves)
    exact ⟨rows', fen', List.append_cons before m moves ▸ hgame⟩

/-- A game in progress at a checkpoint, with its moves. -/
def checkpointed (fen : String) (rows : List MoveRow) : GameSnapshot :=
  ⟨⟨1, some "ABCDEFG", some 1, some 2, some "ada", some "ben", .multiplayer, .inProgress, none,
    none, some fen, 0⟩, rows⟩

/-- The game of the one move e4. -/
def kingPawn : List Move := [⟨(6, 4), (4, 4), none⟩]

/-- After e4 checkpoint and replay agree. -/
theorem rebuild_agrees_iff_kingPawn : ∃ rows fen, PersistedGame remembering 1 kingPawn rows fen ∧
    ∃ room replayed, buildRoomFromSnapshot remembering (checkpointed fen rows) = some room ∧
      replayMoves remembering rows = some replayed ∧
      SameAnswers remembering room.chess replayed := by
  obtain ⟨rows, fen, h⟩ := persistedGame_of_playable remembering_remembers 1 .created
    (show playable .initial kingPawn = true by decide +kernel)
  have hsnapshot : PersistedGame remembering 1 kingPawn (checkpointed fen rows).moves fen := h
  have hcalm : ¬ OnlyRepeats kingPawn := fun honly ↦
    Seen.not_repeats (show (seenAfter kingPawn).seen.length < 3 by decide +kernel) honly.1
  obtain ⟨room, replayed, hroom, -, hreplayed, -, -, hsame, -⟩ :=
    rebuild_agrees_iff remembering_remembers hsnapshot rfl
  exact ⟨rows, fen, h, room, replayed, hroom, hreplayed, hsame.mpr hcalm⟩

/-- 1. Nf3 Nf6 2. Ng1 Ng8 3. Nf3 Nf6 4. Ng1 Ng8. -/
def knightShuffle : List Move :=
  [⟨(7, 6), (5, 5), none⟩, ⟨(0, 6), (2, 5), none⟩, ⟨(5, 5), (7, 6), none⟩, ⟨(2, 5), (0, 6), none⟩,
    ⟨(7, 6), (5, 5), none⟩, ⟨(0, 6), (2, 5), none⟩, ⟨(5, 5), (7, 6), none⟩, ⟨(2, 5), (0, 6), none⟩]

/-- The knights have brought the initial position back twice: the replayed game is over, the
room built from the checkpoint goes on. -/
theorem not_agrees_knightShuffle : ∃ rows fen,
    PersistedGame remembering 1 knightShuffle rows fen ∧
    ∃ room replayed, buildRoomFromSnapshot remembering (checkpointed fen rows) = some room ∧
      replayMoves remembering rows = some replayed ∧
      remembering.isGameOver room.chess = false ∧ remembering.isGameOver replayed = true := by
  obtain ⟨rows, fen, h⟩ := persistedGame_of_playable remembering_remembers 1 .created
    (show playable .initial knightShuffle = true by decide +kernel)
  obtain ⟨-, -, replayed, hreplayed, hview⟩ := h.state remembering_remembers
  have hsnapshot : PersistedGame remembering 1 knightShuffle (checkpointed fen rows).moves fen := h
  obtain ⟨room, hroom, -, hchess⟩ := hsnapshot.built remembering_remembers rfl
  refine ⟨rows, fen, h, room, replayed, hroom, hreplayed, ?_, ?_⟩
  · rw [show room.chess = Seen.loaded (seenAfter knightShuffle).fen from hchess]
    decide +kernel
  · rw [show replayed = seenAfter knightShuffle from hview]
    decide +kernel

end ChessStack.Server
