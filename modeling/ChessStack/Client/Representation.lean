import ChessStack.Chess.Census
import ChessStack.Client.Replay

/-!
# The representation invariant of local play

Library `Client`. What every state of the hook keeps of kings, pawns, castling flags, the en
passant square, the two logs and the number of men, over every sequence of clicks, promotions,
undo and reset. The men are counted in the board a move has already been made on: while a
promotion is pending that is the board held by `promo`, whose captive is in `capt` already.
-/

namespace ChessStack.Client

open ChessStack.Chess ChessStack.Library

/-- What a side has taken. -/
def Captures.takenBy (capt : Captures) : Color → List Piece
  | .w => capt.w
  | .b => capt.b

/-- The men of a colour in the opponent's captured list. -/
def lost (capt : Captures) (c : Color) : Nat :=
  (capt.takenBy c.other).countP fun q ↦ q.color = c

/-- What the player of a game in the browser does. -/
inductive HookEvent where
  | board (e : Event)
  | reset

/-- The hook's state after an event. -/
inductive HookStep : GameState → HookEvent → GameState → Prop
  | board {g g' : GameState} {e : Event} (h : Step g e g') : HookStep g (.board e) g'
  | reset (g : GameState) : HookStep g .reset Client.reset

/-- The hook from `reset` on. -/
def hook : Machine GameState HookEvent where
  init g := g = reset
  step := HookStep

/-- The facts the move generator and the display rely on. -/
structure GameState.Represents (g : GameState) : Prop where
  oneKing : ∀ c, ∃! s, g.board s = some ⟨c, .king⟩
  inside : ∀ s c, g.board s = some ⟨c, .pawn⟩ → s.1 ≠ 0 ∧ s.1 ≠ 7
  castling : ∀ c side, g.cast.flag c side = true →
    g.board (kingHome c) = some ⟨c, .king⟩ ∧ g.board (rookHome c side) = some ⟨c, .rook⟩
  ep : ∀ t, g.ep = some t → g.board t = none ∧
    (∃ u, Away t u (-forward g.turn.other, 0) 1 ∧ g.board u = none) ∧
    ∃ v, Away t v (forward g.turn.other, 0) 1 ∧ g.board v = some ⟨g.turn.other, .pawn⟩
  calm : ¬ InCheck g.board g.turn.other
  logs : g.moveLog.length = g.hist.length
  parity : g.turn = if g.moveLog.length % 2 = 0 then .w else .b
  material : g.promo = none → ∀ c, men g.board c + lost g.capt c = 16

/-! ### Men and captives -/

/-- Board and captured lists hold all the men. -/
def Complete (board : Board) (capt : Captures) : Prop := ∀ c, men board c + lost capt c = 16

private theorem reset_complete : Complete initBoard {} := fun c ↦ by
  rw [men_initial]
  cases c <;> rfl

/-- A captive of the enemy's colour adds one man to the enemy's losses. -/
theorem lost_add {capt : Captures} {x : Piece} {mover : Color} (h : x.color = mover.other)
    (c : Color) : lost (capt.add x mover) c = lost capt c + owned c (some x) := by
  rw [owned_some, h]
  cases mover <;> cases c <;>
    simp [lost, Captures.add, Captures.takenBy, Color.other, h, List.countP_append]

private theorem men_appMv (b : Board) {s t : Square} (hne : s ≠ t) (c : Color) :
    men (appMv b s t) c + owned c (b t) = men b c := men_move b hne c

/-- The captured list after a move, `useChessGame.js:142`. -/
def captAfter (capt : Captures) (cp : Option Piece) (mover : Color) : Captures :=
  match cp with
  | some x => capt.add x mover
  | none => capt

/-- An ordinary move takes what `capturedBy` names, which is the enemy's. -/
theorem men_ordinary {p : Position} (hs : Sound p) {q : Piece} {s t : Square}
    (hc : q.color = p.turn) (h : Ordinary p q s t) :
    (∀ x ∈ capturedBy p.board q s t p.passed, x.color = q.color.other) ∧
    ∀ c, men (boardAfter p.board q s t p.passed) c +
      owned c (capturedBy p.board q s t p.passed) = men p.board c := by
  unfold boardAfter capturedBy
  dsimp only
  rw [if_neg (Ordinary.not_twoColumns h)]
  by_cases hep : q.kind = .pawn ∧ p.passed = some t
  · have hempty : p.board t = none := (hs.passed t hep.2).1
    have hmv := men_appMv p.board h.ne
    rw [hempty] at hmv
    rw [if_pos hep, if_pos hep, hempty, Option.none_or]
    unfold clearEpVictim
    cases hv : epVictim q.color t with
    | none =>
      refine ⟨nofun, fun c ↦ ?_⟩
      simpa using hmv c
    | some v =>
      have hcell : ∀ x ∈ appMv p.board s t v, x.color = q.color.other := by
        intro x hx
        have haway := epVictim_eq.mp hv
        rw [hc] at haway ⊢
        have hpawn := (hs.passed t hep.2).2 v (by
          cases ht : p.turn <;> rw [ht] at haway <;> exact haway)
        have hvt : v ≠ t := by
          rintro rfl
          rw [hempty] at hpawn
          cases hpawn
        rw [appMv_apply, if_neg hvt, hpawn] at hx
        split_ifs at hx
        · cases hx
        · exact Option.some.inj hx ▸ rfl
      refine ⟨hcell, fun c ↦ ?_⟩
      have hset := men_set (appMv p.board s t) v none c
      have := hmv c
      simp only [Option.bind_some, owned_none] at *
      omega
  · rw [if_neg hep, if_neg hep, Option.or_none]
    refine ⟨fun x hx ↦ ?_, men_appMv p.board h.ne⟩
    rcases h.target with hpass | hn
    · rw [(hs.passed t hpass).1] at hx
      cases hx
    · exact (hn x hx).1

/-- Castling takes nothing. -/
theorem men_castling {p : Position} {side : Side} (h : MayCastle p side) :
    capturedBy p.board ⟨p.turn, .king⟩ (kingHome p.turn) (castledKing p.turn side) p.passed = none ∧
    ∀ c, men (boardAfter p.board ⟨p.turn, .king⟩ (kingHome p.turn) (castledKing p.turn side)
      p.passed) c = men p.board c := by
  have hking : p.board (castledKing p.turn side) = none := h.path _ (castledKing_mem_path _ _)
  have hrook : p.board (castledRook p.turn side) = none := h.path _ (castledRook_mem_path _ _)
  have htwo : twoColumns (kingHome p.turn) (castledKing p.turn side) = true := by
    cases side <;> rfl
  constructor
  · unfold capturedBy
    dsimp only
    rw [hking, if_neg (fun hp ↦ nomatch hp.1)]
    rfl
  · intro c
    unfold boardAfter
    dsimp only
    rw [if_neg (fun hp ↦ nomatch hp.1), if_pos ⟨rfl, htwo⟩]
    have hfirst := men_appMv p.board (s := kingHome p.turn) (t := castledKing p.turn side)
      (by cases side <;> simp [kingHome, castledKing]) c
    rw [hking, owned_none] at hfirst
    have hrook' : appMv p.board (kingHome p.turn) (castledKing p.turn side)
        (castledRook p.turn side) = none := by
      rw [appMv_apply, hrook, if_neg, if_neg]
      all_goals cases side <;> simp [kingHome, castledKing, castledRook]
    have hsecond := men_appMv (appMv p.board (kingHome p.turn) (castledKing p.turn side))
      (s := rookHome p.turn side) (t := castledRook p.turn side)
      (by cases side <;> simp [rookHome, castledRook]) c
    rw [hrook', owned_none] at hsecond
    have hmove : moveCastledRook (appMv p.board (kingHome p.turn) (castledKing p.turn side))
        (if p.turn = .w then 7 else 0) (castledKing p.turn side).2 =
        appMv (appMv p.board (kingHome p.turn) (castledKing p.turn side))
          (rookHome p.turn side) (castledRook p.turn side) := by
      rw [homeRow_eq]
      cases side <;> rfl
    rw [hmove]
    omega

/-- An offered move keeps the men complete: what leaves the board enters the mover's list. -/
theorem Complete.offered {p : Position} (hs : Sound p) {capt : Captures}
    (h : Complete p.board capt) {q : Piece} {s t : Square} {k : Option Kind}
    (hq : p.board s = some q) (hoff : Offered p ⟨s, t, k⟩) :
    Complete (boardAfter p.board q s t p.passed)
      (captAfter capt (capturedBy p.board q s t p.passed) q.color) := by
  have hmen : (∀ x ∈ capturedBy p.board q s t p.passed, x.color = q.color.other) ∧
      ∀ c, men (boardAfter p.board q s t p.passed) c +
        owned c (capturedBy p.board q s t p.passed) = men p.board c := by
    rcases hoff.pseudo with ⟨q', hq', hc, ho, -⟩ | ⟨side, hm, hmay⟩
    · obtain rfl : q = q' := Option.some.inj (hq.symm.trans hq')
      exact men_ordinary hs hc ho
    · obtain ⟨rfl, rfl, rfl⟩ := Move.mk.inj hm
      obtain rfl : q = ⟨p.turn, .king⟩ := Option.some.inj (hq.symm.trans hmay.king)
      obtain ⟨hnone, hsame⟩ := men_castling hmay
      rw [hnone]
      exact ⟨nofun, fun c ↦ by rw [hsame, owned_none, Nat.add_zero]⟩
  intro c
  have hall := h c
  have hboard := hmen.2 c
  cases hcp : capturedBy p.board q s t p.passed with
  | none =>
    rw [hcp, owned_none] at hboard
    simp only [captAfter]
    omega
  | some x =>
    rw [hcp] at hboard
    simp only [captAfter, lost_add (hmen.1 x hcp)]
    omega

/-- Placing the chosen kind keeps the count: the pawn stands there. -/
theorem Complete.promoted {board : Board} {capt : Captures} (h : Complete board capt) {t : Square}
    {col : Color} (hpawn : board t = some ⟨col, .pawn⟩) (k : Option Kind) :
    Complete (placePromoted board col t k) capt := by
  cases k with
  | none => exact h
  | some k =>
    intro c
    rw [placePromoted, men_set_of_owned (by rw [hpawn]; rfl)]
    exact h c

/-! ### The invariant -/

/-- What a snapshot keeps besides describing the position of its log; `replayToSnapshots` also
finds its board. -/
structure Recorded (sn : Snapshot) : Prop where
  tidy : Tidy (replay sn.moveLog)
  logs : sn.moveLog.length = sn.hist.length
  parity : sn.turn = if sn.moveLog.length % 2 = 0 then .w else .b
  shown : lastBoard sn.moveLog = some sn.board

/-- The current state and every state undo can restore are recorded, and the men are complete
on the board of the last move made. -/
structure GameState.Kept (g : GameState) : Prop where
  ok : g.Ok
  now : Recorded g.toSnapshot
  past : ∀ sn ∈ g.past, Recorded sn ∧ Complete sn.board sn.capt
  settled : g.promo = none → Complete g.board g.capt
  pending : ∀ pr, g.promo = some pr →
    Complete pr.nb g.capt ∧ pr.nb pr.dst = some ⟨pr.col, .pawn⟩ ∧
      pr.capturedPiece = capturedBy g.board ⟨g.turn, .pawn⟩ pr.src pr.dst g.ep

/-- The invariant holds at the start. -/
theorem reset_kept : reset.Kept where
  ok := reset_ok
  now := ⟨Tidy.initial, rfl, rfl, rfl⟩
  past _ h := absurd h List.not_mem_nil
  settled _ := reset_complete
  pending _ h := absurd h.symm (Option.some_ne_none _)

/-- `finish` adds one entry to each log and hands the turn over. -/
theorem finish_recorded {g : GameState} (hg : Recorded g.toSnapshot) {nb : Board} {nt : Color}
    {nep : Option Square} {nc : Castling} {note : String} {entry : MoveEntry} {silent : Bool}
    {m : Move} (hm : moveOf entry = some m) (hnt : nt = g.turn.other)
    (ht : Tidy ((replay g.moveLog).play m)) (hnb : replayStep g.board entry = some nb) :
    Recorded (finish g nb nt nep nc note entry silent).1.toSnapshot := by
  obtain ⟨-, hlogs, hparity, hshown⟩ := hg
  refine ⟨?_, ?_, ?_, ?_⟩
  · have hlog : ∀ san, replay (g.moveLog ++ [{ entry with san := san }]) =
        (replay g.moveLog).play m := fun san ↦ by
      have hentry : moveOf { entry with san := san } = some m := hm
      rw [replay_append g.moveLog hentry]
    unfold finish
    dsimp only
    rwa [hlog]
  · simp only [finish, List.length_append, List.length_singleton, hlogs]
  · simp only [finish, List.length_append, List.length_singleton, hnt, hparity]
    split <;> split <;> first | rfl | omega
  · simp only [finish, lastBoard_append, hshown, Option.bind_some]
    exact hnb

/-- `applyMove` on a pawn's move to the last row, the kind not yet chosen. -/
theorem applyMove_pending {g : GameState} {s t : Square} {q : Piece} (hq : g.board s = some q)
    (hlast : q.kind = .pawn ∧ (t.1 = 0 ∨ t.1 = 7)) (silent : Bool) :
    (applyMove g s t none silent).1 =
      { g with
        capt := captAfter g.capt (capturedBy g.board q s t g.ep) q.color
        lastMv := some (s, t)
        past := g.past ++ [g.toSnapshot]
        promo := some ⟨s, t, q.color, boardAfter g.board q s t g.ep, q.color.other,
          epAfter q s t, castAfter g.cast q s t, capturedBy g.board q s t g.ep⟩ } := by
  unfold applyMove
  rw [hq]
  dsimp only
  rw [if_pos ⟨hlast.1, hlast.2, rfl⟩]
  rfl

/-- After a pawn's move to the last row the pawn stands there until the kind is chosen. -/
theorem boardAfter_pawn {p : Position} {q : Piece} {s t : Square} {k : Option Kind}
    (hq : p.board s = some q) (hpawn : q.kind = .pawn) (hoff : Offered p ⟨s, t, k⟩) :
    boardAfter p.board q s t p.passed t = some q := by
  rcases hoff.pseudo with ⟨q', hq', -, ho, -⟩ | ⟨side, hm, hmay⟩
  · obtain rfl : q = q' := Option.some.inj (hq.symm.trans hq')
    rw [Ordinary.boardAfter_eq ho, rawBoard_apply hq ho none, if_pos rfl]
  · obtain ⟨rfl, rfl, rfl⟩ := Move.mk.inj hm
    obtain rfl : q = ⟨p.turn, .king⟩ := Option.some.inj (hq.symm.trans hmay.king)
    cases hpawn

/-- An offered move names a kind only for a pawn that reaches an end row. -/
theorem Offered.promotion_none {p : Position} {q : Piece} {s t : Square} {k : Option Kind}
    (hoff : Offered p ⟨s, t, k⟩) (hq : p.board s = some q)
    (h : ¬ (q.kind = .pawn ∧ (t.1 = 0 ∨ t.1 = 7))) : k = none := by
  rcases hoff.pseudo with ⟨q', hq', -, ho, hk⟩ | ⟨side, hm, -⟩
  · obtain rfl : q = q' := Option.some.inj (hq.symm.trans hq')
    unfold PromotionFits at hk
    rw [if_neg (mt (ordinary_promotes_iff ho).mp h)] at hk
    exact hk
  · exact (Move.mk.inj hm).2.2

/-- A pawn's offered move to an end row names its kind. -/
theorem Offered.promotion_ne_none {p : Position} {q : Piece} {s t : Square} {k : Option Kind}
    (hoff : Offered p ⟨s, t, k⟩) (hq : p.board s = some q)
    (h : q.kind = .pawn ∧ (t.1 = 0 ∨ t.1 = 7)) : k ≠ none := by
  rintro rfl
  rcases hoff.pseudo with ⟨q', hq', -, ho, hk⟩ | ⟨side, hm, hmay⟩
  · obtain rfl : q = q' := Option.some.inj (hq.symm.trans hq')
    unfold PromotionFits at hk
    rw [if_pos ((ordinary_promotes_iff ho).mpr h)] at hk
    obtain ⟨kind, -, hkind⟩ := hk
    cases hkind
  · obtain ⟨rfl, rfl, -⟩ := Move.mk.inj hm
    obtain rfl := Option.some.inj (hq.symm.trans hmay.king)
    cases h.1

/-- The snapshots after a move are those before it and the state it was made in. -/
theorem GameState.Kept.past_moved {g : GameState} (hg : g.Kept) (hpromo : g.promo = none) :
    ∀ sn ∈ g.past ++ [g.toSnapshot], Recorded sn ∧ Complete sn.board sn.capt := by
  intro sn hsn
  rcases List.mem_append.mp hsn with h | h
  · exact hg.past sn h
  · rw [List.mem_singleton.mp h]
    exact ⟨hg.now, hg.settled hpromo⟩

/-- The captured lists, the last move and the undo stack, set before `finish`. -/
def movedFrom (c : Snapshot) (g : GameState) (cp : Option Piece) (mover : Color) (s t : Square) :
    GameState :=
  { g with capt := captAfter g.capt cp mover, lastMv := some (s, t), past := g.past ++ [c] }

/-- `applyMove` as the closure of an earlier render runs it: that render's fields are read, the
captured lists, the logs and the undo stack are updated from the current state. With `silent` it is
what `applyRemoteMove`, `useChessGame.js:171–175`, does with the squares it reads. -/
def applyMoveFrom (c : Snapshot) (g : GameState) (s t : Square) (promotion : Option Kind)
    (silent : Bool) : GameState × List Effect :=
  match c.board s with
  | none => (g, [])
  | some mp =>
    let nb := boardAfter c.board mp s t c.ep
    let nc := castAfter c.cast mp s t
    let cp := capturedBy c.board mp s t c.ep
    let nep := epAfter mp s t
    let nt := mp.color.other
    let moved := movedFrom c g cp mp.color s t
    if mp.kind = .pawn ∧ (t.1 = 0 ∨ t.1 = 7) ∧ promotion = none then
      ({ moved with promo := some ⟨s, t, mp.color, nb, nt, nep, nc, cp⟩ }, [])
    else
      finish moved (placePromoted nb mp.color t promotion) nt nep nc
        (noteOf mp s t cp promotion)
        { color := some mp.color, fromSquare := sq s, toSquare := sq t, piece := some mp,
          captured := cp, promotion := promotion.map letter } silent

/-- In the latest render the closure is the current state. -/
theorem applyMoveFrom_self (g : GameState) (s t : Square) (promotion : Option Kind)
    (silent : Bool) : applyMoveFrom g.toSnapshot g s t promotion silent =
      applyMove g s t promotion silent := rfl

/-- Where no promotion is asked for, the move is finished at once. -/
theorem applyMoveFrom_finish {c : Snapshot} {g : GameState} {s t : Square} {q : Piece}
    (hq : c.board s = some q) {k : Option Kind}
    (hlast : ¬ (q.kind = .pawn ∧ (t.1 = 0 ∨ t.1 = 7) ∧ k = none)) (silent : Bool) :
    applyMoveFrom c g s t k silent =
      finish (movedFrom c g (capturedBy c.board q s t c.ep) q.color s t)
        (placePromoted (boardAfter c.board q s t c.ep) q.color t k) q.color.other
        (epAfter q s t) (castAfter c.cast q s t) (noteOf q s t (capturedBy c.board q s t c.ep) k)
        { color := some q.color, fromSquare := sq s, toSquare := sq t, piece := some q,
          captured := capturedBy c.board q s t c.ep, promotion := k.map letter } silent := by
  unfold applyMoveFrom
  rw [hq]
  dsimp only
  rw [if_neg hlast]

/-- The closure holds the board, the side to move, the rights and the log of the current state. -/
structure Current (c : Snapshot) (g : GameState) : Prop where
  board : c.board = g.board
  turn : c.turn = g.turn
  ep : c.ep = g.ep
  cast : c.cast = g.cast
  moveLog : c.moveLog = g.moveLog

/-- A state is current for itself. -/
theorem Current.refl (g : GameState) : Current g.toSnapshot g := ⟨rfl, rfl, rfl, rfl, rfl⟩

/-- A move that is offered with its kind, run by the closure of a render whose position and log
are the current ones. -/
theorem applyMoveFrom_kept {c : Snapshot} {g : GameState} (hg : g.Kept) (hpromo : g.promo = none)
    (hc : Plays c ∧ Recorded c ∧ Complete c.board c.capt) (hcur : Current c g) {s t : Square}
    {k : Option Kind} (hoff : Offered (replay g.moveLog) ⟨s, t, k⟩) (silent : Bool) :
    (applyMoveFrom c g s t k silent).1.Kept := by
  obtain ⟨hplays, hrec, hcomplete⟩ := hc
  obtain ⟨hd, hs, -, -⟩ := hg.ok.now
  obtain ⟨q, hq, hturn⟩ := hoff.src hs
  have hlast : ¬ (q.kind = .pawn ∧ (t.1 = 0 ∨ t.1 = 7) ∧ k = none) := fun h ↦
    hoff.promotion_ne_none hq ⟨h.1, h.2.1⟩ h.2.2
  have hmen := (hd.board ▸ hg.settled hpromo : Complete (replay g.moveLog).board g.capt).offered
    hs hq hoff
  have hcq : c.board s = some q := by rw [hcur.board, hd.board, hq]
  have hpast : ∀ sn ∈ g.past ++ [c], Plays sn ∧ Recorded sn ∧ Complete sn.board sn.capt := by
    intro sn hsn
    rcases List.mem_append.mp hsn with h | h
    · exact ⟨hg.ok.past sn h, hg.past sn h⟩
    · rw [List.mem_singleton.mp h]
      exact ⟨hplays, hrec, hcomplete⟩
  have hentry : ∀ cp, moveOf
      { color := some q.color, fromSquare := sq s, toSquare := sq t, piece := some q,
        captured := cp, promotion := k.map letter } = some ⟨s, t, k⟩ := by
    intro cp
    simp only [moveOf, squareToRC_sq]
    cases k with
    | none => rfl
    | some kind => simp [kindOf_letter (hoff.promotion_mem kind rfl)]
  have hplay := hd.play hs (hd.board ▸ hq) hoff
  rw [applyMoveFrom_finish hcq hlast]
  simp only [hcur.board, hcur.ep, hcur.cast]
  refine ⟨?_, ?_, fun sn hsn ↦ (hpast sn hsn).2, fun _ ↦ ?_, fun pr hpr ↦ ?_⟩
  · have hnone : ∀ cp, (movedFrom c g cp q.color s t).promo = none := fun _ ↦ hpromo
    exact finish_ok (fun sn hsn ↦ (hpast sn hsn).1) (hnone _) rfl (hentry _) hplay
      (hs.play hoff.pseudo hoff.safe)
  · have hnow : ∀ cp, Recorded (movedFrom c g cp q.color s t).toSnapshot := fun _ ↦
      ⟨hg.now.tidy, hg.now.logs, hg.now.parity, hg.now.shown⟩
    refine finish_recorded (hnow _) (hentry _) ?_ (hg.now.tidy.play hoff.pseudo) ?_
    · rw [hturn, ← hd.turn]
      rfl
    · change replayStep g.board _ = _
      rw [hd.board, hd.ep]
      exact replayStep_offered hs hq hoff rfl rfl rfl rfl rfl
  · change Complete (placePromoted (boardAfter g.board q s t g.ep) q.color t k)
      (captAfter g.capt (capturedBy g.board q s t g.ep) q.color)
    rw [hd.board, hd.ep]
    cases k with
    | none => exact hmen
    | some kind =>
      have hpawn : q.kind = .pawn := by
        by_contra hne
        cases hoff.promotion_none hq fun h ↦ hne h.1
      have hplaced := boardAfter_pawn hq hpawn hoff
      exact hmen.promoted (hplaced.trans (by rw [← hpawn])) (some kind)
  · rw [show g.promo = some pr from hpr] at hpromo
    cases hpromo

/-- Moving a piece of the side to move to an offered square. -/
theorem applyMove_kept {g : GameState} (hg : g.Kept) (hpromo : g.promo = none) {s t : Square}
    {q : Piece} (hq : g.board s = some q) (hc : q.color = g.turn)
    (ht : t ∈ getLegal g.board s g.ep g.cast) (silent : Bool) :
    (applyMove g s t none silent).1.Kept := by
  have hok := applyMove_ok hg.ok hpromo hq hc ht silent
  obtain ⟨hd, hs, -, -⟩ := hg.ok.now
  obtain ⟨k, hoff⟩ := (mem_getLegal hd hs hq hc).mp ht
  have hq' := hq
  rw [hd.board] at hq'
  by_cases hlast : q.kind = .pawn ∧ (t.1 = 0 ∨ t.1 = 7)
  · have hmen := (hd.board ▸ hg.settled hpromo :
      Complete (replay g.moveLog).board g.capt).offered hs hq' hoff
    have hpawn := boardAfter_pawn hq' hlast.1 hoff
    rw [← hd.board, ← hd.ep] at hmen hpawn
    have heq := applyMove_pending hq hlast silent
    rw [heq] at hok ⊢
    obtain ⟨htidy, hlogs, hparity, hshown⟩ := hg.now
    refine ⟨hok, ⟨htidy, hlogs, hparity, hshown⟩, hg.past_moved hpromo, fun h ↦ ?_,
      fun pr hpr ↦ ?_⟩
    · cases h
    · obtain rfl := Option.some.inj hpr
      have hqt : q = ⟨g.turn, .pawn⟩ := by rw [← hc, ← hlast.1]
      exact ⟨hmen, hpawn.trans (by rw [← hlast.1]), by rw [hqt]⟩
  · obtain rfl : k = none := hoff.promotion_none hq' hlast
    exact applyMoveFrom_kept hg hpromo ⟨hg.ok.now, hg.now, hg.settled hpromo⟩ (.refl g) hoff silent

/-- A click marks squares, moves the selected piece to an offered square or does nothing. -/
theorem click_cases {g : GameState} (hg : g.Ok) (s : Square) :
    (∃ sel moves, (click g s).1 = { g with sel := sel, moves := moves }) ∨
    g.promo = none ∧ ∃ from_ q, g.board from_ = some q ∧ q.color = g.turn ∧
      s ∈ getLegal g.board from_ g.ep g.cast ∧
      (click g s).1 = (applyMove g from_ s none false).1 := by
  unfold click
  split
  · exact Or.inl ⟨g.sel, g.moves, rfl⟩
  · next hlive =>
    have hpromo : g.promo = none := by
      rw [← Option.not_isSome_iff_eq_none]
      exact fun h ↦ hlive (Or.inr (Or.inr (Or.inr h)))
    dsimp only
    split
    · next from_ hsel =>
      obtain ⟨hmoves, q, hq, hc⟩ := hg.now.selected from_ hsel
      split
      · next hm =>
        rw [List.contains_iff_mem, hmoves] at hm
        exact Or.inr ⟨hpromo, from_, q, hq, hc, hm, rfl⟩
      · split <;> exact Or.inl ⟨_, _, rfl⟩
    · split
      · exact Or.inl ⟨_, _, rfl⟩
      · exact Or.inl ⟨g.sel, g.moves, rfl⟩

/-- A click keeps the invariant. -/
theorem click_kept {g : GameState} (hg : g.Kept) (s : Square) : (click g s).1.Kept := by
  have hok := click_ok hg.ok s
  rcases click_cases hg.ok s with ⟨sel, moves, heq⟩ | ⟨hpromo, from_, q, hq, hc, hm, heq⟩
  · rw [heq] at hok ⊢
    exact ⟨hok, ⟨hg.now.tidy, hg.now.logs, hg.now.parity, hg.now.shown⟩, hg.past, hg.settled,
      hg.pending⟩
  · rw [heq]
    exact applyMove_kept hg hpromo hq hc hm false

/-- A choice of promotion keeps the invariant. -/
theorem doPromo_kept {g : GameState} (hg : g.Kept) {k : Kind} (hk : k ∈ promotionKinds) :
    (doPromo g k).1.Kept := by
  have hok := doPromo_ok hg.ok hk
  unfold doPromo at hok ⊢
  cases hpr : g.promo with
  | none => exact hg
  | some pr =>
    rw [hpr] at hok
    dsimp only at hok ⊢
    obtain ⟨hpiece, ⟨k', hoff⟩, hprom, hcol, hnb, hnt, -, -⟩ := hg.ok.pending pr hpr
    obtain ⟨hcomplete, hpawn, hcaptive⟩ := hg.pending pr hpr
    obtain ⟨hd, hs, -, -⟩ := hg.ok.now
    rw [hd.board] at hpiece
    have hfits : PromotionFits ⟨g.turn, .pawn⟩ ⟨pr.src, pr.dst, some k⟩ := by
      unfold PromotionFits
      rw [if_pos hprom]
      exact ⟨k, hk, rfl⟩
    have hoff := hoff.repromote hs hpiece rfl hfits
    refine ⟨hok, ?_, hg.past, fun _ ↦ hcomplete.promoted hpawn (some k), fun pr' hpr' ↦ ?_⟩
    · have hnow : Recorded { g with promo := none, lastMv := some (pr.src, pr.dst) }.toSnapshot :=
        ⟨hg.now.tidy, hg.now.logs, hg.now.parity, hg.now.shown⟩
      refine finish_recorded hnow (m := ⟨pr.src, pr.dst, some k⟩)
        (by simp [moveOf, kindOf_letter hk]) hnt (hg.now.tidy.play hoff.pseudo) ?_
      rw [hnb, hcol, hcaptive, hd.ep, hd.board]
      exact replayStep_offered hs hpiece hoff rfl rfl rfl rfl rfl
    · cases hpr'

/-- Undo keeps the invariant. -/
theorem undo_kept {g : GameState} (hg : g.Kept) : (undo g).Kept := by
  have hok := undo_ok hg.ok
  unfold undo at hok ⊢
  split
  · next prev hprev hpromo =>
    rw [hprev, hpromo] at hok
    obtain ⟨hrec, hcomplete⟩ := hg.past prev (List.mem_of_getLast? hprev)
    refine ⟨hok, hrec, fun sn hsn ↦ hg.past sn (List.dropLast_subset _ hsn), fun _ ↦ hcomplete,
      fun pr hpr ↦ ?_⟩
    cases hpr
  · exact hg

/-- Every state of the hook is kept. -/
theorem kept_invariant : hook.Invariant GameState.Kept where
  init g hg := by
    rw [show g = reset from hg]
    exact reset_kept
  step g e g' hg hst := by
    cases hst with
    | reset => exact reset_kept
    | board h =>
      cases h with
      | click s => exact click_kept hg s
      | doPromo hk => exact doPromo_kept hg hk
      | undo => exact undo_kept hg

/-- A kept state has every fact of the representation. -/
theorem GameState.Kept.represents {g : GameState} (hg : g.Kept) : g.Represents := by
  obtain ⟨hd, hs, -, -⟩ := hg.ok.now
  refine { oneKing := fun c ↦ ?_, inside := ?_, castling := fun c side hflag ↦ ?_,
           ep := fun t ht ↦ ?_, calm := ?_, logs := hg.now.logs, parity := hg.now.parity,
           material := hg.settled }
  · obtain ⟨w, hw⟩ := hs.kings c
    rw [hd.board]
    exact ⟨w, (hw w).mpr rfl, fun s h ↦ (hw s).mp h⟩
  · rw [hd.board]
    exact hg.now.tidy.inside
  · rw [hd.board]
    exact hs.homes c side (hd.cast c side ▸ hflag)
  · rw [hd.ep] at ht
    obtain ⟨hempty, hvictim⟩ := hs.passed t ht
    obtain ⟨u, v, hu, hfree, hv⟩ := hg.now.tidy.origin t ht
    rw [hd.board, hd.turn]
    exact ⟨hempty, ⟨u, hu, hfree⟩, v, hv, hvictim v hv⟩
  · rw [hd.board, hd.turn]
    exact hs.safe

/-- In every state of local play there is one king of each colour, pawns stand inside, castling
flags and the en passant square tell the truth, the side not to move is not in check, the logs
agree with each other and with the turn, and, with no promotion pending, no man is missing. -/
theorem represents_reachable {g : GameState} (hg : hook.Reachable g) : g.Represents :=
  (kept_invariant.reachable hg).represents

/-- A game without reset is one way to use the hook. -/
theorem hook_of_game {g : GameState} (hg : game.Reachable g) : hook.Reachable g := by
  induction hg with
  | init h => exact .init h
  | step _ hst ih => exact ih.step (l := .board _) (.board hst)

/-- After 1. e4 the square e3 has been passed over. -/
theorem represents_reachable_e4 : (clicks [(6, 4), (4, 4)]).ep = some (5, 4) ∧
    hook.Reachable (clicks [(6, 4), (4, 4)]) ∧ (clicks [(6, 4), (4, 4)]).Represents := by
  have hg := hook_of_game (clicks_reachable [(6, 4), (4, 4)])
  exact ⟨by decide +kernel, hg, represents_reachable hg⟩

end ChessStack.Client
