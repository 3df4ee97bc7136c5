import ChessStack.Client.Legality
import ChessStack.Library.Machine

/-!
# Games on the client

Library `Client`. The hook of `Chess-Frontend/src/hooks/useChessGame.js` as a machine whose
events are clicks, promotion picks and undo. The rules' position of a state is the replay of
its whole move log from the initial position; the invariant `Plays` says the client's fields
describe that position, in the current state and in every state that undo can restore.
-/

namespace ChessStack.Client

open ChessStack.Chess ChessStack.Library

/-! ### Replaying a move log -/

/-- The kind a promotion letter names. -/
def kindOf (name : String) : Option Kind := promotionKinds.find? fun k ↦ letter k == name

/-- The move an entry of the log records. -/
def moveOf (entry : MoveEntry) : Option Move :=
  match squareToRC entry.fromSquare, squareToRC entry.toSquare with
  | some s, some t => some ⟨s, t, entry.promotion.bind kindOf⟩
  | _, _ => none

/-- The position the logged moves lead to from the start of the game. -/
def replay (moveLog : List MoveEntry) : Position :=
  (moveLog.filterMap moveOf).foldl Position.play .initial

private theorem replay_of_moves {moveLog : List MoveEntry} {moves : List Move}
    (h : moveLog.filterMap moveOf = moves) : replay moveLog = moves.foldl Position.play .initial :=
  congrArg (List.foldl Position.play .initial) h

/-- A square's name determines it. -/
@[simp] theorem squareToRC_sq (s : Square) : squareToRC (sq s) = some s := by
  revert s
  decide +kernel

/-- The kind a promotion letter names. -/
theorem kindOf_letter {k : Kind} (hk : k ∈ promotionKinds) : kindOf (letter k) = some k := by
  simp only [promotionKinds, List.mem_cons, List.not_mem_nil, or_false] at hk
  rcases hk with rfl | rfl | rfl | rfl <;> decide +kernel

/-- One more entry of the log is one more move. -/
theorem replay_append (moveLog : List MoveEntry) {entry : MoveEntry} {m : Move}
    (h : moveOf entry = some m) : replay (moveLog ++ [entry]) = (replay moveLog).play m := by
  unfold replay
  rw [List.filterMap_append, List.foldl_append, List.filterMap_cons_some h]
  rfl

/-! ### The fields after a move -/

/-- The two corners and the king's square of a castling flag are not where a move could put
or take a king. -/
theorem flag_castAfter (cast : Castling) (q : Piece) (s t : Square) (c : Color) (side : Side) :
    (castAfter cast q s t).flag c side =
      (cast.flag c side && (!(q.kind = .king && q.color = c) &&
        !(q.kind = .rook && s = rookHome c side) && !(t = rookHome c side))) := by
  cases c <;> cases side <;> rfl

/-- The piece an offered move moves, and a target no king stands on. -/
theorem Offered.piece {p : Position} (hs : Sound p) {s t : Square} {k : Option Kind}
    (h : Offered p ⟨s, t, k⟩) : ∃ q, p.board s = some q ∧ q.color = p.turn ∧
      ∀ c, p.board t ≠ some ⟨c, .king⟩ := by
  rcases h.pseudo with ⟨q, hq, hc, ho, -⟩ | ⟨side, hm, hmay⟩
  · exact ⟨q, hq, hc, hs.target_ne_king ho⟩
  · obtain ⟨rfl, rfl, rfl⟩ := Move.mk.inj hm
    refine ⟨_, hmay.king, rfl, fun c ↦ ?_⟩
    rw [hmay.path _ (castledKing_mem_path _ _)]
    exact nofun

/-- The castling flags after a move are those of the position after it. -/
theorem castAfter_describes {p : Position} (hs : Sound p) {cast : Castling}
    (hcast : ∀ c side, cast.flag c side = p.unmoved c side) {q : Piece} {s t : Square}
    {k : Option Kind} (hq : p.board s = some q) (h : Offered p ⟨s, t, k⟩) (c : Color)
    (side : Side) : (castAfter cast q s t).flag c side = (p.play ⟨s, t, k⟩).unmoved c side := by
  rw [flag_castAfter, hcast, Bool.eq_iff_iff, play_unmoved, Bool.and_eq_true]
  refine and_congr_right fun hu ↦ ?_
  obtain ⟨hking, hrook⟩ := hs.homes c side hu
  obtain ⟨w, hw⟩ := hs.kings c
  have hmoves : q = ⟨c, .king⟩ ↔ s = kingHome c := by
    constructor
    · rintro rfl
      exact ((hw _).mp hq).trans ((hw _).mp hking).symm
    · rintro rfl
      exact Option.some.inj (hq.symm.trans hking)
  have hcorner : (q.kind = .rook ∧ s = rookHome c side) ↔ s = rookHome c side := by
    refine and_iff_right_of_imp ?_
    rintro rfl
    rw [Option.some.inj (hq.symm.trans hrook)]
  have htarget : t ≠ kingHome c := by
    rintro rfl
    obtain ⟨-, -, -, hne⟩ := h.piece hs
    exact hne c hking
  have hqk : q = ⟨c, .king⟩ ↔ q.kind = .king ∧ q.color = c := by
    cases q
    simp [and_comm]
  simp only [← Bool.decide_and, Bool.and_eq_true, Bool.not_eq_true', decide_eq_false_iff_not,
    ← hqk, hmoves, hcorner, ne_eq, htarget, not_false_eq_true, and_true, and_assoc]

/-- The en passant square after a move is the one a double step has passed over. -/
theorem epAfter_eq {p : Position} {q : Piece} {s t : Square} (h : Ordinary p q s t) :
    epAfter q s t = passedOver q s t := by
  unfold epAfter passedOver
  by_cases hk : q.kind = .pawn
  · have hm := h.pawnMove hk
    have hrow : ((t.1 : Int) - s.1).natAbs = 2 ↔ Away s t (forward q.color, 0) 2 := by
      unfold PawnMove PawnAttacks Away at hm
      unfold Away
      cases hc : q.color <;> rw [hc] at hm <;> simp only [forward] at hm ⊢ <;> omega
    by_cases h2 : ((t.1 : Int) - s.1).natAbs = 2
    · have haway := hrow.mp h2
      rw [if_pos ⟨hk, h2⟩, if_pos ⟨hk, haway⟩]
      symm
      rw [Square.shift_eq_some]
      unfold Away at haway ⊢
      cases hc : q.color <;> rw [hc] at haway <;> simp only [forward] at haway ⊢ <;> omega
    · rw [if_neg (fun hh ↦ h2 hh.2), if_neg (fun hh ↦ h2 (hrow.mpr hh.2))]
  · rw [if_neg (fun hh ↦ hk hh.1), if_neg (fun hh ↦ hk hh.1)]

/-- An ordinary move moves no rook. -/
theorem Ordinary.boardAfter_eq {p : Position} {q : Piece} {s t : Square} (h : Ordinary p q s t) :
    boardAfter p.board q s t p.passed = rawBoard p.board q s t p.passed := by
  unfold boardAfter rawBoard
  dsimp only
  rw [if_neg (Ordinary.not_twoColumns h)]

/-- The board after an offered move, the chosen kind placed, is the rules' board. -/
theorem placePromoted_boardAfter {p : Position} {q : Piece} {s t : Square}
    {k : Option Kind} (hq : p.board s = some q) (h : Offered p ⟨s, t, k⟩) :
    placePromoted (boardAfter p.board q s t p.passed) q.color t k = (p.play ⟨s, t, k⟩).board := by
  rcases h.pseudo with ⟨q', hq', hc, ho, hk⟩ | ⟨side, hm, hmay⟩
  · obtain rfl : q = q' := Option.some.inj (hq.symm.trans hq')
    rw [play_ordinary hq ho, Ordinary.boardAfter_eq ho]
    funext u
    cases k with
    | none =>
      change rawBoard p.board q s t p.passed u = _
      rw [rawBoard_apply hq ho none]
      split
      · next hu => rw [hu, boardAfter_dst hq ho]; rfl
      · rfl
    | some kind =>
      change (rawBoard p.board q s t p.passed).set t (some ⟨q.color, kind⟩) u = _
      rw [Board.set_apply, rawBoard_apply hq ho (some kind)]
      split
      · next hu => rw [hu, boardAfter_dst hq ho]; rfl
      · rfl
  · obtain ⟨rfl, rfl, rfl⟩ := Move.mk.inj hm
    obtain rfl : q = ⟨p.turn, .king⟩ := Option.some.inj (hq.symm.trans hmay.king)
    have htwo : twoColumns (kingHome p.turn) (castledKing p.turn side) = true := by
      cases side <;> rfl
    rw [play_castling hmay]
    unfold placePromoted boardAfter
    dsimp only
    rw [if_neg (fun hp ↦ nomatch hp.1), if_pos ⟨rfl, htwo⟩, homeRow_eq, moveCastledRook_eq hmay]

/-- After an offered move the client's new fields describe the rules' new position. -/
theorem Describes.play {board : Board} {turn : Color} {ep : Option Square} {cast : Castling}
    {p : Position} (hd : Describes board turn ep cast p) (hs : Sound p) {q : Piece} {s t : Square}
    {k : Option Kind} (hq : board s = some q) (h : Offered p ⟨s, t, k⟩) :
    Describes (placePromoted (boardAfter board q s t ep) q.color t k) q.color.other
      (epAfter q s t) (castAfter cast q s t) (p.play ⟨s, t, k⟩) := by
  obtain ⟨rfl, rfl, rfl, hcast⟩ := hd
  refine ⟨placePromoted_boardAfter hq h, ?_, ?_, castAfter_describes hs hcast hq h⟩
  · obtain ⟨q', hq', hc, -⟩ := h.piece hs
    obtain rfl : q = q' := Option.some.inj (hq.symm.trans hq')
    rw [hc]
    rfl
  · simp only [Position.play, hq, Option.bind_some]
    rcases h.pseudo with ⟨q', hq', hc, ho, hk⟩ | ⟨side, hm, hmay⟩
    · obtain rfl : q = q' := Option.some.inj (hq.symm.trans hq')
      exact epAfter_eq ho
    · obtain ⟨rfl, rfl, rfl⟩ := Move.mk.inj hm
      obtain rfl : q = ⟨p.turn, .king⟩ := Option.some.inj (hq.symm.trans hmay.king)
      simp [epAfter, passedOver]

/-- The row a pawn promotes on is the only end of the board it can reach. -/
theorem ordinary_promotes_iff {p : Position} {q : Piece} {s t : Square} (h : Ordinary p q s t) :
    Promotes q t ↔ q.kind = .pawn ∧ (t.1 = 0 ∨ t.1 = 7) := by
  unfold Promotes
  refine and_congr_right fun hk ↦ ?_
  have hm := h.pawnMove hk
  unfold PawnMove PawnAttacks Away at hm
  simp only [Fin.ext_iff]
  cases hc : q.color <;> rw [hc] at hm <;> simp only [forward, homeRow, Color.other] at hm ⊢ <;>
    simp <;> omega

/-- A promotion that is offered with one kind is offered with every kind: the check the move
may leave does not depend on it. -/
theorem Offered.repromote {p : Position} (hs : Sound p) {q : Piece} {s t : Square}
    {k k' : Option Kind} (hq : p.board s = some q) (hpawn : q.kind = .pawn)
    (h : Offered p ⟨s, t, k⟩) (hk' : PromotionFits q ⟨s, t, k'⟩) : Offered p ⟨s, t, k'⟩ := by
  rcases h.pseudo with ⟨q', hq', hc, ho, hk⟩ | ⟨side, hm, hmay⟩
  · obtain rfl : q = q' := Option.some.inj (hq.symm.trans hq')
    have hsafe := h.safe
    rw [play_ordinary hq ho] at hsafe
    refine ⟨Or.inl ⟨q, hq, hc, ho, hk'⟩, ?_, fun side hside ↦ ?_⟩
    · rw [play_ordinary hq ho]
      exact (keepsKingSafe_ordinary hs hq hc ho hk').mp
        ((keepsKingSafe_ordinary hs hq hc ho hk).mpr hsafe)
    · rw [ho.castlingSide hq] at hside
      cases hside
  · obtain ⟨rfl, rfl, rfl⟩ := Move.mk.inj hm
    obtain rfl : q = ⟨p.turn, .king⟩ := Option.some.inj (hq.symm.trans hmay.king)
    cases hpawn

/-! ### The invariant -/

/-- The snapshot's fields describe the replay of its log, its status is the one computed for
them and its marked squares are the legal moves of the selected piece. -/
structure Plays (sn : Snapshot) : Prop where
  describes : Describes sn.board sn.turn sn.ep sn.cast (replay sn.moveLog)
  sound : Sound (replay sn.moveLog)
  status : sn.status = statusOf sn.board sn.turn sn.ep sn.cast
  selected : ∀ s, sn.sel = some s → sn.moves = getLegal sn.board s sn.ep sn.cast ∧
    ∃ q, sn.board s = some q ∧ q.color = sn.turn

/-- A pending promotion holds the fields of an offered pawn move to the last row. -/
structure Pending (sn : Snapshot) (pr : Promo) : Prop where
  piece : sn.board pr.src = some ⟨sn.turn, .pawn⟩
  offered : ∃ k, Offered (replay sn.moveLog) ⟨pr.src, pr.dst, k⟩
  promotes : Promotes ⟨sn.turn, .pawn⟩ pr.dst
  col : pr.col = sn.turn
  nb : pr.nb = boardAfter sn.board ⟨sn.turn, .pawn⟩ pr.src pr.dst sn.ep
  nt : pr.nt = sn.turn.other
  nep : pr.nep = epAfter ⟨sn.turn, .pawn⟩ pr.src pr.dst
  nc : pr.nc = castAfter sn.cast ⟨sn.turn, .pawn⟩ pr.src pr.dst

/-- The current state, every state undo can restore and the pending promotion are in order. -/
structure GameState.Ok (g : GameState) : Prop where
  now : Plays g.toSnapshot
  past : ∀ sn ∈ g.past, Plays sn
  pending : ∀ pr, g.promo = some pr → Pending g.toSnapshot pr

/-- What a player does on the board. -/
inductive Event where
  | click (s : Square)
  | doPromo (k : Kind)
  | undo

/-- The hook's state after an event; the modal offers the four kinds a pawn promotes to. -/
inductive Step : GameState → Event → GameState → Prop
  | click (g : GameState) (s : Square) : Step g (.click s) (click g s).1
  | doPromo (g : GameState) {k : Kind} (hk : k ∈ promotionKinds) :
      Step g (.doPromo k) (doPromo g k).1
  | undo (g : GameState) : Step g .undo (undo g)

/-- A game on the client from `reset`. -/
def game : Machine GameState Event where
  init g := g = reset
  step := Step

/-- An empty log replays to the initial position. -/
theorem replay_nil : replay [] = .initial := rfl

private theorem reset_describes : Describes initBoard .w none .all .initial where
  board := rfl
  turn := rfl
  ep := rfl
  cast c side := by
    cases c <;> cases side <;> rfl

/-- The invariant holds at the start. -/
theorem reset_ok : reset.Ok where
  now :=
    { describes := by
        rw [show reset.moveLog = [] from rfl, replay_nil]
        exact reset_describes
      sound := by
        rw [show reset.moveLog = [] from rfl, replay_nil]
        exact Sound.initial
      status := by
        change none = statusOf initBoard .w none .all
        decide +kernel
      selected := nofun }
  past _ h := absurd h List.not_mem_nil
  pending _ h := absurd h.symm (Option.some_ne_none _)

/-- `finish` on the fields of an offered move puts the state in order. -/
theorem finish_ok {g : GameState} (hpast : ∀ sn ∈ g.past, Plays sn) (hpromo : g.promo = none)
    {nb : Board} {nt : Color} {nep : Option Square} {nc : Castling} {note : String}
    {entry : MoveEntry} {silent : Bool} {p : Position} {m : Move} (hp : replay g.moveLog = p)
    (hm : moveOf entry = some m) (hd : Describes nb nt nep nc (p.play m))
    (hs : Sound (p.play m)) : (finish g nb nt nep nc note entry silent).1.Ok := by
  have hlog : ∀ san, replay (g.moveLog ++ [{ entry with san := san }]) = p.play m := by
    intro san
    have hentry : moveOf { entry with san := san } = some m := hm
    rw [replay_append g.moveLog hentry, hp]
  refine ⟨⟨?_, ?_, rfl, nofun⟩, hpast, ?_⟩
  · unfold finish
    dsimp only
    rwa [hlog]
  · unfold finish
    dsimp only
    rwa [hlog]
  · intro pr hpr
    unfold finish at hpr
    dsimp only at hpr
    rw [hpromo] at hpr
    cases hpr

/-- Moving a piece of the side to move to an offered square. -/
theorem applyMove_ok {g : GameState} (hg : g.Ok) (hpromo : g.promo = none) {s t : Square}
    {q : Piece} (hq : g.board s = some q) (hc : q.color = g.turn)
    (ht : t ∈ getLegal g.board s g.ep g.cast) (silent : Bool) :
    (applyMove g s t none silent).1.Ok := by
  obtain ⟨hd, hs, -, -⟩ := hg.now
  obtain ⟨k, hoff⟩ := (mem_getLegal hd hs hq hc).mp ht
  have hboard := hd.board
  have hpast : ∀ sn ∈ g.past ++ [g.toSnapshot], Plays sn := by
    intro sn hsn
    rcases List.mem_append.mp hsn with h | h
    · exact hg.past sn h
    · rw [List.mem_singleton.mp h]
      exact hg.now
  have hpromotes : ∀ {k}, Offered (replay g.moveLog) ⟨s, t, k⟩ → q.kind = .pawn →
      (Promotes q t ↔ t.1 = 0 ∨ t.1 = 7) := by
    intro k hoff hpawn
    rcases hoff.pseudo with ⟨q', hq', hc, ho, hk⟩ | ⟨side, hm, hmay⟩
    · obtain rfl : q = q' := Option.some.inj ((hboard ▸ hq).symm.trans hq')
      rw [ordinary_promotes_iff ho]
      exact and_iff_right hpawn
    · obtain ⟨rfl, rfl, rfl⟩ := Move.mk.inj hm
      obtain rfl := Option.some.inj ((hboard ▸ hq).symm.trans hmay.king)
      cases hpawn
  unfold applyMove
  rw [hq]
  dsimp only
  split
  · next hlast =>
    obtain ⟨hpawn, hrow, -⟩ := hlast
    have hqt : q = ⟨g.turn, .pawn⟩ := by rw [← hc, ← hpawn]
    have hprom := (hpromotes hoff hpawn).mpr hrow
    refine ⟨?_, hpast, ?_⟩
    · obtain ⟨h1, h2, h3, h4⟩ := hg.now
      exact ⟨h1, h2, h3, h4⟩
    · intro pr hpr
      obtain rfl := Option.some.inj hpr
      subst hqt
      exact ⟨hq, ⟨k, hoff⟩, hprom, rfl, rfl, rfl, rfl, rfl⟩
  · next hlast =>
    have hk : k = none := by
      rcases hoff.pseudo with ⟨q', hq', hc, ho, hk⟩ | ⟨side, hm, -⟩
      · obtain rfl : q = q' := Option.some.inj ((hboard ▸ hq).symm.trans hq')
        unfold PromotionFits at hk
        rw [if_neg] at hk
        · exact hk
        · intro hp
          exact hlast ⟨hp.1, (hpromotes hoff hp.1).mp hp, rfl⟩
      · exact (Move.mk.inj hm).2.2
    subst hk
    apply finish_ok (p := replay g.moveLog) (m := ⟨s, t, none⟩)
    case hpast => exact hpast
    case hpromo => exact hpromo
    case hp => rfl
    case hm => simp [moveOf]
    case hd => exact hd.play hs hq hoff
    case hs => exact hs.play hoff.pseudo hoff.safe

/-- A click keeps the invariant. -/
theorem click_ok {g : GameState} (hg : g.Ok) (s : Square) : (click g s).1.Ok := by
  obtain ⟨hnow, hpast, hpending⟩ := hg
  unfold click
  split
  · exact ⟨hnow, hpast, hpending⟩
  · next hlive =>
    have hselect : pcIs (g.board s) g.turn = true →
        GameState.Ok { g with sel := some s, moves := getLegal g.board s g.ep g.cast } := by
      intro hpc
      obtain ⟨q, hq, hc⟩ := pcIs_eq_true.mp hpc
      refine ⟨⟨hnow.describes, hnow.sound, hnow.status, ?_⟩, hpast, ?_⟩
      · intro s' hs'
        obtain rfl := Option.some.inj hs'
        exact ⟨rfl, q, hq, hc⟩
      · intro pr hpr
        obtain ⟨h1, h2, h3, h4, h5, h6, h7, h8⟩ := hpending pr hpr
        exact ⟨h1, h2, h3, h4, h5, h6, h7, h8⟩
    have hpromo : g.promo = none := by
      rw [← Option.not_isSome_iff_eq_none]
      exact fun h ↦ hlive (Or.inr (Or.inr (Or.inr h)))
    dsimp only
    split
    · next from_ hsel =>
      obtain ⟨hmoves, q, hq, hc⟩ := hnow.selected from_ hsel
      split
      · next hm =>
        rw [List.contains_iff_mem, hmoves] at hm
        exact applyMove_ok ⟨hnow, hpast, hpending⟩ hpromo hq hc hm false
      · split
        · next hpc => exact hselect hpc
        · refine ⟨⟨hnow.describes, hnow.sound, hnow.status, nofun⟩, hpast, ?_⟩
          intro pr hpr
          rw [show g.promo = some pr from hpr] at hpromo
          cases hpromo
    · split
      · next hpc => exact hselect hpc
      · exact ⟨hnow, hpast, hpending⟩

/-- A choice of promotion keeps the invariant. -/
theorem doPromo_ok {g : GameState} (hg : g.Ok) {k : Kind} (hk : k ∈ promotionKinds) :
    (doPromo g k).1.Ok := by
  unfold doPromo
  split
  · exact hg
  · next pr hpr =>
    obtain ⟨hpiece, ⟨k', hoff⟩, hprom, hcol, hnb, hnt, hnep, hnc⟩ := hg.pending pr hpr
    obtain ⟨hd, hs, -, -⟩ := hg.now
    have hpiece' := hpiece
    rw [hd.board] at hpiece'
    have hfits : PromotionFits ⟨g.turn, .pawn⟩ ⟨pr.src, pr.dst, some k⟩ := by
      unfold PromotionFits
      rw [if_pos hprom]
      exact ⟨k, hk, rfl⟩
    have hoff := hoff.repromote hs hpiece' rfl hfits
    apply finish_ok (p := replay g.moveLog) (m := ⟨pr.src, pr.dst, some k⟩)
    case hpast => exact hg.past
    case hpromo => rfl
    case hp => rfl
    case hm => simp [moveOf, kindOf_letter hk]
    case hd =>
      rw [hnb, hcol, hnt, hnep, hnc]
      exact hd.play hs hpiece hoff
    case hs => exact hs.play hoff.pseudo hoff.safe

/-- Undo keeps the invariant. -/
theorem undo_ok {g : GameState} (hg : g.Ok) : (undo g).Ok := by
  unfold undo
  split
  · next prev hprev _ =>
    refine ⟨hg.past prev (List.mem_of_getLast? hprev), ?_, ?_⟩
    · intro sn hsn
      exact hg.past sn (List.dropLast_subset _ hsn)
    · intro pr hpr
      exact absurd hpr.symm (Option.some_ne_none pr)
  · exact hg

/-- Every state of a game is in order. -/
theorem ok_invariant : game.Invariant GameState.Ok where
  init g hg := by
    rw [show g = reset from hg]
    exact reset_ok
  step g e g' hg hst := by
    cases hst with
    | click s => exact click_ok hg s
    | doPromo hk => exact doPromo_ok hg hk
    | undo => exact undo_ok hg

/-! ### Exactness -/

/-- The status the rules give a position. -/
structure StatusExact (status : Option Status) (p : Position) : Prop where
  checkmate : status = some .checkmate ↔ Checkmate p
  stalemate : status = some .stalemate ↔ Stalemate p
  check : status = some .check ↔ InCheck p.board p.turn ∧ HasMove p

/-- The client shows the position of the game, offers exactly the legal destinations of every
piece of the side to move, and its status is that of the position. -/
structure GameState.Exact (g : GameState) : Prop where
  board : g.board = (replay g.moveLog).board
  turn : g.turn = (replay g.moveLog).turn
  legal : ∀ s q, g.board s = some q → q.color = g.turn →
    ∀ t, t ∈ getLegal g.board s g.ep g.cast ↔ LegalTo (replay g.moveLog) s t
  status : StatusExact g.status (replay g.moveLog)

/-- The status computed for a described sound position is always exact. -/
theorem statusOf_exact {board : Board} {turn : Color} {ep : Option Square} {cast : Castling}
    {p : Position} (hd : Describes board turn ep cast p) (hs : Sound p) :
    StatusExact (statusOf board turn ep cast) p := by
  have hany := hasAny_iff hd hs
  obtain ⟨w, hw⟩ := hs.kings p.turn
  have hchk : inChk board turn = true ↔ InCheck p.board p.turn := by
    rw [hd.board, hd.turn]
    exact inChk_iff hw
  unfold statusOf
  dsimp only
  by_cases hm : HasMove p
  · rw [hany.mpr hm, Bool.not_true, if_neg Bool.false_ne_true]
    by_cases hc : InCheck p.board p.turn
    · rw [if_pos (hchk.mpr hc)]
      refine ⟨?_, ?_, ?_⟩ <;> simp [Checkmate, Stalemate, hm, hc]
    · rw [if_neg (hchk.not.mpr hc)]
      refine ⟨?_, ?_, ?_⟩ <;> simp [Checkmate, Stalemate, hm, hc]
  · have hno : hasAny board turn ep cast = false := by
      rw [← Bool.not_eq_true]
      exact hany.not.mpr hm
    rw [hno, Bool.not_false, if_pos rfl]
    by_cases hc : InCheck p.board p.turn
    · rw [if_pos (hchk.mpr hc)]
      refine ⟨?_, ?_, ?_⟩ <;> simp [Checkmate, Stalemate, hm, hc]
    · rw [if_neg (hchk.not.mpr hc)]
      refine ⟨?_, ?_, ?_⟩ <;> simp [Checkmate, Stalemate, hm, hc]

/-- Offered moves start from a piece of the side to move, and so do legal ones. -/
theorem Offered.src {p : Position} (hs : Sound p) {s t : Square} {k : Option Kind}
    (h : Offered p ⟨s, t, k⟩) : ∃ q, p.board s = some q ∧ q.color = p.turn := by
  obtain ⟨q, hq, hc, -⟩ := h.piece hs
  exact ⟨q, hq, hc⟩

/-- In every state of a game the client is exact if and only if the side to move cannot castle
out of check. -/
theorem exact_iff_not_castlesOutOfCheck {g : GameState} (hg : game.Reachable g) :
    g.Exact ↔ ¬ CastlesOutOfCheck (replay g.moveLog) := by
  obtain ⟨⟨hd, hs, hst, -⟩, -, -⟩ := ok_invariant.reachable hg
  rw [← offered_iff_legal hs]
  constructor
  · intro h s t
    constructor
    · intro hoff
      obtain ⟨k, hk⟩ := hoff
      obtain ⟨q, hq, hc⟩ := hk.src hs
      rw [← h.board] at hq
      rw [← h.turn] at hc
      exact (h.legal s q hq hc t).mp ((mem_getLegal hd hs hq hc).mpr ⟨k, hk⟩)
    · rintro ⟨k, hlegal⟩
      exact ⟨k, offered_of_legal hs hlegal⟩
  · intro h
    refine ⟨hd.board, hd.turn, fun s q hq hc t ↦ ?_, ?_⟩
    · rw [mem_getLegal hd hs hq hc]
      exact h s t
    · rw [hst]
      exact statusOf_exact hd hs

/-- The state after clicking the squares in turn from `reset`. -/
def clicks (squares : List Square) : GameState :=
  squares.foldl (fun g s ↦ (click g s).1) reset

/-- Clicks lead to reachable states. -/
theorem clicks_reachable (squares : List Square) : game.Reachable (clicks squares) := by
  unfold clicks
  suffices h : ∀ g, game.Reachable g →
      game.Reachable (squares.foldl (fun g s ↦ (click g s).1) g) from h reset (.init rfl)
  induction squares with
  | nil => exact fun _ hg ↦ hg
  | cons s squares ih => exact fun g hg ↦ ih _ (hg.step (.click g s))

/-- 1. e4 a6 2. Nf3 a5 3. Bc4 a4 4. e5 d5: White may castle, and may take the pawn on d5 in
passing. -/
def bothOffered : GameState :=
  clicks [(6, 4), (4, 4), (1, 0), (2, 0), (7, 6), (5, 5), (2, 0), (3, 0), (7, 5), (4, 2),
    (3, 0), (4, 0), (4, 4), (3, 4), (1, 3), (3, 3)]

/-- The moves of `bothOffered`. -/
def bothOfferedMoves : List Move :=
  [⟨(6, 4), (4, 4), none⟩, ⟨(1, 0), (2, 0), none⟩, ⟨(7, 6), (5, 5), none⟩, ⟨(2, 0), (3, 0), none⟩,
    ⟨(7, 5), (4, 2), none⟩, ⟨(3, 0), (4, 0), none⟩, ⟨(4, 4), (3, 4), none⟩, ⟨(1, 3), (3, 3), none⟩]

private theorem bothOffered_facts :
    bothOffered.moveLog.filterMap moveOf = bothOfferedMoves ∧
    castledKing .w .king ∈
      getLegal bothOffered.board (kingHome .w) bothOffered.ep bothOffered.cast ∧
    (2, 3) ∈ getLegal bothOffered.board (3, 4) bothOffered.ep bothOffered.cast := by
  decide +kernel

private theorem not_inCheck_bothOffered :
    ¬ InCheck (bothOfferedMoves.foldl Position.play .initial).board
      (bothOfferedMoves.foldl Position.play .initial).turn := by
  decide +kernel

/-- Nobody is in check after `bothOffered`, so the client is exact there. -/
theorem bothOffered_exact :
    castledKing .w .king ∈
      getLegal bothOffered.board (kingHome .w) bothOffered.ep bothOffered.cast ∧
    (2, 3) ∈ getLegal bothOffered.board (3, 4) bothOffered.ep bothOffered.cast ∧
    bothOffered.Exact := by
  obtain ⟨hmoves, hcastles, hpasses⟩ := bothOffered_facts
  have hreach : game.Reachable bothOffered := clicks_reachable _
  refine ⟨hcastles, hpasses, (exact_iff_not_castlesOutOfCheck hreach).mpr ?_⟩
  rintro ⟨hcheck, -⟩
  rw [replay_of_moves hmoves] at hcheck
  exact not_inCheck_bothOffered hcheck

/-- 1. e4 Nc6 2. Bc4 Nd4 3. Nf3 Nxc2+: White is in check from the knight on c2, yet the squares
f1 and g1 are free and unattacked. -/
def knightCheck : GameState :=
  clicks [(6, 4), (4, 4), (0, 1), (2, 2), (7, 5), (4, 2), (2, 2), (4, 3), (7, 6), (5, 5),
    (4, 3), (6, 2)]

/-- The moves of `knightCheck`. -/
def knightCheckMoves : List Move :=
  [⟨(6, 4), (4, 4), none⟩, ⟨(0, 1), (2, 2), none⟩, ⟨(7, 5), (4, 2), none⟩, ⟨(2, 2), (4, 3), none⟩,
    ⟨(7, 6), (5, 5), none⟩, ⟨(4, 3), (6, 2), none⟩]

private theorem knightCheck_offered :
    knightCheck.moveLog.filterMap moveOf = knightCheckMoves ∧
    knightCheck.board (kingHome .w) = some ⟨.w, .king⟩ ∧ knightCheck.turn = .w ∧
    castledKing .w .king ∈
      getLegal knightCheck.board (kingHome .w) knightCheck.ep knightCheck.cast := by
  decide +kernel

private theorem attacked_knightCheck :
    (knightCheckMoves.foldl Position.play .initial).turn = .w ∧
    (knightCheckMoves.foldl Position.play .initial).board (kingHome .w) = some ⟨.w, .king⟩ ∧
    Attacked (knightCheckMoves.foldl Position.play .initial).board (Color.other .w)
      (kingHome .w) := by
  decide +kernel

/-- White's king is attacked after `knightCheck`, and castling is among its marked squares. -/
theorem knightCheck_facts :
    (replay knightCheck.moveLog).turn = .w ∧
    (replay knightCheck.moveLog).board (kingHome .w) = some ⟨.w, .king⟩ ∧
    Attacked (replay knightCheck.moveLog).board (Color.other .w) (kingHome .w) ∧
    knightCheck.board (kingHome .w) = some ⟨.w, .king⟩ ∧ knightCheck.turn = .w ∧
    castledKing .w .king ∈
      getLegal knightCheck.board (kingHome .w) knightCheck.ep knightCheck.cast := by
  obtain ⟨hmoves, hoffered⟩ := knightCheck_offered
  obtain ⟨hturn, hking, hattacked⟩ := attacked_knightCheck
  rw [replay_of_moves hmoves]
  exact ⟨hturn, hking, hattacked, hoffered⟩

/-- After `knightCheck` the client lets White castle out of check. -/
theorem not_exact_knightCheck : game.Reachable knightCheck ∧ ¬ knightCheck.Exact := by
  constructor
  · unfold knightCheck
    exact clicks_reachable _
  · intro h
    obtain ⟨hturn, hking, hatt, hpiece, hcol, hoffered⟩ := knightCheck_facts
    have hlegal := (h.legal _ _ hpiece hcol.symm _).mp hoffered
    rw [show Color.w = (replay knightCheck.moveLog).turn from hturn.symm] at hking hatt hlegal
    exact not_legalTo_of_attacked hking hatt hlegal

end ChessStack.Client
