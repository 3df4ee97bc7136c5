import ChessStack.Client.Moves
import ChessStack.Client.Game

/-!
# The client's legal moves against the rules

Library `Client`. A position is described by the client's board, side to move, en passant
square and castling flags. On a described sound position `getLegal` finds the legal moves and
one kind more: castling out of check, which `keepsKingSafe` never looks at.
-/

namespace ChessStack.Client

open ChessStack.Chess

/-- The flag `cast[col + side]`. -/
def Castling.flag (cast : Castling) (c : Color) : Side → Bool
  | .king => cast.k c
  | .queen => cast.q c

/-- The client's fields describe the position `p`. -/
structure Describes (board : Board) (turn : Color) (ep : Option Square) (cast : Castling)
    (p : Position) : Prop where
  board : board = p.board
  turn : turn = p.turn
  ep : ep = p.passed
  cast : ∀ c side, cast.flag c side = p.unmoved c side

/-! ### The board after a move that does not castle -/

/-- The board after `appMv`, square by square. -/
theorem appMv_apply (b : Board) (s t u : Square) :
    appMv b s t u = if u = s then none else if u = t then b s else b u := by
  simp only [appMv, Board.set_apply]

/-- `getLegal`'s board before it looks for check. -/
def rawBoard (b : Board) (q : Piece) (s t : Square) (ep : Option Square) : Board :=
  if q.kind = .pawn ∧ ep = some t then clearEpVictim (appMv b s t) q.color t else appMv b s t

/-- The pawn taken in passing stands one step behind the passed square. -/
theorem epVictim_eq {c : Color} {t v : Square} :
    epVictim c t = some v ↔ Away t v (-forward c, 0) 1 := by
  unfold epVictim
  rw [show (if c = .w then 1 else -1 : Int) = -forward c by cases c <;> rfl,
    Square.shift_eq_some]

/-- The victim of a diagonal capture stands beside the capturing pawn. -/
theorem epVictim_of_pawnAttacks {c : Color} {s t : Square} (h : PawnAttacks c s t) :
    epVictim c t = some (s.1, t.2) ∧ s.2 ≠ t.2 := by
  rw [epVictim_eq]
  unfold PawnAttacks Away at *
  simp only [ne_eq, Fin.ext_iff]
  omega

/-- Clearing a cell that is empty already changes nothing. -/
theorem clearEpVictim_of_empty {b : Board} {c : Color} {t : Square}
    (h : ∀ v, Away t v (-forward c, 0) 1 → b v = none) : clearEpVictim b c t = b := by
  unfold clearEpVictim
  cases he : epVictim c t with
  | none => rfl
  | some v =>
    funext u
    change b.set v none u = b u
    rw [Board.set_apply]
    split
    · next hu => rw [hu, h v (epVictim_eq.mp he)]
    · rfl

/-- After a diagonal capture the cleared cell is the one beside the pawn. -/
theorem clearEpVictim_of_pawnAttacks {b : Board} {c : Color} {s t : Square}
    (h : PawnAttacks c s t) : clearEpVictim b c t = b.set (s.1, t.2) none := by
  unfold clearEpVictim
  rw [(epVictim_of_pawnAttacks h).1]

/-- Clearing the cell behind the en passant square changes the raw board only for a diagonal
capture: behind a push stands the pawn's own path. -/
theorem rawBoard_eq {p : Position} {q : Piece} {s t : Square} (h : Ordinary p q s t) :
    rawBoard p.board q s t p.passed =
      if IsEnPassant p q ⟨s, t, none⟩ then (appMv p.board s t).set (s.1, t.2) none
      else appMv p.board s t := by
  unfold rawBoard
  by_cases hp : q.kind = .pawn ∧ p.passed = some t
  · rw [if_pos hp]
    have diag : PawnAttacks q.color s t → clearEpVictim (appMv p.board s t) q.color t =
        if IsEnPassant p q ⟨s, t, none⟩ then (appMv p.board s t).set (s.1, t.2) none
        else appMv p.board s t := by
      intro ha
      rw [if_pos ⟨hp.1, hp.2, (epVictim_of_pawnAttacks ha).2⟩, clearEpVictim_of_pawnAttacks ha]
    have push : s.2 = t.2 →
        (∀ v, Away t v (-forward q.color, 0) 1 → appMv p.board s t v = none) →
        clearEpVictim (appMv p.board s t) q.color t =
        if IsEnPassant p q ⟨s, t, none⟩ then (appMv p.board s t).set (s.1, t.2) none
        else appMv p.board s t := by
      intro hcol hv
      rw [if_neg (fun hc ↦ hc.2.2 hcol), clearEpVictim_of_empty hv]
    rcases h.pawnMove hp.1 with ⟨h1, -⟩ | ⟨-, h2, -, hfree⟩ | ⟨ha, -⟩ | ⟨ha, -⟩
    · apply push
      · unfold Away at h1
        rw [Fin.ext_iff]
        omega
      · intro v hv
        have hvs : v = s := by
          unfold Away at hv h1
          rw [Square.eq_iff]
          omega
        rw [hvs, appMv_apply, if_pos rfl]
    · apply push
      · unfold Away at h2
        rw [Fin.ext_iff]
        omega
      · intro v hv
        have hmid : Away s v (forward q.color, 0) 1 := by
          unfold Away at hv h2 ⊢
          omega
        have hvt : v ≠ t := by
          rintro rfl
          cases hcol : q.color <;> rw [hcol] at hv <;> simp [Away, forward] at hv
        rw [appMv_apply, if_neg hvt, hfree v hmid]
        exact ite_self none
    · exact diag ha
    · exact diag ha
  · rw [if_neg hp, if_neg (fun hc ↦ hp ⟨hc.1, hc.2.1⟩)]

/-- The client's raw board and the rules' board differ at most in the kind of a promoted
pawn. -/
theorem rawBoard_apply {p : Position} {q : Piece} {s t : Square} (hq : p.board s = some q)
    (h : Ordinary p q s t) (k : Option Kind) (u : Square) :
    rawBoard p.board q s t p.passed u =
      if u = t then some q else p.boardAfter ⟨s, t, k⟩ u := by
  rw [rawBoard_eq h]
  have hne := h.ne
  by_cases hut : u = t
  · have hus : u ≠ s := fun hc ↦ hne (hc.symm.trans hut)
    rw [if_pos hut]
    by_cases he : IsEnPassant p q ⟨s, t, none⟩
    · have huv : u ≠ (s.1, t.2) := fun hc ↦ (h.victim_ne he).1 (hc.symm.trans hut)
      rw [if_pos he, Board.set_of_ne _ _ huv, appMv_apply, if_neg hus, if_pos hut, hq]
    · rw [if_neg he, appMv_apply, if_neg hus, if_pos hut, hq]
  · rw [if_neg hut, boardAfter_apply (m := ⟨s, t, k⟩) hq]
    by_cases he : IsEnPassant p q ⟨s, t, none⟩
    · rw [if_pos he, Board.set_apply]
      by_cases hu : u = (s.1, t.2)
      · rw [if_pos hu, if_pos ⟨he, hu⟩]
      · rw [if_neg hu, if_neg (fun hc ↦ hu hc.2), appMv_apply, if_neg hut, if_neg hut]
    · rw [if_neg he, if_neg (fun hc ↦ he hc.1), appMv_apply, if_neg hut, if_neg hut]

/-- Neither side's checks depend on what a pawn promotes to. -/
theorem rawBoard_sameFor {p : Position} {q : Piece} {s t : Square} (hq : p.board s = some q)
    (h : Ordinary p q s t) {k : Option Kind} (hk : PromotionFits q ⟨s, t, k⟩) :
    SameFor q.color (rawBoard p.board q s t p.passed) (p.boardAfter ⟨s, t, k⟩) := by
  intro u
  rw [rawBoard_apply hq h k]
  by_cases hu : u = t
  · rw [if_pos hu, hu, boardAfter_dst hq h k]
    refine ⟨by simp, ?_, ?_⟩
    · intro r hr
      have h1 : q ≠ r := by
        rintro rfl
        exact Color.ne_other _ hr
      have h2 : (⟨q.color, k.getD q.kind⟩ : Piece) ≠ r := by
        rintro rfl
        exact Color.ne_other _ hr
      simp only [Option.some.injEq, h1, h2]
    · obtain ⟨c, kind⟩ := q
      simp only [Option.some.injEq, Piece.mk.injEq, true_and]
      exact hk.king_iff.symm
  · rw [if_neg hu]
    exact ⟨Iff.rfl, fun _ _ ↦ Iff.rfl, Iff.rfl⟩

/-! ### Moves the client offers -/

/-- A piece of the side to move attacks no king. -/
theorem not_attacks_king {p : Position} (hs : Sound p) {q : Piece} {s t : Square}
    (hq : p.board s = some q) (hc : q.color = p.turn) (ha : q.Attacks p.board s t) :
    p.board t ≠ some ⟨p.turn.other, .king⟩ := by
  intro ht
  apply hs.safe
  refine ⟨t, ht, s, q, hq, ?_, ha⟩
  rw [Color.other_other, hc]

/-- What a piece other than a pawn may take. -/
theorem pcIs_false_iff {p : Position} (hs : Sound p) {q : Piece} {s t : Square}
    (hq : p.board s = some q) (hc : q.color = p.turn) (ha : q.Attacks p.board s t) :
    pcIs (p.board t) q.color = false ↔
      ∀ r ∈ p.board t, r.color = q.color.other ∧ r.kind ≠ .king := by
  rw [pcIs_eq_false]
  refine forall_congr' fun r ↦ forall_congr' fun hr ↦ ?_
  constructor
  · intro hcol
    refine ⟨hcol, ?_⟩
    rintro hking
    apply not_attacks_king hs hq hc ha
    rw [← hc, ← hcol, ← hking]
    exact hr
  · exact And.left

/-- On a sound position the raw moves without castling are the ordinary moves. -/
theorem mem_rawMoves {p : Position} (hs : Sound p) {q : Piece} {s t : Square}
    (hq : p.board s = some q) (hc : q.color = p.turn) :
    t ∈ rawMoves p.board s p.passed none ↔ Ordinary p q s t := by
  by_cases hk : q.kind = .pawn
  · rw [mem_rawMoves_pawn hq hk, mem_pawnMoves]
    unfold Ordinary PawnMove
    rw [if_pos hk]
    have htake : PawnAttacks q.color s t → (pcIs (p.board t) q.color.other = true ↔
        ∃ r ∈ p.board t, r.color = q.color.other ∧ r.kind ≠ .king) := by
      intro ha
      rw [pcIs_eq_true]
      refine exists_congr fun r ↦ and_congr_right fun hr ↦ ?_
      constructor
      · intro hcol
        refine ⟨hcol, ?_⟩
        intro hking
        have hatt : q.Attacks p.board s t := by
          unfold Piece.Attacks
          rw [hk]
          exact ha
        apply not_attacks_king hs hq hc hatt
        rw [← hc, ← hcol, ← hking]
        exact hr
      · exact And.left
    rw [and_congr_right htake]
  · rw [mem_rawMoves_officer hq hk]
    unfold Ordinary
    rw [if_neg hk]
    exact and_congr_right (pcIs_false_iff hs hq hc)

/-- The castling branch offers the landing squares of the flags that are left, over an empty
path. -/
theorem mem_castleMoves {b : Board} {c : Color} {s t : Square} {cast : Castling} :
    t ∈ castleMoves b c s cast ↔ ∃ side, s = kingHome c ∧ t = castledKing c side ∧
      cast.flag c side = true ∧ ∀ u ∈ castlePath c side, b u = none := by
  unfold castleMoves
  rw [homeRow_eq]
  dsimp only
  change t ∈ (if s = kingHome c then _ else _) ↔ _
  split
  · next hs =>
    rw [List.mem_append]
    constructor
    · rintro (h | h)
      · split at h
        · next hf =>
          refine ⟨.king, hs, List.mem_singleton.mp h, hf.1, ?_⟩
          simp only [castlePath, List.forall_mem_cons]
          exact ⟨hf.2.1, hf.2.2, fun _ hu ↦ by cases hu⟩
        · cases h
      · split at h
        · next hf =>
          refine ⟨.queen, hs, List.mem_singleton.mp h, hf.1, ?_⟩
          simp only [castlePath, List.forall_mem_cons]
          exact ⟨hf.2.1, hf.2.2.1, hf.2.2.2, fun _ hu ↦ by cases hu⟩
        · cases h
    · rintro ⟨side, -, rfl, hf, hpath⟩
      cases side
      · simp only [castlePath, List.forall_mem_cons] at hpath
        left
        rw [if_pos ⟨hf, hpath.1, hpath.2.1⟩]
        exact List.mem_singleton_self _
      · simp only [castlePath, List.forall_mem_cons] at hpath
        right
        rw [if_pos ⟨hf, hpath.1, hpath.2.1, hpath.2.2.1⟩]
        exact List.mem_singleton_self _
  · next hs =>
    refine iff_of_false List.not_mem_nil ?_
    rintro ⟨side, h, -⟩
    exact hs h

/-- With flags that follow the history, the castling branch is castling but for the attacks. -/
theorem mem_castleMoves_iff {p : Position} (hs : Sound p) {cast : Castling}
    (hcast : ∀ c side, cast.flag c side = p.unmoved c side)
    {s t : Square} : t ∈ castleMoves p.board p.turn s cast ↔
      ∃ side, s = kingHome p.turn ∧ t = castledKing p.turn side ∧ MayCastle p side := by
  rw [mem_castleMoves]
  refine exists_congr fun side ↦ and_congr_right fun _ ↦ and_congr_right fun _ ↦ ?_
  rw [hcast]
  constructor
  · rintro ⟨hu, hpath⟩
    obtain ⟨hking, hrook⟩ := hs.homes p.turn side hu
    exact ⟨hking, hrook, hu, hpath⟩
  · exact fun h ↦ ⟨h.unmoved, h.path⟩

/-- The board with the king on the square it crosses, which `getLegal` also tests. -/
def crossing (p : Position) (side : Side) : Board :=
  appMv p.board (kingHome p.turn) (castledRook p.turn side)

private theorem crossing_hasKing {p : Position} (hs : Sound p) {side : Side}
    (h : MayCastle p side) :
    HasKing (crossing p side) p.turn (castledRook p.turn side) := by
  obtain ⟨w, hw⟩ := hs.kings p.turn
  have hhome : kingHome p.turn = w := (hw _).mp h.king
  have hne : castledRook p.turn side ≠ kingHome p.turn := by
    cases side <;> simp [castledRook, kingHome]
  intro u
  unfold crossing
  rw [appMv_apply]
  by_cases h1 : u = kingHome p.turn
  · rw [if_pos h1, h1]
    exact iff_of_false (fun hu ↦ by cases hu) hne.symm
  · rw [if_neg h1]
    split
    · next h2 => exact iff_of_true h.king h2
    · next h2 =>
      refine iff_of_false ?_ h2
      intro hu
      exact h1 (((hw u).mp hu).trans hhome.symm)

/-- While the king is not in check, testing it on the crossed square is the rules' condition. -/
theorem inCheck_crossing {p : Position} (hs : Sound p) {side : Side} (h : MayCastle p side)
    (hsafe : ¬ Attacked p.board p.turn.other (kingHome p.turn)) :
    InCheck (crossing p side) p.turn ↔
      Attacked p.board p.turn.other (castledRook p.turn side) := by
  have hne : castledRook p.turn side ≠ kingHome p.turn := by
    cases side <;> simp [castledRook, kingHome]
  rw [inCheck_iff_attacked (crossing_hasKing hs h)]
  apply attacked_step h.king (h.path _ (castledRook_mem_path _ _)) _ _ _ hsafe
  · unfold crossing
    rw [appMv_apply, if_pos rfl]
  · unfold crossing
    rw [appMv_apply, if_neg hne, if_pos rfl, h.king]
  · intro u h1 h2
    unfold crossing
    rw [appMv_apply, if_neg h1, if_neg h2]

/-- The board `getLegal` and `applyMove` build for castling is the castled board. -/
theorem moveCastledRook_eq {p : Position} {side : Side} (h : MayCastle p side) :
    moveCastledRook (appMv p.board (kingHome p.turn) (castledKing p.turn side)) (homeRow p.turn)
      (castledKing p.turn side).2 = p.castled side := by
  funext u
  unfold Position.castled
  have hking := h.king
  have hrook := h.rook
  cases side <;>
    simp only [moveCastledRook, castledKing, castledRook, rookHome, kingHome] at hking hrook ⊢ <;>
    simp [appMv_apply, Board.set_apply, hking, hrook] <;>
    split_ifs <;> simp_all

/-- A move the client offers: legal but for the attacks on the king, which must be safe after
the move and, castling, on the square it crosses. Nothing asks where the castling king comes
from. -/
structure Offered (p : Position) (m : Move) : Prop where
  pseudo : Pseudo p m
  safe : ¬ InCheck (p.play m).board p.turn
  across : ∀ side, p.castlingSide m = some side → ¬ InCheck (crossing p side) p.turn

/-- Some kind fits every pawn's move to the last row, and none every other move. -/
theorem exists_promotionFits (q : Piece) (s t : Square) : ∃ k, PromotionFits q ⟨s, t, k⟩ := by
  unfold PromotionFits
  by_cases h : Promotes q t
  · exact ⟨some .queen, by rw [if_pos h]; exact ⟨.queen, by decide, rfl⟩⟩
  · exact ⟨none, by rw [if_neg h]⟩

/-- Only castling moves a king two columns. -/
theorem Ordinary.not_twoColumns {p : Position} {q : Piece} {s t : Square} (h : Ordinary p q s t) :
    ¬ (q.kind = .king ∧ twoColumns s t = true) := by
  rintro ⟨hk, h2⟩
  unfold Ordinary Piece.Attacks at h
  rw [hk, if_neg nofun] at h
  have ha : KingAttacks s t := h.1
  unfold twoColumns at h2
  rw [beq_iff_eq] at h2
  have := ha.2.2
  omega

/-- For an ordinary move the client's test says whether the king stays unattacked. -/
theorem keepsKingSafe_ordinary {p : Position} (hs : Sound p) {q : Piece} {s t : Square}
    {k : Option Kind} (hq : p.board s = some q) (hc : q.color = p.turn) (h : Ordinary p q s t)
    (hk : PromotionFits q ⟨s, t, k⟩) :
    keepsKingSafe p.board q s t p.passed = true ↔ ¬ InCheck (p.boardAfter ⟨s, t, k⟩) p.turn := by
  have hsame := rawBoard_sameFor hq h hk
  obtain ⟨w, hw⟩ := hs.hasKing_after hq hc h hk p.turn
  have hraw : HasKing (rawBoard p.board q s t p.passed) p.turn w := by
    intro u
    rw [← hc, (hsame u).2.2, hc]
    exact hw u
  unfold keepsKingSafe
  dsimp only
  rw [if_neg (Ordinary.not_twoColumns h)]
  change (!inChk (rawBoard p.board q s t p.passed) q.color) = true ↔ _
  rw [Bool.not_eq_true', ← Bool.not_eq_true, hc, inChk_iff hraw, ← hc, hsame.inCheck]

private theorem keepsKingSafe_castling {p : Position} (hs : Sound p) {side : Side}
    (h : MayCastle p side) :
    keepsKingSafe p.board ⟨p.turn, .king⟩ (kingHome p.turn) (castledKing p.turn side) p.passed = true ↔
      ¬ InCheck (crossing p side) p.turn ∧ ¬ InCheck (p.castled side) p.turn := by
  have htwo : twoColumns (kingHome p.turn) (castledKing p.turn side) = true := by
    cases side <;> rfl
  have hcol : ((homeRow p.turn, if (castledKing p.turn side).2 = 6 then 5 else 3) : Square) =
      castledRook p.turn side := by
    cases side <;> rfl
  unfold keepsKingSafe
  dsimp only
  rw [if_pos ⟨rfl, htwo⟩, homeRow_eq, hcol, if_neg (fun hp ↦ nomatch hp.1), moveCastledRook_eq h,
    Bool.and_eq_true, Bool.not_eq_true', Bool.not_eq_true', ← Bool.not_eq_true,
    ← Bool.not_eq_true, inChk_iff (hs.own_castled h)]
  change ¬ inChk (crossing p side) p.turn = true ∧ _ ↔ _
  rw [inChk_iff (crossing_hasKing hs h)]

/-- `getLegal` on a described sound position: the destinations of the offered moves. -/
theorem mem_getLegal {board : Board} {turn : Color} {ep : Option Square} {cast : Castling}
    {p : Position} (hd : Describes board turn ep cast p) (hs : Sound p) {q : Piece} {s t : Square}
    (hq : board s = some q) (hc : q.color = turn) :
    t ∈ getLegal board s ep cast ↔ ∃ k, Offered p ⟨s, t, k⟩ := by
  obtain ⟨rfl, rfl, rfl, hcast⟩ := hd
  unfold getLegal
  rw [hq]
  dsimp only
  rw [List.mem_filter, mem_rawMoves_cast hq, mem_rawMoves hs hq hc, hc]
  constructor
  · rintro ⟨ho | ⟨hking, hm⟩, hsafe⟩
    · obtain ⟨k, hk⟩ := exists_promotionFits q s t
      refine ⟨k, Or.inl ⟨q, hq, hc, ho, hk⟩, ?_, ?_⟩
      · rw [play_ordinary hq ho]
        exact (keepsKingSafe_ordinary hs hq hc ho hk).mp hsafe
      · intro side hside
        rw [ho.castlingSide hq] at hside
        cases hside
    · obtain ⟨side, rfl, rfl, h⟩ := (mem_castleMoves_iff hs hcast).mp hm
      have hqk : q = ⟨p.turn, .king⟩ := Option.some.inj (hq.symm.trans h.king)
      rw [hqk] at hsafe
      obtain ⟨hx, hl⟩ := (keepsKingSafe_castling hs h).mp hsafe
      refine ⟨none, Or.inr ⟨side, rfl, h⟩, ?_, ?_⟩
      · rw [play_castling h]
        exact hl
      · intro side' hside
        rw [h.castlingSide, Option.some.injEq] at hside
        exact hside ▸ hx
  · rintro ⟨k, ⟨q', hq', -, ho, hk⟩ | ⟨side, hside, h⟩, hsafe, hacross⟩
    · obtain rfl : q = q' := Option.some.inj (hq.symm.trans hq')
      rw [play_ordinary hq ho] at hsafe
      exact ⟨Or.inl ho, (keepsKingSafe_ordinary hs hq hc ho hk).mpr hsafe⟩
    · obtain ⟨rfl, rfl, rfl⟩ := Move.mk.inj hside
      have hqk : q = ⟨p.turn, .king⟩ := Option.some.inj (hq.symm.trans h.king)
      refine ⟨Or.inr ⟨by rw [hqk], (mem_castleMoves_iff hs hcast).mpr ⟨side, rfl, rfl, h⟩⟩, ?_⟩
      rw [play_castling h] at hsafe
      rw [hqk]
      exact (keepsKingSafe_castling hs h).mpr ⟨hacross side h.castlingSide, hsafe⟩

/-! ### Where the client goes wrong -/

/-- The side to move is in check, and king and rook could castle were it not for that. -/
def CastlesOutOfCheck (p : Position) : Prop :=
  InCheck p.board p.turn ∧ ∃ side, MayCastle p side ∧ ¬ InCheck (crossing p side) p.turn ∧
    ¬ InCheck (p.castled side) p.turn

/-- Every legal move is offered. -/
theorem offered_of_legal {p : Position} (hs : Sound p) {m : Move} (h : Legal p m) : Offered p m := by
  obtain ⟨hm, hsafe, hcastle⟩ := (legal_iff hs m).mp h
  refine ⟨hm, hsafe, fun side hside ↦ ?_⟩
  obtain ⟨hk, hx⟩ := hcastle side hside
  rcases hm with ⟨q, hq, hc, ho, -⟩ | ⟨side', rfl, hmay⟩
  · rw [ho.castlingSide hq] at hside
    cases hside
  · rw [hmay.castlingSide, Option.some.injEq] at hside
    subst hside
    rwa [inCheck_crossing hs hmay hk]

/-- An offered move is legal unless it castles out of check. -/
theorem legal_of_offered {p : Position} (hs : Sound p) {m : Move} (h : Offered p m)
    (hcheck : ∀ side, p.castlingSide m = some side → ¬ InCheck p.board p.turn) : Legal p m := by
  refine (legal_iff hs m).mpr ⟨h.pseudo, h.safe, fun side hside ↦ ?_⟩
  rcases h.pseudo with ⟨q, hq, hc, ho, -⟩ | ⟨side', rfl, hmay⟩
  · rw [ho.castlingSide hq] at hside
    cases hside
  · have hacross := h.across side hside
    have hcheck := hcheck side hside
    rw [hmay.castlingSide, Option.some.injEq] at hside
    subst hside
    obtain ⟨w, hw⟩ := hs.kings p.turn
    have hhome : kingHome p.turn = w := (hw _).mp hmay.king
    rw [inCheck_iff_attacked hw, ← hhome] at hcheck
    exact ⟨hcheck, (inCheck_crossing hs hmay hcheck).not.mp hacross⟩

/-- No legal move leads an attacked king from its first square to a castling square. -/
theorem not_legalTo_of_attacked {p : Position} {side : Side}
    (hking : p.board (kingHome p.turn) = some ⟨p.turn, .king⟩)
    (hatt : Attacked p.board p.turn.other (kingHome p.turn)) :
    ¬ LegalTo p (kingHome p.turn) (castledKing p.turn side) := by
  rintro ⟨k, ⟨q, hq, -, ho, -⟩ | ⟨side', -, hcastles⟩⟩
  · have hq : p.board (kingHome p.turn) = some q := hq
    rw [hking, Option.some.injEq] at hq
    subst hq
    apply Ordinary.not_twoColumns ho
    cases side <;> exact ⟨rfl, rfl⟩
  · exact hcastles.notInCheck hatt

/-- The offered moves are the legal ones, destination by destination, exactly when the side to
move cannot castle out of check. -/
theorem offered_iff_legal {p : Position} (hs : Sound p) :
    (∀ s t, (∃ k, Offered p ⟨s, t, k⟩) ↔ LegalTo p s t) ↔ ¬ CastlesOutOfCheck p := by
  constructor
  · rintro h ⟨hcheck, side, hmay, hx, hl⟩
    have hoff : Offered p ⟨kingHome p.turn, castledKing p.turn side, none⟩ := by
      refine ⟨Or.inr ⟨side, rfl, hmay⟩, ?_, fun side' hside ↦ ?_⟩
      · rwa [play_castling hmay]
      · rw [hmay.castlingSide, Option.some.injEq] at hside
        exact hside ▸ hx
    obtain ⟨w, hw⟩ := hs.kings p.turn
    have hhome : kingHome p.turn = w := (hw _).mp hmay.king
    rw [inCheck_iff_attacked hw, ← hhome] at hcheck
    exact not_legalTo_of_attacked hmay.king hcheck ((h _ _).mp ⟨none, hoff⟩)
  · intro h s t
    constructor
    · rintro ⟨k, hoff⟩
      refine ⟨k, legal_of_offered hs hoff fun side hside hcheck ↦ h ⟨hcheck, side, ?_⟩⟩
      have hsafe := hoff.safe
      have hacross := hoff.across side hside
      rcases hoff.pseudo with ⟨q, hq, -, ho, -⟩ | ⟨side', hm, hmay⟩
      · rw [ho.castlingSide hq] at hside
        cases hside
      · rw [hm] at hside hsafe
        rw [hmay.castlingSide, Option.some.injEq] at hside
        subst hside
        rw [play_castling hmay] at hsafe
        exact ⟨hmay, hacross, hsafe⟩
    · rintro ⟨k, hlegal⟩
      exact ⟨k, offered_of_legal hs hlegal⟩

/-- A king that may be castled may also just step to the square it crosses. -/
theorem legal_step_across {p : Position} {side : Side} (hmay : MayCastle p side)
    (hx : ¬ InCheck (crossing p side) p.turn) :
    Legal p ⟨kingHome p.turn, castledRook p.turn side, none⟩ := by
  have ho : Ordinary p ⟨p.turn, .king⟩ (kingHome p.turn) (castledRook p.turn side) := by
    unfold Ordinary
    rw [if_neg (fun hk ↦ by cases hk)]
    constructor
    · change KingAttacks _ _
      cases side <;> simp [KingAttacks, kingHome, castledRook]
    · rw [hmay.path _ (castledRook_mem_path _ _)]
      exact fun _ hu ↦ by cases hu
  refine Or.inl ⟨_, hmay.king, rfl, ho, ?_, ?_⟩
  · unfold PromotionFits
    rw [if_neg (fun h ↦ by cases h.1)]
  · have hboard : p.boardAfter ⟨kingHome p.turn, castledRook p.turn side, none⟩ =
        crossing p side := by
      funext u
      unfold crossing
      rw [boardAfter_apply hmay.king, if_neg (fun h ↦ by cases h.1.1), appMv_apply, hmay.king]
      dsimp only
      split
      · next h1 =>
        rw [if_neg]
        · rfl
        · rw [h1]
          cases side <;> simp [castledRook, kingHome]
      · rfl
    rwa [hboard]

/-- `hasAny` is exact in every sound position: where castling out of check is offered, stepping
to the crossed square is legal. -/
theorem hasAny_iff {board : Board} {turn : Color} {ep : Option Square} {cast : Castling}
    {p : Position} (hd : Describes board turn ep cast p) (hs : Sound p) :
    hasAny board turn ep cast = true ↔ HasMove p := by
  have hboard := hd.board
  have hturn := hd.turn
  unfold hasAny
  simp only [List.any_eq_true, mem_allSquares, true_and, Bool.and_eq_true, pcIs_eq_true,
    decide_eq_true_eq, List.length_pos_iff_exists_mem]
  constructor
  · rintro ⟨s, ⟨q, hq, hc⟩, t, ht⟩
    obtain ⟨k, hoff⟩ := (mem_getLegal hd hs hq hc).mp ht
    cases hside : p.castlingSide ⟨s, t, k⟩ with
    | none =>
      refine ⟨_, legal_of_offered hs hoff fun side h ↦ ?_⟩
      rw [hside] at h
      cases h
    | some side =>
      rcases hoff.pseudo with ⟨q, hq, -, ho, -⟩ | ⟨side', hm, hmay⟩
      · rw [ho.castlingSide hq] at hside
        cases hside
      · rw [hm, hmay.castlingSide, Option.some.injEq] at hside
        subst hside
        have hx := hoff.across side' (by rw [hm, hmay.castlingSide])
        exact ⟨_, legal_step_across hmay hx⟩
  · rintro ⟨⟨s, t, k⟩, hlegal⟩
    have hsrc : ∃ q, board s = some q ∧ q.color = turn := by
      rw [hboard, hturn]
      rcases hlegal with ⟨q, hq, hc, -⟩ | ⟨side, hm, hcastles⟩
      · exact ⟨q, hq, hc⟩
      · obtain ⟨rfl, -, -⟩ := Move.mk.inj hm
        exact ⟨_, hcastles.king, rfl⟩
    obtain ⟨q, hq, hc⟩ := hsrc
    exact ⟨s, ⟨q, hq, hc⟩, t, (mem_getLegal hd hs hq hc).mpr ⟨k, offered_of_legal hs hlegal⟩⟩

end ChessStack.Client
