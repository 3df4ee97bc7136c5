import ChessStack.Chess.Facts
import Mathlib.Algebra.BigOperators.Group.Finset.Basic
import Mathlib.Algebra.BigOperators.Ring.Finset
import Mathlib.Data.Fintype.Prod

/-!
# Men and pawns

Library `Chess`. How many men each side has on a board, and what play keeps of the pawns: none
stands on an end row, and behind the square a double step has passed over lies the empty square
it came from.
-/

namespace ChessStack.Chess

/-! ### Counting men -/

/-- One for a piece of the colour. -/
def owned (c : Color) : Option Piece → Nat
  | some q => if q.color = c then 1 else 0
  | none => 0

/-- Nobody owns an empty square. -/
@[simp] theorem owned_none (c : Color) : owned c none = 0 := rfl

/-- A piece counts for its colour. -/
theorem owned_some (c : Color) (q : Piece) : owned c (some q) = if q.color = c then 1 else 0 := rfl

/-- The men of a colour. -/
def men (b : Board) (c : Color) : Nat := ∑ s : Square, owned c (b s)

/-- Writing a cell exchanges its man. -/
theorem men_set (b : Board) (s : Square) (v : Option Piece) (c : Color) :
    men (b.set s v) c + owned c (b s) = men b c + owned c v := by
  unfold men
  rw [← Finset.add_sum_erase _ (fun u ↦ owned c (b.set s v u)) (Finset.mem_univ s),
    ← Finset.add_sum_erase _ (fun u ↦ owned c (b u)) (Finset.mem_univ s)]
  have hrest : ∑ u ∈ Finset.univ.erase s, owned c (b.set s v u) =
      ∑ u ∈ Finset.univ.erase s, owned c (b u) := by
    refine Finset.sum_congr rfl fun u hu ↦ ?_
    rw [Board.set_of_ne b v (Finset.ne_of_mem_erase hu)]
  rw [hrest, Board.set_self]
  omega

/-- Writing a man over one of the same colour, or nothing over nothing, keeps the count. -/
theorem men_set_of_owned {b : Board} {s : Square} {v : Option Piece} {c : Color}
    (h : owned c (b s) = owned c v) : men (b.set s v) c = men b c := by
  have := men_set b s v c
  omega

/-- A man that goes to another square takes what stands there. -/
theorem men_move (b : Board) {s t : Square} (hne : s ≠ t) (c : Color) :
    men ((b.set t (b s)).set s none) c + owned c (b t) = men b c := by
  have hset := men_set b t (b s) c
  have hclear := men_set (b.set t (b s)) s none c
  rw [Board.set_of_ne b _ hne, owned_none] at hclear
  omega

/-- Each side starts with sixteen men. -/
theorem men_initial (c : Color) : men initBoard c = 16 := by
  cases c <;> decide +kernel

/-! ### Pawns -/

/-- No pawn stands on an end row, and a double step has left an empty square behind the one it
passed over. -/
structure Tidy (p : Position) : Prop where
  inside : ∀ s c, p.board s = some ⟨c, .pawn⟩ → s.1 ≠ 0 ∧ s.1 ≠ 7
  origin : ∀ t, p.passed = some t → ∃ u v, Away t u (-forward p.turn.other, 0) 1 ∧
    p.board u = none ∧ Away t v (forward p.turn.other, 0) 1

/-- The initial position is tidy. -/
theorem Tidy.initial : Tidy .initial where
  inside s c := by
    revert s
    cases c <;> decide +kernel
  origin := nofun

/-- Where a pawn that stays one stands after its move. -/
theorem PromotionFits.inside {p : Position} {q : Piece} {s t : Square} {k : Option Kind}
    (hk : PromotionFits q ⟨s, t, k⟩) (h : Ordinary p q s t) (hs : s.1 ≠ 0 ∧ s.1 ≠ 7)
    (hpawn : q.kind = .pawn) (hplaced : k.getD q.kind = .pawn) : t.1 ≠ 0 ∧ t.1 ≠ 7 := by
  have hnot : ¬ Promotes q t := by
    intro hp
    unfold PromotionFits at hk
    rw [if_pos hp] at hk
    obtain ⟨kind, hmem, hkind⟩ := hk
    have hkind : k = some kind := hkind
    rw [hkind] at hplaced
    have : kind = .pawn := hplaced
    subst this
    revert hmem
    decide
  have hm := h.pawnMove hpawn
  have hend : t.1 ≠ homeRow q.color.other := fun ht ↦ hnot ⟨hpawn, ht⟩
  obtain ⟨h0, h7⟩ := hs
  simp only [ne_eq, Fin.ext_iff] at h0 h7 hend ⊢
  unfold PawnMove PawnAttacks Away at hm
  cases hc : q.color <;> rw [hc] at hm hend <;>
    simp only [forward, homeRow, pawnRow, Color.other, Fin.ext_iff] at hm hend ⊢ <;> simp at h0 h7 hm hend ⊢ <;> omega

/-- A double step leaves its square empty behind the one it passes over. -/
theorem origin_after {p : Position} {q : Piece} {s t : Square} {k : Option Kind}
    (hq : p.board s = some q) (h : Ordinary p q s t) {u : Square} (hu : passedOver q s t = some u) :
    ∃ v w, Away u v (-forward q.color, 0) 1 ∧ p.boardAfter ⟨s, t, k⟩ v = none ∧
      Away u w (forward q.color, 0) 1 := by
  unfold passedOver at hu
  split at hu
  · next hd =>
    obtain ⟨-, h2⟩ := hd
    rw [Square.shift_eq_some] at hu
    refine ⟨s, t, ?_, ?_, ?_⟩
    · unfold Away at hu ⊢
      omega
    · rw [boardAfter_apply (m := ⟨s, t, k⟩) hq]
      dsimp only
      rw [if_neg h.ne, if_pos rfl]
      exact ite_self none
    · unfold Away at hu h2 ⊢
      omega
  · cases hu

/-- Play keeps the pawns in order. -/
theorem Tidy.play {p : Position} (h : Tidy p) {m : Move} (hm : Pseudo p m) : Tidy (p.play m) := by
  have hother : (p.play m).turn.other = p.turn := Color.other_other _
  obtain ⟨s, t, k⟩ := m
  rcases hm with ⟨q, hq, hc, ho, hk⟩ | ⟨side, hside, hmay⟩
  · have hq : p.board s = some q := hq
    have hb := play_ordinary (k := k) hq ho
    refine ⟨fun u c hu ↦ ?_, fun u hu ↦ ?_⟩
    · rw [hb, boardAfter_apply (m := ⟨s, t, k⟩) hq] at hu
      dsimp only at hu
      split at hu
      · cases hu
      · split at hu
        · next hut =>
          have hplaced : k.getD q.kind = .pawn := congrArg Piece.kind (Option.some.inj hu)
          have hpawn : q.kind = .pawn := by
            unfold PromotionFits at hk
            split at hk
            · next hp => exact hp.1
            · have hnone : k = none := hk
              rwa [hnone] at hplaced
          have hs := h.inside s q.color (by rw [hq, ← hpawn])
          exact hut ▸ hk.inside ho hs hpawn hplaced
        · split at hu
          · cases hu
          · exact h.inside u c hu
    · rw [hb, hother, ← hc]
      simp only [Position.play, hq, Option.bind_some] at hu
      exact origin_after hq ho hu
  · obtain ⟨rfl, rfl, rfl⟩ := Move.mk.inj hside
    have hb := play_castling hmay
    refine ⟨fun u c hu ↦ ?_, fun u hu ↦ ?_⟩
    · rw [hb, castled_apply] at hu
      split_ifs at hu
      · cases hu
      · cases hu
      · exact h.inside u c hu
    · simp [Position.play, hmay.king, passedOver] at hu

end ChessStack.Chess
