import ChessStack.Chess.Facts
import ChessStack.Client.Engine

/-!
# What the client's move generator produces

Library `Client`. Membership of every list `rawMoves` builds, in the terms of `Chess.Rules`:
the loop of `sl` finds exactly the squares a line reaches, the jump tables are the geometry
of knight and king, and the pawn branch is `PawnMove` with the client's en passant square.
-/

namespace ChessStack.Client

open ChessStack.Chess

/-- An empty square has no colour. -/
@[simp] theorem pcIs_none (col : Color) : pcIs none col = false := rfl

/-- The colour of a piece. -/
@[simp] theorem pcIs_some (p : Piece) (col : Color) : pcIs (some p) col = (p.color == col) := rfl

/-- A square has the colour of the piece on it. -/
theorem pcIs_eq_true {cell : Option Piece} {col : Color} :
    pcIs cell col = true ↔ ∃ p, cell = some p ∧ p.color = col := by
  cases cell <;> simp

/-- A cell not of `col` is empty or the opponent's. -/
theorem pcIs_eq_false {cell : Option Piece} {col : Color} :
    pcIs cell col = false ↔ ∀ p ∈ cell, p.color = col.other := by
  cases cell with
  | none => simp
  | some p =>
    simp only [pcIs_some, beq_eq_false_iff_ne, ne_eq, Option.mem_def, Option.some.injEq,
      forall_eq']
    constructor
    · exact Color.eq_other_of_ne
    · intro h he
      rw [he] at h
      exact Color.ne_other col h

/-! ### Lines -/

/-- The loop of `sl` with room for `fuel` steps collects the squares up to `fuel` steps away
with nothing in between, ending on an empty cell or an opponent's piece. -/
theorem mem_slide {b : Board} {opp : Color} {d : Offset} (hd : IsLine d) (fuel : Nat)
    (s t : Square) :
    t ∈ slide b opp d fuel s ↔ ∃ n, 0 < n ∧ n ≤ fuel ∧ Away s t d n ∧
      (∀ k, 0 < k → k < n → ∀ u, Away s u d k → b u = none) ∧ ∀ q ∈ b t, q.color = opp := by
  induction fuel generalizing s with
  | zero =>
    simp only [slide, List.not_mem_nil, false_iff, not_exists, not_and]
    intro n h0 hn
    omega
  | succ fuel ih =>
    unfold slide
    split
    · next hs =>
      -- the line leaves the board at once
      simp only [List.not_mem_nil, false_iff, not_exists, not_and]
      intro n h0 _ ht
      obtain ⟨u, hu⟩ := hd.first h0 ht
      exact absurd hu (Square.shift_eq_none.mp hs u)
    · next v hv =>
      have hv := Square.shift_eq_some.mp hv
      split
      · next hb =>
        rw [List.mem_cons, ih v]
        constructor
        · rintro (rfl | ⟨n, h0, hn, ht, hc, hq⟩)
          · refine ⟨1, by omega, by omega, hv, fun k h0 h1 ↦ by omega, ?_⟩
            simp [hb]
          · refine ⟨n + 1, by omega, by omega, hv.step.mp ht, ?_, hq⟩
            intro k h0 hk u hu
            obtain ⟨j, rfl⟩ : ∃ j, k = j + 1 := ⟨k - 1, by omega⟩
            have hj := hv.step.mpr hu
            cases j with
            | zero => rw [away_zero.mp hj, hb]
            | succ j => exact hc (j + 1) (by omega) (by omega) u hj
        · rintro ⟨n, h0, hn, ht, hc, hq⟩
          obtain ⟨m, rfl⟩ : ∃ m, n = m + 1 := ⟨n - 1, by omega⟩
          have hm := hv.step.mpr ht
          cases m with
          | zero => exact Or.inl (away_zero.mp hm)
          | succ m =>
            refine Or.inr ⟨m + 1, by omega, by omega, hm, ?_, hq⟩
            intro k h1 hk u hu
            exact hc (k + 1) (by omega) (by omega) u (hv.step.mp hu)
      · next q hb =>
        have hone : ∀ n, 0 < n → Away s t d n →
            (∀ k, 0 < k → k < n → ∀ u, Away s u d k → b u = none) → t = v := by
          intro n h0 ht hc
          by_cases h1 : n = 1
          · subst h1
            exact ht.unique hv
          · have := hc 1 (by omega) (by omega) v hv
            rw [hb] at this
            cases this
        constructor
        · intro h
          have hq : q.color = opp ∧ t = v := by
            split at h
            · next hq => exact ⟨hq, List.mem_singleton.mp h⟩
            · cases h
          obtain ⟨hq, rfl⟩ := hq
          refine ⟨1, by omega, by omega, hv, fun k h0 h1 ↦ by omega, ?_⟩
          simpa [hb] using hq
        · rintro ⟨n, h0, _, ht, hc, hq⟩
          have ht := hone n h0 ht hc
          subst ht
          rw [if_pos (hq q hb)]
          exact List.mem_singleton_self t

/-- `sl(dr, dc)` finds the squares the line reaches, its own pieces excluded. -/
theorem mem_sl {b : Board} {col : Color} {d : Offset} (hd : IsLine d) (s t : Square) :
    t ∈ sl b col.other s d ↔ Slides b s t d ∧ pcIs (b t) col = false := by
  rw [sl, mem_slide hd, pcIs_eq_false]
  constructor
  · rintro ⟨n, h0, _, ht, hc, hq⟩
    refine ⟨⟨⟨n, hd.lt_eight ht⟩, h0, ht, fun k h1 hk u hu ↦ hc k.val h1 hk u hu⟩, hq⟩
  · rintro ⟨⟨n, h0, ht, hc⟩, hq⟩
    refine ⟨n, h0, by omega, ht, fun k h1 hk u hu ↦ ?_, hq⟩
    exact hc ⟨k, by omega⟩ h1 hk u hu

private theorem mem_flatMap_sl {b : Board} {col : Color} {s t : Square} {ds : List Offset}
    (hds : ∀ d ∈ ds, IsLine d) :
    t ∈ ds.flatMap (sl b col.other s) ↔ (∃ d ∈ ds, Slides b s t d) ∧ pcIs (b t) col = false := by
  rw [List.mem_flatMap]
  constructor
  · rintro ⟨d, hd, h⟩
    have h := (mem_sl (hds d hd) s t).mp h
    exact ⟨⟨d, hd, h.1⟩, h.2⟩
  · rintro ⟨⟨d, hd, h⟩, hc⟩
    exact ⟨d, hd, (mem_sl (hds d hd) s t).mpr ⟨h, hc⟩⟩

/-! ### Jumps -/

private theorem mem_jumps {b : Board} {col : Color} {s t : Square} {ds : List Offset} :
    t ∈ jumps b col s ds ↔ (∃ d ∈ ds, Away s t d 1) ∧ pcIs (b t) col = false := by
  simp only [jumps, List.mem_filterMap, Option.filter_eq_some_iff, Square.shift_eq_some,
    Bool.not_eq_true']
  constructor
  · rintro ⟨d, hd, h, hc⟩
    exact ⟨⟨d, hd, h⟩, hc⟩
  · rintro ⟨⟨d, hd, h⟩, hc⟩
    exact ⟨d, hd, h, hc⟩

/-- The jump table is the knight's geometry. -/
theorem knightJumps_iff {s t : Square} : (∃ d ∈ knightJumps, Away s t d 1) ↔ KnightAttacks s t := by
  simp only [knightJumps, List.mem_cons, List.not_mem_nil, or_false, exists_eq_or_imp,
    exists_eq_left, Away, KnightAttacks]
  omega

/-- The step table is the king's geometry. -/
theorem kingSteps_iff {s t : Square} : (∃ d ∈ kingSteps, Away s t d 1) ↔ KingAttacks s t := by
  simp only [kingSteps, List.mem_cons, List.not_mem_nil, or_false, exists_eq_or_imp,
    exists_eq_left, Away, KingAttacks, ne_eq, Square.eq_iff]
  omega

/-! ### Pawns -/

private theorem forward_eq (col : Color) : (if col = .w then -1 else 1 : Int) = forward col := by
  cases col <;> rfl

private theorem pawnRow_eq (col : Color) : (if col = .w then 6 else 1 : Fin 8) = pawnRow col := by
  cases col <;> rfl

/-- The row the source writes as `col === 'w' ? 7 : 0`. -/
theorem homeRow_eq (col : Color) : (if col = .w then 7 else 0 : Fin 8) = homeRow col := by
  cases col <;> rfl

/-- Two steps forward are one shift by twice the step. -/
theorem away_two_forward {s t : Square} {c : Color} :
    Away s t (2 * forward c, 0) 1 ↔ Away s t (forward c, 0) 2 := by
  simp only [Away]
  omega

/-- A pawn that may step twice may step once. -/
theorem away_forward_first {s t : Square} {c : Color} (h : Away s t (forward c, 0) 2) :
    ∃ u, Away s u (forward c, 0) 1 := by
  apply IsLine.first _ (by omega) h
  cases c <;> simp [IsLine, forward]

/-- One capture side: the cell diagonally ahead holds an opponent or is the en passant
square. -/
theorem mem_pawnCaptures {b : Board} {col : Color} {s t : Square} {ep : Option Square}
    {dc : Int} :
    t ∈ pawnCaptures b col s ep dc ↔
      Away s t (forward col, dc) 1 ∧ (pcIs (b t) col.other = true ∨ ep = some t) := by
  simp only [pawnCaptures, forward_eq]
  split
  · next hs =>
    simp only [List.not_mem_nil, false_iff, not_and]
    intro h
    exact absurd h (Square.shift_eq_none.mp hs t)
  · next v hv =>
    have hv := Square.shift_eq_some.mp hv
    constructor
    · intro h
      have ht : t = v := by
        rcases List.mem_append.mp h with h | h <;> split at h <;> simp_all
      subst ht
      refine ⟨hv, ?_⟩
      rcases List.mem_append.mp h with h | h
      · left
        split at h
        · assumption
        · cases h
      · right
        split at h
        · assumption
        · cases h
    · rintro ⟨h, hp⟩
      have he := h.unique hv
      subst he
      rcases hp with hp | hp <;> simp [hp]

/-- The pushes: one step onto an empty cell, two from the first row over empty cells. -/
theorem mem_pawnPushes {b : Board} {col : Color} {s t : Square} :
    t ∈ pawnPushes b col s ↔
      (Away s t (forward col, 0) 1 ∧ b t = none) ∨
      (s.1 = pawnRow col ∧ Away s t (forward col, 0) 2 ∧ b t = none ∧
        ∀ u, Away s u (forward col, 0) 1 → b u = none) := by
  simp only [pawnPushes, forward_eq, pawnRow_eq]
  split
  · next hs =>
    have hs := Square.shift_eq_none.mp hs
    simp only [List.not_mem_nil, false_iff, not_or, not_and]
    refine ⟨fun h ↦ absurd h (hs t), fun _ h2 ↦ ?_⟩
    obtain ⟨u, hu⟩ := away_forward_first h2
    exact absurd hu (hs u)
  · next v hv =>
    have hv := Square.shift_eq_some.mp hv
    by_cases hb : b v = none
    · rw [if_pos hb, List.mem_cons]
      have hfree : ∀ u, Away s u (forward col, 0) 1 → b u = none := by
        intro u hu
        rw [hu.unique hv, hb]
      constructor
      · rintro (rfl | h)
        · exact Or.inl ⟨hv, hb⟩
        · split at h
          · next u hu =>
            have hu := away_two_forward.mp (Square.shift_eq_some.mp hu)
            split at h
            · next hp =>
              rw [List.mem_singleton] at h
              subst h
              exact Or.inr ⟨hp.1, hu, hp.2, hfree⟩
            · cases h
          · cases h
      · rintro (⟨h, _⟩ | ⟨hr, h2, ht, _⟩)
        · exact Or.inl (h.unique hv)
        · right
          have hu := Square.shift_eq_some.mpr (away_two_forward.mpr h2)
          simp [hu, hr, ht]
    · rw [if_neg hb]
      simp only [List.not_mem_nil, false_iff, not_or, not_and]
      refine ⟨fun h ↦ ?_, fun _ _ _ h ↦ hb (h v hv)⟩
      rw [h.unique hv]
      exact hb

/-- The pawn branch: pushes, captures of the opponent, and the en passant square when it lies
diagonally ahead. -/
theorem mem_pawnMoves {b : Board} {col : Color} {s t : Square} {ep : Option Square} :
    t ∈ pawnMoves b col s ep ↔
      (Away s t (forward col, 0) 1 ∧ b t = none) ∨
      (s.1 = pawnRow col ∧ Away s t (forward col, 0) 2 ∧ b t = none ∧
        ∀ u, Away s u (forward col, 0) 1 → b u = none) ∨
      (PawnAttacks col s t ∧ pcIs (b t) col.other = true) ∨
      (PawnAttacks col s t ∧ ep = some t) := by
  simp only [pawnMoves, List.mem_append, List.flatMap_cons, List.flatMap_nil, List.append_nil,
    mem_pawnPushes, mem_pawnCaptures]
  rw [← or_and_right, and_or_left, or_assoc]
  rfl

/-! ### Raw moves -/

/-- The raw moves of a piece other than a pawn, castling apart: the squares it attacks that
do not hold its own colour. -/
theorem mem_rawMoves_officer {b : Board} {s t : Square} {q : Piece} (hq : b s = some q)
    (hk : q.kind ≠ .pawn) (ep : Option Square) :
    t ∈ rawMoves b s ep none ↔ q.Attacks b s t ∧ pcIs (b t) q.color = false := by
  have hdiag : ∀ d ∈ bishopLines, IsLine d := fun d hd ↦ isLine_of_mem_diagonals hd
  have hrook : ∀ d ∈ rookLines, IsLine d := fun d hd ↦ isLine_of_mem_straights hd
  unfold rawMoves Piece.Attacks
  rw [hq]
  dsimp only
  cases hkind : q.kind with
  | pawn => exact absurd hkind hk
  | knight => rw [mem_jumps, knightJumps_iff]
  | bishop => rw [mem_flatMap_sl hdiag]; rfl
  | rook => rw [mem_flatMap_sl hrook]; rfl
  | queen =>
    dsimp only
    rw [List.mem_append, mem_flatMap_sl hdiag, mem_flatMap_sl hrook, ← or_and_right]
    apply and_congr_left'
    change _ ↔ ∃ d ∈ bishopLines ++ rookLines, _
    simp only [List.mem_append, or_and_right, exists_or]
  | king => rw [List.append_nil, mem_jumps, kingSteps_iff]

/-- The castling flags add moves to the king only. -/
theorem mem_rawMoves_cast {b : Board} {s t : Square} {q : Piece} (hq : b s = some q)
    (ep : Option Square) (cast : Castling) :
    t ∈ rawMoves b s ep (some cast) ↔
      t ∈ rawMoves b s ep none ∨ (q.kind = .king ∧ t ∈ castleMoves b q.color s cast) := by
  unfold rawMoves
  rw [hq]
  dsimp only
  cases q.kind <;> simp

/-- The raw moves of a pawn. -/
theorem mem_rawMoves_pawn {b : Board} {s t : Square} {q : Piece} (hq : b s = some q)
    (hk : q.kind = .pawn) (ep : Option Square) :
    t ∈ rawMoves b s ep none ↔ t ∈ pawnMoves b q.color s ep := by
  unfold rawMoves
  rw [hq]
  dsimp only
  rw [hk]

/-- With `ep` and `cast` switched off, the raw moves onto an opponent's piece are exactly the
attacks on it: a pawn's pushes need an empty cell. -/
theorem mem_rawMoves_iff_attacks {b : Board} {s t : Square} {q r : Piece} (hq : b s = some q)
    (hr : b t = some r) (hc : r.color = q.color.other) :
    t ∈ rawMoves b s none none ↔ q.Attacks b s t := by
  by_cases hk : q.kind = .pawn
  · rw [mem_rawMoves_pawn hq hk, mem_pawnMoves]
    simp [hr, hc, Piece.Attacks, hk]
  · rw [mem_rawMoves_officer hq hk]
    have hne : pcIs (b t) q.color = false := by
      simp [hr, hc]
    simp [hne]

/-! ### Check -/

/-- The scan of `inChk` finds the only king. -/
theorem findKing_eq {b : Board} {c : Color} {k : Square} (h : HasKing b c k) :
    findKing b c = some k := by
  cases hf : findKing b c with
  | none =>
    have := List.find?_eq_none.mp hf k (by simp)
    simp [h.at] at this
  | some s =>
    have := List.find?_some hf
    rw [beq_iff_eq, h s] at this
    rw [this]

/-- `inChk` is exact attack detection on every board with one king of the colour, whatever
else stands on it. -/
theorem inChk_iff {b : Board} {c : Color} {k : Square} (h : HasKing b c k) :
    inChk b c = true ↔ InCheck b c := by
  rw [inCheck_iff_attacked h]
  unfold inChk
  rw [findKing_eq h]
  dsimp only
  simp only [List.any_eq_true, mem_allSquares, true_and, Bool.and_eq_true, pcIs_eq_true,
    List.contains_iff_mem]
  constructor
  · rintro ⟨s, ⟨q, hq, hc⟩, hm⟩
    refine ⟨s, q, hq, hc, (mem_rawMoves_iff_attacks hq h.at ?_).mp hm⟩
    rw [hc, Color.other_other]
  · rintro ⟨s, q, hq, hc, ha⟩
    refine ⟨s, ⟨q, hq, hc⟩, (mem_rawMoves_iff_attacks hq h.at ?_).mpr ha⟩
    rw [hc, Color.other_other]

/-- The only king of a colour is in check where a piece of the other colour attacks its square. -/
theorem inChk_exact {b : Board} {c : Color} {k : Square} (h : HasKing b c k) :
    inChk b c = true ↔ Attacked b c.other k := by
  rw [inChk_iff h, inCheck_iff_attacked h]

/-- Nobody attacks the white king at the start. -/
theorem inChk_exact_initBoard :
    HasKing initBoard .w (7, 4) ∧ (inChk initBoard .w = true ↔ Attacked initBoard .b (7, 4)) :=
  have hking : HasKing initBoard .w (7, 4) := by
    unfold HasKing
    decide
  ⟨hking, inChk_exact hking⟩

end ChessStack.Client
