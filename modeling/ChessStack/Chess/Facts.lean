import ChessStack.Chess.Rules

/-!
# Consequences of the rules

Library `Chess`. What the comparisons with the two programs use: lines on the board, boards
that give the same checks, the board after an ordinary move and after castling, and the
invariant `Sound` that play keeps.
-/

namespace ChessStack.Chess

/-! ### Lines -/

/-- A direction whose steps change row and column by at most one, and change something. -/
def IsLine (d : Offset) : Prop :=
  (d.1 = -1 ∨ d.1 = 0 ∨ d.1 = 1) ∧ (d.2 = -1 ∨ d.2 = 0 ∨ d.2 = 1) ∧ (d.1 ≠ 0 ∨ d.2 ≠ 0)

/-- Bishops move along lines. -/
theorem isLine_of_mem_diagonals {d : Offset} (h : d ∈ diagonals) : IsLine d := by
  simp only [diagonals, List.mem_cons, List.not_mem_nil, or_false] at h
  rcases h with rfl | rfl | rfl | rfl <;> simp [IsLine]

/-- Rooks move along lines. -/
theorem isLine_of_mem_straights {d : Offset} (h : d ∈ straights) : IsLine d := by
  simp only [straights, List.mem_cons, List.not_mem_nil, or_false] at h
  rcases h with rfl | rfl | rfl | rfl <;> simp [IsLine]

/-- The integer form of a line's coordinates, one linear case for each of its signs. -/
theorem IsLine.row_cases {d : Offset} (hd : IsLine d) (k : Nat) :
    (d.1 = -1 ∧ (k : Int) * d.1 = -k) ∨ (d.1 = 0 ∧ (k : Int) * d.1 = 0) ∨
      (d.1 = 1 ∧ (k : Int) * d.1 = k) := by
  rcases hd.1 with h | h | h <;> rw [h] <;> omega

private theorem IsLine.col_cases {d : Offset} (hd : IsLine d) (k : Nat) :
    (d.2 = -1 ∧ (k : Int) * d.2 = -k) ∨ (d.2 = 0 ∧ (k : Int) * d.2 = 0) ∨
      (d.2 = 1 ∧ (k : Int) * d.2 = k) := by
  rcases hd.2.1 with h | h | h <;> rw [h] <;> omega

/-- A line that reaches a square of the board passes its own first square on the board. -/
theorem IsLine.first {d : Offset} (hd : IsLine d) {s t : Square} {n : Nat} (hn : 0 < n)
    (ht : Away s t d n) : ∃ u, Away s u d 1 := by
  obtain ⟨h1, h2⟩ := ht
  have hs : s.shift d ≠ none := by
    unfold Square.shift
    rw [dif_pos]
    · exact Option.some_ne_none _
    · have hr := hd.row_cases n
      have hc := hd.col_cases n
      omega
  obtain ⟨u, hu⟩ := Option.ne_none_iff_exists'.mp hs
  exact ⟨u, Square.shift_eq_some.mp hu⟩

/-- No line of the board has more than seven further squares. -/
theorem IsLine.lt_eight {d : Offset} (hd : IsLine d) {s t : Square} {n : Nat}
    (ht : Away s t d n) : n < 8 := by
  obtain ⟨h1, h2⟩ := ht
  have hr := hd.row_cases n
  have hc := hd.col_cases n
  have hz := hd.2.2
  omega

/-- A line meets a square after one number of steps only. -/
theorem IsLine.steps_unique {d : Offset} (hd : IsLine d) {s t : Square} {j k : Nat}
    (hj : Away s t d j) (hk : Away s t d k) : j = k := by
  obtain ⟨h1, h2⟩ := hj
  obtain ⟨h3, h4⟩ := hk
  have hrj := hd.row_cases j
  have hcj := hd.col_cases j
  have hrk := hd.row_cases k
  have hck := hd.col_cases k
  have hz := hd.2.2
  omega

/-- An attack goes along a line of the piece or does not depend on what stands elsewhere. -/
theorem Piece.Attacks.line {b : Board} {q : Piece} {s t : Square} (ha : q.Attacks b s t) :
    (∀ b', q.Attacks b' s t) ∨
      ∃ d, IsLine d ∧ Slides b s t d ∧ ∀ b' u, Slides b' s u d → q.Attacks b' s u := by
  unfold Piece.Attacks at *
  cases hk : q.kind <;> rw [hk] at ha <;> dsimp only at ha ⊢
  case bishop =>
    obtain ⟨d, hd, hs⟩ := ha
    exact Or.inr ⟨d, isLine_of_mem_diagonals hd, hs, fun _ _ h ↦ ⟨d, hd, h⟩⟩
  case rook =>
    obtain ⟨d, hd, hs⟩ := ha
    exact Or.inr ⟨d, isLine_of_mem_straights hd, hs, fun _ _ h ↦ ⟨d, hd, h⟩⟩
  case queen =>
    obtain ⟨d, hd, hs⟩ := ha
    refine Or.inr ⟨d, ?_, hs, fun _ _ h ↦ ⟨d, hd, h⟩⟩
    rcases List.mem_append.mp hd with hd | hd
    · exact isLine_of_mem_diagonals hd
    · exact isLine_of_mem_straights hd
  all_goals exact Or.inl fun _ ↦ ha

/-- Of two boards, the pieces on one attack what they attack on the other when its lines stay
open. -/
theorem Piece.Attacks.congr {b b' : Board} {q : Piece} {s t : Square}
    (h : ∀ d, IsLine d → Slides b s t d → Slides b' s t d) (ha : q.Attacks b s t) :
    q.Attacks b' s t := by
  rcases ha.line with hall | ⟨d, hd, hs, hline⟩
  · exact hall b'
  · exact hline b' t (h d hd hs)

private theorem Slides.ne {b : Board} {s t : Square} {d : Offset} (hd : IsLine d)
    (h : Slides b s t d) :
    s ≠ t := by
  rintro rfl
  obtain ⟨n, h0, ⟨h1, h2⟩, -⟩ := h
  have hr := hd.row_cases n
  have hc := hd.col_cases n
  have hz := hd.2.2
  omega

/-- Nothing attacks its own square. -/
theorem Piece.Attacks.ne {b : Board} {q : Piece} {s t : Square} (ha : q.Attacks b s t) :
    s ≠ t := by
  intro hst
  unfold Piece.Attacks at ha
  cases hk : q.kind <;> rw [hk] at ha <;> dsimp only at ha
  case pawn =>
    unfold PawnAttacks Away at ha
    cases hc : q.color <;> rw [hc, hst] at ha <;> simp [forward] at ha
  case knight => simp [KnightAttacks, hst] at ha
  case king => exact ha.1 hst
  case bishop =>
    obtain ⟨d, hd, hs⟩ := ha
    exact hs.ne (isLine_of_mem_diagonals hd) hst
  case rook =>
    obtain ⟨d, hd, hs⟩ := ha
    exact hs.ne (isLine_of_mem_straights hd) hst
  case queen =>
    obtain ⟨d, hd, hs⟩ := ha
    rcases List.mem_append.mp hd with hd | hd
    · exact hs.ne (isLine_of_mem_diagonals hd) hst
    · exact hs.ne (isLine_of_mem_straights hd) hst

/-- A line along a row is clear between its ends. -/
theorem Slides.row_clear {b : Board} {s t : Square} {d : Offset} (hd : IsLine d)
    (h : Slides b s t d) (hrow : s.1 = t.1) {u : Square} (hu : u.1 = s.1)
    (hbetween : s.2 < u.2 ∧ u.2 < t.2 ∨ t.2 < u.2 ∧ u.2 < s.2) : b u = none := by
  obtain ⟨n, h0, ⟨h1, h2⟩, hclear⟩ := h
  rw [Fin.ext_iff] at hrow hu
  have hk : ((u.2 : Int) - s.2).natAbs < 8 := by omega
  apply hclear ⟨((u.2 : Int) - s.2).natAbs, hk⟩
  · change 0 < ((u.2 : Int) - s.2).natAbs
    omega
  · rw [Fin.lt_def]
    change ((u.2 : Int) - s.2).natAbs < n.val
    have hr := hd.row_cases n
    have hc := hd.col_cases n
    omega
  · have hr := hd.row_cases n
    have hc := hd.col_cases n
    have hr' := hd.row_cases ((u.2 : Int) - s.2).natAbs
    have hc' := hd.col_cases ((u.2 : Int) - s.2).natAbs
    constructor <;> dsimp only <;> omega

/-- A line from another row meets the row of its end only there. -/
theorem Slides.of_row_ne {b b' : Board} {s t : Square} {d : Offset} (hd : IsLine d)
    (h : Slides b s t d) (hrow : s.1 ≠ t.1) (hb : ∀ u : Square, u.1 ≠ t.1 → b u = none → b' u = none) :
    Slides b' s t d := by
  obtain ⟨n, h0, ht, hclear⟩ := h
  refine ⟨n, h0, ht, fun k h1 hk u hu ↦ hb u ?_ (hclear k h1 hk u hu)⟩
  intro hur
  rw [Fin.ext_iff] at hur
  rw [ne_eq, Fin.ext_iff] at hrow
  have hr := hd.row_cases n
  have hr' := hd.row_cases k
  obtain ⟨h3, -⟩ := ht
  obtain ⟨h4, -⟩ := hu
  rw [Fin.lt_def] at hk
  omega

/-! ### Kings and checks -/

/-- `k` is the one square holding the king of colour `c`. -/
def HasKing (b : Board) (c : Color) (k : Square) : Prop := ∀ s, b s = some ⟨c, .king⟩ ↔ s = k

/-- The king stands where it stands. -/
theorem HasKing.at {b : Board} {c : Color} {k : Square} (h : HasKing b c k) :
    b k = some ⟨c, .king⟩ := (h k).mpr rfl

/-- With one king, the rules' check is an attack on its square. -/
theorem inCheck_iff_attacked {b : Board} {c : Color} {k : Square} (h : HasKing b c k) :
    InCheck b c ↔ Attacked b c.other k := by
  constructor
  · rintro ⟨s, hs, ha⟩
    rwa [(h s).mp hs] at ha
  · exact fun ha ↦ ⟨k, h.at, ha⟩

/-- The boards look the same to the pieces attacking colour `c`. -/
def SameFor (c : Color) (b b' : Board) : Prop :=
  ∀ s, (b s = none ↔ b' s = none) ∧
    (∀ q : Piece, q.color = c.other → (b s = some q ↔ b' s = some q)) ∧
    (b s = some ⟨c, .king⟩ ↔ b' s = some ⟨c, .king⟩)

private theorem SameFor.symm {c : Color} {b b' : Board} (h : SameFor c b b') : SameFor c b' b :=
  fun s ↦ ⟨(h s).1.symm, fun q hq ↦ ((h s).2.1 q hq).symm, (h s).2.2.symm⟩

/-- Boards that are the same for a colour agree on its checks. -/
theorem SameFor.inCheck {c : Color} {b b' : Board} (h : SameFor c b b') :
    InCheck b c ↔ InCheck b' c := by
  have one : ∀ {b b' : Board}, SameFor c b b' → InCheck b c → InCheck b' c := by
    rintro b b' h ⟨k, hk, s, q, hq, hc, ha⟩
    refine ⟨k, (h k).2.2.mp hk, s, q, ((h s).2.1 q hc).mp hq, hc, ha.congr ?_⟩
    rintro d - ⟨n, h0, ht, hn⟩
    exact ⟨n, h0, ht, fun k h1 hk u hu ↦ (h u).1.mp (hn k h1 hk u hu)⟩
  exact ⟨one h, one h.symm⟩

/-! ### Ordinary moves -/

/-- An ordinary move of a pawn is a pawn move. -/
theorem Ordinary.pawnMove {p : Position} {q : Piece} {s t : Square} (h : Ordinary p q s t)
    (hk : q.kind = .pawn) : PawnMove p q.color s t := by
  unfold Ordinary at h
  rwa [if_pos hk] at h

/-- A pawn never ends on the row it started from. -/
theorem PawnMove.row_ne {p : Position} {c : Color} {s t : Square} (h : PawnMove p c s t) :
    s.1 ≠ t.1 := by
  intro hc
  rw [Fin.ext_iff] at hc
  unfold PawnMove PawnAttacks Away at h
  cases c <;> simp only [forward] at h <;> omega

/-- An ordinary move goes somewhere else. -/
theorem Ordinary.ne {p : Position} {q : Piece} {s t : Square} (h : Ordinary p q s t) : s ≠ t := by
  by_cases hk : q.kind = .pawn
  · intro hc
    exact (h.pawnMove hk).row_ne (congrArg Prod.fst hc)
  · unfold Ordinary at h
    rw [if_neg hk] at h
    exact h.1.ne

/-- The rules' board after the move, cell by cell. -/
theorem boardAfter_apply {p : Position} {q : Piece} {m : Move} (hq : p.board m.src = some q)
    (u : Square) :
    p.boardAfter m u =
      if IsEnPassant p q m ∧ u = (m.src.1, m.dst.2) then none
      else if u = m.dst then some ⟨q.color, m.promotion.getD q.kind⟩
      else if u = m.src then none else p.board u := by
  unfold Position.boardAfter
  rw [hq]
  dsimp only
  by_cases he : IsEnPassant p q m
  · rw [if_pos he]
    simp only [Board.set_apply, he, true_and]
  · rw [if_neg he, if_neg (fun hc ↦ he hc.1)]
    simp only [Board.set_apply]

/-- The victim of an en passant capture stands on neither square of the move. -/
theorem Ordinary.victim_ne {p : Position} {q : Piece} {s t : Square} (h : Ordinary p q s t)
    {k : Option Kind} (he : IsEnPassant p q ⟨s, t, k⟩) :
    ((s.1, t.2) : Square) ≠ t ∧ ((s.1, t.2) : Square) ≠ s := by
  constructor
  · intro hc
    have hrow := congrArg Prod.fst hc
    exact (h.pawnMove he.1).row_ne hrow
  · intro hc
    exact he.2.2 (congrArg Prod.snd hc).symm

/-- What stands on the target square after a move. -/
theorem boardAfter_dst {p : Position} {q : Piece} {s t : Square} (hq : p.board s = some q)
    (h : Ordinary p q s t) (k : Option Kind) :
    p.boardAfter ⟨s, t, k⟩ t = some ⟨q.color, k.getD q.kind⟩ := by
  rw [boardAfter_apply (m := ⟨s, t, k⟩) hq, if_neg, if_pos rfl]
  rintro ⟨he, hv⟩
  exact (h.victim_ne he).1 hv.symm

/-- A move that fits never places a second king. -/
theorem PromotionFits.king_iff {q : Piece} {s t : Square} {k : Option Kind}
    (hk : PromotionFits q ⟨s, t, k⟩) : k.getD q.kind = .king ↔ q.kind = .king := by
  unfold PromotionFits at hk
  split at hk
  · next hp =>
    obtain ⟨kind, hm, rfl⟩ := hk
    have hpawn : q.kind = .pawn := hp.1
    rw [hpawn]
    change kind = .king ↔ _
    simp only [promotionKinds, List.mem_cons, List.not_mem_nil, or_false] at hm
    rcases hm with rfl | rfl | rfl | rfl <;> decide
  · dsimp only at hk
    subst hk
    rfl

/-- An ordinary move goes to an empty square or takes an enemy piece other than the king. -/
theorem Ordinary.target {p : Position} {q : Piece} {s t : Square} (h : Ordinary p q s t) :
    p.passed = some t ∨ ∀ r ∈ p.board t, r.color = q.color.other ∧ r.kind ≠ .king := by
  by_cases hk : q.kind = .pawn
  · rcases h.pawnMove hk with ⟨-, ht⟩ | ⟨-, -, ht, -⟩ | ⟨-, r, hr, hc⟩ | ⟨-, hp⟩
    · right
      simp [ht]
    · right
      simp [ht]
    · right
      intro r' hr'
      rw [Option.mem_unique hr' hr]
      exact hc
    · exact Or.inl hp
  · unfold Ordinary at h
    rw [if_neg hk] at h
    exact Or.inr h.2

/-! ### Castling -/

/-- The king's new square and the rook's new square are on the path. -/
theorem castledKing_mem_path (c : Color) (side : Side) : castledKing c side ∈ castlePath c side := by
  cases side <;> simp [castledKing, castlePath]

/-- The new square of the rook is on the path. -/
theorem castledRook_mem_path (c : Color) (side : Side) : castledRook c side ∈ castlePath c side := by
  cases side <;> simp [castledRook, castlePath]

/-- The board after castling, cell by cell. -/
theorem castled_apply (p : Position) (side : Side) (u : Square) :
    p.castled side u =
      if u = castledRook p.turn side then some ⟨p.turn, .rook⟩
      else if u = castledKing p.turn side then some ⟨p.turn, .king⟩
      else if u = rookHome p.turn side ∨ u = kingHome p.turn then none else p.board u := by
  unfold Position.castled
  simp only [Board.set_apply]
  by_cases h1 : u = castledRook p.turn side
  · rw [if_pos h1, if_pos h1]
  · rw [if_neg h1, if_neg h1]
    by_cases h2 : u = castledKing p.turn side
    · rw [if_pos h2, if_pos h2]
    · rw [if_neg h2, if_neg h2]
      by_cases h3 : u = rookHome p.turn side
      · rw [if_pos h3, if_pos (Or.inl h3)]
      · rw [if_neg h3]
        simp only [h3, false_or]

/-- Castling leaves every other row alone. -/
theorem castled_of_row_ne (p : Position) (side : Side) {u : Square} (hu : u.1 ≠ homeRow p.turn) :
    p.castled side u = p.board u := by
  rw [castled_apply, if_neg, if_neg, if_neg]
  · rintro (rfl | rfl)
    · cases side <;> exact hu rfl
    · exact hu rfl
  · rintro rfl
    cases side <;> exact hu rfl
  · rintro rfl
    cases side <;> exact hu rfl

/-- Castling moves nothing of the enemy and puts nothing of the enemy anywhere. -/
theorem MayCastle.enemy_iff {p : Position} {side : Side} (h : MayCastle p side) {q : Piece}
    (hq : q.color = p.turn.other) (u : Square) : p.castled side u = some q ↔ p.board u = some q := by
  have hne : ∀ k : Kind, (⟨p.turn, k⟩ : Piece) ≠ q := by
    rintro k rfl
    exact Color.ne_other _ hq
  rw [castled_apply]
  split
  · next hu => simp [hne, h.path _ (hu ▸ castledRook_mem_path p.turn side)]
  · split
    · next hu => simp [hne, h.path _ (hu ▸ castledKing_mem_path p.turn side)]
    · split
      · next hu =>
        rcases hu with rfl | rfl
        · simp [hne, h.rook]
        · simp [hne, h.king]
      · rfl

/-- The squares of the home row between the pieces that castle. -/
theorem MayCastle.row_occupied {p : Position} {side : Side} (h : MayCastle p side) {s : Square}
    {q : Piece} (hs : p.board s = some q) (hq : q.color = p.turn.other)
    (hrow : s.1 = homeRow p.turn) :
    (castledKing p.turn side).2 < (kingHome p.turn).2 ∧ (kingHome p.turn).2 < s.2 ∨
      s.2 < (kingHome p.turn).2 ∧ (kingHome p.turn).2 < (castledKing p.turn side).2 := by
  obtain ⟨r, f⟩ := s
  dsimp only at hrow
  subst hrow
  have hne : ∀ k : Kind, q ≠ ⟨p.turn, k⟩ := by
    rintro k rfl
    exact Color.ne_other _ hq
  have hking : f ≠ 4 := by
    rintro rfl
    exact hne .king (Option.some.inj (hs.symm.trans h.king))
  have hpath : (homeRow p.turn, f) ∉ castlePath p.turn side := by
    intro hm
    rw [h.path _ hm] at hs
    cases hs
  have hrook : (homeRow p.turn, f) ≠ rookHome p.turn side := by
    intro hr
    rw [hr, h.rook] at hs
    exact hne .rook (Option.some.inj hs).symm
  cases side <;> simp only [castlePath, List.mem_cons, List.not_mem_nil, or_false, ne_eq,
    Prod.mk.injEq, true_and, rookHome, castledKing, kingHome] at hpath hrook ⊢ <;>
    clear hne hs <;> revert f <;> decide

/-- The king's landing square is attacked after castling just when it was before: a line along
the home row is blocked by the king before and by the rook after. -/
theorem MayCastle.attacked_iff {p : Position} {side : Side} (h : MayCastle p side) :
    Attacked (p.castled side) p.turn.other (castledKing p.turn side) ↔
      Attacked p.board p.turn.other (castledKing p.turn side) := by
  have hk : (castledKing p.turn side).1 = homeRow p.turn := by cases side <;> rfl
  have hrook : p.castled side (castledRook p.turn side) ≠ none := by
    rw [castled_apply, if_pos rfl]
    exact Option.some_ne_none _
  constructor
  · rintro ⟨s, q, hs, hq, ha⟩
    have hs' := (h.enemy_iff hq s).mp hs
    refine ⟨s, q, hs', hq, ha.congr fun d hd hsl ↦ ?_⟩
    by_cases hrow : s.1 = homeRow p.turn
    · have hb := h.row_occupied hs' hq hrow
      refine absurd (hsl.row_clear hd (hrow.trans hk.symm) (u := castledRook p.turn side) ?_ ?_) hrook
      · rw [hrow]
        cases side <;> rfl
      · cases side <;> simp only [castledKing, kingHome, castledRook] at hb ⊢ <;> omega
    · refine hsl.of_row_ne hd (hk ▸ hrow) fun u hu ↦ ?_
      rw [castled_of_row_ne p side (hk ▸ hu)]
      exact id
  · rintro ⟨s, q, hs, hq, ha⟩
    refine ⟨s, q, (h.enemy_iff hq s).mpr hs, hq, ha.congr fun d hd hsl ↦ ?_⟩
    by_cases hrow : s.1 = homeRow p.turn
    · have hb := h.row_occupied hs hq hrow
      have hnone := hsl.row_clear hd (hrow.trans hk.symm) (u := kingHome p.turn) hrow.symm
        (hb.symm.imp id id)
      rw [h.king] at hnone
      cases hnone
    · refine hsl.of_row_ne hd (hk ▸ hrow) fun u hu ↦ ?_
      rw [castled_of_row_ne p side (hk ▸ hu)]
      exact id

/-! ### A king stepping aside -/

/-- Where two boards agree off `e` and `x`, a line open on one up to `x` is open on the other,
or it is open on the other up to `e`. -/
theorem Slides.agree_off {b b' : Board} {s e x : Square} {d : Offset} (hd : IsLine d)
    (hb : ∀ u, u ≠ e → u ≠ x → b' u = b u) (h : Slides b' s x d) :
    Slides b s x d ∨ Slides b s e d := by
  obtain ⟨n, h0, hx, hclear⟩ := h
  have hne : ∀ k < n, ∀ u, Away s u d k.val → u ≠ x := by
    rintro k hk u hu rfl
    rw [Fin.lt_def, hd.steps_unique hu hx] at hk
    exact Nat.lt_irrefl _ hk
  by_cases he : ∃ k < n, 0 < k.val ∧ Away s e d k.val
  · obtain ⟨k, hk, h1, he⟩ := he
    refine Or.inr ⟨k, h1, he, fun j h2 hj u hu ↦ ?_⟩
    have hjn : j < n := Fin.lt_trans hj hk
    have hue : u ≠ e := by
      rintro rfl
      rw [Fin.lt_def, hd.steps_unique hu he] at hj
      exact Nat.lt_irrefl _ hj
    rw [← hb u hue (hne j hjn u hu)]
    exact hclear j h2 hjn u hu
  · refine Or.inl ⟨n, h0, hx, fun k h1 hk u hu ↦ ?_⟩
    have hue : u ≠ e := by
      rintro rfl
      exact he ⟨k, hk, h1, hu⟩
    rw [← hb u hue (hne k hk u hu)]
    exact hclear k h1 hk u hu

/-- A king not in check that steps to an empty square is attacked there after the step just
when that square was attacked before: what its leaving opens comes from a line that attacked
it. -/
theorem attacked_step {b b' : Board} {c : Color} {e x : Square} (he : b e = some ⟨c, .king⟩)
    (hx : b x = none) (he' : b' e = none) (hx' : b' x = some ⟨c, .king⟩)
    (hb : ∀ u, u ≠ e → u ≠ x → b' u = b u) (hsafe : ¬ Attacked b c.other e) :
    Attacked b' c.other x ↔ Attacked b c.other x := by
  have henemy : ∀ s q, q.color = c.other → (b' s = some q ↔ b s = some q) := by
    intro s q hq
    have hne : (⟨c, .king⟩ : Piece) ≠ q := by
      rintro rfl
      exact Color.ne_other _ hq
    by_cases hse : s = e
    · simp [hse, he, he', hne]
    · by_cases hsx : s = x
      · simp [hsx, hx, hx', hne]
      · rw [hb s hse hsx]
  constructor
  · rintro ⟨s, q, hs, hq, ha⟩
    have hs := (henemy s q hq).mp hs
    refine ⟨s, q, hs, hq, ?_⟩
    rcases ha.line with hall | ⟨d, hd, hsl, hline⟩
    · exact hall b
    · rcases hsl.agree_off hd hb with h | h
      · exact hline b x h
      · exact absurd ⟨s, q, hs, hq, hline b e h⟩ hsafe
  · rintro ⟨s, q, hs, hq, ha⟩
    refine ⟨s, q, (henemy s q hq).mpr hs, hq, ha.congr ?_⟩
    intro d hd ⟨n, h0, ht, hclear⟩
    refine ⟨n, h0, ht, fun k h1 hk u hu ↦ ?_⟩
    by_cases hue : u = e
    · rw [hue, he']
    · rw [hb u hue]
      · exact hclear k h1 hk u hu
      · rintro rfl
        rw [Fin.lt_def, hd.steps_unique hu ht] at hk
        exact Nat.lt_irrefl _ hk

/-! ### Sound positions -/

/-- What every position of a game satisfies: one king each, king and rook still at home while
nothing has touched them, the side that has just moved not in check, and behind the square a
pawn has just passed over stands that pawn. -/
structure Sound (p : Position) : Prop where
  kings : ∀ c, ∃ k, HasKing p.board c k
  homes : ∀ c side, p.unmoved c side = true →
    p.board (kingHome c) = some ⟨c, .king⟩ ∧ p.board (rookHome c side) = some ⟨c, .rook⟩
  safe : ¬ InCheck p.board p.turn.other
  passed : ∀ t, p.passed = some t → p.board t = none ∧
    ∀ v, Away t v (forward p.turn.other, 0) 1 → p.board v = some ⟨p.turn.other, .pawn⟩

/-- A move that is legal but for the attacks on the king. -/
def Pseudo (p : Position) (m : Move) : Prop :=
  (∃ q ∈ p.board m.src, q.color = p.turn ∧ Ordinary p q m.src m.dst ∧ PromotionFits q m) ∨
  ∃ side, m.IsCastling p side ∧ MayCastle p side

/-- The cell an en passant capture clears holds the enemy pawn. -/
theorem Sound.victim {p : Position} (hs : Sound p) {q : Piece} {s t : Square} {k : Option Kind}
    (hc : q.color = p.turn) (h : Ordinary p q s t) (he : IsEnPassant p q ⟨s, t, k⟩) :
    p.board (s.1, t.2) = some ⟨p.turn.other, .pawn⟩ := by
  obtain ⟨hk, hp, hcol⟩ := he
  apply (hs.passed t hp).2
  dsimp only at hcol
  rw [ne_eq, Fin.ext_iff] at hcol
  have hm := h.pawnMove hk
  rw [hc] at hm
  unfold PawnMove PawnAttacks Away at hm
  unfold Away
  cases ht : p.turn <;> rw [ht] at hm <;> simp only [forward, Color.other] at hm ⊢ <;> omega

/-- No ordinary move takes a king. -/
theorem Sound.target_ne_king {p : Position} (hs : Sound p) {q : Piece} {s t : Square}
    (h : Ordinary p q s t) (c : Color) : p.board t ≠ some ⟨c, .king⟩ := by
  intro ht
  rcases h.target with hp | hn
  · rw [(hs.passed t hp).1] at ht
    cases ht
  · exact (hn _ ht).2 rfl

/-- Where the kings stand after an ordinary move. -/
theorem Sound.king_after {p : Position} (hs : Sound p) {q : Piece} {s t : Square}
    {k : Option Kind} (hq : p.board s = some q) (hc : q.color = p.turn) (h : Ordinary p q s t)
    (hk : PromotionFits q ⟨s, t, k⟩) (c : Color) (u : Square) :
    p.boardAfter ⟨s, t, k⟩ u = some ⟨c, .king⟩ ↔
      if q = ⟨c, .king⟩ then u = t else p.board u = some ⟨c, .king⟩ := by
  by_cases hking : q = ⟨c, .king⟩
  · have hno : ¬ IsEnPassant p q ⟨s, t, k⟩ := by
      rintro ⟨hpawn, -⟩
      rw [hking] at hpawn
      cases hpawn
    obtain ⟨w, hw⟩ := hs.kings c
    have hsw : s = w := (hw s).mp (hking ▸ hq)
    rw [if_pos hking, boardAfter_apply (m := ⟨s, t, k⟩) hq, if_neg (fun hh ↦ hno hh.1)]
    dsimp only
    split
    · next hu =>
      have hplaced := hk.king_iff.mpr (by rw [hking])
      rw [hplaced, hking]
      exact iff_of_true rfl hu
    · next hu =>
      refine iff_of_false ?_ hu
      split
      · exact nofun
      · next hus =>
        intro hu'
        exact hus (((hw u).mp hu').trans hsw.symm)
  · rw [if_neg hking, boardAfter_apply (m := ⟨s, t, k⟩) hq]
    dsimp only
    split
    · next hu => simp [hu.2, hs.victim hc h hu.1]
    · split
      · next hu =>
        have hplaced : (⟨q.color, k.getD q.kind⟩ : Piece) ≠ ⟨c, .king⟩ := by
          intro hh
          obtain ⟨h1, h2⟩ := Piece.mk.inj hh
          apply hking
          rw [← h1, ← hk.king_iff.mp h2]
        simp [hplaced, hu, hs.target_ne_king h c]
      · split
        · next hu => simp [hu, hq, hking]
        · rfl

/-- After an ordinary move each side has one king. -/
theorem Sound.hasKing_after {p : Position} (hs : Sound p) {q : Piece} {s t : Square}
    {k : Option Kind} (hq : p.board s = some q) (hc : q.color = p.turn) (h : Ordinary p q s t)
    (hk : PromotionFits q ⟨s, t, k⟩) (c : Color) :
    ∃ w, HasKing (p.boardAfter ⟨s, t, k⟩) c w := by
  by_cases hking : q = ⟨c, .king⟩
  · refine ⟨t, fun u ↦ ?_⟩
    rw [hs.king_after hq hc h hk c u, if_pos hking]
  · obtain ⟨w, hw⟩ := hs.kings c
    refine ⟨w, fun u ↦ ?_⟩
    rw [hs.king_after hq hc h hk c u, if_neg hking]
    exact hw u

/-- After castling the king stands on its landing square. -/
theorem Sound.own_castled {p : Position} (hs : Sound p) {side : Side} (h : MayCastle p side) :
    HasKing (p.castled side) p.turn (castledKing p.turn side) := by
  obtain ⟨w, hw⟩ := hs.kings p.turn
  have hhome : kingHome p.turn = w := (hw _).mp h.king
  intro u
  rw [castled_apply]
  split
  · next hu =>
    rw [hu]
    refine iff_of_false (by simp) ?_
    cases side <;> simp [castledRook, castledKing]
  · split
    · next hu => exact iff_of_true rfl hu
    · next hu =>
      refine iff_of_false ?_ hu
      split
      · exact nofun
      · next hu' =>
        intro hb
        exact hu' (Or.inr (((hw u).mp hb).trans hhome.symm))

private theorem Sound.hasKing_castled {p : Position} (hs : Sound p) {side : Side}
    (h : MayCastle p side)
    (c : Color) : ∃ w, HasKing (p.castled side) c w := by
  by_cases hc : c = p.turn
  · exact ⟨_, hc ▸ hs.own_castled h⟩
  · obtain ⟨w, hw⟩ := hs.kings c
    refine ⟨w, fun u ↦ ?_⟩
    rw [h.enemy_iff (q := ⟨c, .king⟩) (Color.eq_other_of_ne hc) u]
    exact hw u

private theorem Sound.inCheck_castled {p : Position} (hs : Sound p) {side : Side}
    (h : MayCastle p side) :
    InCheck (p.castled side) p.turn ↔ Attacked p.board p.turn.other (castledKing p.turn side) := by
  rw [inCheck_iff_attacked (hs.own_castled h), h.attacked_iff]

/-- An ordinary move is never taken for castling. -/
theorem Ordinary.castlingSide {p : Position} {q : Piece} {s t : Square} {k : Option Kind}
    (hq : p.board s = some q) (h : Ordinary p q s t) : p.castlingSide ⟨s, t, k⟩ = none := by
  unfold Position.castlingSide
  dsimp only
  split
  · next hking =>
    obtain ⟨hking, rfl⟩ := hking
    rw [hq, Option.some.injEq] at hking
    have ha : KingAttacks (kingHome p.turn) t := by
      unfold Ordinary at h
      rw [if_neg (by simp [hking])] at h
      rw [hking] at h
      exact h.1
    have hne : ∀ side, t ≠ castledKing p.turn side := by
      rintro side rfl
      unfold KingAttacks at ha
      cases side <;> simp [kingHome, castledKing] at ha
    rw [if_neg (hne .king), if_neg (hne .queen)]
  · rfl

/-- Castling is recognised. -/
theorem MayCastle.castlingSide {p : Position} {side : Side} (h : MayCastle p side) :
    p.castlingSide ⟨kingHome p.turn, castledKing p.turn side, none⟩ = some side := by
  unfold Position.castlingSide
  rw [if_pos ⟨h.king, rfl⟩]
  cases side <;> simp [castledKing]

/-- The board after an ordinary move. -/
theorem play_ordinary {p : Position} {q : Piece} {s t : Square} {k : Option Kind}
    (hq : p.board s = some q) (h : Ordinary p q s t) :
    (p.play ⟨s, t, k⟩).board = p.boardAfter ⟨s, t, k⟩ := by
  unfold Position.play
  rw [h.castlingSide hq]

/-- The board after castling. -/
theorem play_castling {p : Position} {side : Side} (h : MayCastle p side) :
    (p.play ⟨kingHome p.turn, castledKing p.turn side, none⟩).board = p.castled side := by
  unfold Position.play
  rw [h.castlingSide]

private theorem Move.touches_eq_false {m : Move} {s : Square} :
    m.touches s = false ↔ m.src ≠ s ∧ m.dst ≠ s := by
  simp [Move.touches]

/-- A move takes away the rights of the squares it touches. -/
theorem play_unmoved {p : Position} {m : Move} {c : Color} {side : Side} :
    (p.play m).unmoved c side = true ↔ p.unmoved c side = true ∧
      (m.src ≠ kingHome c ∧ m.dst ≠ kingHome c) ∧
        (m.src ≠ rookHome c side ∧ m.dst ≠ rookHome c side) := by
  simp only [Position.play, Bool.and_eq_true, Bool.not_eq_true', Move.touches_eq_false, and_assoc]

/-- A legal move is one that is legal but for the attacks on the king and leaves the king
unattacked; castling asks for two squares more. -/
theorem legal_iff {p : Position} (hs : Sound p) (m : Move) :
    Legal p m ↔ Pseudo p m ∧ ¬ InCheck (p.play m).board p.turn ∧
      ∀ side, p.castlingSide m = some side → ¬ Attacked p.board p.turn.other (kingHome p.turn) ∧
        ¬ Attacked p.board p.turn.other (castledRook p.turn side) := by
  constructor
  · rintro (⟨q, hq, hc, ho, hk, hsafe⟩ | ⟨side, rfl, h⟩)
    · refine ⟨Or.inl ⟨q, hq, hc, ho, hk⟩, ?_, ?_⟩
      · rw [play_ordinary hq ho]
        exact hsafe
      · intro side hside
        rw [ho.castlingSide hq] at hside
        cases hside
    · refine ⟨Or.inr ⟨side, rfl, h.toMayCastle⟩, ?_, ?_⟩
      · rw [play_castling h.toMayCastle, hs.inCheck_castled h.toMayCastle]
        exact h.notInto
      · intro side' hside
        rw [h.toMayCastle.castlingSide, Option.some.injEq] at hside
        subst hside
        exact ⟨h.notInCheck, h.notAcross⟩
  · rintro ⟨⟨q, hq, hc, ho, hk⟩ | ⟨side, rfl, h⟩, hsafe, hcastle⟩
    · rw [play_ordinary hq ho] at hsafe
      exact Or.inl ⟨q, hq, hc, ho, hk, hsafe⟩
    · rw [play_castling h, hs.inCheck_castled h] at hsafe
      obtain ⟨h1, h2⟩ := hcastle side h.castlingSide
      exact Or.inr ⟨side, rfl, { toMayCastle := h, notInCheck := h1, notAcross := h2, notInto := hsafe }⟩

/-- An ordinary move leaves the home squares of unmoved kings and rooks alone. -/
theorem Sound.home_after {p : Position} (hs : Sound p) {q : Piece} {s t : Square}
    {k : Option Kind} (hq : p.board s = some q) (hc : q.color = p.turn) (h : Ordinary p q s t)
    {u : Square} {r : Piece} (hr : p.board u = some r) (hkind : r.kind ≠ .pawn) (hus : u ≠ s)
    (hut : u ≠ t) : p.boardAfter ⟨s, t, k⟩ u = some r := by
  rw [boardAfter_apply (m := ⟨s, t, k⟩) hq, if_neg, if_neg hut, if_neg hus, hr]
  rintro ⟨he, hu⟩
  rw [hu, hs.victim hc h he] at hr
  apply hkind
  rw [← Option.some.inj hr]

/-- Behind the square a double step has passed over stands the pawn. -/
theorem passed_after {p : Position} {q : Piece} {s t : Square} {k : Option Kind}
    (hq : p.board s = some q) (h : Ordinary p q s t) (hk : PromotionFits q ⟨s, t, k⟩) {u : Square}
    (hu : passedOver q s t = some u) :
    p.boardAfter ⟨s, t, k⟩ u = none ∧
      ∀ v, Away u v (forward q.color, 0) 1 → p.boardAfter ⟨s, t, k⟩ v = some ⟨q.color, .pawn⟩ := by
  unfold passedOver at hu
  split at hu
  · next hd =>
    obtain ⟨hkind, h2⟩ := hd
    rw [Square.shift_eq_some] at hu
    obtain ⟨hrow, hempty⟩ : s.1 = pawnRow q.color ∧ p.board u = none := by
      rcases h.pawnMove hkind with ⟨h1, -⟩ | ⟨hrow, -, -, hfree⟩ | ⟨ha, -⟩ | ⟨ha, -⟩
      · exfalso
        unfold Away at h1 h2
        cases hc : q.color <;> rw [hc] at h1 h2 <;> simp only [forward] at h1 h2 <;> omega
      · exact ⟨hrow, hfree u hu⟩
      all_goals
        exfalso
        unfold PawnAttacks Away at ha
        unfold Away at h2
        omega
    have hnone : k = none := by
      unfold PromotionFits at hk
      rw [if_neg] at hk
      · exact hk
      · rintro ⟨-, hlast⟩
        dsimp only at hlast
        rw [Fin.ext_iff] at hlast hrow
        unfold Away at h2
        cases hc : q.color <;> rw [hc] at h2 hlast hrow <;>
          simp only [forward, homeRow, pawnRow, Color.other] at h2 hlast hrow <;> omega
    have hus : u ≠ s := by
      rintro rfl
      unfold Away at hu
      cases hc : q.color <;> rw [hc] at hu <;> simp [forward] at hu
    have hut : u ≠ t := by
      rintro rfl
      unfold Away at hu h2
      cases hc : q.color <;> rw [hc] at hu h2 <;> simp only [forward] at hu h2 <;> omega
    constructor
    · rw [boardAfter_apply (m := ⟨s, t, k⟩) hq]
      dsimp only
      rw [if_neg hut, if_neg hus, hempty]
      exact ite_self none
    · intro v hv
      have hvt : v = t := by
        unfold Away at hu hv h2
        rw [Square.eq_iff]
        omega
      rw [hvt, boardAfter_dst hq h, hnone, ← hkind]
      rfl
  · cases hu

/-- Play keeps positions sound: every move that is legal but for the attacks on the king, as
long as it does not leave the king in check. -/
theorem Sound.play {p : Position} (hs : Sound p) {m : Move} (hm : Pseudo p m)
    (hsafe : ¬ InCheck (p.play m).board p.turn) : Sound (p.play m) := by
  have hother : (p.play m).turn.other = p.turn := Color.other_other _
  obtain ⟨s, t, k⟩ := m
  rcases hm with ⟨q, hq, hc, ho, hk⟩ | ⟨side, hside, h⟩
  · have hq : p.board s = some q := hq
    have hb := play_ordinary (k := k) hq ho
    refine { kings := fun c ↦ ?_, homes := fun c side hu ↦ ?_, safe := ?_, passed := ?_ }
    · rw [hb]
      exact hs.hasKing_after hq hc ho hk c
    · obtain ⟨hu, ⟨hks, hkt⟩, hrs, hrt⟩ := play_unmoved.mp hu
      obtain ⟨hking, hrook⟩ := hs.homes c side hu
      rw [hb]
      constructor
      · exact hs.home_after hq hc ho hking nofun (Ne.symm hks) (Ne.symm hkt)
      · exact hs.home_after hq hc ho hrook nofun (Ne.symm hrs) (Ne.symm hrt)
    · rwa [hother]
    · intro u hu
      rw [hb, hother, ← hc]
      simp only [Position.play, hq, Option.bind_some] at hu
      exact passed_after hq ho hk hu
  · obtain ⟨rfl, rfl, rfl⟩ := Move.mk.inj hside
    have hb := play_castling h
    refine { kings := fun c ↦ ?_, homes := fun c side' hu ↦ ?_, safe := ?_, passed := ?_ }
    · rw [hb]
      exact hs.hasKing_castled h c
    · obtain ⟨hu, ⟨hks, -⟩, -⟩ := play_unmoved.mp hu
      obtain ⟨hking, hrook⟩ := hs.homes c side' hu
      have hc : c ≠ p.turn := by
        rintro rfl
        exact hks rfl
      have hrow : homeRow c ≠ homeRow p.turn := by
        cases hc' : p.turn <;> cases c <;> simp_all [homeRow]
      rw [hb]
      constructor
      · rw [castled_of_row_ne p side hrow, hking]
      · rw [castled_of_row_ne, hrook]
        cases side' <;> exact hrow
    · rwa [hother]
    · intro u hu
      simp [Position.play, h.king, passedOver] at hu

/-- The game starts in a sound position. -/
theorem Sound.initial : Sound .initial where
  kings c := by
    refine ⟨kingHome c, ?_⟩
    unfold HasKing
    cases c <;> decide +kernel
  homes c side _ := by
    cases c <;> cases side <;> decide +kernel
  safe := by decide +kernel
  passed := nofun

end ChessStack.Chess
