import ChessStack.Chess.Facts

/-!
# Useless en passant squares

Library `Chess`. The square a pawn has just passed over matters only where it can be captured.
Without a legal en passant capture, a position and the one that has forgotten the square have
the same legal moves and go on in the same way.
-/

namespace ChessStack.Chess

/-- King, rook, rights and path are looked at. -/
instance (p : Position) (side : Side) : Decidable (MayCastle p side) :=
  decidable_of_iff (p.board (kingHome p.turn) = some ⟨p.turn, .king⟩ ∧
    p.board (rookHome p.turn side) = some ⟨p.turn, .rook⟩ ∧ p.unmoved p.turn side = true ∧
    ∀ u ∈ castlePath p.turn side, p.board u = none)
    ⟨fun h ↦ ⟨h.1, h.2.1, h.2.2.1, h.2.2.2⟩, fun h ↦ ⟨h.king, h.rook, h.unmoved, h.path⟩⟩

/-- The three squares of the king are looked at. -/
instance (p : Position) (side : Side) : Decidable (Castles p side) :=
  decidable_of_iff (MayCastle p side ∧ ¬ Attacked p.board p.turn.other (kingHome p.turn) ∧
    ¬ Attacked p.board p.turn.other (castledRook p.turn side) ∧
    ¬ Attacked p.board p.turn.other (castledKing p.turn side))
    ⟨fun h ↦ ⟨h.1, h.2.1, h.2.2.1, h.2.2.2⟩,
      fun h ↦ ⟨h.toMayCastle, h.notInCheck, h.notAcross, h.notInto⟩⟩

/-- The move is compared with the castling move. -/
instance (m : Move) (p : Position) (side : Side) : Decidable (m.IsCastling p side) :=
  inferInstanceAs (Decidable (m = _))

/-- Castling to one of the two wings. -/
def CastlesBy (p : Position) (m : Move) : Prop :=
  (m.IsCastling p .king ∧ Castles p .king) ∨ (m.IsCastling p .queen ∧ Castles p .queen)

/-- Both sides are tried. -/
instance (p : Position) (m : Move) : Decidable (CastlesBy p m) :=
  inferInstanceAs (Decidable (_ ∨ _))

private theorem castlesBy_iff (p : Position) (m : Move) :
    CastlesBy p m ↔ ∃ side, m.IsCastling p side ∧ Castles p side := by
  constructor
  · rintro (h | h)
    · exact ⟨.king, h⟩
    · exact ⟨.queen, h⟩
  · rintro ⟨side, h⟩
    cases side with
    | king => exact Or.inl h
    | queen => exact Or.inr h

/-- A move is checked against the rules. -/
instance (p : Position) (m : Move) : Decidable (Legal p m) :=
  decidable_of_iff ((∃ q ∈ p.board m.src, q.color = p.turn ∧ Ordinary p q m.src m.dst ∧
    PromotionFits q m ∧ ¬ InCheck (p.boardAfter m) p.turn) ∨ CastlesBy p m)
    (or_congr_right (castlesBy_iff p m))

/-- What the promotion of a move can be. -/
def promotions : List (Option Kind) := none :: promotionKinds.map some

private theorem PromotionFits.mem {q : Piece} {m : Move} (h : PromotionFits q m) :
    m.promotion ∈ promotions := by
  unfold PromotionFits at h
  split at h
  · obtain ⟨k, hk, heq⟩ := h
    rw [heq]
    exact List.mem_cons_of_mem _ (List.mem_map_of_mem hk)
  · rw [h]
    exact List.mem_cons_self

/-- A legal move promotes to nothing or to one of four kinds. -/
theorem Legal.promotion_mem {p : Position} {m : Move} (h : Legal p m) :
    m.promotion ∈ promotions := by
  rcases h with ⟨q, -, -, -, hfits, -⟩ | ⟨side, rfl, -⟩
  · exact hfits.mem
  · exact List.mem_cons_self

/-- A legal move captures en passant. -/
def TakesPassing (p : Position) : Prop :=
  ∃ t ∈ p.passed, ∃ s, ∃ k ∈ promotions, Legal p ⟨s, t, k⟩ ∧
    ∃ q ∈ p.board s, IsEnPassant p q ⟨s, t, k⟩

/-- The moves of the neighbouring pawns are checked. -/
instance (p : Position) : Decidable (TakesPassing p) :=
  inferInstanceAs (Decidable (∃ t ∈ p.passed, _))

/-- The position without the square a pawn has passed over. -/
def Position.forget (p : Position) : Position := { p with passed := none }

/-- The position as a FEN tells it: the square passed over only where it can be taken. -/
def Position.told (p : Position) : Position := if TakesPassing p then p else p.forget

private theorem PawnMove.forget {p : Position} {c : Color} {s t : Square}
    (h : PawnMove p.forget c s t) : PawnMove p c s t := by
  rcases h with h | h | h | ⟨-, h⟩
  · exact Or.inl h
  · exact Or.inr (Or.inl h)
  · exact Or.inr (Or.inr (Or.inl h))
  · cases h

/-- A pawn attacks beside its column. -/
theorem PawnAttacks.col_ne {c : Color} {s t : Square} (h : PawnAttacks c s t) : s.2 ≠ t.2 := by
  intro heq
  have hcol : (t.2 : Int) = s.2 := by rw [heq]
  rcases h with ⟨-, h⟩ | ⟨-, h⟩ <;> dsimp only at h <;> omega

/-- A pawn that moves without the square passed over does not take on it. -/
theorem Ordinary.not_enPassant {p : Position} (hs : Sound p) {q : Piece} {m : Move}
    (h : Ordinary p.forget q m.src m.dst) : ¬ IsEnPassant p q m := by
  rintro ⟨hpawn, hpassed, hcol⟩
  unfold Ordinary at h
  rw [if_pos hpawn] at h
  have hcol_of : ∀ k, Away m.src m.dst (forward q.color, 0) k → False := by
    intro k hk
    apply hcol
    have := hk.2
    dsimp only at this
    omega
  rcases h with ⟨h, -⟩ | ⟨-, h, -⟩ | ⟨-, r, hr, -⟩ | ⟨-, h⟩
  · exact hcol_of 1 h
  · exact hcol_of 2 h
  · have hempty : p.forget.board m.dst = none := (hs.passed _ hpassed).1
    rw [hempty] at hr
    cases hr
  · cases h

/-- What is ordinary without the passed square is ordinary with it. -/
theorem Ordinary.remember {p : Position} {q : Piece} {s t : Square}
    (h : Ordinary p.forget q s t) : Ordinary p q s t := by
  unfold Ordinary at h ⊢
  split
  · next hk =>
    rw [if_pos hk] at h
    exact h.forget
  · next hk =>
    rw [if_neg hk] at h
    exact h

private theorem Ordinary.forget {p : Position} {q : Piece} {m : Move} (h : Ordinary p q m.src m.dst)
    (hno : ¬ IsEnPassant p q m) : Ordinary p.forget q m.src m.dst := by
  unfold Ordinary at h ⊢
  split
  · next hk =>
    rw [if_pos hk] at h
    rcases h with h | h | h | ⟨hattack, hpassed⟩
    · exact Or.inl h
    · exact Or.inr (Or.inl h)
    · exact Or.inr (Or.inr (Or.inl h))
    · exact absurd ⟨hk, hpassed, hattack.col_ne⟩ hno
  · next hk =>
    rw [if_neg hk] at h
    exact h

/-- The passed square matters only to who takes in passing. -/
theorem boardAfter_forget {p : Position} {q : Piece} {m : Move} (hq : p.board m.src = some q)
    (hno : ¬ IsEnPassant p q m) : p.forget.boardAfter m = p.boardAfter m := by
  have hno' : ¬ IsEnPassant p.forget q m := fun h ↦ by cases h.2.1
  unfold Position.boardAfter
  rw [hq, show p.forget.board m.src = some q from hq]
  dsimp only
  rw [if_neg hno, if_neg hno']
  rfl

/-- A move that is legal without the square passed over moves a piece that does not take on it. -/
theorem Legal.mover {p : Position} (hs : Sound p) {m : Move} (h : Legal p.forget m) :
    ∃ q, p.board m.src = some q ∧ ¬ IsEnPassant p q m := by
  rcases h with ⟨q, hq, -, hmove, -, -⟩ | ⟨side, rfl, hcastles⟩
  · exact ⟨q, hq, hmove.not_enPassant hs⟩
  · exact ⟨_, hcastles.king, fun h ↦ by cases h.1⟩

/-- Such a move goes on to the same position. -/
theorem play_forget {p : Position} (hs : Sound p) {m : Move} (h : Legal p.forget m) :
    p.forget.play m = p.play m := by
  obtain ⟨q, hq, hno⟩ := h.mover hs
  have hboard := boardAfter_forget hq hno
  have hside : p.forget.castlingSide m = p.castlingSide m := rfl
  unfold Position.play
  rw [hboard, hside]
  rfl

private theorem Castles.forget_iff {p : Position} {side : Side} :
    Castles p.forget side ↔ Castles p side :=
  ⟨fun h ↦ ⟨⟨h.king, h.rook, h.unmoved, h.path⟩, h.notInCheck, h.notAcross, h.notInto⟩,
    fun h ↦ ⟨⟨h.king, h.rook, h.unmoved, h.path⟩, h.notInCheck, h.notAcross, h.notInto⟩⟩

private theorem Legal.remember {p : Position} (hs : Sound p) {m : Move} (h : Legal p.forget m) :
    Legal p m := by
  rcases h with ⟨q, hq, hturn, hmove, hfits, hsafe⟩ | ⟨side, hm, hcastles⟩
  · have hq' : p.board m.src = some q := hq
    rw [boardAfter_forget hq' (hmove.not_enPassant hs)] at hsafe
    exact Or.inl ⟨q, hq, hturn, hmove.remember, hfits, hsafe⟩
  · exact Or.inr ⟨side, hm, Castles.forget_iff.mp hcastles⟩

/-- Where nobody takes in passing, the passed square does not matter. -/
theorem Legal.forget {p : Position} (hno : ¬ TakesPassing p) {m : Move} (h : Legal p m) :
    Legal p.forget m := by
  have hmem := h.promotion_mem
  have hlegal := h
  rcases h with ⟨q, hq, hturn, hmove, hfits, hsafe⟩ | ⟨side, hm, hcastles⟩
  · have hnot : ¬ IsEnPassant p q m := fun he ↦
      hno ⟨m.dst, he.2.1, m.src, m.promotion, hmem, hlegal, q, hq, he⟩
    rw [← boardAfter_forget hq hnot] at hsafe
    exact Or.inl ⟨q, hq, hturn, hmove.forget hnot, hfits, hsafe⟩
  · exact Or.inr ⟨side, hm, Castles.forget_iff.mpr hcastles⟩

section Told

variable {p : Position} (hs : Sound p)

include hs

/-- A FEN tells the legal moves of its position. -/
theorem legal_told_iff (m : Move) : Legal p.told m ↔ Legal p m := by
  unfold Position.told
  split
  · rfl
  · next hno => exact ⟨fun h ↦ h.remember hs, fun h ↦ h.forget hno⟩

/-- The position after a legal move. -/
theorem play_told {m : Move} (h : Legal p m) : p.told.play m = p.play m := by
  unfold Position.told
  split
  · rfl
  · next hno => exact play_forget hs (h.forget hno)

private theorem hasMove_told_iff : HasMove p.told ↔ HasMove p :=
  exists_congr fun m ↦ legal_told_iff hs m

/-- Checkmate does not depend on a passed square that nobody takes on. -/
theorem checkmate_told_iff : Checkmate p.told ↔ Checkmate p := by
  unfold Checkmate
  rw [hasMove_told_iff hs]
  unfold Position.told
  split <;> rfl

end Told

/-- Forgetting the passed square leaves the turn. -/
@[simp] theorem told_turn (p : Position) : p.told.turn = p.turn := by
  unfold Position.told
  split <;> rfl

/-! ### Deciding whether a move is left -/

/-- Every legal move, by its squares and promotion. -/
theorem hasMove_iff (p : Position) : HasMove p ↔
    ∃ s, ∃ q ∈ p.board s, q.color = p.turn ∧ ∃ t, ∃ k ∈ promotions, Legal p ⟨s, t, k⟩ := by
  constructor
  · rintro ⟨m, h⟩
    have hmem := h.promotion_mem
    have hlegal := h
    rcases h with ⟨q, hq, hturn, -⟩ | ⟨side, rfl, hcastles⟩
    · exact ⟨m.src, q, hq, hturn, m.dst, m.promotion, hmem, hlegal⟩
    · exact ⟨_, _, hcastles.king, rfl, _, _, hmem, hlegal⟩
  · rintro ⟨s, q, -, -, t, k, -, h⟩
    exact ⟨_, h⟩

/-- The squares are searched for a legal move. -/
instance (p : Position) : Decidable (HasMove p) := decidable_of_iff _ (hasMove_iff p).symm

/-- Check and moves are evaluated. -/
instance (p : Position) : Decidable (Checkmate p) := inferInstanceAs (Decidable (_ ∧ _))

end ChessStack.Chess
