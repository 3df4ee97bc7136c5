import ChessStack.Client.Play

/-!
# Replaying a log on the client

Library `Client`. `replayToSnapshots` of `Chess-Frontend/src/engine/chessEngine.js:113–143`
rebuilds the boards of a game from its log alone; it never looks at en passant squares or
castling flags. On the entry of an offered move it reaches the board the move was played to.
-/

namespace ChessStack.Client

open ChessStack.Chess

/-- `nb` before the promotion, `chessEngine.js:120–134`. -/
def entryBoard (board : Board) (piece : Piece) (s t : Square) (captured : Bool) : Board :=
  let row : Fin 8 := if piece.color = .w then 7 else 0
  let wasEmpty := board t = none
  let nb := appMv board s t
  let nb := if piece.kind = .king ∧ twoColumns s t then moveCastledRook nb row t.2 else nb
  if piece.kind = .pawn ∧ s.2 ≠ t.2 ∧ captured ∧ wasEmpty then
    clearEpVictim nb piece.color t else nb

/-- The board after one entry, `chessEngine.js:117–140`; `none` where the source would throw or
write a piece that does not exist. -/
def replayStep (board : Board) (m : MoveEntry) : Option Board :=
  match squareToRC m.fromSquare, squareToRC m.toSquare, m.piece with
  | some s, some t, some piece =>
    let nb := entryBoard board piece s t m.captured.isSome
    match m.promotion with
    | none => some nb
    | some name => (kindOf name).map fun k ↦ placePromoted nb piece.color t (some k)
  | _, _, _ => none

/-- The boards from `board` on. -/
def replayFrom (board : Board) : List MoveEntry → Option (List Board)
  | [] => some [board]
  | m :: moveLog => (replayStep board m).bind fun nb ↦ (replayFrom nb moveLog).map (board :: ·)

/-- `replayToSnapshots(moveLog)`. -/
def replayToSnapshots (moveLog : List MoveEntry) : Option (List Board) :=
  replayFrom initBoard moveLog

/-- The last element of `replayToSnapshots(moveLog)`. -/
def lastBoard (moveLog : List MoveEntry) : Option Board :=
  (replayToSnapshots moveLog).bind List.getLast?

/-- A replay has its first board. -/
theorem replayFrom_ne_nil {board : Board} {moveLog : List MoveEntry} {boards : List Board}
    (h : replayFrom board moveLog = some boards) : boards ≠ [] := by
  cases moveLog with
  | nil => exact Option.some.inj h ▸ List.cons_ne_nil _ _
  | cons m moveLog =>
    obtain ⟨nb, -, h⟩ := Option.bind_eq_some_iff.mp h
    obtain ⟨rest, -, rfl⟩ := Option.map_eq_some_iff.mp h
    exact List.cons_ne_nil _ _

/-- The last board is the fold of the entries. -/
theorem replayFrom_getLast (board : Board) (moveLog : List MoveEntry) :
    (replayFrom board moveLog).bind List.getLast? = moveLog.foldlM replayStep board := by
  induction moveLog generalizing board with
  | nil => rfl
  | cons m moveLog ih =>
    rw [replayFrom, List.foldlM_cons]
    cases hstep : replayStep board m with
    | none => rfl
    | some nb =>
      rw [Option.bind_some]
      change _ = moveLog.foldlM replayStep nb
      rw [← ih nb]
      cases hrest : replayFrom nb moveLog with
      | none => rfl
      | some boards => simp [List.getLast?_cons, List.getLast?_eq_some_getLast (replayFrom_ne_nil hrest)]

/-- One more entry is one more step. -/
theorem lastBoard_append (moveLog : List MoveEntry) (m : MoveEntry) :
    lastBoard (moveLog ++ [m]) = (lastBoard moveLog).bind fun board ↦ replayStep board m := by
  unfold lastBoard replayToSnapshots
  rw [replayFrom_getLast, replayFrom_getLast, List.foldlM_append]
  simp

/-- A pawn that takes en passant moves diagonally. -/
theorem IsEnPassant.diagonal {p : Position} {q : Piece} {s t : Square} {k : Option Kind}
    (he : IsEnPassant p q ⟨s, t, k⟩) (h : Ordinary p q s t) : PawnAttacks q.color s t := by
  obtain ⟨hpawn, -, hcol⟩ := he
  dsimp only at hcol
  rw [ne_eq, Fin.ext_iff] at hcol
  rcases h.pawnMove hpawn with ⟨h1, -⟩ | ⟨-, h1, -⟩ | ⟨h1, -⟩ | ⟨h1, -⟩
  · unfold Away at h1
    omega
  · unfold Away at h1
    omega
  · exact h1
  · exact h1

/-- Only a pawn that takes en passant finds its target empty. -/
theorem enPassant_iff {p : Position} (hs : Sound p) {q : Piece} {s t : Square}
    (hc : q.color = p.turn) (h : Ordinary p q s t) :
    (q.kind = .pawn ∧ s.2 ≠ t.2 ∧ (capturedBy p.board q s t p.passed).isSome ∧ p.board t = none) ↔
      IsEnPassant p q ⟨s, t, none⟩ := by
  constructor
  · rintro ⟨hpawn, hcol, hcap, hempty⟩
    refine ⟨hpawn, ?_, hcol⟩
    unfold capturedBy at hcap
    rw [hempty, Option.none_or] at hcap
    split at hcap
    · next hep => exact hep.2
    · cases hcap
  · intro he
    have hempty := (hs.passed t he.2.1).1
    have hne := h.victim_ne he
    refine ⟨he.1, he.2.2, ?_, hempty⟩
    unfold capturedBy
    dsimp only
    rw [hempty, if_pos ⟨he.1, he.2.1⟩, (epVictim_of_pawnAttacks (IsEnPassant.diagonal he h)).1,
      Option.bind_some, appMv_apply, if_neg hne.2, if_neg hne.1, hs.victim hc h he]
    rfl

private theorem replayStep_of_entry {m : MoveEntry} {q : Piece} {s t : Square}
    (hfrom : m.fromSquare = sq s) (hto : m.toSquare = sq t) (hpiece : m.piece = some q)
    {k : Option Kind} (hk : ∀ kind ∈ k, kind ∈ promotionKinds) (hprom : m.promotion = k.map letter)
    (board : Board) :
    replayStep board m =
      some (placePromoted (entryBoard board q s t m.captured.isSome) q.color t k) := by
  unfold replayStep
  rw [hfrom, hto, hpiece, squareToRC_sq, squareToRC_sq, hprom]
  cases k with
  | none => rfl
  | some kind =>
    simp only [Option.map_some, kindOf_letter (hk kind rfl)]

/-- What an offered move promotes to is one of the four kinds. -/
theorem Offered.promotion_mem {p : Position} {s t : Square} {k : Option Kind}
    (hoff : Offered p ⟨s, t, k⟩) : ∀ kind ∈ k, kind ∈ promotionKinds := by
  rintro kind rfl
  rcases hoff.pseudo with ⟨q, -, -, -, hk⟩ | ⟨side, hm, -⟩
  · unfold PromotionFits at hk
    split at hk
    · obtain ⟨kind', hmem, heq⟩ := hk
      exact Option.some.inj heq ▸ hmem
    · cases hk
  · cases (Move.mk.inj hm).2.2

/-- The entry of an offered move leads from its board to the board it was played to. -/
theorem replayStep_offered {p : Position} (hs : Sound p) {q : Piece} {s t : Square}
    {k : Option Kind} (hq : p.board s = some q) (hoff : Offered p ⟨s, t, k⟩) {m : MoveEntry}
    (hfrom : m.fromSquare = sq s) (hto : m.toSquare = sq t) (hpiece : m.piece = some q)
    (hcap : m.captured.isSome = (capturedBy p.board q s t p.passed).isSome)
    (hprom : m.promotion = k.map letter) :
    replayStep p.board m = some (placePromoted (boardAfter p.board q s t p.passed) q.color t k) := by
  have hboard : entryBoard p.board q s t m.captured.isSome =
      boardAfter p.board q s t p.passed := by
    rw [hcap]
    rcases hoff.pseudo with ⟨q', hq', hc, ho, -⟩ | ⟨side, hm, hmay⟩
    · obtain rfl : q = q' := Option.some.inj (hq.symm.trans hq')
      rw [Ordinary.boardAfter_eq ho, rawBoard_eq ho]
      unfold entryBoard
      dsimp only
      simp only [if_neg (Ordinary.not_twoColumns ho), enPassant_iff hs hc ho]
      split
      · next he => exact clearEpVictim_of_pawnAttacks (IsEnPassant.diagonal he ho)
      · rfl
    · obtain ⟨rfl, rfl, rfl⟩ := Move.mk.inj hm
      obtain rfl : q = ⟨p.turn, .king⟩ := Option.some.inj (hq.symm.trans hmay.king)
      simp [entryBoard, boardAfter]
  rw [replayStep_of_entry hfrom hto hpiece hoff.promotion_mem hprom, hboard]

end ChessStack.Client
