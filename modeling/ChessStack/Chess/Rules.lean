import ChessStack.Chess.Board

/-!
# The rules of chess

Library `Chess`. An abstract statement of the game, independent of both programs: what a
piece attacks, which moves are legal in a position, and the position after a move. Castling
and en passant read the history through `unmoved` and `passed`, which `play` keeps from the moves
themselves. The client engine of `Client.Engine` and the server's
use of `chess.js` are both compared with it.
-/

namespace ChessStack.Chess

/-! ### Attacks -/

/-- Lines of a bishop. -/
def diagonals : List Offset := [(-1, -1), (-1, 1), (1, -1), (1, 1)]

/-- Lines of a rook. -/
def straights : List Offset := [(-1, 0), (1, 0), (0, -1), (0, 1)]

/-- Rows grow towards White's side of the board. -/
def forward : Color → Int
  | .w => -1
  | .b => 1

/-- `t` is on the line `d` from `s` and every square strictly between is empty. -/
def Slides (b : Board) (s t : Square) (d : Offset) : Prop :=
  ∃ n : Fin 8, 0 < n.val ∧ Away s t d n ∧
    ∀ k : Fin 8, 0 < k.val → k < n → ∀ u, Away s u d k → b u = none

/-- The squares passed are looked at one by one. -/
instance (b : Board) (s t : Square) (d : Offset) : Decidable (Slides b s t d) :=
  inferInstanceAs (Decidable (∃ _ : Fin 8, _))

/-- A pawn attacks the two squares diagonally in front of it. -/
def PawnAttacks (c : Color) (s t : Square) : Prop :=
  Away s t (forward c, -1) 1 ∨ Away s t (forward c, 1) 1

/-- Both diagonals are compared. -/
instance (c : Color) (s t : Square) : Decidable (PawnAttacks c s t) :=
  inferInstanceAs (Decidable (_ ∨ _))

/-- A knight attacks two squares one way and one the other. -/
def KnightAttacks (s t : Square) : Prop :=
  let dr := ((t.1 : Int) - s.1).natAbs
  let dc := ((t.2 : Int) - s.2).natAbs
  (dr = 1 ∧ dc = 2) ∨ (dr = 2 ∧ dc = 1)

/-- Both shapes are compared. -/
instance (s t : Square) : Decidable (KnightAttacks s t) :=
  inferInstanceAs (Decidable (_ ∨ _))

/-- A king attacks the squares around it. -/
def KingAttacks (s t : Square) : Prop :=
  s ≠ t ∧ ((t.1 : Int) - s.1).natAbs ≤ 1 ∧ ((t.2 : Int) - s.2).natAbs ≤ 1

/-- The distances are compared. -/
instance (s t : Square) : Decidable (KingAttacks s t) :=
  inferInstanceAs (Decidable (_ ∧ _))

/-- The squares a piece standing on `s` attacks. -/
def Piece.Attacks (q : Piece) (b : Board) (s t : Square) : Prop :=
  match q.kind with
  | .pawn => PawnAttacks q.color s t
  | .knight => KnightAttacks s t
  | .bishop => ∃ d ∈ diagonals, Slides b s t d
  | .rook => ∃ d ∈ straights, Slides b s t d
  | .queen => ∃ d ∈ diagonals ++ straights, Slides b s t d
  | .king => KingAttacks s t

/-- The attacks of a piece are decided by its kind. -/
instance (q : Piece) (b : Board) (s t : Square) : Decidable (q.Attacks b s t) := by
  unfold Piece.Attacks
  cases q.kind <;> infer_instance

/-- Some piece of colour `c` attacks `t`. -/
def Attacked (b : Board) (c : Color) (t : Square) : Prop :=
  ∃ s, ∃ q ∈ b s, q.color = c ∧ q.Attacks b s t

/-- The squares are searched for an attacker. -/
instance (b : Board) (c : Color) (t : Square) : Decidable (Attacked b c t) :=
  inferInstanceAs (Decidable (∃ s, ∃ q ∈ b s, q.color = c ∧ q.Attacks b s t))

/-- The king of colour `c` stands on an attacked square. -/
def InCheck (b : Board) (c : Color) : Prop :=
  ∃ k, b k = some ⟨c, .king⟩ ∧ Attacked b c.other k

/-- The squares are searched for the king. -/
instance (b : Board) (c : Color) : Decidable (InCheck b c) :=
  inferInstanceAs (Decidable (∃ _, _))

/-! ### Positions and moves -/

/-- The first row of a side. -/
def homeRow : Color → Fin 8
  | .w => 7
  | .b => 0

/-- The row a side's pawns start on. -/
def pawnRow : Color → Fin 8
  | .w => 6
  | .b => 1

/-- The two wings a king may castle to. -/
inductive Side where
  | king
  | queen
  deriving DecidableEq, Repr

/-- The square on which a king starts. -/
def kingHome (c : Color) : Square := (homeRow c, 4)

/-- The square on which a rook starts. -/
def rookHome (c : Color) : Side → Square
  | .king => (homeRow c, 7)
  | .queen => (homeRow c, 0)

/-- Where the castled king lands. -/
def castledKing (c : Color) : Side → Square
  | .king => (homeRow c, 6)
  | .queen => (homeRow c, 2)

/-- Where the castled rook lands: the square the king crosses. -/
def castledRook (c : Color) : Side → Square
  | .king => (homeRow c, 5)
  | .queen => (homeRow c, 3)

/-- The squares between king and rook. -/
def castlePath (c : Color) : Side → List Square
  | .king => [(homeRow c, 5), (homeRow c, 6)]
  | .queen => [(homeRow c, 3), (homeRow c, 2), (homeRow c, 1)]

/-- What the rules need to know of a game: the board, the side to move, the wings whose king
and rook no move has touched, and the square a pawn has just passed over with a double step. -/
structure Position where
  board : Board
  turn : Color
  unmoved : Color → Side → Bool
  passed : Option Square

/-- A move names its two squares and, for a pawn reaching the last row, the new kind. -/
structure Move where
  src : Square
  dst : Square
  promotion : Option Kind := none
  deriving DecidableEq

/-- The move leaves the square or lands on it. -/
def Move.touches (m : Move) (s : Square) : Bool := m.src = s || m.dst = s

/-- The position before the first move. -/
def Position.initial : Position := ⟨initBoard, .w, fun _ _ ↦ true, none⟩

/-- A pawn steps forward once or, from its first row, twice, onto empty squares; it captures
diagonally, also the square an enemy pawn has just passed over. -/
def PawnMove (p : Position) (c : Color) (s t : Square) : Prop :=
  (Away s t (forward c, 0) 1 ∧ p.board t = none) ∨
  (s.1 = pawnRow c ∧ Away s t (forward c, 0) 2 ∧ p.board t = none ∧
    ∀ u, Away s u (forward c, 0) 1 → p.board u = none) ∨
  (PawnAttacks c s t ∧ (∃ q ∈ p.board t, q.color = c.other ∧ q.kind ≠ .king)) ∨
  (PawnAttacks c s t ∧ p.passed = some t)

/-- The three kinds of pawn move are evaluated. -/
instance (p : Position) (c : Color) (s t : Square) : Decidable (PawnMove p c s t) :=
  inferInstanceAs (Decidable (_ ∨ _))

/-- How a piece moves when it does not castle: a pawn by `PawnMove`, every other piece to a
square it attacks that is empty or holds an enemy piece. Kings are never captured. -/
def Ordinary (p : Position) (q : Piece) (s t : Square) : Prop :=
  if q.kind = .pawn then PawnMove p q.color s t
  else q.Attacks p.board s t ∧
    ∀ r ∈ p.board t, r.color = q.color.other ∧ r.kind ≠ .king

/-- The moves of a piece are decided by its kind. -/
instance (p : Position) (q : Piece) (s t : Square) : Decidable (Ordinary p q s t) := by
  unfold Ordinary
  infer_instance

/-- A pawn promotes on the row it cannot leave, to a queen, rook, bishop or knight. -/
def promotionKinds : List Kind := [.queen, .rook, .bishop, .knight]

/-- The piece is a pawn that reaches its last row. -/
def Promotes (q : Piece) (t : Square) : Prop :=
  q.kind = .pawn ∧ t.1 = homeRow q.color.other

/-- Kind and row are compared. -/
instance (q : Piece) (t : Square) : Decidable (Promotes q t) :=
  inferInstanceAs (Decidable (_ ∧ _))

/-- The move names a new kind exactly when the piece promotes. -/
def PromotionFits (q : Piece) (m : Move) : Prop :=
  if Promotes q m.dst then ∃ k ∈ promotionKinds, m.promotion = some k
  else m.promotion = none

/-- The promotion is compared with the row. -/
instance (q : Piece) (m : Move) : Decidable (PromotionFits q m) := by
  unfold PromotionFits
  infer_instance

/-- The pawn taken en passant leaves the board as well. -/
def IsEnPassant (p : Position) (q : Piece) (m : Move) : Prop :=
  q.kind = .pawn ∧ p.passed = some m.dst ∧ m.src.2 ≠ m.dst.2

/-- The passed square is compared. -/
instance (p : Position) (q : Piece) (m : Move) : Decidable (IsEnPassant p q m) :=
  inferInstanceAs (Decidable (_ ∧ _))

/-- The board after a move that is not castling. -/
def Position.boardAfter (p : Position) (m : Move) : Board :=
  match p.board m.src with
  | none => p.board
  | some q =>
    let placed : Piece := ⟨q.color, m.promotion.getD q.kind⟩
    let moved := (p.board.set m.src none).set m.dst (some placed)
    if IsEnPassant p q m then moved.set (m.src.1, m.dst.2) none else moved

/-- The board after castling: king and rook stand side by side on their new squares. -/
def Position.castled (p : Position) (side : Side) : Board :=
  (((p.board.set (kingHome p.turn) none).set (rookHome p.turn side) none).set
    (castledKing p.turn side) (some ⟨p.turn, .king⟩)).set
    (castledRook p.turn side) (some ⟨p.turn, .rook⟩)

/-- King and rook are unmoved and nothing stands between them. -/
structure MayCastle (p : Position) (side : Side) : Prop where
  king : p.board (kingHome p.turn) = some ⟨p.turn, .king⟩
  rook : p.board (rookHome p.turn side) = some ⟨p.turn, .rook⟩
  unmoved : p.unmoved p.turn side = true
  path : ∀ u ∈ castlePath p.turn side, p.board u = none

/-- Castling is legal while moreover no enemy piece attacks the king's square, the square it
crosses or the square it lands on. -/
structure Castles (p : Position) (side : Side) : Prop extends MayCastle p side where
  notInCheck : ¬ Attacked p.board p.turn.other (kingHome p.turn)
  notAcross : ¬ Attacked p.board p.turn.other (castledRook p.turn side)
  notInto : ¬ Attacked p.board p.turn.other (castledKing p.turn side)

/-- The move castles to `side`. -/
def Move.IsCastling (m : Move) (p : Position) (side : Side) : Prop :=
  m = ⟨kingHome p.turn, castledKing p.turn side, none⟩

/-- A legal move moves a piece of the side to move as it moves and leaves its own king
unattacked, or castles. -/
def Legal (p : Position) (m : Move) : Prop :=
  (∃ q ∈ p.board m.src, q.color = p.turn ∧ Ordinary p q m.src m.dst ∧ PromotionFits q m ∧
    ¬ InCheck (p.boardAfter m) p.turn) ∨
  ∃ side, m.IsCastling p side ∧ Castles p side

/-- Some legal move leads from `s` to `t`. -/
def LegalTo (p : Position) (s t : Square) : Prop := ∃ k, Legal p ⟨s, t, k⟩

/-- The wing a king's move from its first square castles to. -/
def Position.castlingSide (p : Position) (m : Move) : Option Side :=
  if p.board m.src = some ⟨p.turn, .king⟩ ∧ m.src = kingHome p.turn then
    if m.dst = castledKing p.turn .king then some .king
    else if m.dst = castledKing p.turn .queen then some .queen
    else none
  else none

/-- The square a pawn's double step passes over. -/
def passedOver (q : Piece) (s t : Square) : Option Square :=
  if q.kind = .pawn ∧ Away s t (forward q.color, 0) 2 then s.shift (forward q.color, 0) else none

/-- The position after a move. -/
def Position.play (p : Position) (m : Move) : Position where
  board :=
    match p.castlingSide m with
    | some side => p.castled side
    | none => p.boardAfter m
  turn := p.turn.other
  unmoved c side := p.unmoved c side && !m.touches (kingHome c) && !m.touches (rookHome c side)
  passed := (p.board m.src).bind fun q ↦ passedOver q m.src m.dst

/-- The side to move has a legal move. -/
def HasMove (p : Position) : Prop := ∃ m, Legal p m

/-- In check and without a legal move. -/
def Checkmate (p : Position) : Prop := InCheck p.board p.turn ∧ ¬ HasMove p

/-- Not in check and without a legal move. -/
def Stalemate (p : Position) : Prop := ¬ InCheck p.board p.turn ∧ ¬ HasMove p

end ChessStack.Chess
