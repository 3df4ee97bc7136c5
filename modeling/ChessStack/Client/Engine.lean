import ChessStack.Chess.Board

/-!
# The client's rules engine

Library `Client`. `Chess-Frontend/src/engine/chessEngine.js:16–100`: raw moves of a piece, the
board after a raw move, check, and the legal destinations built from them. Every function
reads the board as the source does; nothing here refers to `Chess.Rules`.
-/

namespace ChessStack.Client

open ChessStack.Chess

/-- The `cast` object: which castlings are still allowed, `useChessGame.js:20`. -/
structure Castling where
  wK : Bool
  wQ : Bool
  bK : Bool
  bQ : Bool
  deriving DecidableEq, Repr

/-- `cast[col + "K"]`. -/
def Castling.k (cast : Castling) : Color → Bool
  | .w => cast.wK
  | .b => cast.bK

/-- `cast[col + "Q"]`. -/
def Castling.q (cast : Castling) : Color → Bool
  | .w => cast.wQ
  | .b => cast.bQ

/-- `pc(board[r][c]) === col`. -/
def pcIs (cell : Option Piece) (col : Color) : Bool :=
  match cell with
  | none => false
  | some p => p.color == col

/-- The jumps of a knight, `chessEngine.js:42`. -/
def knightJumps : List Offset :=
  [(-2, -1), (-2, 1), (-1, -2), (-1, 2), (1, -2), (1, 2), (2, -1), (2, 1)]

/-- The steps of a king, `chessEngine.js:49`. -/
def kingSteps : List Offset :=
  [(-1, -1), (-1, 0), (-1, 1), (0, -1), (0, 1), (1, -1), (1, 0), (1, 1)]

/-- The lines passed to `sl` for a bishop or queen, `chessEngine.js:46`. -/
def bishopLines : List Offset := [(-1, -1), (-1, 1), (1, -1), (1, 1)]

/-- The lines passed to `sl` for a rook or queen, `chessEngine.js:47`. -/
def rookLines : List Offset := [(-1, 0), (1, 0), (0, -1), (0, 1)]

/-- The `while (inB(nr, nc))` loop of `sl`, `chessEngine.js:23–30`, entered at the cell after
`s`. The bound is the loop's own: no line of the board has more than seven further cells. -/
def slide (board : Board) (opp : Color) (d : Offset) : Nat → Square → List Square
  | 0, _ => []
  | fuel + 1, s =>
    match s.shift d with
    | none => []
    | some t =>
      match board t with
      | none => t :: slide board opp d fuel t
      | some q => if q.color = opp then [t] else []

/-- `sl(dr, dc)`. -/
def sl (board : Board) (opp : Color) (s : Square) (d : Offset) : List Square :=
  slide board opp d 8 s

/-- The cells a knight or king may step to: on the board and not its own colour. -/
def jumps (board : Board) (col : Color) (s : Square) (ds : List Offset) : List Square :=
  ds.filterMap fun d ↦ (s.shift d).filter fun t ↦ !pcIs (board t) col

/-- A pawn's steps forward, `chessEngine.js:32–36`. -/
def pawnPushes (board : Board) (col : Color) (s : Square) : List Square :=
  let d : Int := if col = .w then -1 else 1
  let st : Fin 8 := if col = .w then 6 else 1
  match s.shift (d, 0) with
  | none => []
  | some t =>
    if board t = none then
      t :: (match s.shift (2 * d, 0) with
        | some u => if s.1 = st ∧ board u = none then [u] else []
        | none => [])
    else []

/-- One side of a pawn's captures, `chessEngine.js:37–40`. -/
def pawnCaptures (board : Board) (col : Color) (s : Square) (ep : Option Square) (dc : Int) :
    List Square :=
  let d : Int := if col = .w then -1 else 1
  match s.shift (d, dc) with
  | none => []
  | some t =>
    (if pcIs (board t) col.other then [t] else []) ++ (if ep = some t then [t] else [])

/-- The pawn branch, `chessEngine.js:31–41`. -/
def pawnMoves (board : Board) (col : Color) (s : Square) (ep : Option Square) : List Square :=
  pawnPushes board col s ++ [(-1 : Int), 1].flatMap (pawnCaptures board col s ep)

/-- The castling branch of the king, `chessEngine.js:53–59`. -/
def castleMoves (board : Board) (col : Color) (s : Square) (cast : Castling) : List Square :=
  let row : Fin 8 := if col = .w then 7 else 0
  if s = (row, 4) then
    (if cast.k col ∧ board (row, 5) = none ∧ board (row, 6) = none then [(row, 6)] else []) ++
    (if cast.q col ∧ board (row, 3) = none ∧ board (row, 2) = none ∧ board (row, 1) = none then
      [(row, 2)] else [])
  else []

/-- `rawMoves(board, r, c, ep, cast)`, `chessEngine.js:20–62`; `none` is the `null` passed
by `inChk` for `ep` and `cast`. -/
def rawMoves (board : Board) (s : Square) (ep : Option Square) (cast : Option Castling) :
    List Square :=
  match board s with
  | none => []
  | some p =>
    match p.kind with
    | .pawn => pawnMoves board p.color s ep
    | .knight => jumps board p.color s knightJumps
    | .bishop => bishopLines.flatMap (sl board p.color.other s)
    | .rook => rookLines.flatMap (sl board p.color.other s)
    | .queen => bishopLines.flatMap (sl board p.color.other s) ++
        rookLines.flatMap (sl board p.color.other s)
    | .king => jumps board p.color s kingSteps ++
        (match cast with
        | none => []
        | some cast => castleMoves board p.color s cast)

/-- `appMv`: the piece on `s` moves to `t`, `chessEngine.js:64–68`. -/
def appMv (board : Board) (s t : Square) : Board := (board.set t (board s)).set s none

/-- The king found by the scan of `inChk`: the last one in row order, `chessEngine.js:71–73`. -/
def findKing (board : Board) (col : Color) : Option Square :=
  allSquares.reverse.find? fun s ↦ board s == some ⟨col, .king⟩

/-- `inChk(board, col)`, `chessEngine.js:70–78`. -/
def inChk (board : Board) (col : Color) : Bool :=
  match findKing board col with
  | none => false
  | some k => allSquares.any fun s ↦
      pcIs (board s) col.other && (rawMoves board s none none).contains k

/-- The rook's part of castling, `chessEngine.js:87–89`: `nb[row][5] = nb[row][7]` or
`nb[row][3] = nb[row][0]`. -/
def moveCastledRook (nb : Board) (row tc : Fin 8) : Board :=
  if tc = 6 then appMv nb (row, 7) (row, 5) else appMv nb (row, 0) (row, 3)

/-- The cell behind `t`, where the pawn captured en passant stands: `tr + 1` or `tr - 1`. -/
def epVictim (col : Color) (t : Square) : Option Square :=
  t.shift (if col = .w then 1 else -1, 0)

/-- `nb[er][tc] = null`. -/
def clearEpVictim (nb : Board) (col : Color) (t : Square) : Board :=
  match epVictim col t with
  | some v => nb.set v none
  | none => nb

/-- `Math.abs(tc - c) === 2`. -/
def twoColumns (s t : Square) : Bool := ((t.2 : Int) - s.2).natAbs == 2

/-- The filter of `getLegal` on one raw move of the piece `p` on `s`, `chessEngine.js:83–93`. -/
def keepsKingSafe (board : Board) (p : Piece) (s t : Square) (ep : Option Square) : Bool :=
  let col := p.color
  let row : Fin 8 := if col = .w then 7 else 0
  let nb := appMv board s t
  let nb := if p.kind = .pawn ∧ ep = some t then clearEpVictim nb col t else nb
  if p.kind = .king ∧ twoColumns s t then
    !inChk (appMv board s (row, if t.2 = 6 then 5 else 3)) col &&
      !inChk (moveCastledRook nb row t.2) col
  else !inChk nb col

/-- `getLegal(board, r, c, ep, cast)`, `chessEngine.js:80–94`. -/
def getLegal (board : Board) (s : Square) (ep : Option Square) (cast : Castling) :
    List Square :=
  match board s with
  | none => []
  | some p => (rawMoves board s ep (some cast)).filter fun t ↦ keepsKingSafe board p s t ep

/-- `hasAny(board, col, ep, cast)`, `chessEngine.js:96–100`. -/
def hasAny (board : Board) (col : Color) (ep : Option Square) (cast : Castling) : Bool :=
  allSquares.any fun s ↦ pcIs (board s) col && (getLegal board s ep cast).length > 0

end ChessStack.Client
