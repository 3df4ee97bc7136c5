import ChessStack.Client.Engine

/-!
# The client's game state

Library `Client`. `Chess-Frontend/src/hooks/useChessGame.js`: the state of the hook and its
events. `past` holds one snapshot for each move begun; a pawn move to the last row waits in
`promo` until a kind is chosen. `gameStart` only feeds the reported duration and is left out.
-/

namespace ChessStack.Client

open ChessStack.Chess

/-- `FILES`, `constants/pieces.js:5`. -/
def FILES : List String := ["a", "b", "c", "d", "e", "f", "g", "h"]

/-- `sq(r, c)`, the square's name, `useChessGame.js:30`. -/
def sq (s : Square) : String := FILES[s.2.val]! ++ toString (8 - s.1.val)

/-- `squareToRC` on the names it is given, `chessEngine.js:108–111`. -/
def squareToRC (name : String) : Option Square := allSquares.find? fun s ↦ sq s == name

/-- A kind's letter. -/
def letter : Kind → String
  | .pawn => "P"
  | .knight => "N"
  | .bishop => "B"
  | .rook => "R"
  | .queen => "Q"
  | .king => "K"

/-- The values of `status` other than `null`. -/
inductive Status where
  | check
  | checkmate
  | stalemate
  | timeout
  deriving DecidableEq, Repr

/-- An element of `moveLog`. The server's history has no `color`, `piece` and `captured`. -/
structure MoveEntry where
  color : Option Color := none
  fromSquare : String
  toSquare : String
  piece : Option Piece := none
  captured : Option Piece := none
  promotion : Option String := none
  san : String := ""
  deriving DecidableEq, Repr

/-- `capt`: what each side has taken. -/
structure Captures where
  w : List Piece := []
  b : List Piece := []
  deriving DecidableEq, Repr

/-- `{ ...pv, [col]: [...pv[col], cp] }`. -/
def Captures.add (capt : Captures) (cp : Piece) : Color → Captures
  | .w => { capt with w := capt.w ++ [cp] }
  | .b => { capt with b := capt.b ++ [cp] }

/-- The fields saved before a move, `useChessGame.js:59`. -/
structure Snapshot where
  board : Board
  turn : Color
  sel : Option Square
  moves : List Square
  ep : Option Square
  cast : Castling
  lastMv : Option (Square × Square)
  status : Option Status
  capt : Captures
  hist : List String
  moveLog : List MoveEntry

/-- The move waiting for a promotion kind, `useChessGame.js:150`. -/
structure Promo where
  src : Square
  dst : Square
  col : Color
  nb : Board
  nt : Color
  nep : Option Square
  nc : Castling
  capturedPiece : Option Piece

/-- The state of the hook. -/
structure GameState extends Snapshot where
  promo : Option Promo
  past : List Snapshot

/-- What an event does besides changing the state. -/
inductive Effect where
  | playSound (name : String)
  | moveCommitted (entry : MoveEntry) (status : Option Status)
  | gameFinished (moveCount : Nat) (winner : Bool)
  deriving DecidableEq, Repr

/-- All four castlings allowed. -/
def Castling.all : Castling := ⟨true, true, true, true⟩

/-- `reset`, `useChessGame.js:32–36`; also the state of a fresh hook. -/
def reset : GameState where
  board := initBoard
  turn := .w
  sel := none
  moves := []
  ep := none
  cast := .all
  lastMv := none
  status := none
  capt := {}
  hist := []
  moveLog := []
  promo := none
  past := []

/-- `undo`, `useChessGame.js:61–68`. -/
def undo (g : GameState) : GameState :=
  match g.past.getLast?, g.promo with
  | some prev, none => { toSnapshot := prev, promo := none, past := g.past.dropLast }
  | _, _ => g

/-- `note.replace(/[+#]?$/, suf)`. -/
def replaceSuffix (note suf : String) : String :=
  match note.toList.getLast? with
  | some '+' => String.ofList note.toList.dropLast ++ suf
  | some '#' => String.ofList note.toList.dropLast ++ suf
  | _ => note ++ suf

/-- The status of the position reached, `useChessGame.js:71–72`. -/
def statusOf (nb : Board) (nt : Color) (nep : Option Square) (nc : Castling) : Option Status :=
  let chk := inChk nb nt
  if !hasAny nb nt nep nc then some (if chk then .checkmate else .stalemate)
  else if chk then some .check else none

/-- `finish`, `useChessGame.js:70–97`. -/
def finish (g : GameState) (nb : Board) (nt : Color) (nep : Option Square) (nc : Castling)
    (note : String) (entry : MoveEntry) (silent : Bool) : GameState × List Effect :=
  let st := statusOf nb nt nep nc
  let suf := match st with
    | some .checkmate => "#"
    | some .check => "+"
    | _ => ""
  let finalSan := replaceSuffix note suf
  let finalEntry := { entry with san := finalSan }
  let sound := match st with
    | some .checkmate => "checkmate"
    | some .check => "check"
    | _ => if entry.captured.isSome then "capture" else "move"
  let moveLog := g.moveLog ++ [finalEntry]
  ({ g with board := nb, turn := nt, ep := nep, cast := nc, status := st,
            hist := g.hist ++ [finalSan], moveLog := moveLog, sel := none, moves := [] },
   [Effect.playSound sound] ++ (if silent then [] else [Effect.moveCommitted finalEntry st]) ++
     (if st = some .checkmate ∨ st = some .stalemate then
       [Effect.gameFinished moveLog.length (st = some .checkmate)] else []))

/-- `forceEnd(reason)`, `useChessGame.js:100–108`. -/
def forceEnd (g : GameState) (reason : Status) : GameState × List Effect :=
  ({ g with status := some reason },
   [.playSound "gameEnd", .gameFinished g.moveLog.length true])

/-- The castling flags after a move, `useChessGame.js:116–135`: a king's move drops both of
its side's, a rook leaving a corner and any piece landing on one drop that corner's. -/
def castAfter (cast : Castling) (mp : Piece) (s t : Square) : Castling :=
  let kept (col : Color) (corner : Square) : Bool :=
    !(mp.kind = .king && mp.color = col) && !(mp.kind = .rook && s = corner) && !(t = corner)
  { wK := cast.wK && kept .w (7, 7)
    wQ := cast.wQ && kept .w (7, 0)
    bK := cast.bK && kept .b (0, 7)
    bQ := cast.bQ && kept .b (0, 0) }

/-- `nb` of `applyMove`: the raw move, the castled rook and the pawn taken en passant,
`useChessGame.js:115–140`. -/
def boardAfter (board : Board) (mp : Piece) (s t : Square) (ep : Option Square) : Board :=
  let row : Fin 8 := if mp.color = .w then 7 else 0
  let nb := appMv board s t
  let nb := if mp.kind = .king ∧ twoColumns s t then moveCastledRook nb row t.2 else nb
  if mp.kind = .pawn ∧ ep = some t then clearEpVictim nb mp.color t else nb

/-- `cp`: the piece taken on the square itself or en passant, `useChessGame.js:116, 137–141`. -/
def capturedBy (board : Board) (mp : Piece) (s t : Square) (ep : Option Square) : Option Piece :=
  let epCap := if mp.kind = .pawn ∧ ep = some t then
    (epVictim mp.color t).bind (appMv board s t) else none
  (board t).or epCap

/-- `nep`: the square a double step passes over, `useChessGame.js:144`. -/
def epAfter (mp : Piece) (s t : Square) : Option Square :=
  if mp.kind = .pawn ∧ ((t.1 : Int) - s.1).natAbs = 2 then
    some (⟨(s.1.val + t.1.val) / 2, by omega⟩, t.2)
  else none

/-- The move's text before the check suffix, `useChessGame.js:157–160`. -/
def noteOf (mp : Piece) (s t : Square) (cp : Option Piece) (promotion : Option Kind) : String :=
  match promotion with
  | some k => sq t ++ "=" ++ letter k
  | none =>
    if mp.kind = .king ∧ twoColumns s t then (if t.2 = 6 then "O-O" else "O-O-O")
    else if mp.kind = .pawn then
      (if cp.isSome then FILES[s.2.val]! ++ "x" else "") ++ sq t
    else letter mp.kind ++ (if cp.isSome then "x" else "") ++ sq t

/-- `nb[tr][tc] = col + t`. -/
def placePromoted (nb : Board) (col : Color) (t : Square) : Option Kind → Board
  | none => nb
  | some k => nb.set t (some ⟨col, k⟩)

/-- `applyMove`, `useChessGame.js:111–168`. -/
def applyMove (g : GameState) (s t : Square) (promotion : Option Kind) (silent : Bool) :
    GameState × List Effect :=
  match g.board s with
  | none => (g, [])
  | some mp =>
    let pre := g.toSnapshot
    let nb := boardAfter g.board mp s t g.ep
    let nc := castAfter g.cast mp s t
    let cp := capturedBy g.board mp s t g.ep
    let nep := epAfter mp s t
    let nt := mp.color.other
    let capt := match cp with
      | some c => g.capt.add c mp.color
      | none => g.capt
    let moved := { g with capt := capt, lastMv := some (s, t), past := g.past ++ [pre] }
    if mp.kind = .pawn ∧ (t.1 = 0 ∨ t.1 = 7) ∧ promotion = none then
      ({ moved with promo := some ⟨s, t, mp.color, nb, nt, nep, nc, cp⟩ }, [])
    else
      finish moved (placePromoted nb mp.color t promotion) nt nep nc
        (noteOf mp s t cp promotion)
        { color := some mp.color, fromSquare := sq s, toSquare := sq t, piece := some mp,
          captured := cp, promotion := promotion.map letter } silent

/-- `doPromo(t)`, `useChessGame.js:177–184`; the modal that calls it is only shown while a
promotion is pending. -/
def doPromo (g : GameState) (k : Kind) : GameState × List Effect :=
  match g.promo with
  | none => (g, [])
  | some pr =>
    finish { g with promo := none, lastMv := some (pr.src, pr.dst) }
      (placePromoted pr.nb pr.col pr.dst (some k)) pr.nt pr.nep pr.nc
      (sq pr.dst ++ "=" ++ letter k)
      { color := some pr.col, fromSquare := sq pr.src, toSquare := sq pr.dst,
        piece := some ⟨pr.col, .pawn⟩, captured := pr.capturedPiece,
        promotion := some (letter k) } false

/-- `click(r, c)`, `useChessGame.js:186–199`. -/
def click (g : GameState) (s : Square) : GameState × List Effect :=
  if g.status = some .checkmate ∨ g.status = some .stalemate ∨ g.status = some .timeout ∨
      g.promo.isSome then (g, [])
  else
    let select : GameState := { g with sel := some s, moves := getLegal g.board s g.ep g.cast }
    match g.sel with
    | some from_ =>
      if g.moves.contains s then applyMove g from_ s none false
      else if pcIs (g.board s) g.turn then (select, [])
      else ({ g with sel := none, moves := [] }, [])
    | none => if pcIs (g.board s) g.turn then (select, []) else (g, [])

end ChessStack.Client
