import ChessStack.Chess.Notation
import ChessStack.Js.Value

/-!
# The rules engine of the server

Library `Server`. The server plays by the package `chess.js`. The part it uses is a parameter
here, and what its documentation promises of it is the structure `Follows`: a game object is at
a position of the rules, its FEN text reloads at the same position, and `move` accepts exactly
the legal moves, matching squares and promotion by their names.
-/

namespace ChessStack.Server

open ChessStack.Chess ChessStack.Js

/-- The object given to `move`: any JSON values, or `undefined`. -/
structure MoveArg where
  fromSquare : Option Json
  toSquare : Option Json
  promotion : Option Json

/-- What `move` returns of the accepted move. -/
structure Canonical where
  fromSquare : String
  toSquare : String
  piece : String
  captured : Option String
  promotion : Option String
  san : String
  deriving DecidableEq

/-- The functions of `chess.js` the server calls; `none` where the package throws. -/
structure ChessJs where
  Game : Type
  load : String → Option Game
  start : Game
  turn : Game → Color
  move : Game → MoveArg → Option (Game × Canonical)
  fen : Game → String
  isGameOver : Game → Bool
  isCheckmate : Game → Bool

/-- The FEN of the initial position, as `Game.create` writes it, `Game.js:13`. -/
def startFen : String := "rnbqkbnr/pppppppp/8/8/8/8/PPPPPPPP/RNBQKBNR w KQkq - 0 1"

/-- The object names the move. A promotion must be named by its lower-case letter. -/
def MoveArg.Names (arg : MoveArg) (m : Move) : Prop :=
  arg.fromSquare = some (.str (squareName m.src)) ∧ arg.toSquare = some (.str (squareName m.dst)) ∧
    ∀ k, m.promotion = some k → arg.promotion = some (.str (lowerLetter k))

/-- The returned fields describe the move. -/
structure Canonical.Of (c : Canonical) (m : Move) : Prop where
  fromSquare : c.fromSquare = squareName m.src
  toSquare : c.toSquare = squareName m.dst
  promotion : c.promotion = m.promotion.map lowerLetter

/-- `chess.js` implements the rules: `at_ g p` says the object `g` is at the position `p`. What
ends a game is in its FEN, but for a threefold repetition, for which an object made from a FEN
and one move has seen too few positions. -/
structure ChessJs.Follows (js : ChessJs) (at_ : js.Game → Position → Prop) : Prop where
  start : at_ js.start .initial
  load_start : ∃ g, js.load startFen = some g ∧ at_ g .initial ∧ js.isGameOver g = false
  fen_ne : ∀ g, js.fen g ≠ ""
  load_fen : ∀ g p, at_ g p → ∃ g', js.load (js.fen g) = some g' ∧ at_ g' p
  turn : ∀ g p, at_ g p → js.turn g = p.turn
  move_legal : ∀ g p arg g' c, at_ g p → js.move g arg = some (g', c) →
    ∃ m, arg.Names m ∧ Legal p m ∧ at_ g' (p.play m) ∧ c.Of m
  move_of_legal : ∀ g p arg m, at_ g p → Legal p m → arg.Names m → (js.move g arg).isSome
  checkmate : ∀ g p, at_ g p → (js.isCheckmate g = true ↔ Checkmate p)
  over_of_checkmate : ∀ g, js.isCheckmate g = true → js.isGameOver g = true
  over_reloaded : ∀ fen g arg g' c g'', js.load fen = some g → js.move g arg = some (g', c) →
    js.load (js.fen g') = some g'' → js.isGameOver g'' = js.isGameOver g'

/-- `new Chess(fen || undefined)`. -/
def ChessJs.loadOr (js : ChessJs) : Option String → Option js.Game
  | none => some js.start
  | some fen => if fen = "" then some js.start else js.load fen

end ChessStack.Server
