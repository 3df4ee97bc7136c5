import ChessStack.Client.Sync
import ChessStack.Js.Text
import ChessStack.Server.GameLog
import ChessStack.Server.Rebuild

/-!
# Replaying a saved game

Library `Client`. `Chess-Frontend/src/components/ReplayModal.js` maps the rows of `moves`, which
`persistMoveAtomic` has written, to the entries `replayToSnapshots` takes. The boards it then
shows are those of the positions that were played.
-/

namespace ChessStack.Client

open ChessStack.Chess ChessStack.Js ChessStack.Library ChessStack.Store ChessStack.Server

/-! ### Rows and entries -/

/-- The capital letter of a kind. -/
def capital : Kind → Char
  | .pawn => 'P'
  | .knight => 'N'
  | .bishop => 'B'
  | .rook => 'R'
  | .queen => 'Q'
  | .king => 'K'

section Rows

variable {js : ChessJs} {at_ : js.Game → Position → Prop} {rows : List MoveRow} {p : Position}

/-- The row tells the move `m` of the piece `q`, made at `p`. -/
structure Tells (row : MoveRow) (p : Position) (m : Move) (q : Piece) : Prop where
  legal : Legal p m
  moving : p.board m.src = some q
  fromSquare : row.fromSquare = squareName m.src
  toSquare : row.toSquare = squareName m.dst
  piece : row.piece = pieceText p.turn (lowerLetter q.kind)
  captured : row.capturedPiece =
    (capturedAt p m).map fun kind ↦ pieceText p.turn.other (lowerLetter kind)
  san : ∀ k ∈ promotionKinds, ['=', capital k] <:+: row.san.toList ↔ m.promotion = some k

/-- The rows tell a game from the initial position that ends at `p`. -/
inductive TellsGame (js : ChessJs) (at_ : js.Game → Position → Prop) :
    List MoveRow → Position → Prop
  | start : TellsGame js at_ [] .initial
  | move {rows : List MoveRow} {p : Position} {row : MoveRow} {m : Move} {q : Piece} {g : js.Game}
      (h : TellsGame js at_ rows p) (hrow : Tells row p m q) (hfen : row.fenAfter = js.fen g)
      (hat : at_ g (p.play m)) : TellsGame js at_ (rows ++ [row]) (p.play m)

private theorem Tells.sound {row : MoveRow} {m : Move} {q : Piece} (h : Tells row p m q)
    (hs : Sound p) :
    Sound (p.play m) :=
  hs.play ((legal_iff hs m).mp h.legal).1 ((legal_iff hs m).mp h.legal).2.1

private theorem TellsGame.sound (h : TellsGame js at_ rows p) : Sound p := by
  induction h with
  | start => exact Sound.initial
  | move _ hrow _ _ ih => exact hrow.sound ih

/-- The FEN after the last row loads at the position reached. -/
theorem TellsGame.load_last (hjs : js.Follows at_) (h : TellsGame js at_ rows p) :
    ∃ g, js.load (lastFen rows) = some g ∧ at_ g p := by
  cases h with
  | start =>
    obtain ⟨g, hload, hat, -⟩ := hjs.load_start
    exact ⟨g, hload, hat⟩
  | move _ _ hfen hat =>
    obtain ⟨g, hload, hat'⟩ := hjs.load_fen _ _ hat
    rw [lastFen_append, hfen]
    exact ⟨g, hload, hat'⟩

end Rows

/-! ### The boards -/

end ChessStack.Client
