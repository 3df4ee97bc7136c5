import ChessStack.Server.Finalize

/-!
# The record of a game

Library `Server`. What the rows of `moves` say when they are one legal game, and what a row of
`games` says of its seats and of that record: the part of the tables that
`Chess-Backend/src/socket/gameSocket.js` replays, extends and decides on.
-/

namespace ChessStack.Server

open ChessStack.Chess ChessStack.Js ChessStack.Library ChessStack.Store

/-! ### One legal game -/

/-- The moves are one legal game from the initial position that ends at `p`: each is the next by
number, made by the side to move and legal, and its FEN loads at the position after it. -/
inductive LegalGame (js : ChessJs) (at_ : js.Game → Position → Prop) :
    List MoveRow → Position → Prop
  | start : LegalGame js at_ [] .initial
  | move {rows : List MoveRow} {p : Position} {row : MoveRow} {m : Move} {g : js.Game} :
      LegalGame js at_ rows p → row.moveNumber = rows.length + 1 → row.playerColor = p.turn →
      moveNamed row.fromSquare row.toSquare row.promotion = some m → Legal p m →
      js.load row.fenAfter = some g → at_ g (p.play m) → row.fenAfter ≠ "" →
      LegalGame js at_ (rows ++ [row]) (p.play m)

/-- The FEN after the last move. -/
def lastFen (rows : List MoveRow) : String :=
  match rows.getLast? with
  | some row => row.fenAfter
  | none => startFen

/-- The colour that makes the move of index `i`. -/
def colorAt (i : Nat) : Color := if i % 2 = 0 then .w else .b

private theorem colorAt_succ (i : Nat) : colorAt (i + 1) = (colorAt i).other := by
  unfold colorAt
  obtain h | h := Nat.mod_two_eq_zero_or_one i
  · rw [if_neg (by omega), if_pos h]
    rfl
  · rw [if_pos (by omega), if_neg (by omega)]
    rfl

/-- The last position is that of the last row. -/
@[simp] theorem lastFen_append (rows : List MoveRow) (row : MoveRow) :
    lastFen (rows ++ [row]) = row.fenAfter := by
  unfold lastFen
  rw [List.getLast?_concat]

namespace LegalGame

variable {js : ChessJs} {at_ : js.Game → Position → Prop} {rows : List MoveRow} {p : Position}

/-- The rows are numbered from one. -/
theorem numbers (h : LegalGame js at_ rows p) :
    rows.map MoveRow.moveNumber = List.range' 1 rows.length := by
  induction h with
  | start => rfl
  | move _ hnumber _ _ _ _ _ _ ih =>
    rw [List.map_append, ih, List.length_append, List.length_singleton, List.range'_concat,
      List.map_singleton, hnumber]
    congr 2
    omega

/-- The side to move after the recorded moves. -/
theorem turn_eq (h : LegalGame js at_ rows p) : p.turn = colorAt rows.length := by
  induction h with
  | start => rfl
  | move _ _ _ _ _ _ _ _ ih =>
    rw [List.length_append, List.length_singleton, colorAt_succ, ← ih]
    rfl

/-- White and Black take turns. -/
theorem colors (h : LegalGame js at_ rows p) (i : Nat) (row : MoveRow) (hi : rows[i]? = some row) :
    row.playerColor = colorAt i := by
  induction h with
  | start => cases hi
  | @move rows p last m g hrows _ hcolor _ _ _ _ _ ih =>
    by_cases hlt : i < rows.length
    · rw [List.getElem?_append_left hlt] at hi
      exact ih hi
    · rw [List.getElem?_append_right (by omega), List.getElem?_singleton] at hi
      split at hi
      · next hzero =>
        have heq : i = rows.length := by omega
        rw [← Option.some.inj hi, hcolor, hrows.turn_eq, heq]
      · cases hi

/-- The FEN after the last move loads at the position reached. -/
theorem load_last (hjs : js.Follows at_) (h : LegalGame js at_ rows p) :
    ∃ g, js.load (lastFen rows) = some g ∧ at_ g p := by
  cases h with
  | start =>
    obtain ⟨g, hload, hat, -⟩ := hjs.load_start
    exact ⟨g, hload, hat⟩
  | move _ _ _ _ _ hload hat _ =>
    rw [lastFen_append]
    exact ⟨_, hload, hat⟩

/-- A recorded game has a position. -/
theorem lastFen_ne (h : LegalGame js at_ rows p) : lastFen rows ≠ "" := by
  cases h with
  | start => decide
  | move _ _ _ _ _ _ _ hne =>
    rw [lastFen_append]
    exact hne

/-- The number of the next row. -/
theorem nextNumber_eq (h : LegalGame js at_ rows p) : nextNumber rows = rows.length + 1 := by
  have hmax : ∀ n k, (List.range' 1 n).foldr max k = max n k := by
    intro n
    induction n with
    | zero => exact fun k ↦ (Nat.zero_max k).symm
    | succ n ih =>
      intro k
      rw [List.range'_concat, List.foldr_append, ih, List.foldr_cons, List.foldr_nil]
      omega
  rw [nextNumber, h.numbers, hmax, Nat.max_zero]

end LegalGame

end ChessStack.Server
