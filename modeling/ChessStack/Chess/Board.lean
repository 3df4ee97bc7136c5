import Mathlib.Data.Fintype.Prod

/-!
# Pieces, squares and boards

Library `Chess`. The board of `Chess-Frontend/src/engine/chessEngine.js:8–18`: eight rows
of eight cells, row 0 being the eighth rank, each cell `null` or a colour letter followed by
a kind letter. The same board carries the rules of the game in `Chess.Rules`.
-/

namespace ChessStack.Chess

/-- The colour letters `"w"` and `"b"`. -/
inductive Color where
  | w
  | b
  deriving DecidableEq, Repr

/-- The opponent: `col === "w" ? "b" : "w"`. -/
def Color.other : Color → Color
  | .w => .b
  | .b => .w

/-- The other colour of the other. -/
@[simp] theorem Color.other_other (c : Color) : c.other.other = c := by cases c <;> rfl

@[simp] private theorem Color.other_ne (c : Color) : c.other ≠ c := by cases c <;> decide

/-- No colour is the other. -/
@[simp] theorem Color.ne_other (c : Color) : c ≠ c.other := by cases c <;> decide

/-- Two colours are equal or opponents. -/
theorem Color.eq_or_eq_other (c d : Color) : c = d ∨ c = d.other := by
  cases c <;> cases d <;> simp [Color.other]

/-- A colour other than `d` is the opponent of `d`. -/
theorem Color.eq_other_of_ne {c d : Color} (h : c ≠ d) : c = d.other :=
  (c.eq_or_eq_other d).resolve_left h

/-- The kind letters `P N B R Q K`. -/
inductive Kind where
  | pawn
  | knight
  | bishop
  | rook
  | queen
  | king
  deriving DecidableEq, Repr

/-- A cell's text such as `"wP"`, read as its two letters. -/
structure Piece where
  color : Color
  kind : Kind
  deriving DecidableEq, Repr

/-- A board has rows and columns, so `Fin 8` has numerals. -/
instance neZeroEight : @NeZero Nat (@Zero.ofOfNat0 Nat (instOfNatNat 0)) 8 := ⟨Nat.succ_ne_zero 7⟩

/-- A cell of the board: row (0 is the eighth rank) and column (0 is the a-file). -/
abbrev Square := Fin 8 × Fin 8

/-- An eight by eight array of cells. -/
abbrev Board := Square → Option Piece

/-- A direction or a jump: rows and columns to add. -/
abbrev Offset := Int × Int

/-- The cell `d` away, when it is on the board; `inB(r + dr, c + dc)` guards every
neighbour the engine reads, `chessEngine.js:18`. -/
def Square.shift (s : Square) (d : Offset) : Option Square :=
  if h : 0 ≤ (s.1 : Int) + d.1 ∧ (s.1 : Int) + d.1 < 8 ∧
      0 ≤ (s.2 : Int) + d.2 ∧ (s.2 : Int) + d.2 < 8 then
    some (⟨((s.1 : Int) + d.1).toNat, by omega⟩, ⟨((s.2 : Int) + d.2).toNat, by omega⟩)
  else none

/-- `t` lies `k` steps of direction `d` from `s`. -/
def Away (s t : Square) (d : Offset) (k : Nat) : Prop :=
  (t.1 : Int) = s.1 + k * d.1 ∧ (t.2 : Int) = s.2 + k * d.2

/-- The distance is computed. -/
instance (s t : Square) (d : Offset) (k : Nat) : Decidable (Away s t d k) :=
  inferInstanceAs (Decidable (_ ∧ _))

/-- Squares are equal when their rows and columns are, as integers. -/
theorem Square.eq_iff (s t : Square) :
    s = t ↔ (s.1 : Int) = t.1 ∧ (s.2 : Int) = t.2 := by
  rw [Prod.ext_iff, Fin.ext_iff, Fin.ext_iff]
  omega

/-- A shift that stays on the board is one step of its direction. -/
theorem Square.shift_eq_some {s t : Square} {d : Offset} :
    s.shift d = some t ↔ Away s t d 1 := by
  unfold Square.shift Away
  split
  · next h =>
    rw [Option.some.injEq, Square.eq_iff]
    constructor
    · rintro ⟨h1, h2⟩
      constructor <;> simp only [Int.toNat_of_nonneg h.1, Int.toNat_of_nonneg h.2.2.1] at h1 h2 <;>
        omega
    · rintro ⟨h1, h2⟩
      simp only [Int.toNat_of_nonneg h.1, Int.toNat_of_nonneg h.2.2.1]
      omega
  · next h =>
    simp only [reduceCtorEq, false_iff, not_and]
    intro h1 h2
    apply h
    have := t.1.isLt
    have := t.2.isLt
    omega

/-- A shift leaves the board when no square lies one step away. -/
theorem Square.shift_eq_none {s : Square} {d : Offset} :
    s.shift d = none ↔ ∀ t, ¬ Away s t d 1 := by
  rw [Option.eq_none_iff_forall_ne_some]
  exact forall_congr' fun t ↦ not_congr Square.shift_eq_some

/-- Zero steps lead nowhere else. -/
theorem away_zero {s t : Square} {d : Offset} : Away s t d 0 ↔ t = s := by
  rw [Square.eq_iff]
  simp [Away]

/-- The square a number of steps away is unique. -/
theorem Away.unique {s t u : Square} {d : Offset} {k : Nat} (ht : Away s t d k)
    (hu : Away s u d k) : t = u := by
  rw [Square.eq_iff]
  exact ⟨ht.1.trans hu.1.symm, ht.2.trans hu.2.symm⟩

/-- One step and then `k` more make `k + 1` steps. -/
theorem Away.step {s t u : Square} {d : Offset} {k : Nat} (ht : Away s t d 1) :
    Away t u d k ↔ Away s u d (k + 1) := by
  unfold Away at *
  rw [ht.1, ht.2, show ((k + 1 : Nat) : Int) = 1 + k by omega, Int.add_mul, Int.add_mul,
    ← Int.add_assoc, ← Int.add_assoc]
  rfl

/-- Write a cell: `board[r][c] = v`. -/
def Board.set (b : Board) (s : Square) (v : Option Piece) : Board :=
  fun t ↦ if t = s then v else b t

/-- The square that was set. -/
@[simp] theorem Board.set_self (b : Board) (s : Square) (v : Option Piece) :
    b.set s v s = v := if_pos rfl

/-- The board after a square was set. -/
theorem Board.set_apply (b : Board) (s t : Square) (v : Option Piece) :
    b.set s v t = if t = s then v else b t := rfl

/-- The other squares stay. -/
theorem Board.set_of_ne (b : Board) {s t : Square} (v : Option Piece) (h : t ≠ s) :
    b.set s v t = b t := if_neg h

/-- The back row of either side, from the a-file, `chessEngine.js:10`. -/
def backRow : List Kind :=
  [.rook, .knight, .bishop, .queen, .king, .bishop, .knight, .rook]

/-- The initial array, `initBoard` of `chessEngine.js:8–14`. -/
def initBoard : Board := fun s ↦
  match s.1.val with
  | 0 => (backRow[s.2.val]?).map (Piece.mk .b)
  | 1 => some ⟨.b, .pawn⟩
  | 6 => some ⟨.w, .pawn⟩
  | 7 => (backRow[s.2.val]?).map (Piece.mk .w)
  | _ => none

/-- Every square once, row by row, as the nested loops of the source visit them. -/
def allSquares : List Square :=
  (List.finRange 8).flatMap fun r ↦ (List.finRange 8).map fun c ↦ (r, c)

/-- Every square is listed. -/
@[simp] theorem mem_allSquares (s : Square) : s ∈ allSquares := by
  simp [allSquares]

end ChessStack.Chess
