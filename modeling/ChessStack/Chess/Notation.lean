import ChessStack.Chess.Rules

/-!
# Names of squares and kinds

Library `Chess`. Algebraic square names and the lower-case promotion letters, as `chess.js`
and the `moves` table write them, and the move that such names record.
-/

namespace ChessStack.Chess

/-- A square's name: file letter, then rank. -/
def squareName (s : Square) : String :=
  String.ofList [Char.ofNat (97 + s.2.val), Char.ofNat (56 - s.1.val)]

/-- The square of a name. -/
def squareNamed (name : String) : Option Square := allSquares.find? fun s ↦ squareName s == name

/-- A kind's lower-case letter. -/
def lowerLetter : Kind → String
  | .pawn => "p"
  | .knight => "n"
  | .bishop => "b"
  | .rook => "r"
  | .queen => "q"
  | .king => "k"

/-- The kind a promotion letter names. -/
def promotionNamed (name : String) : Option Kind :=
  promotionKinds.find? fun k ↦ lowerLetter k == name

/-- The move with the given names. -/
def moveNamed (src dst : String) (promotion : Option String) : Option Move :=
  match squareNamed src, squareNamed dst with
  | some s, some t => some ⟨s, t, promotion.bind promotionNamed⟩
  | _, _ => none

/-- A square is read back from its name. -/
@[simp] theorem squareNamed_squareName (s : Square) : squareNamed (squareName s) = some s := by
  revert s
  decide +kernel

private theorem promotionNamed_lowerLetter {k : Kind} (hk : k ∈ promotionKinds) :
    promotionNamed (lowerLetter k) = some k := by
  simp only [promotionKinds, List.mem_cons, List.not_mem_nil, or_false] at hk
  rcases hk with rfl | rfl | rfl | rfl <;> decide +kernel

/-- A legal move is recovered from its names. -/
theorem moveNamed_of_legal {p : Position} {m : Move} (h : Legal p m) :
    moveNamed (squareName m.src) (squareName m.dst) (m.promotion.map lowerLetter) = some m := by
  have hkind : ∀ k, m.promotion = some k → k ∈ promotionKinds := by
    intro k hk
    rcases h with ⟨q, -, -, -, hfits, -⟩ | ⟨side, rfl, -⟩
    · unfold PromotionFits at hfits
      split at hfits
      · obtain ⟨k', hmem, hk'⟩ := hfits
        rw [hk, Option.some.injEq] at hk'
        exact hk' ▸ hmem
      · rw [hfits] at hk
        cases hk
    · cases hk
  obtain ⟨s, t, promotion⟩ := m
  unfold moveNamed
  rw [squareNamed_squareName, squareNamed_squareName]
  cases promotion with
  | none => rfl
  | some k =>
    dsimp only [Option.map_some, Option.bind_some]
    rw [promotionNamed_lowerLetter (hkind k rfl)]

end ChessStack.Chess
