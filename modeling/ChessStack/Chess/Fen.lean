import ChessStack.Chess.Notation
import Mathlib.Data.List.OfFn

/-!
# FEN

Library `Chess`. The text of a position: the board rank by rank with runs of empty squares as
digits, the side to move, the castling rights, the square passed over and the two counters. A
text that was written is read back as it was, field by field.
-/

namespace ChessStack.Chess

/-! ### Piece placement -/

/-- A piece's letter: upper case for White. -/
def symbol : Piece → Char
  | ⟨.w, .pawn⟩ => 'P'
  | ⟨.w, .knight⟩ => 'N'
  | ⟨.w, .bishop⟩ => 'B'
  | ⟨.w, .rook⟩ => 'R'
  | ⟨.w, .queen⟩ => 'Q'
  | ⟨.w, .king⟩ => 'K'
  | ⟨.b, .pawn⟩ => 'p'
  | ⟨.b, .knight⟩ => 'n'
  | ⟨.b, .bishop⟩ => 'b'
  | ⟨.b, .rook⟩ => 'r'
  | ⟨.b, .queen⟩ => 'q'
  | ⟨.b, .king⟩ => 'k'

/-- The piece a letter stands for. -/
def symbolNamed : Char → Option Piece
  | 'P' => some ⟨.w, .pawn⟩
  | 'N' => some ⟨.w, .knight⟩
  | 'B' => some ⟨.w, .bishop⟩
  | 'R' => some ⟨.w, .rook⟩
  | 'Q' => some ⟨.w, .queen⟩
  | 'K' => some ⟨.w, .king⟩
  | 'p' => some ⟨.b, .pawn⟩
  | 'n' => some ⟨.b, .knight⟩
  | 'b' => some ⟨.b, .bishop⟩
  | 'r' => some ⟨.b, .rook⟩
  | 'q' => some ⟨.b, .queen⟩
  | 'k' => some ⟨.b, .king⟩
  | _ => none

/-- A run of empty squares. -/
def runText (n : Nat) : List Char := if n = 0 then [] else [n.digitChar]

/-- One rank, after a run of `n` empty squares. -/
def rankText : Nat → List (Option Piece) → List Char
  | n, [] => runText n
  | n, none :: cells => rankText (n + 1) cells
  | n, some q :: cells => runText n ++ symbol q :: rankText 0 cells

/-- The cells of a rank, and the rank `r` of a board. -/
def boardRank (b : Board) (r : Fin 8) : List (Option Piece) := List.ofFn fun c ↦ b (r, c)

/-- The board field of a FEN. -/
def placement (b : Board) : List Char :=
  ['/'].intercalate (List.ofFn fun r ↦ rankText 0 (boardRank b r))

/-- The cells one symbol of a rank stands for. -/
def readSymbol (c : Char) : Option (List (Option Piece)) :=
  if c.isDigit then some (List.replicate (c.toNat - 48) none)
  else (symbolNamed c).map fun q ↦ [some q]

/-- The cells of a rank. -/
def readRank : List Char → Option (List (Option Piece))
  | [] => some []
  | c :: cs => (readSymbol c).bind fun cells ↦ (readRank cs).map (cells ++ ·)

/-- Eight ranks of eight cells as a board. -/
def boardOfRanks (ranks : List (List (Option Piece))) : Option Board :=
  if ranks.length = 8 ∧ ∀ rank ∈ ranks, rank.length = 8 then
    some fun s ↦ ((ranks[s.1.val]?).bind (·[s.2.val]?)).join
  else none

/-- The board of a board field. -/
def readPlacement (text : List Char) : Option Board :=
  ((text.splitOn '/').mapM readRank).bind boardOfRanks

private theorem symbolNamed_symbol (q : Piece) : symbolNamed (symbol q) = some q := by
  obtain ⟨c, k⟩ := q
  cases c <;> cases k <;> rfl

/-- No piece letter is a digit. -/
theorem symbol_isDigit (q : Piece) : (symbol q).isDigit = false := by
  obtain ⟨c, k⟩ := q
  cases c <;> cases k <;> rfl

/-- A piece is read back from its letter. -/
theorem readSymbol_symbol (q : Piece) : readSymbol (symbol q) = some [some q] := by
  rw [readSymbol, symbol_isDigit, if_neg Bool.false_ne_true, symbolNamed_symbol]
  rfl

/-- A digit stands for so many empty squares. -/
theorem readSymbol_digit {n : Nat} (hn : n < 9) :
    readSymbol n.digitChar = some (List.replicate n none) := by
  revert n
  decide

/-- A run of empty squares is read back before the rest of its rank. -/
theorem readRank_run {n : Nat} (hn : n < 9) (rest : List Char) :
    readRank (runText n ++ rest) = (readRank rest).map (List.replicate n none ++ ·) := by
  unfold runText
  split
  · next h =>
    rw [h, List.nil_append]
    exact Option.map_id'.symm
  · rw [List.singleton_append, readRank, readSymbol_digit hn]
    rfl

private theorem readRank_rankText (n : Nat) (cells : List (Option Piece))
    (h : n + cells.length < 9) :
    readRank (rankText n cells) = some (List.replicate n none ++ cells) := by
  induction cells generalizing n with
  | nil =>
    rw [rankText, ← List.append_nil (runText n), readRank_run (by simpa using h)]
    rfl
  | cons cell cells ih =>
    rw [List.length_cons] at h
    cases cell with
    | none =>
      rw [rankText, ih (n + 1) (by omega), List.replicate_succ', List.append_assoc]
      rfl
    | some q =>
      rw [rankText, readRank_run (by omega), readRank, readSymbol_symbol, ih 0 (by omega)]
      rfl

/-- The characters a placement is made of. -/
theorem mem_rankText {n : Nat} (cells : List (Option Piece)) (h : n + cells.length < 9) {c : Char}
    (hc : c ∈ rankText n cells) : (∃ k < 9, c = k.digitChar) ∨ ∃ q, c = symbol q := by
  have hrun : ∀ k < 9, c ∈ runText k → ∃ k < 9, c = k.digitChar := by
    intro k hk hmem
    unfold runText at hmem
    split at hmem
    · cases hmem
    · exact ⟨k, hk, List.mem_singleton.mp hmem⟩
  induction cells generalizing n with
  | nil => exact Or.inl (hrun n (by simpa using h) hc)
  | cons cell cells ih =>
    rw [List.length_cons] at h
    cases cell with
    | none => exact ih (by omega) hc
    | some q =>
      rw [rankText, List.mem_append, List.mem_cons] at hc
      rcases hc with hc | rfl | hc
      · exact Or.inl (hrun n (by omega) hc)
      · exact Or.inr ⟨q, rfl⟩
      · exact ih (by omega) hc

private theorem ne_slash_of_placed {c : Char} (h : (∃ k < 9, c = k.digitChar) ∨ ∃ q, c = symbol q) :
    c ≠ '/' ∧ c ≠ ' ' := by
  rcases h with ⟨k, hk, rfl⟩ | ⟨⟨color, kind⟩, rfl⟩
  · revert k
    decide
  · cases color <;> cases kind <;> decide

private theorem length_boardRank (b : Board) (r : Fin 8) : (boardRank b r).length = 8 :=
  List.length_ofFn

private theorem rank_ne_slash {b : Board} {r : Fin 8} {c : Char}
    (hc : c ∈ rankText 0 (boardRank b r)) :
    c ≠ '/' ∧ c ≠ ' ' :=
  ne_slash_of_placed (mem_rankText _ (by rw [length_boardRank]; decide) hc)

private theorem placement_splitOn (b : Board) :
    (placement b).splitOn '/' = List.ofFn fun r ↦ rankText 0 (boardRank b r) := by
  refine List.splitOn_intercalate '/' ?_ ?_
  · intro rank hrank hslash
    obtain ⟨r, rfl⟩ := List.mem_ofFn.mp hrank
    exact (rank_ne_slash hslash).1 rfl
  · intro h
    cases List.ofFn_eq_nil_iff.mp h

/-- What is in a joined text is a separator or in one of its parts. -/
theorem mem_intercalate {c sep : Char} {parts : List (List Char)} (h : c ∈ [sep].intercalate parts) :
    c = sep ∨ ∃ part ∈ parts, c ∈ part := by
  induction parts with
  | nil => cases h
  | cons part parts ih =>
    cases parts with
    | nil => exact Or.inr ⟨part, List.mem_cons_self, by simpa [List.intercalate] using h⟩
    | cons next parts =>
      rw [List.intercalate_cons_cons, List.mem_append, List.mem_append, List.mem_singleton] at h
      rcases h with (h | h) | h
      · exact Or.inr ⟨part, List.mem_cons_self, h⟩
      · exact Or.inl h
      · refine (ih h).imp_right ?_
        rintro ⟨part', hpart', hmem⟩
        exact ⟨part', List.mem_cons_of_mem _ hpart', hmem⟩

private theorem space_not_mem_placement (b : Board) : ' ' ∉ placement b := by
  intro h
  obtain h | ⟨rank, hrank, hmem⟩ := mem_intercalate h
  · cases h
  · obtain ⟨r, rfl⟩ := List.mem_ofFn.mp hrank
    exact (rank_ne_slash hmem).2 rfl

private theorem mapM_readRank (ranks : List (List (Option Piece)))
    (h : ∀ rank ∈ ranks, rank.length = 8) :
    (ranks.map (rankText 0)).mapM readRank = some ranks := by
  induction ranks with
  | nil => rfl
  | cons rank ranks ih =>
    have hrank := h rank List.mem_cons_self
    rw [List.map_cons, List.mapM_cons, readRank_rankText 0 rank (by omega),
      ih fun r hr ↦ h r (List.mem_cons_of_mem _ hr)]
    rfl

/-- A written board is read back. -/
theorem readPlacement_placement (b : Board) : readPlacement (placement b) = some b := by
  have hlen : ∀ rank ∈ List.ofFn (boardRank b), rank.length = 8 := by
    intro rank hrank
    obtain ⟨r, rfl⟩ := List.mem_ofFn.mp hrank
    exact length_boardRank b r
  have hranks : (List.ofFn fun r ↦ rankText 0 (boardRank b r)).mapM readRank =
      some (List.ofFn (boardRank b)) := by
    rw [← mapM_readRank _ hlen, List.map_ofFn]
    rfl
  rw [readPlacement, placement_splitOn, hranks, Option.bind_some, boardOfRanks,
    if_pos ⟨List.length_ofFn, hlen⟩]
  congr 1
  funext s
  obtain ⟨r, c⟩ := s
  rw [List.getElem?_ofFn, dif_pos r.isLt, Option.bind_some, boardRank, List.getElem?_ofFn,
    dif_pos c.isLt]
  rfl

/-! ### The other fields -/

/-- The turn field. -/
def turnText : Color → List Char
  | .w => ['w']
  | .b => ['b']

/-- The turn of a turn field. -/
def readTurn (text : List Char) : Color := if text = ['b'] then .b else .w

/-- The letter of a castling right. -/
def rightLetter : Color → Side → Char
  | .w, .king => 'K'
  | .w, .queen => 'Q'
  | .b, .king => 'k'
  | .b, .queen => 'q'

/-- The castling field. -/
def rightsText (rights : Color → Side → Bool) : List Char :=
  let letters := (if rights .w .king then ['K'] else []) ++ (if rights .w .queen then ['Q'] else []) ++
    (if rights .b .king then ['k'] else []) ++ (if rights .b .queen then ['q'] else [])
  if letters = [] then ['-'] else letters

/-- The rights of a castling field. -/
def readRights (text : List Char) (c : Color) (side : Side) : Bool :=
  text.contains (rightLetter c side)

/-- The en passant field. -/
def passedText : Option Square → List Char
  | none => ['-']
  | some s => (squareName s).toList

/-- The square of an en passant field. -/
def readPassed (text : List Char) : Option Square :=
  if text = ['-'] then none else squareNamed (String.ofList text)

/-- The turn is read back. -/
theorem readTurn_turnText (c : Color) : readTurn (turnText c) = c := by cases c <;> rfl

/-- The rights are read back. -/
theorem readRights_rightsText (rights : Color → Side → Bool) :
    readRights (rightsText rights) = rights := by
  have hall : ∀ wk wq bk bq : Bool, ∀ c side,
      let rights : Color → Side → Bool := fun c side ↦
        match c, side with
        | .w, .king => wk
        | .w, .queen => wq
        | .b, .king => bk
        | .b, .queen => bq
      readRights (rightsText rights) c side = rights c side := by
    intro wk wq bk bq c side
    cases wk <;> cases wq <;> cases bk <;> cases bq <;> cases c <;> cases side <;> rfl
  funext c side
  have h := hall (rights .w .king) (rights .w .queen) (rights .b .king) (rights .b .queen) c side
  have hrights : rights = fun c side ↦
      match c, side with
      | .w, .king => rights .w .king
      | .w, .queen => rights .w .queen
      | .b, .king => rights .b .king
      | .b, .queen => rights .b .queen := by
    funext c side
    cases c <;> cases side <;> rfl
  rw [hrights]
  exact h

private theorem readPassed_passedText (passed : Option Square) :
    readPassed (passedText passed) = passed := by
  cases passed with
  | none => rfl
  | some s =>
    have hne : ∀ s : Square, (squareName s).toList ≠ ['-'] := by
      intro s h
      rw [squareName, String.toList_ofList] at h
      cases (List.cons.inj h).2
    rw [passedText, readPassed, if_neg (hne s), String.ofList_toList, squareNamed_squareName]

/-! ### The whole text -/

/-- What a FEN says. -/
structure Fen where
  board : Board
  turn : Color
  rights : Color → Side → Bool
  passed : Option Square
  half : Nat
  full : Nat

/-- The six fields of a FEN. -/
def Fen.fields (f : Fen) : List (List Char) :=
  [placement f.board, turnText f.turn, rightsText f.rights, passedText f.passed,
    Nat.toDigits 10 f.half, Nat.toDigits 10 f.full]

/-- A FEN as text. -/
def Fen.text (f : Fen) : String := String.ofList ([' '].intercalate f.fields)

/-- The fields of a text, split at spaces. -/
def fenFields (text : String) : List (List Char) := text.toList.splitOn ' '

/-- The FEN of a text. -/
def readFen (text : String) : Option Fen :=
  match fenFields text with
  | [board, turn, rights, passed, half, full] => (readPlacement board).map fun b ↦
    { board := b, turn := readTurn turn, rights := readRights rights, passed := readPassed passed,
      half := Nat.ofDigitChars 10 half 0, full := Nat.ofDigitChars 10 full 0 }
  | _ => none

private theorem space_not_mem_fields (f : Fen) : ∀ field ∈ f.fields, ' ' ∉ field := by
  have hdigits : ∀ n, ' ' ∉ Nat.toDigits 10 n := by
    intro n h
    have := Nat.isDigit_of_mem_toDigits (by decide) (by decide) h
    cases this
  intro field hfield
  simp only [Fen.fields, List.mem_cons, List.not_mem_nil, or_false] at hfield
  rcases hfield with rfl | rfl | rfl | rfl | rfl | rfl
  · exact space_not_mem_placement f.board
  · cases f.turn <;> decide
  · unfold rightsText
    cases f.rights .w .king <;> cases f.rights .w .queen <;> cases f.rights .b .king <;>
      cases f.rights .b .queen <;> decide
  · cases f.passed with
    | none => decide
    | some s =>
      revert s
      decide +kernel
  · exact hdigits _
  · exact hdigits _

/-- A written FEN splits into the fields it was written from. -/
theorem fenFields_text (f : Fen) : fenFields f.text = f.fields := by
  rw [fenFields, Fen.text, String.toList_ofList]
  exact List.splitOn_intercalate ' ' (space_not_mem_fields f) (List.cons_ne_nil _ _)

/-- A written FEN is read back. -/
theorem readFen_text (f : Fen) : readFen f.text = some f := by
  rw [readFen, fenFields_text]
  simp only [Fen.fields, readPlacement_placement, Option.map_some, readTurn_turnText,
    readRights_rightsText, readPassed_passedText,
    Nat.ofDigitChars_toDigits (show 1 < 10 by decide) (Nat.le_refl 10)]

end ChessStack.Chess
