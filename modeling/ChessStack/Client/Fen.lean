import ChessStack.Client.AIPlay
import ChessStack.Client.Sync
import ChessStack.Js.Text

/-!
# Writing and loading a FEN

Library `Client`. `boardToFEN` of the engine and `loadFEN` of the hook were written apart. What the
first writes the second loads, and a text in canonical form is written again from what was loaded.
-/

namespace ChessStack.Client

open ChessStack.Chess

/-! ### What was written is loaded -/

/-- `loadFEN` restores what `boardToFEN` was given. -/
theorem loadFEN_boardToFEN (board : Board) (turn : Color) (cast : Castling) (ep : Option Square)
    (hist : List String) (persistedMoves : List MoveEntry) :
    ∃ S, loadFEN (boardToFEN board turn cast ep hist) persistedMoves = some S ∧ S.board = board ∧
      S.turn = turn ∧ S.cast = cast ∧ S.ep = ep := by
  have hep : (if passedText ep = ['-'] then none else squareToRC (String.ofList (passedText ep))) =
      ep := by
    cases ep with
    | none => rfl
    | some s =>
      rw [if_neg, passedText, String.ofList_toList, squareToRC_squareName]
      intro hdash
      rw [passedText, squareName, String.toList_ofList] at hdash
      cases (List.cons.inj hdash).2
  have hright : ∀ c side, (rightsText cast.flag).contains (rightLetter c side) = cast.flag c side :=
    fun c side ↦ congrFun (congrFun (readRights_rightsText cast.flag) c) side
  have hcast : (⟨(rightsText cast.flag).contains 'K', (rightsText cast.flag).contains 'Q',
      (rightsText cast.flag).contains 'k', (rightsText cast.flag).contains 'q'⟩ : Castling) = cast := by
    have hwK : (rightsText cast.flag).contains 'K' = cast.wK := hright .w .king
    have hwQ : (rightsText cast.flag).contains 'Q' = cast.wQ := hright .w .queen
    have hbK : (rightsText cast.flag).contains 'k' = cast.bK := hright .b .king
    have hbQ : (rightsText cast.flag).contains 'q' = cast.bQ := hright .b .queen
    rw [hwK, hwQ, hbK, hbQ]
  unfold loadFEN boardToFEN
  rw [fenFields_text]
  simp only [Fen.fields, readPlacement_placement, Option.map_some]
  exact ⟨_, rfl, rfl, readTurn_turnText turn, hcast, hep⟩

/-! ### Canonical texts -/

/-- The cells a symbol of a rank stands for. -/
def symbolWidth (c : Char) : Nat := if c.isDigit then c.toNat - 48 else 1

/-- A rank: pieces and runs of empty squares, each run one digit, eight cells together. -/
structure CanonicalRank (rank : List Char) : Prop where
  symbols : ∀ c ∈ rank, c ∈ "12345678".toList ∨ c ∈ "PNBRQKpnbrqk".toList
  maximal : rank.IsChain fun c d ↦ ¬ (c.isDigit ∧ d.isDigit)
  width : (rank.map symbolWidth).sum = 8

/-- A rank is checked character by character. -/
instance (rank : List Char) : Decidable (CanonicalRank rank) :=
  decidable_of_iff ((∀ c ∈ rank, c ∈ "12345678".toList ∨ c ∈ "PNBRQKpnbrqk".toList) ∧
      (rank.IsChain fun c d ↦ ¬ (c.isDigit ∧ d.isDigit)) ∧ (rank.map symbolWidth).sum = 8)
    ⟨fun ⟨hsymbols, hmaximal, hwidth⟩ ↦ ⟨hsymbols, hmaximal, hwidth⟩,
      fun h ↦ ⟨h.symbols, h.maximal, h.width⟩⟩

/-- The first four fields of the text are in canonical form. -/
structure CanonicalFen (ranks : List (List Char)) (active castling passed : List Char)
    (fen : String) : Prop where
  fields : ∃ rest, fenFields fen = ['/'].intercalate ranks :: active :: castling :: passed :: rest
  eight : ranks.length = 8
  ranks : ∀ rank ∈ ranks, CanonicalRank rank
  active : active = ['w'] ∨ active = ['b']
  castling : castling = ['-'] ∨ castling ≠ [] ∧ castling.Sublist ['K', 'Q', 'k', 'q']
  passed : passed = ['-'] ∨ ∃ file ∈ "abcdefgh".toList, ∃ row ∈ "12345678".toList,
    passed = [file, row]

private theorem symbol_cases {c : Char} (h : c ∈ "12345678".toList ∨ c ∈ "PNBRQKpnbrqk".toList) :
    (∃ k, 0 < k ∧ k < 9 ∧ c = k.digitChar) ∨ ∃ q, c = symbol q := by
  rcases h with h | h
  · left
    have hall : ∀ c ∈ "12345678".toList, ∃ k < 9, 0 < k ∧ c = Nat.digitChar k := by decide +kernel
    obtain ⟨k, hk, hpos, rfl⟩ := hall c h
    exact ⟨k, hpos, hk, rfl⟩
  · right
    have hall : ∀ c ∈ "PNBRQKpnbrqk".toList, ∃ color ∈ [Color.w, Color.b], ∃ kind ∈
        [Kind.pawn, .knight, .bishop, .rook, .queen, .king], c = symbol ⟨color, kind⟩ := by
      decide +kernel
    obtain ⟨color, -, kind, -, rfl⟩ := hall c h
    exact ⟨_, rfl⟩

private theorem digit_facts {k : Nat} (hk : k < 9) :
    k.digitChar.isDigit = true ∧ symbolWidth k.digitChar = k := by
  revert k
  decide

/-- Runs of empty squares before a rank join the run already counted. -/
theorem rankText_replicate (k n : Nat) (cells : List (Option Piece)) :
    rankText n (List.replicate k none ++ cells) = rankText (n + k) cells := by
  induction k generalizing n with
  | zero => rfl
  | succ k ih =>
    rw [List.replicate_succ, List.cons_append, rankText, ih]
    congr 1
    omega

/-- A canonical rank is written again from the cells it is read as. -/
theorem readRank_canonical {rank : List Char}
    (hsymbols : ∀ c ∈ rank, c ∈ "12345678".toList ∨ c ∈ "PNBRQKpnbrqk".toList)
    (hmaximal : rank.IsChain fun c d ↦ ¬ (c.isDigit ∧ d.isDigit)) :
    ∃ cells, readRank rank = some cells ∧ cells.length = (rank.map symbolWidth).sum ∧
      rankText 0 cells = rank ∧
      ((∀ c ∈ rank.head?, c.isDigit = false) → ∀ n, rankText n cells = runText n ++ rank) := by
  induction rank with
  | nil => exact ⟨[], rfl, rfl, rfl, fun _ n ↦ (List.append_nil _).symm⟩
  | cons c rest ih =>
    obtain ⟨cells, hread, hlength, hwritten, hrun⟩ :=
      ih (fun d hd ↦ hsymbols d (List.mem_cons_of_mem _ hd)) hmaximal.tail
    rcases symbol_cases (hsymbols c List.mem_cons_self) with ⟨k, hpos, hk, rfl⟩ | ⟨q, rfl⟩
    · obtain ⟨hdigit, hwidth⟩ := digit_facts hk
      -- The next symbol is no digit, so the run ends here.
      have hnext : ∀ d ∈ rest.head?, d.isDigit = false := by
        intro d hd
        cases rest with
        | nil => cases hd
        | cons d' rest =>
          obtain rfl : d' = d := Option.some.inj hd
          have hfirst := (List.isChain_cons_cons.mp hmaximal).1
          simpa [hdigit] using hfirst
      refine ⟨List.replicate k none ++ cells, ?_, ?_, ?_, ?_⟩
      · rw [readRank, readSymbol_digit hk, hread]
        rfl
      · rw [List.length_append, List.length_replicate, hlength, List.map_cons, List.sum_cons, hwidth]
      · rw [rankText_replicate, hrun hnext, Nat.zero_add, runText, if_neg (by omega)]
        rfl
      · intro hhead
        rw [hhead _ rfl] at hdigit
        cases hdigit
    · have hdigit := symbol_isDigit q
      refine ⟨some q :: cells, ?_, ?_, ?_, fun _ n ↦ ?_⟩
      · rw [readRank, readSymbol_symbol, hread]
        rfl
      · rw [List.length_cons, hlength, List.map_cons, List.sum_cons, symbolWidth, hdigit,
          if_neg Bool.false_ne_true, Nat.add_comm]
      · rw [rankText, hwritten]
        rfl
      · rw [rankText, hwritten]

private theorem mapM_readRank_canonical {ranks : List (List Char)}
    (h : ∀ rank ∈ ranks, CanonicalRank rank) :
    ∃ rows, ranks.mapM readRank = some rows ∧ rows.map (rankText 0) = ranks ∧
      ∀ cells ∈ rows, cells.length = 8 := by
  induction ranks with
  | nil => exact ⟨[], rfl, rfl, nofun⟩
  | cons rank ranks ih =>
    have hrank := h rank List.mem_cons_self
    obtain ⟨rows, hread, hwritten, hlength⟩ := ih fun r hr ↦ h r (List.mem_cons_of_mem _ hr)
    obtain ⟨cells, hcells, hcount, htext, -⟩ := readRank_canonical hrank.symbols hrank.maximal
    refine ⟨cells :: rows, ?_, ?_, ?_⟩
    · rw [List.mapM_cons, hcells, hread]
      rfl
    · rw [List.map_cons, htext, hwritten]
    · intro row hrow
      rcases List.mem_cons.mp hrow with rfl | hrow
      · rw [hcount, hrank.width]
      · exact hlength row hrow

private theorem ofFn_join {cells : List (Option Piece)} (h : cells.length = 8) :
    (List.ofFn fun c : Fin 8 ↦ (cells[c.val]?).join) = cells := by
  apply List.ext_getElem
  · rw [List.length_ofFn, h]
  · intro c _ hc
    rw [List.getElem_ofFn, List.getElem?_eq_getElem hc]
    rfl

/-- Eight rows of eight cells are the ranks of the board they make. -/
theorem boardOfRanks_rows {rows : List (List (Option Piece))} (hrows : rows.length = 8)
    (hcells : ∀ cells ∈ rows, cells.length = 8) :
    ∃ b, boardOfRanks rows = some b ∧ List.ofFn (boardRank b) = rows := by
  refine ⟨_, if_pos ⟨hrows, hcells⟩, ?_⟩
  apply List.ext_getElem
  · rw [List.length_ofFn, hrows]
  · intro r _ hr
    rw [List.getElem_ofFn, boardRank]
    simp only [List.getElem?_eq_getElem hr, Option.bind_some]
    exact ofFn_join (hcells _ (List.getElem_mem hr))

private theorem readPlacement_canonical {ranks : List (List Char)} (height : ranks.length = 8)
    (h : ∀ rank ∈ ranks, CanonicalRank rank) :
    ∃ b, readPlacement (['/'].intercalate ranks) = some b ∧ placement b = ['/'].intercalate ranks := by
  obtain ⟨rows, hread, hwritten, hcells⟩ := mapM_readRank_canonical h
  have hrows : rows.length = 8 := by
    rw [← height, ← hwritten, List.length_map]
  obtain ⟨b, hb, hranks⟩ := boardOfRanks_rows hrows hcells
  refine ⟨b, ?_, ?_⟩
  · have hsplit : (['/'].intercalate ranks).splitOn '/' = ranks := by
      refine List.splitOn_intercalate '/' (fun rank hrank hslash ↦ ?_) ?_
      · have hsymbol := (h rank hrank).symbols '/' hslash
        revert hsymbol
        decide
      · rintro rfl
        cases height
    rw [readPlacement, hsplit, hread, Option.bind_some, hb]
  · rw [placement, ← hwritten, ← hranks, List.map_ofFn]
    rfl

/-- Canonical castling letters are written again from the rights they give. -/
theorem rightsText_contains {castling : List Char}
    (h : castling = ['-'] ∨ castling ≠ [] ∧ castling.Sublist ['K', 'Q', 'k', 'q']) :
    rightsText (Castling.flag ⟨castling.contains 'K', castling.contains 'Q', castling.contains 'k',
      castling.contains 'q'⟩) = castling := by
  rcases h with rfl | ⟨hne, hsub⟩
  · rfl
  · have hall : ∀ text ∈ ['K', 'Q', 'k', 'q'].sublists, text ≠ [] → rightsText (Castling.flag
        ⟨text.contains 'K', text.contains 'Q', text.contains 'k', text.contains 'q'⟩) = text := by
      decide +kernel
    exact hall castling (List.mem_sublists.mpr hsub) hne

private theorem passedText_canonical {passed : List Char} (h : passed = ['-'] ∨
    ∃ file ∈ "abcdefgh".toList, ∃ row ∈ "12345678".toList, passed = [file, row]) :
    passedText (if passed = ['-'] then none else squareToRC (String.ofList passed)) = passed := by
  rcases h with rfl | ⟨file, hfile, row, hrow, rfl⟩
  · rfl
  · revert file row
    decide +kernel

/-- A text in canonical form is written again from the state that `loadFEN` makes of it. -/
theorem boardToFEN_loadFEN {ranks : List (List Char)} {active castling passed : List Char}
    {fen : String} (h : CanonicalFen ranks active castling passed fen)
    (persistedMoves : List MoveEntry) (hist : List String) :
    ∃ S, loadFEN fen persistedMoves = some S ∧
      (fenFields (boardToFEN S.board S.turn S.cast S.ep hist)).take 4 = (fenFields fen).take 4 := by
  obtain ⟨rest, hfields⟩ := h.fields
  obtain ⟨b, hread, hwritten⟩ := readPlacement_canonical h.eight h.ranks
  have hactive : turnText (readTurn active) = active := by
    rcases h.active with rfl | rfl
    · rfl
    · rfl
  unfold loadFEN
  rw [hfields]
  simp only [hread, Option.map_some]
  refine ⟨_, rfl, ?_⟩
  rw [boardToFEN, fenFields_text]
  simp only [Fen.fields, hwritten, hactive, rightsText_contains h.castling,
    passedText_canonical h.passed, List.take_succ_cons, List.take_zero]

/-- `boardToFEN` and `loadFEN` are inverse to each other. -/
theorem fen_inverse :
    (∀ board turn cast ep hist persistedMoves, ∃ S,
      loadFEN (boardToFEN board turn cast ep hist) persistedMoves = some S ∧ S.board = board ∧
        S.turn = turn ∧ S.cast = cast ∧ S.ep = ep) ∧
    ∀ ranks active castling passed fen persistedMoves hist,
      CanonicalFen ranks active castling passed fen → ∃ S, loadFEN fen persistedMoves = some S ∧
        (fenFields (boardToFEN S.board S.turn S.cast S.ep hist)).take 4 = (fenFields fen).take 4 :=
  ⟨loadFEN_boardToFEN, fun _ _ _ _ _ persistedMoves hist h ↦ boardToFEN_loadFEN h persistedMoves hist⟩

/-- After 1. e4 e5 the text is read and printed back. -/
theorem fen_inverse_opening : ∃ S,
    loadFEN "rnbqkbnr/pppp1ppp/8/4p3/4P3/8/PPPP1PPP/RNBQKBNR w KQkq e6 0 2" [] = some S ∧
      (fenFields (boardToFEN S.board S.turn S.cast S.ep [])).take 4 =
        (fenFields "rnbqkbnr/pppp1ppp/8/4p3/4P3/8/PPPP1PPP/RNBQKBNR w KQkq e6 0 2").take 4 := by
  refine fen_inverse.2 (["rnbqkbnr", "pppp1ppp", "8", "4p3", "4P3", "8", "PPPP1PPP", "RNBQKBNR"].map
    String.toList) ['w'] ['K', 'Q', 'k', 'q'] ['e', '6'] _ [] [] ?_
  exact {
    fields := ⟨[['0'], ['2']], by decide +kernel⟩
    eight := rfl
    ranks := by decide +kernel
    active := .inl rfl
    castling := .inr ⟨nofun, .refl _⟩
    passed := .inr ⟨'e', by decide, '6', by decide, rfl⟩ }

end ChessStack.Client
