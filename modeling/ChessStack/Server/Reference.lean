import ChessStack.Chess.Fen
import ChessStack.Chess.Told
import ChessStack.Server.ChessJs

/-!
# A reference engine

Library `Server`. An executable engine that keeps the position a FEN tells and answers as the
package does for an object made from a FEN: it shows that what is assumed of `chess.js` can be
met, and runs of the server are evaluated with it.
-/

namespace ChessStack.Server

open ChessStack.Chess ChessStack.Js

/-- The position of the rules at a FEN. -/
def position (f : Fen) : Position := ⟨f.board, f.turn, f.rights, f.passed⟩

/-! ### Moves by name -/

/-- The squares a name in a request stands for. -/
def namedSquare : Option Json → Option Square
  | some (.str name) => squareNamed name
  | _ => none

/-- The request names the kind. -/
def namesKind (promotion : Option Json) (k : Kind) : Bool :=
  match promotion with
  | some (.str name) => name == lowerLetter k
  | _ => false

/-- The legal move the request names. -/
def requestedMove (p : Position) (arg : MoveArg) : Option Move :=
  match namedSquare arg.fromSquare, namedSquare arg.toSquare with
  | some s, some t => (promotions.find? fun k ↦
      decide (Legal p ⟨s, t, k⟩) && k.all (namesKind arg.promotion)).map fun k ↦ ⟨s, t, k⟩
  | _, _ => none

/-! ### Algebraic notation -/

/-- The piece a move captures. -/
def capturedAt (p : Position) (m : Move) : Option Kind :=
  match p.board m.dst, p.board m.src with
  | some q, _ => some q.kind
  | none, some q => if IsEnPassant p q m then some .pawn else none
  | none, none => none

/-- The other squares from which a piece like the moving one could go to the same square. -/
def rivals (p : Position) (m : Move) : List Square :=
  allSquares.filter fun s ↦ s != m.src && p.board s == p.board m.src && decide (Legal p ⟨s, m.dst, none⟩)

/-- What tells the moving piece from its rivals. -/
def disambiguator (p : Position) (m : Move) : String :=
  let others := rivals p m
  let name := (squareName m.src).toList
  if others.isEmpty then ""
  else if others.any (·.1 == m.src.1) && others.any (·.2 == m.src.2) then squareName m.src
  else if others.any (·.2 == m.src.2) then String.ofList (name.drop 1)
  else String.ofList (name.take 1)

/-- The sign of a check or a mate. -/
def checkSign (p : Position) : String :=
  if InCheck p.board p.turn then (if HasMove p then "+" else "#") else ""

/-- The move in standard algebraic notation. -/
def sanOf (p : Position) (q : Piece) (m : Move) : String :=
  let takes := (capturedAt p m).isSome
  (match p.castlingSide m with
  | some .king => "O-O"
  | some .queen => "O-O-O"
  | none =>
    (if q.kind = .pawn then (if takes then String.ofList ((squareName m.src).toList.take 1) else "")
      else (lowerLetter q.kind).toUpper ++ disambiguator p m) ++
    (if takes then "x" else "") ++ squareName m.dst ++
    (match m.promotion with
    | some k => "=" ++ (lowerLetter k).toUpper
    | none => "")) ++ checkSign (p.play m)

/-! ### The engine -/

/-- Neither side has the pieces to mate. -/
def lacksMaterial (b : Board) : Bool :=
  let pieces := allSquares.filterMap fun s ↦ (b s).map fun q ↦ (s, q.kind)
  let bishops := pieces.filter fun x ↦ x.2 == .bishop
  pieces.length == 2 ||
  (pieces.length == 3 && pieces.any fun x ↦ x.2 == .bishop || x.2 == .knight) ||
  (pieces.length == bishops.length + 2 &&
    (bishops.all (fun x ↦ (x.1.1.val + x.1.2.val) % 2 == 0) ||
      bishops.all fun x ↦ (x.1.1.val + x.1.2.val) % 2 == 1))

/-- The FEN after a move. -/
def afterMove (f : Fen) (q : Piece) (m : Move) : Fen :=
  let p := ((position f).play m).told
  { board := p.board
    turn := p.turn
    rights := p.unmoved
    passed := p.passed
    half := if q.kind = .pawn ∨ (capturedAt (position f) m).isSome then 0 else f.half + 1
    full := if f.turn = .b then f.full + 1 else f.full }

/-- The move that a request asks for, if it is legal. -/
def referenceMove (f : Fen) (arg : MoveArg) : Option (Fen × Canonical) :=
  (requestedMove (position f) arg).bind fun m ↦ (f.board m.src).map fun q ↦
    (afterMove f q m,
      { fromSquare := squareName m.src
        toSquare := squareName m.dst
        piece := lowerLetter q.kind
        captured := (capturedAt (position f) m).map lowerLetter
        promotion := m.promotion.map lowerLetter
        san := sanOf (position f) q m })

/-- The engine over FENs. -/
def reference : ChessJs where
  Game := Fen
  load := readFen
  start := ⟨initBoard, .w, fun _ _ ↦ true, none, 0, 1⟩
  turn f := f.turn
  move := referenceMove
  fen := Fen.text
  isGameOver f := !decide (HasMove (position f)) || lacksMaterial f.board || 100 ≤ f.half
  isCheckmate f := decide (Checkmate (position f))

/-- The FEN tells the position. -/
def AtPosition (f : Fen) (p : Position) : Prop := Sound p ∧ position f = p.told

private theorem squareName_of_named {name : String} {s : Square} (h : squareNamed name = some s) :
    squareName s = name := by simpa using List.find?_some h

private theorem namedSquare_eq {v : Option Json} {s : Square} (h : namedSquare v = some s) :
    v = some (.str (squareName s)) := by
  unfold namedSquare at h
  split at h
  · rw [squareName_of_named h]
  · cases h

/-- The engine plays a legal move the request names. -/
theorem requestedMove_names {p : Position} {arg : MoveArg} {m : Move}
    (h : requestedMove p arg = some m) : arg.Names m ∧ Legal p m := by
  unfold requestedMove at h
  split at h
  · next s t hs ht =>
    obtain ⟨k, hk, rfl⟩ := Option.map_eq_some_iff.mp h
    have hfound := List.find?_some hk
    rw [Bool.and_eq_true, decide_eq_true_iff] at hfound
    refine ⟨⟨namedSquare_eq hs, namedSquare_eq ht, ?_⟩, hfound.1⟩
    rintro k' rfl
    have hname := hfound.2
    rw [Option.all_some] at hname
    unfold namesKind at hname
    split at hname
    · next name hpromo =>
      rw [hpromo, beq_iff_eq.mp hname]
    · cases hname
  · cases h

/-- A legal move that is named is found. -/
theorem requestedMove_isSome {p : Position} {arg : MoveArg} {m : Move} (hm : Legal p m)
    (h : arg.Names m) : (requestedMove p arg).isSome := by
  obtain ⟨hs, ht, hk⟩ := h
  unfold requestedMove
  rw [hs, ht]
  simp only [namedSquare, squareNamed_squareName, Option.isSome_map, List.find?_isSome]
  refine ⟨m.promotion, hm.promotion_mem, ?_⟩
  rw [Bool.and_eq_true, decide_eq_true_iff]
  refine ⟨hm, ?_⟩
  cases hpromo : m.promotion with
  | none => rfl
  | some k =>
    rw [Option.all_some, hk k hpromo]
    exact beq_self_eq_true _

private theorem told_of_passed {p : Position} (h : p.passed = none) : p.told = p := by
  unfold Position.told
  split
  · rfl
  · unfold Position.forget
    rw [← h]

/-- The reference engine starts at the initial position. -/
theorem start_at : AtPosition reference.start .initial :=
  ⟨Sound.initial, (told_of_passed rfl).symm⟩

/-- The first position as `Game` stores it. -/
theorem startFen_eq : startFen = reference.start.text := by decide +kernel

private theorem readFen_startFen : readFen startFen = some reference.start := by
  rw [startFen_eq]
  exact readFen_text _

private theorem reference_load (fen : String) : reference.load fen = readFen fen := rfl

private theorem reference_load_fen (f : Fen) : reference.load (reference.fen f) = some f := by
  rw [reference_load]
  exact readFen_text f

private theorem start_not_over : reference.isGameOver reference.start = false := by decide +kernel

/-- The reference engine follows the rules. -/
theorem afterMove_at {f : Fen} {p : Position} {q : Piece} {m : Move} (h : AtPosition f p)
    (hm : Legal p m) : AtPosition (afterMove f q m) (p.play m) := by
  obtain ⟨hs, heq⟩ := h
  refine ⟨hs.play ((legal_iff hs m).mp hm).1 ((legal_iff hs m).mp hm).2.1, ?_⟩
  rw [← play_told hs hm, ← heq]
  rfl

private theorem reference_move {f f' : Fen} {p : Position} {arg : MoveArg} {c : Canonical}
    (h : AtPosition f p) (hmove : referenceMove f arg = some (f', c)) :
    ∃ m, arg.Names m ∧ Legal p m ∧ AtPosition f' (p.play m) ∧ c.Of m := by
  obtain ⟨m, hm, hrest⟩ := Option.bind_eq_some_iff.mp hmove
  obtain ⟨q, hq, heq⟩ := Option.map_eq_some_iff.mp hrest
  obtain ⟨rfl, rfl⟩ := Prod.mk.inj heq
  obtain ⟨hnames, hlegal⟩ := requestedMove_names hm
  rw [h.2, legal_told_iff h.1] at hlegal
  exact ⟨m, hnames, hlegal, afterMove_at h hlegal, ⟨rfl, rfl, rfl⟩⟩

/-- The engine keeps to the rules. -/
theorem reference_follows : reference.Follows AtPosition where
  start := start_at
  load_start := ⟨reference.start, (reference_load startFen).trans readFen_startFen, start_at, start_not_over⟩
  fen_ne f h := by
    have hfields := fenFields_text f
    rw [show f.text = "" from h] at hfields
    have hlen : ([[]] : List (List Char)).length = 6 := congrArg List.length hfields
    cases hlen
  load_fen f p h := ⟨f, reference_load_fen f, h⟩
  turn f p h := by
    have hturn := congrArg Position.turn h.2
    rw [told_turn] at hturn
    exact hturn
  move_legal f p arg f' c h hmove := reference_move h hmove
  move_of_legal f p arg m h hm hnames := by
    have hlegal : Legal (position f) m := by
      rw [h.2, legal_told_iff h.1]
      exact hm
    obtain ⟨m', hm'⟩ := Option.isSome_iff_exists.mp (requestedMove_isSome hlegal hnames)
    have hmover : ∃ q, f.board m'.src = some q := by
      rcases (requestedMove_names hm').2 with ⟨q, hq, -⟩ | ⟨side, rfl, hcastles⟩
      · exact ⟨q, hq⟩
      · exact ⟨_, hcastles.king⟩
    obtain ⟨q, hq⟩ := hmover
    change ((requestedMove (position f) arg).bind fun m ↦ (f.board m.src).map fun q ↦ _).isSome
    rw [hm', Option.bind_some, hq]
    rfl
  checkmate f p h := by
    change decide (Checkmate (position f)) = true ↔ _
    rw [decide_eq_true_iff, h.2, checkmate_told_iff h.1]
  over_of_checkmate f h := by
    have hmate : Checkmate (position f) := of_decide_eq_true h
    change (!decide (HasMove (position f)) || _ || _) = true
    rw [decide_eq_false hmate.2]
    rfl
  over_reloaded fen f arg f' c f'' _ _ h := by
    have heq : f'' = f' := Option.some.inj (h.symm.trans (reference_load_fen f'))
    rw [heq]

end ChessStack.Server
