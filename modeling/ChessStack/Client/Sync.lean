import ChessStack.Client.Representation
import ChessStack.Chess.Fen
import ChessStack.Chess.Told
import Mathlib.Tactic.Tauto

/-!
# Local play and synchronised play

Library `Client`. The hook comes to a position move by move, or at once by `loadFEN` with the
text and the history the server broadcasts. Both describe the position of the game; only the
first keeps its status and what was captured on the way.
-/

namespace ChessStack.Client

open ChessStack.Chess ChessStack.Library

/-! ### Loading a position -/

/-- `loadFEN`, `useChessGame.js:38–56`; `none` where it throws. -/
def loadFEN (fen : String) (persistedMoves : List MoveEntry) : Option GameState :=
  match fenFields fen with
  | placement :: activeColor :: castling :: enPassant :: _ =>
    (readPlacement placement).map fun restored ↦
      { board := restored
        turn := readTurn activeColor
        sel := none
        moves := []
        ep := if enPassant = ['-'] then none else squareToRC (String.ofList enPassant)
        cast := ⟨castling.contains 'K', castling.contains 'Q', castling.contains 'k',
          castling.contains 'q'⟩
        lastMv := persistedMoves.getLast?.bind fun last ↦
          match squareToRC last.fromSquare, squareToRC last.toSquare with
          | some s, some t => some (s, t)
          | _, _ => none
        status := none
        capt := {}
        hist := (persistedMoves.map MoveEntry.san).filter (· ≠ "")
        moveLog := persistedMoves
        promo := none
        past := [] }
  | _ => none

/-- What `fen()` is assumed to write of a position: the standard fields, and the square passed
over, which may be left out where it cannot be taken. -/
def WritesFen (fen : String) (p : Position) : Prop :=
  ∃ passed half full, fen = Fen.text ⟨p.board, p.turn, p.unmoved, passed, half, full⟩ ∧
    (passed = p.passed ∨ passed = none ∧ ¬ TakesPassing p)

/-- A move of the history in `move_made`: names as `chess.js` writes them, and some notation. -/
def IsRecord (m : Move) (record : MoveEntry) : Prop :=
  record.fromSquare = squareName m.src ∧ record.toSquare = squareName m.dst ∧
    record.promotion = m.promotion.map lowerLetter

/-- The fields of a record are compared. -/
instance (m : Move) (record : MoveEntry) : Decidable (IsRecord m record) :=
  inferInstanceAs (Decidable (_ ∧ _))

/-- A square is read back from its name. -/
@[simp] theorem squareToRC_squareName (s : Square) : squareToRC (squareName s) = some s := by
  revert s
  decide +kernel

/-- The fields `loadFEN` takes from a written text. -/
theorem loadFEN_writes {fen : String} {p : Position} (h : WritesFen fen p)
    (history : List MoveEntry) :
    ∃ S, loadFEN fen history = some S ∧
      (∃ passed, (passed = p.passed ∨ passed = none ∧ ¬ TakesPassing p) ∧
        Describes S.board S.turn S.ep S.cast { p with passed := passed }) ∧
      S.status = none ∧ S.capt = {} ∧ S.moveLog = history ∧
      S.lastMv = history.getLast?.bind fun last ↦
        match squareToRC last.fromSquare, squareToRC last.toSquare with
        | some s, some t => some (s, t)
        | _, _ => none := by
  obtain ⟨passed, half, full, rfl, hpassed⟩ := h
  have hep : (if passedText passed = ['-'] then none
      else squareToRC (String.ofList (passedText passed))) = passed := by
    cases passed with
    | none => rfl
    | some s =>
      rw [if_neg, passedText, String.ofList_toList, squareToRC_squareName]
      intro hdash
      rw [passedText, squareName, String.toList_ofList] at hdash
      cases (List.cons.inj hdash).2
  unfold loadFEN
  rw [fenFields_text]
  simp only [Fen.fields, readPlacement_placement, Option.map_some]
  refine ⟨_, rfl, ⟨passed, hpassed, rfl, readTurn_turnText p.turn, hep, fun c side ↦ ?_⟩, rfl, rfl,
    rfl, rfl⟩
  have hrights := congrFun (congrFun (readRights_rightsText p.unmoved) c) side
  cases c <;> cases side <;> exact hrights

/-! ### What both show -/

/-- The squares `click(s)` marks where a piece of the side to move stands. -/
def destinations (g : GameState) (s : Square) : List Square :=
  if pcIs (g.board s) g.turn then getLegal g.board s g.ep g.cast else []

private theorem Sound.forget {p : Position} (hs : Sound p) : Sound p.forget :=
  ⟨hs.kings, hs.homes, hs.safe, nofun⟩

/-- Leaving out a square that cannot be taken takes away no offered move. -/
theorem offered_forget_iff {p : Position} (hs : Sound p) (hno : ¬ TakesPassing p) (m : Move) :
    Offered p.forget m ↔ Offered p m := by
  have hside : p.forget.castlingSide m = p.castlingSide m := rfl
  constructor
  · rintro ⟨hpseudo, hsafe, hacross⟩
    rcases hpseudo with ⟨q, hq, hc, ho, hk⟩ | ⟨side, hm, hmay⟩
    · have hboard := boardAfter_forget (show p.board m.src = some q from hq) (ho.not_enPassant hs)
      refine ⟨Or.inl ⟨q, hq, hc, ho.remember, hk⟩, ?_, hacross⟩
      unfold Position.play at hsafe ⊢
      rw [hboard] at hsafe
      exact hsafe
    · have hmay' : MayCastle p side := ⟨hmay.king, hmay.rook, hmay.unmoved, hmay.path⟩
      have hm' : m.IsCastling p side := hm
      refine ⟨Or.inr ⟨side, hm', hmay'⟩, ?_, hacross⟩
      obtain rfl : m = _ := hm'
      rw [play_castling hmay']
      exact (congrArg (fun b ↦ ¬ InCheck b p.turn) (play_castling hmay)).mp hsafe
  · intro hoff
    rcases hoff.pseudo with ⟨q, hq, hc, ho, hk⟩ | ⟨side, hm, hmay⟩
    · have hlegal := legal_of_offered hs hoff fun side hside ↦ by
        rw [ho.castlingSide hq] at hside
        cases hside
      exact offered_of_legal (Sound.forget hs) (hlegal.forget hno)
    · have hmay' : MayCastle p.forget side := ⟨hmay.king, hmay.rook, hmay.unmoved, hmay.path⟩
      have hm' : m.IsCastling p.forget side := hm
      refine ⟨Or.inr ⟨side, hm', hmay'⟩, ?_, hoff.across⟩
      have hsafe := hoff.safe
      obtain rfl : m = _ := hm
      rw [play_castling hmay] at hsafe
      exact (congrArg (fun b ↦ ¬ InCheck b p.turn) (play_castling hmay')).mpr hsafe

/-- The moves offered do not depend on a square passed over that cannot be taken. -/
theorem offered_passed_iff {p : Position} (hs : Sound p) {passed : Option Square}
    (h : passed = p.passed ∨ passed = none ∧ ¬ TakesPassing p) (m : Move) :
    Offered { p with passed := passed } m ↔ Offered p m := by
  rcases h with rfl | ⟨rfl, hno⟩
  · rfl
  · exact offered_forget_iff hs hno m

private theorem Sound.with_passed {p : Position} (hs : Sound p) {passed : Option Square}
    (h : passed = p.passed ∨ passed = none ∧ ¬ TakesPassing p) :
    Sound { p with passed := passed } := by
  rcases h with rfl | ⟨rfl, -⟩
  · exact hs
  · exact Sound.forget hs

/-- Described by the same position up to such a square, two states mark the same squares. -/
theorem mem_destinations_iff {p : Position} (hs : Sound p) {passed : Option Square}
    (h : passed = p.passed ∨ passed = none ∧ ¬ TakesPassing p) {L S : GameState}
    (hL : Describes L.board L.turn L.ep L.cast p)
    (hS : Describes S.board S.turn S.ep S.cast { p with passed := passed }) (s t : Square) :
    t ∈ destinations L s ↔ t ∈ destinations S s := by
  unfold destinations
  have hpc : pcIs (L.board s) L.turn = pcIs (S.board s) S.turn := by
    rw [hL.board, hL.turn, hS.board, hS.turn]
  rw [hpc]
  split
  · next hmine =>
    obtain ⟨q, hq, hc⟩ := pcIs_eq_true.mp hmine
    have hqL : L.board s = some q := by rw [hL.board, ← hq, hS.board]
    have hcL : q.color = L.turn := by rw [hL.turn, hc, hS.turn]
    rw [mem_getLegal hL hs hqL hcL, mem_getLegal hS (Sound.with_passed hs h) hq hc]
    exact exists_congr fun k ↦ (offered_passed_iff hs h _).symm
  · rfl

/-! ### What only local play keeps -/

/-- The move takes a piece, on its target or en passant. -/
def Captures.ByMove (p : Position) (m : Move) : Prop :=
  p.board m.dst ≠ none ∨ ∃ q ∈ p.board m.src, IsEnPassant p q m

/-- Both ways to capture are evaluated. -/
instance (p : Position) (m : Move) : Decidable (Captures.ByMove p m) :=
  inferInstanceAs (Decidable (_ ∨ _))

/-- No move takes a piece. -/
def NoCapture : Position → List Move → Prop
  | _, [] => True
  | p, m :: moves => ¬ Captures.ByMove p m ∧ NoCapture (p.play m) moves

private theorem noCapture_append (p : Position) (moves : List Move) (m : Move) :
    NoCapture p (moves ++ [m]) ↔
      NoCapture p moves ∧ ¬ Captures.ByMove (moves.foldl Position.play p) m := by
  induction moves generalizing p with
  | nil => simp [NoCapture]
  | cons m' moves ih =>
    rw [List.cons_append, NoCapture, NoCapture, ih, List.foldl_cons, and_assoc]

/-- No pawn is pushed onto the square a pawn has just passed over: that pawn is in the way. -/
theorem not_pushed_onto_passed {p : Position} (hs : Sound p) {q : Piece} {s t v : Square}
    (hq : p.board s = some q) (hc : q.color = p.turn) (hpawn : q.kind = .pawn)
    (h : Ordinary p q s t) (hp : p.passed = some t) (hv : Away t v (-forward q.color, 0) 1) :
    s.2 ≠ t.2 := by
  have hvictim : p.board v = some ⟨p.turn.other, .pawn⟩ := by
    apply (hs.passed t hp).2
    rw [hc] at hv
    cases ht : p.turn <;> rw [ht] at hv <;> exact hv
  rcases h.pawnMove hpawn with ⟨h1, -⟩ | ⟨-, h2, -, hfree⟩ | ⟨ha, -⟩ | ⟨ha, -⟩
  · have hvs : v = s := by
      unfold Away at hv h1
      rw [Square.eq_iff]
      omega
    rw [hvs, hq] at hvictim
    rw [Option.some.inj hvictim] at hc
    cases ht : p.turn <;> rw [ht] at hc <;> cases hc
  · have hmid : Away s v (forward q.color, 0) 1 := by
      unfold Away at hv h2 ⊢
      omega
    rw [hfree v hmid] at hvictim
    cases hvictim
  · exact ha.col_ne
  · exact ha.col_ne

/-- `capturedBy` names a piece exactly for a move that takes one. -/
theorem capturedBy_isSome_iff {p : Position} (hs : Sound p) {q : Piece} {s t : Square}
    {k : Option Kind} (hq : p.board s = some q) (hoff : Offered p ⟨s, t, k⟩) :
    (capturedBy p.board q s t p.passed).isSome ↔ Captures.ByMove p ⟨s, t, k⟩ := by
  have hep : Captures.ByMove p ⟨s, t, k⟩ ↔ p.board t ≠ none ∨ IsEnPassant p q ⟨s, t, k⟩ := by
    refine or_congr_right ⟨?_, fun h ↦ ⟨q, hq, h⟩⟩
    rintro ⟨q', hq', h⟩
    exact Option.some.inj (hq'.symm.trans hq) ▸ h
  rw [hep]
  rcases hoff.pseudo with ⟨q', hq', hc, ho, -⟩ | ⟨side, hm, hmay⟩
  · obtain rfl : q = q' := Option.some.inj (hq.symm.trans hq')
    by_cases hempty : p.board t = none
    · have hiff := enPassant_iff hs hc ho
      constructor
      · intro hcap
        have hcap' := hcap
        unfold capturedBy at hcap'
        rw [hempty, Option.none_or] at hcap'
        split at hcap'
        · next hep =>
          cases hv : epVictim q.color t with
          | none =>
            rw [hv] at hcap'
            cases hcap'
          | some v =>
            have hcol := not_pushed_onto_passed hs hq hc hep.1 ho hep.2 (epVictim_eq.mp hv)
            exact Or.inr (hiff.mp ⟨hep.1, hcol, hcap, hempty⟩)
        · cases hcap'
      · rintro (h | h)
        · exact absurd hempty h
        · exact (hiff.mpr h).2.2.1
    · have hsome : (capturedBy p.board q s t p.passed).isSome := by
        obtain ⟨r, hr⟩ := Option.ne_none_iff_exists'.mp hempty
        unfold capturedBy
        rw [hr]
        rfl
      exact iff_of_true hsome (Or.inl hempty)
  · obtain ⟨rfl, rfl, rfl⟩ := Move.mk.inj hm
    obtain rfl : q = ⟨p.turn, .king⟩ := Option.some.inj (hq.symm.trans hmay.king)
    rw [(men_castling hmay).1, hmay.path _ (castledKing_mem_path _ _)]
    simp [IsEnPassant]

/-- The entries of a log record its moves, who made them and whether they took a piece. -/
inductive Noted : List MoveEntry → Prop
  | nil : Noted []
  | snoc {moveLog : List MoveEntry} {entry : MoveEntry} {m : Move} (h : Noted moveLog)
      (hm : moveOf entry = some m) (hcolor : entry.color.isSome)
      (hcap : entry.captured.isSome ↔ Captures.ByMove (replay moveLog) m) :
      Noted (moveLog ++ [entry])

/-- What a side has taken according to the log. -/
def takenIn (moveLog : List MoveEntry) (c : Color) : List Piece :=
  moveLog.filterMap fun entry ↦ if entry.color = some c then entry.captured else none

/-- The last move according to the log. -/
def lastIn (moveLog : List MoveEntry) : Option (Square × Square) :=
  (moveLog.getLast?.bind moveOf).map fun m ↦ (m.src, m.dst)

/-- Captured lists and last move are those of the log. -/
structure Logged (sn : Snapshot) : Prop where
  noted : Noted sn.moveLog
  taken : ∀ c, sn.capt.takenBy c = takenIn sn.moveLog c
  last : sn.lastMv = lastIn sn.moveLog

/-- So they are in every state undo can restore and, with no promotion pending, in the current
one; a pending promotion has entered its captive. -/
structure GameState.Logged (g : GameState) : Prop where
  kept : g.Kept
  past : ∀ sn ∈ g.past, Client.Logged sn
  settled : g.promo = none → Client.Logged g.toSnapshot
  pending : ∀ pr, g.promo = some pr → Noted g.moveLog ∧ ∀ c, g.capt.takenBy c =
    takenIn g.moveLog c ++ if c = pr.col then pr.capturedPiece.toList else []

private theorem takenIn_append (moveLog : List MoveEntry) (entry : MoveEntry) (c : Color) :
    takenIn (moveLog ++ [entry]) c =
      takenIn moveLog c ++ if entry.color = some c then entry.captured.toList else [] := by
  unfold takenIn
  rw [List.filterMap_append]
  split
  · next h => cases hc : entry.captured <;> simp [h, hc]
  · next h => simp [h]

private theorem takenBy_captAfter (capt : Captures) (cp : Option Piece) (mover c : Color) :
    (captAfter capt cp mover).takenBy c =
      capt.takenBy c ++ if c = mover then cp.toList else [] := by
  cases cp with
  | none => simp [captAfter]
  | some x => cases mover <;> cases c <;> simp [captAfter, Captures.add, Captures.takenBy]

/-- `finish` writes down what the state has taken and moved already. -/
theorem finish_logged {g : GameState} {nb : Board} {nt : Color} {nep : Option Square}
    {nc : Castling} {note : String} {entry : MoveEntry} {silent : Bool} {m : Move}
    (hnoted : Noted g.moveLog) (hm : moveOf entry = some m) (hcolor : entry.color.isSome)
    (hcap : entry.captured.isSome ↔ Captures.ByMove (replay g.moveLog) m)
    (htaken : ∀ c, g.capt.takenBy c = takenIn g.moveLog c ++
      if entry.color = some c then entry.captured.toList else [])
    (hlast : g.lastMv = some (m.src, m.dst)) :
    Logged (finish g nb nt nep nc note entry silent).1.toSnapshot := by
  unfold finish
  refine ⟨hnoted.snoc (m := m) hm hcolor hcap, fun c ↦ ?_, ?_⟩
  · rw [takenIn_append]
    exact htaken c
  · have hm' : ∀ san, moveOf { entry with san := san } = some m := fun _ ↦ hm
    dsimp only
    rw [lastIn, List.getLast?_concat, Option.bind_some, hm']
    exact hlast

private theorem reset_logged : reset.Logged where
  kept := reset_kept
  past _ h := absurd h List.not_mem_nil
  settled _ := ⟨.nil, fun c ↦ by cases c <;> rfl, rfl⟩
  pending _ h := absurd h.symm (Option.some_ne_none _)

/-- Making an offered move writes it down, or leaves it pending with its captive entered. -/
theorem applyMove_logged {g : GameState} (hg : g.Logged) (hpromo : g.promo = none) {s t : Square}
    {q : Piece} (hq : g.board s = some q) (hc : q.color = g.turn)
    (ht : t ∈ getLegal g.board s g.ep g.cast) (silent : Bool) :
    (applyMove g s t none silent).1.Logged := by
  have hkept := applyMove_kept hg.kept hpromo hq hc ht silent
  obtain ⟨hd, hs, -, -⟩ := hg.kept.ok.now
  obtain ⟨k, hoff⟩ := (mem_getLegal hd hs hq hc).mp ht
  have hq' := hq
  rw [hd.board] at hq'
  have hnow := hg.settled hpromo
  have hpast : ∀ sn ∈ g.past ++ [g.toSnapshot], Client.Logged sn := by
    intro sn hsn
    rcases List.mem_append.mp hsn with h | h
    · exact hg.past sn h
    · exact List.mem_singleton.mp h ▸ hnow
  have htaken : ∀ c, (captAfter g.capt (capturedBy g.board q s t g.ep) q.color).takenBy c =
      takenIn g.moveLog c ++ if c = q.color then (capturedBy g.board q s t g.ep).toList else [] := by
    intro c
    rw [takenBy_captAfter, hnow.taken]
  by_cases hlast : q.kind = .pawn ∧ (t.1 = 0 ∨ t.1 = 7)
  · rw [applyMove_pending hq hlast silent] at hkept ⊢
    refine ⟨hkept, hpast, fun h ↦ ?_, fun pr hpr ↦ ?_⟩
    · cases h
    · obtain rfl := Option.some.inj hpr
      exact ⟨hnow.noted, htaken⟩
  · obtain rfl : k = none := hoff.promotion_none hq' hlast
    have hfinish := applyMoveFrom_finish (c := g.toSnapshot) (g := g) hq (k := none)
      (fun h ↦ hlast ⟨h.1, h.2.1⟩) silent
    rw [applyMoveFrom_self] at hfinish
    rw [hfinish] at hkept ⊢
    have hcap := capturedBy_isSome_iff hs hq' hoff
    rw [← hd.board, ← hd.ep] at hcap
    refine ⟨hkept, hpast, fun _ ↦ ?_, fun pr hpr ↦ ?_⟩
    · refine finish_logged (m := ⟨s, t, none⟩) hnow.noted (by simp [moveOf]) rfl hcap
        (fun c ↦ ?_) rfl
      refine (htaken c).trans ?_
      simp only [Option.some.injEq, eq_comm]
      rfl
    · rw [show g.promo = some pr from hpr] at hpromo
      cases hpromo

private theorem click_logged {g : GameState} (hg : g.Logged) (s : Square) :
    (click g s).1.Logged := by
  have hkept := click_kept hg.kept s
  rcases click_cases hg.kept.ok s with ⟨sel, moves, heq⟩ | ⟨hpromo, from_, q, hq, hc, hm, heq⟩
  · rw [heq] at hkept ⊢
    refine ⟨hkept, hg.past, fun h ↦ ?_, hg.pending⟩
    obtain ⟨h1, h2, h3⟩ := hg.settled h
    exact ⟨h1, h2, h3⟩
  · rw [heq]
    exact applyMove_logged hg hpromo hq hc hm false

private theorem doPromo_logged {g : GameState} (hg : g.Logged) {k : Kind}
    (hk : k ∈ promotionKinds) :
    (doPromo g k).1.Logged := by
  have hkept := doPromo_kept hg.kept hk
  unfold doPromo at hkept ⊢
  cases hpr : g.promo with
  | none => exact hg
  | some pr =>
    rw [hpr] at hkept
    dsimp only at hkept ⊢
    obtain ⟨hpiece, ⟨k', hoff⟩, hprom, hcol, -⟩ := hg.kept.ok.pending pr hpr
    obtain ⟨-, -, hcaptive⟩ := hg.kept.pending pr hpr
    obtain ⟨hnoted, htaken⟩ := hg.pending pr hpr
    obtain ⟨hd, hs, -, -⟩ := hg.kept.ok.now
    rw [hd.board] at hpiece
    have hfits : PromotionFits ⟨g.turn, .pawn⟩ ⟨pr.src, pr.dst, some k⟩ := by
      unfold PromotionFits
      rw [if_pos hprom]
      exact ⟨k, hk, rfl⟩
    have hcap := capturedBy_isSome_iff hs hpiece (hoff.repromote hs hpiece rfl hfits)
    rw [← hd.board, ← hd.ep, ← hcaptive] at hcap
    refine ⟨hkept, hg.past, fun _ ↦ ?_, fun pr' hpr' ↦ ?_⟩
    · refine finish_logged (m := ⟨pr.src, pr.dst, some k⟩) hnoted
        (by simp [moveOf, kindOf_letter hk]) rfl hcap (fun c ↦ ?_) rfl
      refine (htaken c).trans ?_
      simp only [Option.some.injEq, eq_comm]
    · cases hpr'

private theorem undo_logged {g : GameState} (hg : g.Logged) : (undo g).Logged := by
  have hkept := undo_kept hg.kept
  unfold undo at hkept ⊢
  split
  · next prev hprev hpromo =>
    rw [hprev, hpromo] at hkept
    refine ⟨hkept, fun sn hsn ↦ hg.past sn (List.dropLast_subset _ hsn), fun _ ↦ ?_,
      fun pr hpr ↦ ?_⟩
    · exact hg.past prev (List.mem_of_getLast? hprev)
    · cases hpr
  · exact hg

/-- In every state of a game the captured lists and the last move are those of the log. -/
theorem logged_invariant : game.Invariant GameState.Logged where
  init g hg := by
    rw [show g = reset from hg]
    exact reset_logged
  step g e g' hg hst := by
    cases hst with
    | click s => exact click_logged hg s
    | doPromo hk => exact doPromo_logged hg hk
    | undo => exact undo_logged hg

/-! ### Local against synchronised play -/

/-- Every move of the game is legal. -/
def LegalGame : Position → List Move → Prop
  | _, [] => True
  | p, m :: moves => Legal p m ∧ LegalGame (p.play m) moves

/-- A game is checked move by move. -/
instance : (p : Position) → (moves : List Move) → Decidable (LegalGame p moves)
  | _, [] => inferInstanceAs (Decidable True)
  | p, m :: moves =>
    have := instDecidableLegalGame (p.play m) moves
    inferInstanceAs (Decidable (_ ∧ _))

private theorem legalGame_append (p : Position) (moves : List Move) (m : Move) :
    LegalGame p (moves ++ [m]) ↔ LegalGame p moves ∧ Legal (moves.foldl Position.play p) m := by
  induction moves generalizing p with
  | nil => simp [LegalGame]
  | cons m' moves ih =>
    rw [List.cons_append, LegalGame, LegalGame, ih, List.foldl_cons, and_assoc]

/-- A state of local play in which exactly these moves have been committed. -/
structure Committed (L : GameState) (moves : List Move) : Prop where
  reachable : game.Reachable L
  settled : L.promo = none
  log : L.moveLog.filterMap moveOf = moves

/-- Board, side to move, destinations and last move. -/
structure SamePosition (L S : GameState) : Prop where
  board : L.board = S.board
  turn : L.turn = S.turn
  destinations : ∀ s t, t ∈ destinations L s ↔ t ∈ destinations S s
  lastMv : L.lastMv = S.lastMv

/-- All that is shown: the position, the status and the captured pieces. -/
structure Agree (L S : GameState) : Prop extends SamePosition L S where
  status : L.status = S.status
  capt : L.capt = S.capt

/-- Neither check nor the end of the game. -/
def Calm (p : Position) : Prop := ¬ InCheck p.board p.turn ∧ HasMove p

private theorem statusOf_eq_none_iff {board : Board} {turn : Color} {ep : Option Square}
    {cast : Castling}
    {p : Position} (hd : Describes board turn ep cast p) (hs : Sound p) :
    statusOf board turn ep cast = none ↔ Calm p := by
  obtain ⟨hmate, hstale, hcheck⟩ := statusOf_exact hd hs
  have htimeout : statusOf board turn ep cast ≠ some .timeout := by
    unfold statusOf
    dsimp only
    split <;> split <;> exact nofun
  unfold Calm
  unfold Checkmate at hmate
  unfold Stalemate at hstale
  cases hst : statusOf board turn ep cast with
  | none =>
    rw [hst] at hmate hstale hcheck
    simp only [reduceCtorEq, false_iff] at hmate hstale hcheck
    refine iff_of_true rfl ?_
    tauto
  | some st =>
    refine iff_of_false nofun ?_
    rw [hst] at hmate hstale hcheck htimeout
    cases st with
    | check =>
      have := hcheck.mp rfl
      tauto
    | checkmate =>
      have := hmate.mp rfl
      tauto
    | stalemate =>
      have := hstale.mp rfl
      tauto
    | timeout => exact absurd rfl htimeout

/-- Nothing is in the captured lists exactly if no move took a piece. -/
theorem noCapture_iff {moveLog : List MoveEntry} (h : Noted moveLog) :
    NoCapture .initial (moveLog.filterMap moveOf) ↔ ∀ c, takenIn moveLog c = [] := by
  induction h with
  | nil => exact iff_of_true trivial fun c ↦ rfl
  | @snoc moveLog entry m h hm hcolor hcap ih =>
    rw [List.filterMap_append, List.filterMap_cons_some hm, List.filterMap_nil, noCapture_append, ih]
    change _ ∧ ¬ Captures.ByMove (replay moveLog) m ↔ _
    rw [← hcap]
    obtain ⟨mover, hmover⟩ := Option.isSome_iff_exists.mp hcolor
    constructor
    · rintro ⟨htaken, hnone⟩ c
      rw [takenIn_append, htaken, List.nil_append]
      split
      · rw [Option.not_isSome_iff_eq_none.mp hnone]
        rfl
      · rfl
    · intro htaken
      refine ⟨fun c ↦ ?_, fun hsome ↦ ?_⟩
      · have := htaken c
        rw [takenIn_append, List.append_eq_nil_iff] at this
        exact this.1
      · have := htaken mover
        rw [takenIn_append, List.append_eq_nil_iff, if_pos hmover, Option.toList_eq_nil_iff] at this
        rw [this.2] at hsome
        cases hsome

private theorem lastIn_eq {moveLog : List MoveEntry} (h : Noted moveLog) :
    lastIn moveLog = (moveLog.filterMap moveOf).getLast?.map fun m ↦ (m.src, m.dst) := by
  cases h with
  | nil => rfl
  | snoc h hm hcolor hcap =>
    rw [List.filterMap_append, List.filterMap_cons_some hm, List.filterMap_nil,
      List.getLast?_concat, lastIn, List.getLast?_concat, Option.bind_some, hm]

/-- The last record of the history names the last move. -/
theorem last_of_records {moves : List Move} {history : List MoveEntry}
    (h : List.Forall₂ IsRecord moves history) :
    (history.getLast?.bind fun last ↦
      match squareToRC last.fromSquare, squareToRC last.toSquare with
      | some s, some t => some (s, t)
      | _, _ => none) = moves.getLast?.map fun m ↦ (m.src, m.dst) := by
  induction h with
  | nil => rfl
  | @cons m record moves history hr hrest ih =>
    cases hrest with
    | nil =>
      simp only [List.getLast?_singleton, Option.bind_some, hr.1, hr.2.1, squareToRC_squareName]
      rfl
    | cons hr' hrest' =>
      rw [List.getLast?_cons_cons, List.getLast?_cons_cons]
      exact ih

private theorem takenBy_eq_nil_iff {capt : Captures} : capt = {} ↔ ∀ c, capt.takenBy c = [] := by
  obtain ⟨w, b⟩ := capt
  constructor
  · intro h c
    rw [h]
    cases c <;> rfl
  · intro h
    obtain rfl : w = [] := h .w
    obtain rfl : b = [] := h .b
    rfl

/-- What `loadFEN` shows against what the moves show. -/
theorem sync_of_committed {L : GameState} {moves : List Move} (hL : Committed L moves)
    {fen : String} (hfen : WritesFen fen (moves.foldl Position.play .initial))
    {history : List MoveEntry} (hhistory : List.Forall₂ IsRecord moves history) :
    ∃ S, loadFEN fen history = some S ∧ SamePosition L S ∧
      (Agree L S ↔ NoCapture .initial moves ∧ Calm (moves.foldl Position.play .initial)) := by
  have hlogged := logged_invariant.reachable hL.reachable
  obtain ⟨hd, hs, hstatus, -⟩ := hlogged.kept.ok.now
  obtain ⟨hnoted, htaken, hlast⟩ := hlogged.settled hL.settled
  have hpos : replay L.moveLog = moves.foldl Position.play .initial := by
    rw [replay, hL.log]
  rw [← hpos] at hfen ⊢
  obtain ⟨S, hload, ⟨passed, hpassed, hdS⟩, hstS, hcaptS, -, hlastS⟩ := loadFEN_writes hfen history
  have hsame : SamePosition L S :=
    { board := by rw [hd.board, hdS.board]
      turn := by rw [hd.turn, hdS.turn]
      destinations := mem_destinations_iff hs hpassed hd hdS
      lastMv := by rw [hlast, hlastS, last_of_records hhistory, lastIn_eq hnoted, hL.log] }
  have hcalm : L.status = S.status ↔ Calm (replay L.moveLog) := by
    rw [hstS, hstatus]
    exact statusOf_eq_none_iff hd hs
  have hquiet : L.capt = S.capt ↔ NoCapture .initial moves := by
    rw [hcaptS, takenBy_eq_nil_iff, ← hL.log, noCapture_iff hnoted]
    exact forall_congr' fun c ↦ by rw [htaken]
  exact ⟨S, hload, hsame, fun h ↦ ⟨hquiet.mp h.capt, hcalm.mp h.status⟩,
    fun h ↦ ⟨hsame, hcalm.mpr h.2, hquiet.mpr h.1⟩⟩

/-! ### Every legal game can be played locally -/

/-- The state with a square and its destinations marked. -/
def selected (g : GameState) (s : Square) : GameState :=
  { g with sel := some s, moves := getLegal g.board s g.ep g.cast }

/-- A click on a piece of the side to move, nothing being selected, marks its destinations. -/
theorem click_select {g : GameState} (hpromo : g.promo = none) (hsel : g.sel = none)
    (hstatus : ¬ (g.status = some .checkmate ∨ g.status = some .stalemate ∨
      g.status = some .timeout)) {s : Square} (hpc : pcIs (g.board s) g.turn = true) :
    (click g s).1 = selected g s := by
  unfold click
  rw [if_neg]
  · rw [hsel]
    dsimp only
    rw [if_pos hpc]
    rfl
  · rw [hpromo]
    simpa [not_or, and_assoc] using hstatus

/-- A click on a marked square moves the selected piece there. -/
theorem click_move {g : GameState} (hpromo : g.promo = none)
    (hstatus : ¬ (g.status = some .checkmate ∨ g.status = some .stalemate ∨
      g.status = some .timeout)) {s t : Square} (hsel : g.sel = some s) (hm : t ∈ g.moves) :
    (click g t).1 = (applyMove g s t none false).1 := by
  unfold click
  rw [if_neg]
  · rw [hsel]
    dsimp only
    rw [if_pos (List.contains_iff_mem.mpr hm)]
  · rw [hpromo]
    simpa [not_or, and_assoc] using hstatus

/-- One more legal move can be committed by clicks and, where it promotes, by a pick. -/
theorem Committed.snoc {L : GameState} {moves : List Move} (hL : Committed L moves)
    (hsel : L.sel = none) {m : Move} (hm : Legal (moves.foldl Position.play .initial) m) :
    ∃ L', Committed L' (moves ++ [m]) ∧ L'.sel = none := by
  have hkept := (logged_invariant.reachable hL.reachable).kept
  obtain ⟨hd, hs, hst, -⟩ := hkept.ok.now
  have hpos : replay L.moveLog = moves.foldl Position.play .initial := by
    rw [replay, hL.log]
  rw [← hpos] at hm
  obtain ⟨s, t, k⟩ := m
  have hoff := offered_of_legal hs hm
  obtain ⟨q, hq, hc⟩ := hoff.src hs
  have hqL : L.board s = some q := by rw [hd.board, hq]
  have hcL : q.color = L.turn := by rw [hc, hd.turn]
  have hlive : ¬ (L.status = some .checkmate ∨ L.status = some .stalemate ∨
      L.status = some .timeout) := by
    obtain ⟨hmate, hstale, -⟩ := statusOf_exact hd hs
    rw [hst]
    rintro (h | h | h)
    · exact (hmate.mp h).2 ⟨_, hm⟩
    · exact (hstale.mp h).2 ⟨_, hm⟩
    · unfold statusOf at h
      dsimp only at h
      split at h <;> split at h <;> cases h
  have ht : t ∈ getLegal L.board s L.ep L.cast := (mem_getLegal hd hs hqL hcL).mpr ⟨k, hoff⟩
  have hfirst := click_select hL.settled hsel hlive (pcIs_eq_true.mpr ⟨q, hqL, hcL⟩)
  have hsecond := click_move (g := selected L s) hL.settled hlive rfl ht
  have hrun := (hL.reachable.step (.click L s)).step (.click _ t)
  rw [hfirst, hsecond] at hrun
  by_cases hlast : q.kind = .pawn ∧ (t.1 = 0 ∨ t.1 = 7)
  · obtain ⟨kind, rfl⟩ := Option.ne_none_iff_exists'.mp (hoff.promotion_ne_none hq hlast)
    have hkind := hoff.promotion_mem kind rfl
    rw [applyMove_pending (g := selected L s) hqL hlast] at hrun
    have hrun := hrun.step (.doPromo _ hkind)
    refine ⟨_, ⟨hrun, rfl, ?_⟩, rfl⟩
    simp [doPromo, finish, selected, hL.log, moveOf, kindOf_letter hkind]
  · obtain rfl : k = none := hoff.promotion_none hq hlast
    have hfinish := applyMoveFrom_finish (c := (selected L s).toSnapshot) (g := selected L s) hqL
      (k := none) (fun h ↦ hlast ⟨h.1, h.2.1⟩) false
    rw [applyMoveFrom_self] at hfinish
    rw [hfinish] at hrun
    refine ⟨_, ⟨hrun, hL.settled, ?_⟩, rfl⟩
    simp [finish, movedFrom, selected, hL.log, moveOf]

private theorem exists_committed {moves : List Move} (h : LegalGame .initial moves) :
    ∃ L, Committed L moves ∧ L.sel = none := by
  induction moves using List.reverseRecOn with
  | nil => exact ⟨reset, ⟨.init rfl, rfl, rfl⟩, rfl⟩
  | append_singleton moves m ih =>
    obtain ⟨hmoves, hm⟩ := (legalGame_append _ _ _).mp h
    obtain ⟨L, hL, hsel⟩ := ih hmoves
    exact hL.snoc hsel hm

/-- Every legal game can be played locally, and its state there and the state loaded from the
broadcast always show the same position; they agree in all that is shown exactly if no move
took a piece and the position reached is neither check nor the end of the game. -/
theorem agree_iff_calm {moves : List Move} (hlegal : LegalGame .initial moves) :
    (∃ L, Committed L moves) ∧ ∀ L fen history, Committed L moves →
      WritesFen fen (moves.foldl Position.play .initial) → List.Forall₂ IsRecord moves history →
      ∃ S, loadFEN fen history = some S ∧ SamePosition L S ∧
        (Agree L S ↔ NoCapture .initial moves ∧ Calm (moves.foldl Position.play .initial)) := by
  obtain ⟨L, hL, -⟩ := exists_committed hlegal
  exact ⟨⟨L, hL⟩, fun L fen history hL hfen hhistory ↦ sync_of_committed hL hfen hhistory⟩

/-- 1. e4 e5, as the server broadcasts it. -/
theorem agree_iff_calm_kingPawns : ∃ L S,
    Committed L [⟨(6, 4), (4, 4), none⟩, ⟨(1, 4), (3, 4), none⟩] ∧
    loadFEN "rnbqkbnr/pppp1ppp/8/4p3/4P3/8/PPPP1PPP/RNBQKBNR w KQkq - 0 2"
      [{ fromSquare := "e2", toSquare := "e4", san := "e4" },
        { fromSquare := "e7", toSquare := "e5", san := "e5" }] = some S ∧ Agree L S := by
  have hlegal : LegalGame .initial [⟨(6, 4), (4, 4), none⟩, ⟨(1, 4), (3, 4), none⟩] := by
    decide +kernel
  obtain ⟨⟨L, hL⟩, hall⟩ := agree_iff_calm hlegal
  obtain ⟨S, hload, -, hiff⟩ := hall L
    "rnbqkbnr/pppp1ppp/8/4p3/4P3/8/PPPP1PPP/RNBQKBNR w KQkq - 0 2"
    [{ fromSquare := "e2", toSquare := "e4", san := "e4" },
      { fromSquare := "e7", toSquare := "e5", san := "e5" }] hL
    ⟨none, 0, 2, by decide +kernel, Or.inr ⟨rfl, by decide +kernel⟩⟩
    (.cons (by decide +kernel) (.cons (by decide +kernel) .nil))
  refine ⟨L, S, hL, hload, hiff.mpr ⟨⟨by decide +kernel, by decide +kernel, trivial⟩, ?_, ?_⟩⟩
  · decide +kernel
  · exact ⟨⟨(6, 3), (4, 3), none⟩, by decide +kernel⟩

/-- After 1. e4 d5 2. exd5 local play lists the pawn taken and synchronised play does not. -/
theorem not_agree_exd5 : ¬ ∀ moves L fen history S, LegalGame .initial moves → Committed L moves →
    WritesFen fen (moves.foldl Position.play .initial) → List.Forall₂ IsRecord moves history →
    loadFEN fen history = some S → Agree L S := by
  intro h
  have hlegal : LegalGame .initial
      [⟨(6, 4), (4, 4), none⟩, ⟨(1, 3), (3, 3), none⟩, ⟨(4, 4), (3, 3), none⟩] := by
    decide +kernel
  obtain ⟨L, hL, -⟩ := exists_committed hlegal
  have hfen : WritesFen "rnbqkbnr/ppp1pppp/8/3P4/8/8/PPPP1PPP/RNBQKBNR b KQkq - 0 2"
      ([⟨(6, 4), (4, 4), none⟩, ⟨(1, 3), (3, 3), none⟩, ⟨(4, 4), (3, 3), none⟩].foldl
        Position.play .initial) :=
    ⟨none, 0, 2, by decide +kernel, Or.inl (by decide +kernel)⟩
  have hhistory : List.Forall₂ IsRecord
      [⟨(6, 4), (4, 4), none⟩, ⟨(1, 3), (3, 3), none⟩, ⟨(4, 4), (3, 3), none⟩]
      [{ fromSquare := "e2", toSquare := "e4", san := "e4" },
        { fromSquare := "d7", toSquare := "d5", san := "d5" },
        { fromSquare := "e4", toSquare := "d5", san := "exd5" }] :=
    .cons (by decide +kernel) (.cons (by decide +kernel) (.cons (by decide +kernel) .nil))
  obtain ⟨S, hload, -, hiff⟩ := sync_of_committed hL hfen hhistory
  have hquiet := (hiff.mp (h _ L _ _ S hlegal hL hfen hhistory hload)).1
  have htaken : Captures.ByMove
      (([⟨(6, 4), (4, 4), none⟩, ⟨(1, 3), (3, 3), none⟩] : List Move).foldl Position.play .initial)
      ⟨(4, 4), (3, 3), none⟩ := by
    decide +kernel
  exact hquiet.2.2.1 htaken

end ChessStack.Client
