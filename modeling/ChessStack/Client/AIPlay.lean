import ChessStack.Client.Representation
import ChessStack.Chess.Fen

/-!
# Playing the engine

Library `Client`. `Chess-Frontend/src/components/AIPlay.js`: a game against the engine. A handler
runs in the latest render; the callback of a request keeps the render that started it. An event
is handled, the page renders once, and the effect of lines 39–48 asks for a move when it has
become the engine's turn.
-/

namespace ChessStack.Client

open ChessStack.Chess ChessStack.Library

/-- `boardToFEN`: the template joins the six fields with spaces, `chessEngine.js:151–173`. -/
def boardToFEN (board : Board) (turn : Color) (cast : Castling) (ep : Option Square)
    (hist : List String) : String :=
  Fen.text ⟨board, turn, cast.flag, ep, 0, hist.length / 2 + 1⟩

/-- `DIFFICULTIES`. -/
inductive Difficulty where
  | easy
  | medium
  | hard
  deriving DecidableEq, Repr

/-- The Stockfish skill level of a difficulty. -/
def Difficulty.skillLevel : Difficulty → Nat
  | .easy => 2
  | .medium => 8
  | .hard => 16

/-- How long Stockfish may think. -/
def Difficulty.movetimeMs : Difficulty → Nat
  | .easy => 400
  | .medium => 700
  | .hard => 1200

/-- What the callback of a request does with the move. -/
inductive Purpose where
  | play
  | hint
  deriving DecidableEq, Repr

/-- A call of `requestMove` and the state of the render that made it. -/
structure Request where
  purpose : Purpose
  fen : String
  skillLevel : Nat
  movetimeMs : Nat
  closure : Snapshot

/-- A reply that was applied to the game: its request and the state it met. -/
structure Applied where
  request : Request
  met : Snapshot

/-- The state of the component, with the requests that have not settled and the replies applied. -/
structure Page where
  game : GameState
  started : Bool
  difficulty : Difficulty
  myColor : Color
  hint : Option (Square × Square)
  thinking : Bool
  waiting : List Request
  applied : List Applied

/-- The page when it is opened. -/
def Page.opened : Page := ⟨reset, false, .medium, .w, none, false, [], []⟩

/-- `isAiTurn`. -/
def Page.isAiTurn (p : Page) : Bool :=
  p.started && p.game.turn == p.myColor.other && p.game.promo.isNone &&
    !(p.game.status == some .checkmate || p.game.status == some .stalemate ||
      p.game.status == some .timeout)

/-- A call of `requestMove` from the present render. -/
def Page.requestMove (p : Page) (purpose : Purpose) (skillLevel movetimeMs : Nat) : Page :=
  let g := p.game
  { p with
    thinking := true
    waiting := p.waiting ++ [⟨purpose, boardToFEN g.board g.turn g.cast g.ep g.hist, skillLevel,
      movetimeMs, g.toSnapshot⟩] }

/-- The effect runs in the render in which `isAiTurn` has changed, `AIPlay.js:39–48`. -/
def Page.effect (before p : Page) : Page :=
  if p.isAiTurn && !before.isAiTurn then
    p.requestMove .play p.difficulty.skillLevel p.difficulty.movetimeMs
  else p

/-- What the player does, and a request settling with a move or `null`. -/
inductive PageEvent where
  | setDifficulty (d : Difficulty)
  | startGame (color : Color)
  | click (s : Square)
  | doPromo (k : Kind)
  | undo
  | newGame
  | askHint
  | reply (i : Nat) (mv : Option Move)
  deriving DecidableEq

/-- What the callback of a request does, `AIPlay.js:43–46` and `:61`. -/
def Page.settle (p : Page) (r : Request) (mv : Option Move) : Page :=
  match r.purpose, mv with
  | .play, some m =>
    { p with
      game := (applyMoveFrom r.closure p.game m.src m.dst m.promotion true).1
      applied := p.applied ++ [⟨r, p.game.toSnapshot⟩] }
  | .hint, some m => { p with hint := some (m.src, m.dst) }
  | _, none => p

/-- The state after an event's handler, `none` where the page offers no such event. -/
def Page.handle (p : Page) : PageEvent → Option Page
  | .setDifficulty d => if p.started then none else some { p with difficulty := d }
  | .startGame color =>
    if p.started then none
    else some { p with myColor := color, started := true, game := reset, hint := none }
  | .click s =>
    if !p.started then none
    else if p.isAiTurn then some p
    else some { p with hint := none, game := (Client.click p.game s).1 }
  | .doPromo k =>
    if p.started ∧ p.game.promo.isSome ∧ k ∈ promotionKinds then
      some { p with game := (Client.doPromo p.game k).1 }
    else none
  | .undo => if p.started then some { p with game := Client.undo p.game } else none
  | .newGame => if p.started then some { p with game := reset, hint := none } else none
  | .askHint =>
    if p.started ∧ p.game.turn = p.myColor ∧ p.thinking = false ∧ p.game.promo = none then
      some (p.requestMove .hint 20 600)
    else none
  | .reply i mv =>
    match p.waiting[i]? with
    | none => none
    | some r => some ({ p with waiting := p.waiting.eraseIdx i, thinking := false }.settle r mv)

/-- The state after an event and the render that follows it. -/
def Page.step (p : Page) (e : PageEvent) : Option Page := (p.handle e).map p.effect

/-- The move is legal in the position the text describes. -/
def LegalFor (fen : String) (m : Move) : Prop :=
  ∃ f, readFen fen = some f ∧ Legal ⟨f.board, f.turn, f.rights, f.passed⟩ m

/-- The engine answers a request with a legal move for its text, or with none. -/
def EngineAnswers (p : Page) : PageEvent → Prop
  | .reply i (some m) => ∀ r ∈ p.waiting[i]?, LegalFor r.fen m
  | _ => True

/-- The page and the engine it asks. -/
def page : Machine Page PageEvent := (Machine.ofStep .opened Page.step).restrict EngineAnswers

/-- The board is the last of the replayed log, and every reply applied met the position and the
log its request was made from. -/
structure Page.Faithful (p : Page) : Prop where
  board : lastBoard p.game.moveLog = some p.game.board
  applied : ∀ a ∈ p.applied, a.request.fen = boardToFEN a.request.closure.board
      a.request.closure.turn a.request.closure.cast a.request.closure.ep a.request.closure.hist ∧
    a.met.board = a.request.closure.board ∧ a.met.turn = a.request.closure.turn ∧
    a.met.ep = a.request.closure.ep ∧ a.met.cast = a.request.closure.cast ∧
    a.met.moveLog = a.request.closure.moveLog

/-- No undo that restores a state and no new game over a begun one while the engine has a move
to find. -/
def Undisturbed (p : Page) : PageEvent → Prop
  | .undo => (∃ r ∈ p.waiting, r.purpose = .play) → p.game.past = [] ∨ p.game.promo ≠ none
  | .newGame => (∃ r ∈ p.waiting, r.purpose = .play) → p.game.moveLog = []
  | _ => True

/-! ### Requests and the state they were made from -/

/-- The state is kept, a request for a move waits only in the engine's turn and was made from the
present position and log, and there is at most one. -/
structure Page.Tracked (p : Page) : Prop where
  kept : p.game.Kept
  fen : ∀ r ∈ p.waiting, r.fen =
    boardToFEN r.closure.board r.closure.turn r.closure.cast r.closure.ep r.closure.hist
  turn : ∀ r ∈ p.waiting, r.purpose = .play → p.isAiTurn = true
  current : ∀ r ∈ p.waiting, r.purpose = .play → Current r.closure p.game ∧
    Plays r.closure ∧ Recorded r.closure ∧ Complete r.closure.board r.closure.capt
  one : p.waiting.countP (·.purpose = .play) ≤ 1
  faithful : p.Faithful

/-- No request for a move waits. -/
def Page.Idle (p : Page) : Prop := ∀ r ∈ p.waiting, r.purpose ≠ .play

private theorem Page.isAiTurn_iff {p : Page} : p.isAiTurn = true ↔
    p.started = true ∧ p.game.turn = p.myColor.other ∧ p.game.promo = none ∧
      ¬ (p.game.status = some .checkmate ∨ p.game.status = some .stalemate ∨
        p.game.status = some .timeout) := by
  simp [Page.isAiTurn, and_assoc]

private theorem opened_tracked : Page.opened.Tracked where
  kept := reset_kept
  fen _ h := absurd h List.not_mem_nil
  turn _ h := absurd h List.not_mem_nil
  current _ h := absurd h List.not_mem_nil
  one := Nat.zero_le _
  faithful := ⟨rfl, fun _ h ↦ absurd h List.not_mem_nil⟩

/-- Outside the engine's turn no request for a move waits. -/
theorem Page.Tracked.idle {p : Page} (h : p.Tracked) (hturn : p.isAiTurn = false) : p.Idle := by
  intro r hr hplay
  rw [h.turn r hr hplay] at hturn
  cases hturn

/-- While no request for a move waits the game may change. -/
theorem Page.Tracked.change {p p' : Page} (h : p.Tracked) (hidle : p'.Idle)
    (hw : ∀ r ∈ p'.waiting, r ∈ p.waiting) (ha : p'.applied = p.applied) (hk : p'.game.Kept) :
    p'.Tracked where
  kept := hk
  fen r hr := h.fen r (hw r hr)
  turn r hr hplay := absurd hplay (hidle r hr)
  current r hr hplay := absurd hplay (hidle r hr)
  one := by
    rw [List.countP_eq_zero.mpr fun r hr ↦ by simpa using hidle r hr]
    exact Nat.zero_le 1
  faithful := ⟨hk.now.shown, ha ▸ h.faithful.applied⟩

/-- A change that keeps the position and log and the turn keeps the requests in order. -/
theorem Page.Tracked.keep {p p' : Page} (h : p.Tracked) (hw : p'.waiting.Sublist p.waiting)
    (ha : p'.applied = p.applied) (hk : p'.game.Kept) (hcur : Current p.game.toSnapshot p'.game)
    (hturn : p.isAiTurn = true → p'.isAiTurn = true) : p'.Tracked where
  kept := hk
  fen r hr := h.fen r (hw.subset hr)
  turn r hr hplay := hturn (h.turn r (hw.subset hr) hplay)
  current r hr hplay := by
    obtain ⟨hc, hrest⟩ := h.current r (hw.subset hr) hplay
    exact ⟨⟨hc.board.trans hcur.board, hc.turn.trans hcur.turn, hc.ep.trans hcur.ep,
      hc.cast.trans hcur.cast, hc.moveLog.trans hcur.moveLog⟩, hrest⟩
  one := Nat.le_trans (hw.countP_le) h.one
  faithful := ⟨hk.now.shown, ha ▸ h.faithful.applied⟩

/-- A request joins those that wait: for a hint, or for the engine's move when none does. -/
theorem Page.Tracked.requestMove {p : Page} (h : p.Tracked) {purpose : Purpose} {skill time : Nat}
    (hplay : purpose = .play → p.Idle ∧ p.isAiTurn = true) :
    (p.requestMove purpose skill time).Tracked := by
  have hmem : ∀ r ∈ (p.requestMove purpose skill time).waiting, r ∈ p.waiting ∨
      r = ⟨purpose, boardToFEN p.game.board p.game.turn p.game.cast p.game.ep p.game.hist, skill,
        time, p.game.toSnapshot⟩ := by
    intro r hr
    rcases List.mem_append.mp hr with hr | hr
    · exact Or.inl hr
    · exact Or.inr (List.mem_singleton.mp hr)
  refine ⟨h.kept, fun r hr ↦ ?_, fun r hr hp ↦ ?_, fun r hr hp ↦ ?_, ?_,
    ⟨h.faithful.board, h.faithful.applied⟩⟩
  · rcases hmem r hr with hr | rfl
    · exact h.fen r hr
    · rfl
  · rcases hmem r hr with hr | rfl
    · exact h.turn r hr hp
    · exact (hplay hp).2
  · rcases hmem r hr with hr | rfl
    · exact h.current r hr hp
    · have hpromo := (Page.isAiTurn_iff.mp (hplay hp).2).2.2.1
      exact ⟨.refl p.game, h.kept.ok.now, h.kept.now, h.kept.settled hpromo⟩
  · simp only [Page.requestMove, List.countP_append]
    by_cases hp : purpose = .play
    · have hzero : p.waiting.countP (·.purpose = .play) = 0 :=
        List.countP_eq_zero.mpr fun r hr ↦ by simpa using (hplay hp).1 r hr
      rw [hzero, Nat.zero_add]
      exact List.countP_le_length
    · have hone : [(⟨purpose, boardToFEN p.game.board p.game.turn p.game.cast p.game.ep p.game.hist,
          skill, time, p.game.toSnapshot⟩ : Request)].countP (·.purpose = .play) = 0 := by
        simp [hp]
      rw [hone]
      exact h.one

/-- The effect asks for a move only where none is asked for. -/
theorem Page.Tracked.effect {p before : Page} (h : p.Tracked)
    (hidle : before.isAiTurn = false → p.Idle) : (before.effect p).Tracked := by
  unfold Page.effect
  split
  · next hfire =>
    rw [Bool.and_eq_true, Bool.not_eq_true'] at hfire
    exact h.requestMove fun _ ↦ ⟨hidle hfire.2, hfire.1⟩
  · exact h

/-! ### The handlers -/

/-- A snapshot that plays describes one position only. -/
theorem Plays.position {sn : Snapshot} (h : Plays sn) :
    (⟨sn.board, sn.turn, sn.cast.flag, sn.ep⟩ : Position) = replay sn.moveLog := by
  obtain ⟨hb, ht, he, hc⟩ := h.describes
  rw [hb, ht, he, show sn.cast.flag = (replay sn.moveLog).unmoved from
    funext fun c ↦ funext fun side ↦ hc c side]

/-- A reply to a request from the present position is an offered move. -/
theorem Page.Tracked.offered {p : Page} (h : p.Tracked) {r : Request} (hr : r ∈ p.waiting)
    (hplay : r.purpose = .play) {m : Move} (hm : LegalFor r.fen m) :
    Offered (replay p.game.moveLog) m := by
  obtain ⟨hcur, hplays, -⟩ := h.current r hr hplay
  obtain ⟨f, hf, hlegal⟩ := hm
  rw [h.fen r hr, boardToFEN, readFen_text, Option.some.injEq] at hf
  subst hf
  rw [← hcur.moveLog, ← hplays.position]
  refine offered_of_legal ?_ hlegal
  rw [hplays.position]
  exact hplays.sound

/-- With the request that settles gone, no other request for a move waits. -/
theorem idle_eraseIdx {waiting : List Request} {i : Nat} {r : Request}
    (hone : waiting.countP (·.purpose = .play) ≤ 1) (hr : waiting[i]? = some r)
    (hplay : r.purpose = .play) : ∀ r' ∈ waiting.eraseIdx i, r'.purpose ≠ .play := by
  obtain ⟨hi, rfl⟩ := List.getElem?_eq_some_iff.mp hr
  have hperm := (List.getElem_cons_eraseIdx_perm hi).countP_eq (·.purpose = .play)
  rw [List.countP_cons, if_pos (by simpa using hplay)] at hperm
  have hzero : (waiting.eraseIdx i).countP (·.purpose = .play) = 0 := by omega
  intro r' hr'
  simpa using List.countP_eq_zero.mp hzero r' hr'

/-- The callback of a request, after the page has noted that it settled. -/
theorem Page.Tracked.reply {p : Page} (h : p.Tracked) {i : Nat} {r : Request}
    (hr : p.waiting[i]? = some r) {mv : Option Move} (hmv : ∀ m ∈ mv, LegalFor r.fen m) :
    ({ p with waiting := p.waiting.eraseIdx i, thinking := false }.settle r mv).Tracked := by
  have hmem : r ∈ p.waiting := List.mem_of_getElem? hr
  have hsub := List.eraseIdx_sublist p.waiting i
  have hsettled : Page.Tracked { p with waiting := p.waiting.eraseIdx i, thinking := false } :=
    h.keep hsub rfl h.kept (.refl p.game) id
  unfold Page.settle
  cases hpurpose : r.purpose with
  | hint =>
    cases mv with
    | none => exact hsettled
    | some m => exact hsettled.keep (List.Sublist.refl _) rfl h.kept (.refl p.game) id
  | play =>
    cases mv with
    | none => exact hsettled
    | some m =>
      have hoff := h.offered hmem hpurpose (hmv m rfl)
      obtain ⟨hcur, hclosure⟩ := h.current r hmem hpurpose
      have hpromo := (Page.isAiTurn_iff.mp (h.turn r hmem hpurpose)).2.2.1
      have hk := applyMoveFrom_kept h.kept hpromo hclosure hcur hoff true
      have hidle := idle_eraseIdx h.one hr hpurpose
      have hchange : Page.Tracked { p with
          waiting := p.waiting.eraseIdx i
          thinking := false
          game := (applyMoveFrom r.closure p.game m.src m.dst m.promotion true).1 } :=
        hsettled.change hidle (fun _ h ↦ h) rfl hk
      obtain ⟨h1, h2, h3, h4, h5, h6⟩ := hchange
      refine ⟨h1, h2, h3, h4, h5, ⟨h6.board, fun a ha ↦ ?_⟩⟩
      rcases List.mem_append.mp ha with ha | ha
      · exact h6.applied a ha
      · obtain rfl := List.mem_singleton.mp ha
        exact ⟨h.fen r hmem, hcur.board.symm, hcur.turn.symm, hcur.ep.symm, hcur.cast.symm,
          hcur.moveLog.symm⟩

/-- The four flags are all there is to the castling object. -/
theorem Castling.eq_of_flag {cast cast' : Castling}
    (h : ∀ c side, cast.flag c side = cast'.flag c side) : cast = cast' := by
  obtain ⟨wK, wQ, bK, bQ⟩ := cast
  obtain ⟨wK', wQ', bK', bQ'⟩ := cast'
  obtain rfl : wK = wK' := h .w .king
  obtain rfl : wQ = wQ' := h .w .queen
  obtain rfl : bK = bK' := h .b .king
  obtain rfl : bQ = bQ' := h .b .queen
  rfl

/-- A new game over one not begun changes nothing the engine was asked about. -/
theorem current_reset {g : GameState} (hg : g.Kept) (hlog : g.moveLog = []) :
    Current g.toSnapshot reset := by
  have hpos := hg.ok.now.position
  rw [hlog, replay_nil] at hpos
  obtain ⟨hb, ht, hc, he⟩ := Position.mk.inj hpos
  refine ⟨hb, ht, he, Castling.eq_of_flag fun c side ↦ ?_, hlog⟩
  rw [hc]
  cases c <;> cases side <;> rfl

/-- Undo with nothing to restore changes nothing. -/
theorem undo_eq_self {g : GameState} (h : g.past = [] ∨ g.promo ≠ none) : undo g = g := by
  unfold undo
  rcases h with h | h
  · rw [h]
    rfl
  · cases hpromo : g.promo with
    | none => exact absurd hpromo h
    | some pr => cases g.past.getLast? <;> rfl

/-- Every event leaves the requests in order, and outside the engine's turn it leaves none for a
move. -/
theorem Page.Tracked.handle {p p' : Page} (h : p.Tracked) {e : PageEvent}
    (hengine : EngineAnswers p e) (hguard : Undisturbed p e) (hstep : p.handle e = some p') :
    p'.Tracked ∧ (p.isAiTurn = false → p'.Idle) := by
  have hidle := h.idle
  cases e with
  | setDifficulty d =>
    simp only [Page.handle] at hstep
    split at hstep
    · cases hstep
    · obtain rfl := Option.some.inj hstep
      exact ⟨h.keep (List.Sublist.refl _) rfl h.kept (.refl p.game) id, hidle⟩
  | startGame color =>
    simp only [Page.handle] at hstep
    split at hstep
    · cases hstep
    · next hstarted =>
      obtain rfl := Option.some.inj hstep
      have hturn : p.isAiTurn = false := by simp [Page.isAiTurn, hstarted]
      exact ⟨h.change (hidle hturn) (fun _ h ↦ h) rfl reset_kept, hidle⟩
  | click s =>
    simp only [Page.handle] at hstep
    split at hstep
    · cases hstep
    · split at hstep
      · obtain rfl := Option.some.inj hstep
        exact ⟨h, hidle⟩
      · next hturn =>
        obtain rfl := Option.some.inj hstep
        have hturn : p.isAiTurn = false := by simpa using hturn
        exact ⟨h.change (hidle hturn) (fun _ h ↦ h) rfl (click_kept h.kept s), hidle⟩
  | doPromo k =>
    simp only [Page.handle] at hstep
    split at hstep
    · next hpending =>
      obtain rfl := Option.some.inj hstep
      obtain ⟨-, hpromo, hk⟩ := hpending
      have hturn : p.isAiTurn = false := by
        rw [← Bool.not_eq_true, Page.isAiTurn_iff]
        rintro ⟨-, -, hnone, -⟩
        rw [hnone] at hpromo
        cases hpromo
      exact ⟨h.change (hidle hturn) (fun _ h ↦ h) rfl (doPromo_kept h.kept hk), hidle⟩
    · cases hstep
  | undo =>
    simp only [Page.handle] at hstep
    split at hstep
    · obtain rfl := Option.some.inj hstep
      by_cases hwait : ∃ r ∈ p.waiting, r.purpose = .play
      · rw [undo_eq_self (hguard hwait)]
        exact ⟨h, hidle⟩
      · have hidle' : p.Idle := fun r hr hp ↦ hwait ⟨r, hr, hp⟩
        exact ⟨h.change hidle' (fun _ h ↦ h) rfl (undo_kept h.kept), fun _ ↦ hidle'⟩
    · cases hstep
  | newGame =>
    simp only [Page.handle] at hstep
    split at hstep
    · next hstarted =>
      obtain rfl := Option.some.inj hstep
      by_cases hwait : ∃ r ∈ p.waiting, r.purpose = .play
      · have hcur := current_reset h.kept (hguard hwait)
        refine ⟨h.keep (List.Sublist.refl _) rfl reset_kept hcur fun hturn ↦ ?_, hidle⟩
        rw [Page.isAiTurn_iff] at hturn ⊢
        exact ⟨hstarted, hcur.turn ▸ hturn.2.1, rfl, by simp [reset]⟩
      · have hidle' : p.Idle := fun r hr hp ↦ hwait ⟨r, hr, hp⟩
        exact ⟨h.change hidle' (fun _ h ↦ h) rfl reset_kept, fun _ ↦ hidle'⟩
    · cases hstep
  | askHint =>
    simp only [Page.handle] at hstep
    split at hstep
    · obtain rfl := Option.some.inj hstep
      refine ⟨h.requestMove nofun, fun hturn r hr ↦ ?_⟩
      rcases List.mem_append.mp hr with hr | hr
      · exact hidle hturn r hr
      · rw [List.mem_singleton.mp hr]
        exact nofun
    · cases hstep
  | reply i mv =>
    simp only [Page.handle] at hstep
    split at hstep
    · cases hstep
    · next r hr =>
      obtain rfl := Option.some.inj hstep
      have hmv : ∀ m ∈ mv, LegalFor r.fen m := by
        rintro m rfl
        exact hengine r hr
      refine ⟨h.reply hr hmv, fun hturn r' hr' ↦ ?_⟩
      have hwaiting : ∀ p' : Page, (p'.settle r mv).waiting = p'.waiting := by
        intro p'
        unfold Page.settle
        split <;> rfl
      rw [hwaiting] at hr'
      exact hidle hturn r' (List.mem_of_mem_eraseIdx hr')

/-- In runs without such an undo or new game every state is tracked. -/
theorem tracked_invariant : (page.restrict Undisturbed).Invariant Page.Tracked where
  init p hp := by
    obtain rfl : p = .opened := hp
    exact opened_tracked
  step p e p' h hst := by
    obtain ⟨hguard, hengine, hstep⟩ := hst
    obtain ⟨mid, hmid, rfl⟩ := Option.map_eq_some_iff.mp hstep
    obtain ⟨htracked, hidle⟩ := h.handle hengine hguard hmid
    exact htracked.effect hidle

/-- In every run in which nothing is undone and no begun game is left while the engine has a move
to find, the board is the last of the replayed log after every event, and every reply applied
met the position and the log of its request. -/
theorem faithful_reachable {p : Page} (h : (page.restrict Undisturbed).Reachable p) :
    p.Faithful :=
  (tracked_invariant.reachable h).faithful

/-! ### Undo while the engine thinks -/

/-- The position a request was made from. -/
def Request.position (r : Request) : Position :=
  ⟨r.closure.board, r.closure.turn, r.closure.cast.flag, r.closure.ep⟩

/-- 1... e5 is legal where the request was made, and the page has asked about that position. -/
def Request.AllowsE5 (r : Request) : Prop :=
  r.fen = boardToFEN r.closure.board r.closure.turn r.closure.cast r.closure.ep r.closure.hist ∧
  r.position.board (1, 4) = some ⟨.b, .pawn⟩ ∧ r.position.turn = .b ∧
  Ordinary r.position ⟨.b, .pawn⟩ (1, 4) (3, 4) ∧
  PromotionFits ⟨.b, .pawn⟩ ⟨(1, 4), (3, 4), none⟩ ∧
  ¬ InCheck (r.position.boardAfter ⟨(1, 4), (3, 4), none⟩) .b

/-- Both parts are evaluated. -/
instance (r : Request) : Decidable r.AllowsE5 := inferInstanceAs (Decidable (_ ∧ _))

private theorem Request.AllowsE5.legal {r : Request} (h : r.AllowsE5) :
    LegalFor r.fen ⟨(1, 4), (3, 4), none⟩ := by
  obtain ⟨hfen, hpiece, hturn, hmove, hfits, hsafe⟩ := h
  rw [hfen]
  refine ⟨_, readFen_text _, Or.inl ⟨_, hpiece, hturn.symm, hmove, hfits, ?_⟩⟩
  rw [← hturn] at hsafe
  exact hsafe

/-- Neither a reply nor an event that changes what the engine was asked. -/
def quiet (_ : Page) : PageEvent → Bool
  | .reply .. | .undo | .newGame => false
  | _ => true

/-- The player's events, none of which the engine has to answer for. -/
def byPlayer (_ : Page) : PageEvent → Bool
  | .reply .. => false
  | _ => true

private theorem quiet_guards (p : Page) (e : PageEvent) (h : quiet p e) :
    EngineAnswers p e ∧ Undisturbed p e := by
  cases e with
  | reply i mv => cases h
  | undo => cases h
  | newGame => cases h
  | _ => exact ⟨trivial, trivial⟩

private theorem byPlayer_guard (p : Page) (e : PageEvent) (h : byPlayer p e) :
    EngineAnswers p e := by
  cases e with
  | reply i mv => cases h
  | _ => exact trivial

/-- The engine may answer 1... e5 to the first request. -/
theorem engineAnswers_e5 {p : Page} (h : ∃ r ∈ p.waiting[0]?, r.AllowsE5) :
    EngineAnswers p (.reply 0 (some ⟨(1, 4), (3, 4), none⟩)) := by
  obtain ⟨r, hr, hallows⟩ := h
  intro r' hr'
  obtain rfl := Option.mem_unique hr hr'
  exact hallows.legal

/-- White plays 1. e4, and the engine answers 1... e5. -/
theorem faithful_reachable_e5 : ∃ p, (page.restrict Undisturbed).Reachable p ∧
    p.applied.length = 1 ∧ p.game.moveLog.length = 2 ∧ p.Faithful := by
  have hscript : ∃ p ∈ Machine.script Page.step quiet .opened
      [.startGame .w, .click (6, 4), .click (4, 4)], (∃ r ∈ p.waiting[0]?, r.AllowsE5) ∧
      ∃ p' ∈ p.step (.reply 0 (some ⟨(1, 4), (3, 4), none⟩)),
        p'.applied.length = 1 ∧ p'.game.moveLog.length = 2 := by
    decide +kernel
  obtain ⟨p, hp, hasked, p', hp', hfacts⟩ := hscript
  have hrun := (Machine.script_reachable quiet_guards (.init rfl) hp).restrict_and
  have hrun' : (page.restrict Undisturbed).Reachable p' :=
    hrun.step (l := .reply 0 (some ⟨(1, 4), (3, 4), none⟩)) ⟨trivial, engineAnswers_e5 hasked, hp'⟩
  exact ⟨p', hrun', hfacts.1, hfacts.2, faithful_reachable hrun'⟩

/-- White plays 1. e4 and takes it back before the engine answers 1... e5: the reply is applied
to the initial position, of which the log knows nothing. -/
theorem not_faithful_undo : ¬ ∀ p, page.Reachable p → p.Faithful := by
  intro h
  have hscript : ∃ p ∈ Machine.script Page.step byPlayer .opened
      [.startGame .w, .click (6, 4), .click (4, 4), .undo], (∃ r ∈ p.waiting[0]?, r.AllowsE5) ∧
      ∃ p' ∈ p.step (.reply 0 (some ⟨(1, 4), (3, 4), none⟩)),
        ∃ a ∈ p'.applied[0]?, a.met.moveLog.length = 0 ∧ a.request.closure.moveLog.length = 1 := by
    decide +kernel
  obtain ⟨p, hp, hasked, p', hp', a, ha, hmet, hasked'⟩ := hscript
  have hrun : page.Reachable p := Machine.script_reachable byPlayer_guard (.init rfl) hp
  have hrun' : page.Reachable p' := hrun.step ⟨engineAnswers_e5 hasked, hp'⟩
  have hlog := ((h p' hrun').applied a (List.mem_of_getElem? ha)).2.2.2.2.2
  rw [hlog, hasked'] at hmet
  cases hmet

end ChessStack.Client
