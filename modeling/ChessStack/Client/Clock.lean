import ChessStack.Client.Play

/-!
# The clocks of a local game

Library `Client`. `Chess-Frontend/src/hooks/useGameTimer.js` as `components/GameScreen.js` mounts
it, for a game with a time limit. Time passes by the millisecond. `onTimeout` is a new function
in every render, so each render clears the interval and starts another: the millisecond count of
a running second starts again.
-/

namespace ChessStack.Client

open ChessStack.Chess ChessStack.Library

/-- `time`: the seconds each side has left. -/
structure Clocks where
  w : Nat
  b : Nat
  deriving DecidableEq, Repr

/-- The clock of a colour. -/
def Clocks.of (time : Clocks) : Color → Nat
  | .w => time.w
  | .b => time.b

/-- `{ ...prev, [turn]: Math.max(0, prev[turn] - 1) }`. -/
def Clocks.charge (prev : Clocks) : Color → Clocks
  | .w => { prev with w := prev.w - 1 }
  | .b => { prev with b := prev.b - 1 }

/-- One of the two clocks shows no time. -/
def Clocks.Empty (time : Clocks) : Prop := time.w = 0 ∨ time.b = 0

/-- Both clocks are compared with zero. -/
instance (time : Clocks) : Decidable time.Empty := inferInstanceAs (Decidable (_ ∨ _))

/-- The time control of a timed game; with `minutes` zero or `null` no clock runs. -/
structure TimeControl where
  minutes : Nat
  timed : 0 < minutes

/-- `{ w: totalSeconds, b: totalSeconds }`. -/
def TimeControl.full (control : TimeControl) : Clocks := ⟨control.minutes * 60, control.minutes * 60⟩

/-- A running interval: the side its callback charges and the milliseconds since it last fired or
was started. -/
structure Interval where
  turn : Color
  phase : Nat
  deriving DecidableEq, Repr

/-- The mounted screen: the game, the state of `useGameTimer` and the hint. One hint request at
most is under way, while `thinking`. -/
structure Screen where
  game : GameState
  time : Clocks
  timeoutFired : Bool
  interval : Option Interval
  hint : Option (Square × Square)
  thinking : Bool

/-- `isRunning = !promo && !status`, `GameScreen.js:23`. -/
def Screen.isRunning (s : Screen) : Bool := s.game.promo.isNone && s.game.status.isNone

/-- A render: the effect of `useGameTimer.js:18–31` clears its interval and starts a new one. -/
def Screen.render (s : Screen) : Screen :=
  { s with interval := if s.isRunning then some ⟨s.game.turn, 0⟩ else none }

/-- The screen as it is mounted for a new game. -/
def Screen.mounted (control : TimeControl) : Screen :=
  Screen.render ⟨reset, control.full, false, none, none, false⟩

/-- The interval fires: the updater of `useGameTimer.js:21–28` charges a second and may call
`onTimeout`, which ends the game. The list holds the sides it was called for. -/
def Screen.tick (s : Screen) (turn : Color) : Screen × List Color :=
  let next := s.time.charge turn
  if next.of turn = 0 ∧ s.timeoutFired = false then
    (Screen.render { s with time := next, timeoutFired := true, game := (forceEnd s.game .timeout).1 },
      [turn])
  else (Screen.render { s with time := next }, [])

/-- A millisecond passes. -/
def Screen.elapse (s : Screen) : Screen × List Color :=
  match s.interval with
  | none => (s, [])
  | some i =>
    if i.phase + 1 = 1000 then s.tick i.turn
    else ({ s with interval := some { i with phase := i.phase + 1 } }, [])

/-- Whether `click(r, c)` calls a setter, `useChessGame.js:186–199`. Those it calls are given new
arrays, so the screen renders. -/
def GameState.clickSets (g : GameState) (sq : Square) : Bool :=
  !decide (g.status = some .checkmate ∨ g.status = some .stalemate ∨ g.status = some .timeout ∨
    g.promo.isSome) &&
  match g.sel with
  | some from_ => !g.moves.contains sq || (g.board from_).isSome
  | none => pcIs (g.board sq) g.turn

/-- What the players do, the reply to a hint request, and a millisecond passing. -/
inductive ScreenEvent where
  | click (sq : Square)
  | doPromo (k : Kind)
  | undo
  | newGame
  | askHint
  | reply (mv : Option Move)
  | elapse
  deriving DecidableEq

/-- `handleClick`: `setHint(null)` and `click` together render when one of them sets a new
value. -/
def Screen.handleClick (s : Screen) (sq : Square) : Screen :=
  let s' := { s with hint := none, game := (click s.game sq).1 }
  if s.hint.isSome || s.game.clickSets sq then s'.render else s'

/-- The screen after an event, with the calls of `onTimeout`; `none` where the screen offers no
such event. -/
def Screen.next (s : Screen) : ScreenEvent → Option (Screen × List Color)
  | .click sq => some (s.handleClick sq, [])
  | .doPromo k =>
    if s.game.promo.isSome ∧ k ∈ promotionKinds then
      some (Screen.render { s with game := (doPromo s.game k).1 }, [])
    else none
  | .undo =>
    if s.game.past ≠ [] ∧ s.game.promo.isNone then
      some (Screen.render { s with game := undo s.game }, [])
    else none
  | .newGame => some (Screen.render { s with game := reset }, [])
  | .askHint =>
    if s.game.status = none ∧ s.thinking = false ∧ s.game.promo.isNone then
      some (Screen.render { s with thinking := true }, [])
    else none
  | .reply mv =>
    if s.thinking then
      some (Screen.render
        { s with thinking := false, hint := (mv.map fun m ↦ (m.src, m.dst)).or s.hint }, [])
    else none
  | .elapse => some s.elapse

/-! ### What the clocks should show -/

/-- The game is not over and no promotion is pending. -/
def Screen.Live (s : Screen) : Prop :=
  s.game.promo = none ∧ s.game.status ≠ some .checkmate ∧ s.game.status ≠ some .stalemate ∧
    s.game.status ≠ some .timeout

/-- The phase of the game is compared with those at its end. -/
instance (s : Screen) : Decidable s.Live :=
  decidable_of_iff (s.game.promo.isNone ∧ s.game.status ≠ some .checkmate ∧
    s.game.status ≠ some .stalemate ∧ s.game.status ≠ some .timeout)
    (and_congr_left' Option.isNone_iff_eq_none)

/-- The running fraction of a second. -/
def Screen.phase (s : Screen) : Nat := (s.interval.map Interval.phase).getD 0

/-- What has happened in the game and in the present turn. A turn lasts while the side to move
stays the same: a move, an undo and New Game end it. -/
structure Ledger where
  /-- The clocks when the game began. -/
  begun : Clocks
  /-- The calls of `onTimeout` in the game. -/
  timeouts : List Color
  /-- The clocks when the turn began. -/
  start : Clocks
  /-- The milliseconds of the turn in which the game was live. -/
  elapsed : Nat
  /-- Those spent in check. -/
  checked : Nat
  /-- Those of the running fractions that a render cut off. -/
  cut : Nat
  /-- Those of the seconds that ended on an empty clock. -/
  idle : Nat

/-- The ledger of a game that begins. -/
def Ledger.opened (time : Clocks) : Ledger := ⟨time, [], time, 0, 0, 0, 0⟩

/-- A turn begins. -/
def Ledger.turned (l : Ledger) (time : Clocks) : Ledger :=
  { l with start := time, elapsed := 0, checked := 0, cut := 0, idle := 0 }

/-- A millisecond of the turn passes. -/
def Ledger.elapse (l : Ledger) (s : Screen) : Ledger :=
  if ¬ s.Live then l
  else if s.game.status = some .check then
    { l with elapsed := l.elapsed + 1, checked := l.checked + 1 }
  else if s.phase + 1 = 1000 ∧ s.time.of s.game.turn = 0 then
    { l with elapsed := l.elapsed + 1, idle := l.idle + 1000 }
  else { l with elapsed := l.elapsed + 1 }

/-- A handler has run: the turn goes on, without what was cut off the running fraction, or the
next one begins. -/
def Ledger.handled (l : Ledger) (s s' : Screen) : Ledger :=
  if s'.game.turn = s.game.turn then { l with cut := l.cut + (s.phase - s'.phase) }
  else l.turned s'.time

/-- The ledger after an event that led from one screen to another. -/
def Ledger.after (l : Ledger) (s s' : Screen) (calls : List Color) : ScreenEvent → Ledger
  | .newGame => .opened s'.time
  | .elapse => { l.elapse s with timeouts := l.timeouts ++ calls }
  | _ => l.handled s s'

/-- A screen and its ledger. -/
structure Audit where
  screen : Screen
  ledger : Ledger

/-- The screen goes on, and the ledger with it. -/
def Audit.next (a : Audit) (e : ScreenEvent) : Option Audit :=
  (a.screen.next e).map fun (s', calls) ↦ ⟨s', a.ledger.after a.screen s' calls e⟩

/-- The ledger of a screen that opens. -/
def Audit.opened (control : TimeControl) : Audit := ⟨.mounted control, .opened control.full⟩

/-- One mounted screen, from the start of its first game. -/
def localPlay (control : TimeControl) : Machine Audit ScreenEvent :=
  .ofStep (.opened control) Audit.next

/-- The clock of the side to move has been charged the time that has passed in the turn, up to a
second, and the other clock nothing; the game began with full clocks; it was ended by a timeout
once if a clock is empty, and else never. -/
structure Audit.Lawful (control : TimeControl) (a : Audit) : Prop where
  charged : ∃ seconds, a.screen.time.of a.screen.game.turn + seconds =
      a.ledger.start.of a.screen.game.turn ∧
    1000 * seconds ≤ a.ledger.elapsed ∧ a.ledger.elapsed ≤ 1000 * seconds + 1000
  other : a.screen.time.of a.screen.game.turn.other = a.ledger.start.of a.screen.game.turn.other
  fresh : a.ledger.begun = control.full
  once : a.ledger.timeouts.length = if a.screen.time.Empty then 1 else 0

/-- The milliseconds of the turn that no second on the clock will stand for: those in check, the
fractions cut off by renders and the seconds that ended on an empty clock. -/
def Ledger.lost (l : Ledger) : Nat := l.checked + l.cut + l.idle

/-- New Game is only chosen while both clocks are full, and while the game is live no millisecond
passes after a whole second of the turn was lost or is running, unless it is the last of a
second on a clock that is not empty. -/
def Audit.Guard (control : TimeControl) (a : Audit) : ScreenEvent → Prop
  | .newGame => a.screen.time = control.full
  | .elapse => a.screen.Live → a.ledger.lost + a.screen.phase < 1000 ∨
      a.screen.phase + 1 = 1000 ∧ a.screen.time.of a.screen.game.turn ≠ 0
  | _ => True

/-- The guard is evaluated on the event. -/
instance (control : TimeControl) (a : Audit) : (e : ScreenEvent) → Decidable (a.Guard control e)
  | .newGame => inferInstanceAs (Decidable (_ = _))
  | .elapse => inferInstanceAs (Decidable (_ → _))
  | .click _ | .doPromo _ | .undo | .askHint | .reply _ => inferInstanceAs (Decidable True)

/-! ### Renders and ticks -/

@[simp] private theorem Clocks.of_charge (time : Clocks) (c : Color) :
    (time.charge c).of c = time.of c - 1 := by
  cases c <;> rfl

@[simp] private theorem Clocks.of_charge_other (time : Clocks) (c : Color) :
    (time.charge c).of c.other = time.of c.other := by
  cases c <;> rfl

private theorem Clocks.empty_iff (time : Clocks) (c : Color) :
    time.Empty ↔ time.of c = 0 ∨ time.of c.other = 0 := by
  cases c
  · exact Iff.rfl
  · exact or_comm

private theorem TimeControl.full_not_empty (control : TimeControl) : ¬ control.full.Empty := by
  have := control.timed
  simp only [Clocks.Empty, TimeControl.full]
  omega

/-- The interval runs exactly while `isRunning`, for the side to move. -/
structure Screen.Wired (s : Screen) : Prop where
  interval : s.interval = if s.isRunning then some ⟨s.game.turn, s.phase⟩ else none
  phase : s.phase < 1000

private theorem Screen.render_phase (s : Screen) : s.render.phase = 0 := by
  unfold Screen.phase Screen.render
  cases s.isRunning <;> rfl

private theorem Screen.render_wired (s : Screen) : s.render.Wired where
  interval := by
    rw [s.render_phase]
    rfl
  phase := by
    rw [s.render_phase]
    exact Nat.zero_lt_succ _

private theorem Screen.Wired.phase_of_not_running {s : Screen} (h : s.Wired)
    (hrun : s.isRunning = false) :
    s.phase = 0 := by
  have hinterval := h.interval
  rw [hrun] at hinterval
  rw [Screen.phase, hinterval]
  rfl

private theorem Screen.isRunning_iff (s : Screen) :
    s.isRunning = true ↔ s.Live ∧ s.game.status ≠ some .check := by
  unfold Screen.isRunning Screen.Live
  rw [Bool.and_eq_true, Option.isNone_iff_eq_none, Option.isNone_iff_eq_none]
  constructor
  · rintro ⟨hpromo, hstatus⟩
    rw [hstatus]
    exact ⟨⟨hpromo, nofun, nofun, nofun⟩, nofun⟩
  · rintro ⟨⟨hpromo, hmate, hstale, htimeout⟩, hcheck⟩
    refine ⟨hpromo, ?_⟩
    cases hs : s.game.status with
    | none => rfl
    | some status =>
      rw [hs] at hmate hstale htimeout hcheck
      cases status <;> contradiction

/-- A second passes for the side to move. -/
structure Screen.Ticked (s s' : Screen) (calls : List Color) : Prop where
  wired : s'.Wired
  phase : s'.phase = 0
  turn : s'.game.turn = s.game.turn
  time : s'.time = s.time.charge s.game.turn
  calls : calls = if (s.time.charge s.game.turn).of s.game.turn = 0 ∧ s.timeoutFired = false then
    [s.game.turn] else []
  fired : s'.timeoutFired = true ↔
    s.timeoutFired = true ∨ (s.time.charge s.game.turn).of s.game.turn = 0

private theorem Screen.tick_ticked (s : Screen) :
    s.Ticked (s.tick s.game.turn).1 (s.tick s.game.turn).2 := by
  unfold Screen.tick
  dsimp only
  split
  · next h =>
    refine ⟨render_wired _, render_phase _, rfl, rfl, ?_, ?_⟩
    · rw [if_pos h]
    · simp [Screen.render, h.1]
  · next h =>
    refine ⟨render_wired _, render_phase _, rfl, rfl, ?_, ?_⟩
    · rw [if_neg h]
    · rw [not_and, Bool.not_eq_false] at h
      exact ⟨Or.inl, fun hor ↦ hor.elim id h⟩

/-- What a millisecond does: nothing to a game that is not live; in check only the turn grows
longer; otherwise the interval counts it, and fires if it ends a second. -/
theorem Screen.Wired.elapse_cases {s : Screen} (h : s.Wired) (l : Ledger) :
    (¬ s.Live ∧ s.elapse = (s, []) ∧ l.elapse s = l) ∨
    (s.Live ∧ s.phase = 0 ∧ s.elapse = (s, []) ∧
      l.elapse s = { l with elapsed := l.elapsed + 1, checked := l.checked + 1 }) ∨
    (s.Live ∧ s.phase + 1 < 1000 ∧ s.isRunning = true ∧
      s.elapse = ({ s with interval := some ⟨s.game.turn, s.phase + 1⟩ }, []) ∧
      l.elapse s = { l with elapsed := l.elapsed + 1 }) ∨
    (s.Live ∧ s.phase + 1 = 1000 ∧ s.elapse = s.tick s.game.turn ∧
      l.elapse s = if s.time.of s.game.turn = 0 then
        { l with elapsed := l.elapsed + 1, idle := l.idle + 1000 }
      else { l with elapsed := l.elapsed + 1 }) := by
  have hinterval := h.interval
  by_cases hlive : s.Live
  · refine Or.inr ?_
    by_cases hcheck : s.game.status = some .check
    · have hrun : s.isRunning = false :=
        Bool.eq_false_iff.mpr fun hrun ↦ (s.isRunning_iff.mp hrun).2 hcheck
      rw [hrun] at hinterval
      refine Or.inl ⟨hlive, h.phase_of_not_running hrun, ?_, ?_⟩
      · rw [Screen.elapse, hinterval]
        rfl
      · rw [Ledger.elapse, if_neg (not_not_intro hlive), if_pos hcheck]
    · have hrun : s.isRunning = true := s.isRunning_iff.mpr ⟨hlive, hcheck⟩
      rw [hrun, if_pos rfl] at hinterval
      refine Or.inr ?_
      rw [Screen.elapse, hinterval, Ledger.elapse, if_neg (not_not_intro hlive), if_neg hcheck]
      dsimp only
      by_cases hend : s.phase + 1 = 1000
      · refine Or.inr ⟨hlive, hend, if_pos hend, ?_⟩
        simp only [hend, true_and]
      · have := h.phase
        refine Or.inl ⟨hlive, by omega, hrun, if_neg hend, ?_⟩
        rw [if_neg fun hand ↦ hend hand.1]
  · have hrun : s.isRunning = false :=
      Bool.eq_false_iff.mpr fun hrun ↦ hlive (s.isRunning_iff.mp hrun).1
    rw [hrun] at hinterval
    refine Or.inl ⟨hlive, ?_, if_pos hlive⟩
    rw [Screen.elapse, hinterval]
    rfl

/-! ### The other events -/

/-- A click that calls no setter leaves the game as it is. -/
theorem click_of_not_sets {g : GameState} {sq : Square} (h : g.clickSets sq = false) :
    (click g sq).1 = g := by
  unfold GameState.clickSets at h
  unfold click
  split
  · rfl
  · next hopen =>
    rw [decide_eq_false hopen, Bool.not_false, Bool.true_and] at h
    dsimp only
    cases hsel : g.sel with
    | none =>
      rw [hsel] at h
      dsimp only at h ⊢
      rw [h, if_neg Bool.false_ne_true]
    | some from_ =>
      rw [hsel] at h
      dsimp only at h ⊢
      rw [Bool.or_eq_false_iff, Bool.not_eq_false'] at h
      rw [if_pos h.1, applyMove, Option.not_isSome_iff_eq_none.mp (Bool.eq_false_iff.mp h.2)]

/-- The handlers leave the clocks alone, and either the screen renders or game and interval stay
as they are. -/
structure Screen.Handled (s s' : Screen) : Prop where
  time : s'.time = s.time
  fired : s'.timeoutFired = s.timeoutFired
  shown : (s'.Wired ∧ s'.phase = 0) ∨ (s'.game = s.game ∧ s'.interval = s.interval)

private theorem Screen.handleClick_handled (s : Screen) (sq : Square) : s.Handled
    (s.handleClick sq) := by
  unfold Screen.handleClick
  dsimp only
  split
  · exact ⟨rfl, rfl, Or.inl ⟨render_wired _, render_phase _⟩⟩
  · next h =>
    rw [Bool.not_eq_true, Bool.or_eq_false_iff] at h
    exact ⟨rfl, rfl, Or.inr ⟨click_of_not_sets h.2, rfl⟩⟩

private theorem Screen.next_handled {s s' : Screen} {e : ScreenEvent} {calls : List Color}
    (h : s.next e = some (s', calls)) (he : e ≠ .elapse) : s.Handled s' := by
  have hrender : ∀ r : Screen, r.time = s.time → r.timeoutFired = s.timeoutFired →
      s.Handled r.render :=
    fun r htime hfired ↦ ⟨htime, hfired, Or.inl ⟨render_wired _, render_phase _⟩⟩
  cases e with
  | click sq =>
    cases h
    exact s.handleClick_handled sq
  | newGame =>
    cases h
    exact hrender _ rfl rfl
  | elapse => exact absurd rfl he
  | _ =>
    simp only [Screen.next, Option.ite_none_right_eq_some, Option.some.injEq, Prod.mk.injEq] at h
    obtain ⟨-, rfl, -⟩ := h
    exact hrender _ rfl rfl

/-! ### The accounts -/

/-- The elapsed time of the turn is what its clock was charged, what was lost and the running
fraction. -/
structure Audit.Balanced (a : Audit) : Prop where
  wired : a.screen.Wired
  charged : ∃ seconds, a.screen.time.of a.screen.game.turn + seconds =
      a.ledger.start.of a.screen.game.turn ∧
    a.ledger.elapsed = 1000 * seconds + a.ledger.lost + a.screen.phase
  other : a.screen.time.of a.screen.game.turn.other = a.ledger.start.of a.screen.game.turn.other

private theorem Audit.Balanced.opened (control : TimeControl) :
    (Audit.opened control).Balanced where
  wired := Screen.render_wired _
  charged := ⟨0, rfl, rfl⟩
  other := rfl

/-- A new turn begins when a render shows it. -/
theorem Audit.balanced_turned {s : Screen} {l : Ledger} (hw : s.Wired) (hphase : s.phase = 0) :
    Audit.Balanced ⟨s, l.turned s.time⟩ where
  wired := hw
  charged := ⟨0, rfl, by rw [hphase]; rfl⟩
  other := rfl

/-- A handler loses what is cut off the running fraction. -/
theorem Audit.Balanced.handled {a : Audit} {s' : Screen} (h : a.Balanced)
    (hs : a.screen.Handled s') :
    Audit.Balanced ⟨s', a.ledger.handled a.screen s'⟩ := by
  unfold Ledger.handled
  rcases hs.shown with ⟨hwired, hphase⟩ | ⟨hgame, hinterval⟩
  · split
    · next hturn =>
      obtain ⟨seconds, hstart, helapsed⟩ := h.charged
      refine ⟨hwired, ⟨seconds, ?_, ?_⟩, ?_⟩
      · rw [hturn, hs.time]
        exact hstart
      · simp only [Ledger.lost] at helapsed ⊢
        omega
      · rw [hturn, hs.time]
        exact h.other
    · exact balanced_turned hwired hphase
  · have hphase : s'.phase = a.screen.phase := by rw [Screen.phase, hinterval, Screen.phase]
    rw [if_pos (by rw [hgame]), hphase, Nat.sub_self, Nat.add_zero]
    refine ⟨⟨?_, hphase ▸ h.wired.phase⟩, ?_, ?_⟩
    · rw [hphase, hinterval, h.wired.interval, Screen.isRunning, Screen.isRunning, hgame]
    · rw [hphase, hgame, hs.time]
      exact h.charged
    · rw [hgame, hs.time]
      exact h.other

/-- What a millisecond does to the accounts. -/
theorem Audit.Balanced.elapse {a : Audit} (h : a.Balanced) :
    Audit.Balanced ⟨a.screen.elapse.1, { a.ledger.elapse a.screen with
      timeouts := a.ledger.timeouts ++ a.screen.elapse.2 }⟩ := by
  obtain ⟨seconds, hstart, helapsed⟩ := h.charged
  rcases h.wired.elapse_cases a.ledger with ⟨-, hs, hl⟩ | ⟨-, -, hs, hl⟩ | ⟨-, hlt, hrun, hs, hl⟩ |
    ⟨-, hend, hs, hl⟩
  · rw [hs, hl]
    exact ⟨h.wired, h.charged, h.other⟩
  · rw [hs, hl]
    refine ⟨h.wired, ⟨seconds, hstart, ?_⟩, h.other⟩
    simp only [Ledger.lost] at helapsed ⊢
    omega
  · rw [hs, hl]
    refine ⟨⟨?_, hlt⟩, ⟨seconds, hstart, ?_⟩, h.other⟩
    · exact (if_pos hrun).symm
    · change a.ledger.elapsed + 1 = 1000 * seconds + a.ledger.lost + (a.screen.phase + 1)
      omega
  · rw [hs, hl]
    have htick := a.screen.tick_ticked
    refine ⟨htick.wired, ?_, ?_⟩
    · dsimp only
      rw [htick.phase, htick.turn, htick.time, Clocks.of_charge]
      split
      · next hzero =>
        refine ⟨seconds, ?_, ?_⟩
        · rw [hzero] at hstart ⊢
          exact hstart
        · simp only [Ledger.lost] at helapsed ⊢
          omega
      · refine ⟨seconds + 1, ?_, ?_⟩
        · dsimp only
          omega
        · simp only [Ledger.lost] at helapsed ⊢
          omega
    · dsimp only
      rw [htick.turn, htick.time, Clocks.of_charge_other]
      split
      · exact h.other
      · exact h.other

private theorem Audit.next_eq {a a' : Audit} {e : ScreenEvent} (h : a.next e = some a') :
    ∃ s' calls, a.screen.next e = some (s', calls) ∧
      a' = ⟨s', a.ledger.after a.screen s' calls e⟩ := by
  obtain ⟨⟨s', calls⟩, hs, rfl⟩ := Option.map_eq_some_iff.mp h
  exact ⟨s', calls, hs, rfl⟩

private theorem Audit.Balanced.step {a a' : Audit} {e : ScreenEvent} (h : a.Balanced)
    (hst : a.next e = some a') : a'.Balanced := by
  obtain ⟨s', calls, hs, rfl⟩ := next_eq hst
  cases e with
  | elapse =>
    obtain rfl : s' = a.screen.elapse.1 := (congrArg Prod.fst (Option.some.inj hs)).symm
    obtain rfl : calls = a.screen.elapse.2 := (congrArg Prod.snd (Option.some.inj hs)).symm
    exact h.elapse
  | newGame =>
    cases hs
    exact balanced_turned (l := .opened a.screen.time) (Screen.render_wired _)
      (Screen.render_phase _)
  | _ => exact h.handled (a.screen.next_handled hs nofun)

/-- The accounts balance throughout every run. -/
theorem balanced_invariant (control : TimeControl) :
    (localPlay control).Invariant Audit.Balanced where
  init a ha := by
    obtain rfl := ha
    exact .opened control
  step _ _ _ h hst := h.step hst

/-! ### Exactly when the clocks are right -/

/-- The accounts of a screen show what its clocks should show when not too much is lost. -/
theorem Audit.Balanced.lawful_iff {control : TimeControl} {a : Audit} (h : a.Balanced) :
    a.Lawful control ↔ a.ledger.lost + a.screen.phase ≤ 1000 ∧ a.ledger.begun = control.full ∧
      a.ledger.timeouts.length = if a.screen.time.Empty then 1 else 0 := by
  obtain ⟨seconds, hstart, helapsed⟩ := h.charged
  constructor
  · rintro ⟨⟨seconds', hstart', -, hle⟩, -, hfresh, honce⟩
    obtain rfl : seconds' = seconds := by omega
    exact ⟨by omega, hfresh, honce⟩
  · rintro ⟨hle, hfresh, honce⟩
    exact ⟨⟨seconds, hstart, by omega, by omega⟩, h.other, hfresh, honce⟩

/-- In a guarded run the timeout flag says that a clock of the present game is empty. -/
structure Audit.Kept (control : TimeControl) (a : Audit) : Prop where
  balanced : a.Balanced
  lawful : a.Lawful control
  fired : a.screen.timeoutFired = true ↔ a.screen.time.Empty

private theorem Audit.Kept.opened (control : TimeControl) :
    (Audit.opened control).Kept control where
  balanced := .opened control
  lawful := (Balanced.opened control).lawful_iff.mpr
    ⟨Nat.zero_le _, rfl, (if_neg control.full_not_empty).symm⟩
  fired := ⟨nofun, fun h ↦ absurd h control.full_not_empty⟩

/-- What is lost or running grows by the millisecond that passes in a live game, unless a second
is charged. -/
theorem Audit.Balanced.lost_elapse {a : Audit} (h : a.Balanced) :
    (a.ledger.elapse a.screen).lost + a.screen.elapse.1.phase =
      if ¬ a.screen.Live then a.ledger.lost + a.screen.phase
      else if a.screen.phase + 1 = 1000 ∧ a.screen.time.of a.screen.game.turn ≠ 0 then
        a.ledger.lost
      else a.ledger.lost + a.screen.phase + 1 := by
  rcases h.wired.elapse_cases a.ledger with ⟨hlive, hs, hl⟩ | ⟨hlive, hphase, hs, hl⟩ |
    ⟨hlive, hlt, -, hs, hl⟩ | ⟨hlive, hend, hs, hl⟩
  · rw [hs, hl, if_pos hlive]
  · rw [hs, hl, if_neg (not_not_intro hlive), if_neg (by omega)]
    simp only [Ledger.lost]
    omega
  · rw [hs, hl, if_neg (not_not_intro hlive), if_neg (by omega)]
    rfl
  · rw [hs, hl, if_neg (not_not_intro hlive), a.screen.tick_ticked.phase]
    by_cases hzero : a.screen.time.of a.screen.game.turn = 0
    · rw [if_pos hzero, if_neg fun hand ↦ hand.2 hzero]
      simp only [Ledger.lost]
      omega
    · rw [if_neg hzero, if_pos ⟨hend, hzero⟩]
      rfl

/-- A handler loses no more than was running, and neither begins nor ends a game. -/
theorem Audit.handled_lost (a : Audit) {s' : Screen} (hs : a.screen.Handled s') :
    (a.ledger.handled a.screen s').lost + s'.phase ≤ a.ledger.lost + a.screen.phase ∧
      (a.ledger.handled a.screen s').begun = a.ledger.begun ∧
      (a.ledger.handled a.screen s').timeouts = a.ledger.timeouts := by
  have hphase : s'.phase = 0 ∨ s'.phase = a.screen.phase ∧ s'.game = a.screen.game := by
    rcases hs.shown with ⟨-, hphase⟩ | ⟨hgame, hinterval⟩
    · exact Or.inl hphase
    · exact Or.inr ⟨by rw [Screen.phase, hinterval, Screen.phase], hgame⟩
  unfold Ledger.handled
  split
  · refine ⟨?_, rfl, rfl⟩
    simp only [Ledger.lost]
    omega
  · next hturn =>
    have hzero : s'.phase = 0 :=
      hphase.resolve_right fun hsame ↦ hturn (by rw [hsame.2])
    refine ⟨?_, rfl, rfl⟩
    simp only [Ledger.lost, Ledger.turned]
    omega

/-- A millisecond ends the game when it empties the first clock. -/
theorem Audit.Kept.elapse_once {control : TimeControl} {a : Audit} (h : a.Kept control) :
    (a.ledger.timeouts ++ a.screen.elapse.2).length =
        (if a.screen.elapse.1.time.Empty then 1 else 0) ∧
      (a.screen.elapse.1.timeoutFired = true ↔ a.screen.elapse.1.time.Empty) := by
  have honce := h.lawful.once
  rcases h.balanced.wired.elapse_cases a.ledger with ⟨-, hs, -⟩ | ⟨-, -, hs, -⟩ | ⟨-, -, -, hs, -⟩ |
    ⟨-, -, hs, -⟩
  · rw [hs, List.append_nil]
    exact ⟨honce, h.fired⟩
  · rw [hs, List.append_nil]
    exact ⟨honce, h.fired⟩
  · rw [hs, List.append_nil]
    exact ⟨honce, h.fired⟩
  · have htick := a.screen.tick_ticked
    have hempty : (a.screen.time.charge a.screen.game.turn).Empty ↔ a.screen.time.Empty ∨
        (a.screen.time.charge a.screen.game.turn).of a.screen.game.turn = 0 := by
      rw [Clocks.empty_iff _ a.screen.game.turn, Clocks.empty_iff _ a.screen.game.turn,
        Clocks.of_charge, Clocks.of_charge_other]
      omega
    rw [hs, htick.time, htick.fired, h.fired]
    refine ⟨?_, hempty.symm⟩
    simp only [hempty]
    rw [List.length_append, honce, htick.calls]
    by_cases hbefore : a.screen.time.Empty
    · rw [if_pos hbefore, h.fired.mpr hbefore]
      simp [hbefore]
    · have hfired : a.screen.timeoutFired = false :=
        Bool.eq_false_iff.mpr fun hf ↦ hbefore (h.fired.mp hf)
      rw [if_neg hbefore, hfired]
      by_cases hzero : (a.screen.time.charge a.screen.game.turn).of a.screen.game.turn = 0
      · rw [if_pos ⟨hzero, rfl⟩, if_pos (Or.inr hzero)]
        rfl
      · rw [if_neg fun hand ↦ hzero hand.1, if_neg fun hor ↦ hor.elim hbefore hzero]
        rfl

/-- An event keeps the clocks right exactly when it meets the guard. -/
theorem Audit.Kept.lawful_step {control : TimeControl} {a a' : Audit} {e : ScreenEvent}
    (h : a.Kept control) (hst : a.next e = some a') :
    a'.Lawful control ↔ a.Guard control e := by
  rw [(h.balanced.step hst).lawful_iff]
  obtain ⟨hle, hfresh, honce⟩ := h.balanced.lawful_iff.mp h.lawful
  obtain ⟨s', calls, hs, rfl⟩ := next_eq hst
  cases e with
  | elapse =>
    obtain rfl : s' = a.screen.elapse.1 := (congrArg Prod.fst (Option.some.inj hs)).symm
    obtain rfl : calls = a.screen.elapse.2 := (congrArg Prod.snd (Option.some.inj hs)).symm
    have hbegun : (a.ledger.elapse a.screen).begun = a.ledger.begun := by
      unfold Ledger.elapse
      repeat' split
      all_goals rfl
    have hlost := h.balanced.lost_elapse
    change (a.ledger.elapse a.screen).lost + a.screen.elapse.1.phase ≤ 1000 ∧
      (a.ledger.elapse a.screen).begun = control.full ∧ _ ↔
      (a.screen.Live → a.ledger.lost + a.screen.phase < 1000 ∨ _)
    rw [hlost, hbegun, and_iff_left ⟨hfresh, h.elapse_once.1⟩]
    by_cases hlive : a.screen.Live
    · rw [if_neg (not_not_intro hlive), forall_prop_of_true hlive]
      split
      · next hcharged => exact ⟨fun _ ↦ Or.inr hcharged, fun _ ↦ by omega⟩
      · next hlostms => rw [or_iff_left hlostms, Nat.lt_iff_add_one_le]
    · rw [if_pos hlive]
      exact ⟨fun _ hl ↦ absurd hl hlive, fun _ ↦ hle⟩
  | newGame =>
    cases hs
    change 0 + Screen.phase (Screen.render _) ≤ 1000 ∧ a.screen.time = control.full ∧
      0 = (if a.screen.time.Empty then 1 else 0) ↔ a.screen.time = control.full
    rw [Screen.render_phase]
    refine ⟨fun hlaw ↦ hlaw.2.1, fun hfull ↦ ⟨Nat.zero_le _, hfull, ?_⟩⟩
    rw [hfull, if_neg control.full_not_empty]
  | _ =>
    obtain ⟨hlost, hbegun, htimeouts⟩ := Audit.handled_lost a (a.screen.next_handled hs nofun)
    have htime := (a.screen.next_handled hs nofun).time
    refine iff_true_intro ⟨?_, ?_, ?_⟩
    · exact Nat.le_trans hlost hle
    · exact hbegun.trans hfresh
    · change (a.ledger.handled a.screen s').timeouts.length = if s'.time.Empty then 1 else 0
      rw [htimeouts, htime]
      exact honce

/-- A step that meets the guard keeps the timeout flag in order. -/
theorem Audit.Kept.step {control : TimeControl} {a a' : Audit} {e : ScreenEvent}
    (h : a.Kept control) (hguard : a.Guard control e) (hst : a.next e = some a') :
    a'.Kept control := by
  refine ⟨h.balanced.step hst, (h.lawful_step hst).mpr hguard, ?_⟩
  obtain ⟨s', calls, hs, rfl⟩ := next_eq hst
  cases e with
  | elapse =>
    obtain rfl : s' = a.screen.elapse.1 := (congrArg Prod.fst (Option.some.inj hs)).symm
    exact h.elapse_once.2
  | _ =>
    have hhandled := a.screen.next_handled hs nofun
    dsimp only
    rw [hhandled.fired, hhandled.time]
    exact h.fired

/-- The clocks of a local game are right as long as the guard is met, and not a step longer. -/
theorem localPlay_exact (control : TimeControl) {a : Audit}
    (h : ((localPlay control).restrict (Audit.Guard control)).Reachable a) :
    a.Lawful control ∧ ∀ e a', (localPlay control).step a e a' →
      (a'.Lawful control ↔ a.Guard control e) := by
  have hkept : a.Kept control := by
    induction h with
    | init hinit =>
      obtain rfl := hinit
      exact .opened control
    | step _ hst ih => exact ih.step hst.1 hst.2
  exact ⟨hkept.lawful, fun e a' hst ↦ hkept.lawful_step hst⟩

/-- A game of three minutes a side. -/
def threeMinutes : TimeControl := ⟨3, by decide⟩

/-- White thinks for two milliseconds and marks the king's pawn in between. -/
theorem localPlay_exact_marked :
    ∃ a, ((localPlay threeMinutes).restrict (Audit.Guard threeMinutes)).Reachable a ∧
      a.ledger.elapsed = 2 ∧ a.Lawful threeMinutes ∧ ∀ e a', (localPlay threeMinutes).step a e a' →
        (a'.Lawful threeMinutes ↔ a.Guard threeMinutes e) := by
  have hrun : (Machine.script Audit.next (fun a e ↦ decide (a.Guard threeMinutes e))
      (.opened threeMinutes) [.elapse, .click (6, 4), .elapse]).any
        (fun a ↦ decide (a.ledger.elapsed = 2)) = true := by decide +kernel
  obtain ⟨a, ha, helapsed⟩ := (Option.any_eq_true _ _).mp hrun
  have hreach := Machine.script_reachable (fun _ _ h ↦ of_decide_eq_true h) (.init rfl) ha
  exact ⟨a, hreach, of_decide_eq_true helapsed, localPlay_exact threeMinutes hreach⟩

/-- In check time passes and no clock is charged. -/
theorem Audit.elapse_in_check {s : Screen} (hw : s.Wired) (hlive : s.Live)
    (hcheck : s.game.status = some .check) (l : Ledger) (n : Nat) :
    (List.replicate n .elapse).foldlM Audit.next ⟨s, l⟩ =
      some ⟨s, { l with elapsed := l.elapsed + n, checked := l.checked + n }⟩ := by
  have hnone : s.interval = none := by
    have hrun : s.isRunning = false :=
      Bool.eq_false_iff.mpr fun hrun ↦ (s.isRunning_iff.mp hrun).2 hcheck
    rw [hw.interval, hrun]
    rfl
  induction n generalizing l with
  | zero => rfl
  | succ n ih =>
    have hms : Audit.next ⟨s, l⟩ .elapse =
        some ⟨s, { l with elapsed := l.elapsed + 1, checked := l.checked + 1 }⟩ := by
      simp only [next, Screen.next, Screen.elapse, hnone, Option.map_some, Ledger.after,
        Ledger.elapse, if_neg (not_not_intro hlive), if_pos hcheck, List.append_nil]
    rw [List.replicate_succ, List.foldlM_cons, hms, Option.bind_eq_bind, Option.bind_some, ih,
      Nat.add_assoc, Nat.add_assoc, Nat.add_comm 1 n]

/-- 1. e4 f6 2. Qh5+, and Black thinks for a second and a millisecond. -/
theorem not_lawful_in_check : ¬ ∀ a, (localPlay threeMinutes).Reachable a →
    a.Lawful threeMinutes := by
  intro h
  have hrun : ([.click (6, 4), .click (4, 4), .click (1, 5), .click (2, 5), .click (7, 3),
      .click (3, 7)].foldlM Audit.next (.opened threeMinutes)).any (fun a ↦
        decide (a.screen.Live ∧ a.screen.game.status = some .check ∧
          a.screen.time = a.ledger.start ∧ a.ledger.elapsed = 0)) = true := by
    decide +kernel
  obtain ⟨a, ha, hfacts⟩ := (Option.any_eq_true _ _).mp hrun
  obtain ⟨hlive, hcheck, htime, helapsed⟩ := of_decide_eq_true hfacts
  have hreach : (localPlay threeMinutes).Reachable a :=
    Machine.Reachable.foldlM (fun _ _ _ h ↦ h) (.init rfl) ha
  have hlate := Machine.Reachable.foldlM (fun _ _ _ h ↦ h) hreach
    (Audit.elapse_in_check ((balanced_invariant _).reachable hreach).wired hlive hcheck a.ledger 1001)
  obtain ⟨seconds, hstart, -, hle⟩ := (h _ hlate).charged
  dsimp only at hstart hle
  rw [htime] at hstart
  omega

end ChessStack.Client
