import ChessStack.Client.Play
import Mathlib.Logic.Function.Iterate

/-!
# Taking moves back

Library `Client`. Each click that begins a move saves the state it met; `undo` puts the last saved
state back field by field. A promotion saves in the click and is finished by a later event. The
saved states are those the same game had before the clicks, so undoing leads back to a shorter game.
-/

namespace ChessStack.Client

open ChessStack.Chess

/-! ### Games -/

/-- The state after an event. -/
def GameState.react (g : GameState) : Event → GameState
  | .click s => (click g s).1
  | .doPromo k => (doPromo g k).1
  | .undo => undo g

/-- The state after some events from `reset`. -/
def stateAfter (events : List Event) : GameState := events.foldl GameState.react reset

/-- The click moves a piece, at once or after a promotion kind is chosen. -/
def GameState.begins (g : GameState) (s : Square) : Bool :=
  !(g.status = some .checkmate ∨ g.status = some .stalemate ∨ g.status = some .timeout ∨
    g.promo.isSome) && g.sel.any fun from_ ↦ g.moves.contains s && (g.board from_).isSome

/-- The moves not yet undone, by the events before the click that began each, after one more event. -/
def begunNext (events : List Event) (begun : List (List Event)) : Event → List (List Event)
  | .click s => if (stateAfter events).begins s then begun ++ [events] else begun
  | .doPromo _ => begun
  | .undo => if (stateAfter events).promo.isNone then begun.dropLast else begun

/-- The moves not yet undone after some events. -/
def begunRun : List Event → List (List Event) → List Event → List (List Event)
  | _, begun, [] => begun
  | before, begun, event :: rest => begunRun (before ++ [event]) (begunNext before begun event) rest

/-- The events since each state on the undo stack was left. -/
def begun (events : List Event) : List (List Event) := begunRun [] [] events

private theorem stateAfter_append (events later : List Event) :
    stateAfter (events ++ later) = later.foldl GameState.react (stateAfter events) :=
  List.foldl_append

private theorem stateAfter_concat (events : List Event) (event : Event) :
    stateAfter (events ++ [event]) = (stateAfter events).react event := stateAfter_append events _

private theorem begunRun_append (before : List Event) (moves : List (List Event))
    (events later : List Event) :
    begunRun before moves (events ++ later) =
      begunRun (before ++ events) (begunRun before moves events) later := by
  induction events generalizing before moves with
  | nil => rw [List.nil_append, List.append_nil, begunRun]
  | cons event events ih => rw [List.cons_append, begunRun, ih, begunRun, List.append_assoc, List.singleton_append]

private theorem begun_concat (events : List Event) (event : Event) :
    begun (events ++ [event]) = begunNext events (begun events) event := by
  rw [begun, begunRun_append, List.nil_append]
  rfl

/-! ### What is saved -/

/-- The saved states are those before the clicks that began the moves, one on top of the other. -/
inductive Stacked : List (List Event) → List Snapshot → Prop
  | nil : Stacked [] []
  | concat {moves : List (List Event)} {past : List Snapshot} {before : List Event} :
      Stacked moves past → (stateAfter before).past = past → (stateAfter before).promo = none →
      Stacked (moves ++ [before]) (past ++ [(stateAfter before).toSnapshot])

/-- A piece that moves saves the state it moves in. -/
theorem applyMove_past {g : GameState} {s t : Square} {promotion : Option Kind} {silent : Bool}
    (h : (g.board s).isSome) :
    (applyMove g s t promotion silent).1.past = g.past ++ [g.toSnapshot] := by
  obtain ⟨mp, hmp⟩ := Option.isSome_iff_exists.mp h
  unfold applyMove
  rw [hmp]
  dsimp only
  split
  · rfl
  · rfl

private theorem promo_of_begins {g : GameState} {s : Square} (h : g.begins s = true) :
    g.promo = none := by
  unfold GameState.begins at h
  rw [Bool.and_eq_true, Bool.not_eq_true', decide_eq_false_iff_not] at h
  rw [← Option.not_isSome_iff_eq_none]
  exact fun hpending ↦ h.1 (.inr (.inr (.inr hpending)))

/-- A click saves the state when it begins a move. -/
theorem click_past (g : GameState) (s : Square) :
    (click g s).1.past = if g.begins s then g.past ++ [g.toSnapshot] else g.past := by
  unfold GameState.begins click
  by_cases hover : g.status = some .checkmate ∨ g.status = some .stalemate ∨
      g.status = some .timeout ∨ g.promo.isSome
  · rw [if_pos hover, decide_eq_true hover]
    rfl
  · rw [if_neg hover, decide_eq_false hover, Bool.not_false, Bool.true_and]
    dsimp only
    cases hsel : g.sel with
    | none =>
      dsimp only
      split
      · rfl
      · rfl
    | some from_ =>
      rw [Option.any_some]
      by_cases hmove : g.moves.contains s = true
      · dsimp only
        rw [if_pos hmove, hmove, Bool.true_and]
        split
        · next hpiece => exact applyMove_past hpiece
        · next hpiece =>
          rw [Option.not_isSome_iff_eq_none] at hpiece
          rw [applyMove, hpiece]
      · dsimp only
        rw [if_neg hmove, Bool.eq_false_iff.mpr hmove]
        split
        · rfl
        · rfl

private theorem doPromo_past (g : GameState) (k : Kind) : (doPromo g k).1.past = g.past := by
  unfold doPromo
  split
  · rfl
  · rfl

private theorem undo_past {g : GameState} (h : g.promo = none) :
    (undo g).past = g.past.dropLast := by
  unfold undo
  rw [h]
  cases hlast : g.past.getLast? with
  | none => rw [List.getLast?_eq_none_iff.mp hlast, List.dropLast_nil]
  | some prev => rfl

private theorem undo_of_pending {g : GameState} (h : g.promo ≠ none) : undo g = g := by
  unfold undo
  split
  · next hnone => exact absurd hnone h
  · rfl

private theorem Stacked.dropLast {moves : List (List Event)} {past : List Snapshot}
    (h : Stacked moves past) :
    Stacked moves.dropLast past.dropLast := by
  cases h with
  | nil => exact .nil
  | concat h _ _ =>
    rw [List.dropLast_concat, List.dropLast_concat]
    exact h

private theorem stacked (events : List Event) :
    Stacked (begun events) (stateAfter events).past := by
  induction events using List.reverseRecOn with
  | nil => exact .nil
  | append_singleton events event ih =>
    rw [begun_concat, stateAfter_concat]
    cases event with
    | click s =>
      rw [begunNext, GameState.react, click_past]
      split
      · next hbegins => exact .concat ih rfl (promo_of_begins hbegins)
      · exact ih
    | doPromo k =>
      rw [begunNext, GameState.react, doPromo_past]
      exact ih
    | undo =>
      rw [begunNext, GameState.react]
      split
      · next hnone =>
        rw [undo_past (Option.isNone_iff_eq_none.mp hnone)]
        exact ih.dropLast
      · next hpending =>
        rw [undo_of_pending (by simpa using hpending)]
        exact ih

/-! ### Undoing -/

/-- The last saved state is the one before the click that began the last move. -/
theorem Stacked.last {moves : List (List Event)} {before : List Event} {past : List Snapshot}
    (h : Stacked (moves ++ [before]) past) :
    past = (stateAfter before).past ++ [(stateAfter before).toSnapshot] ∧
      (stateAfter before).promo = none ∧ Stacked moves (stateAfter before).past := by
  generalize hall : moves ++ [before] = all at h
  cases h with
  | nil => simp at hall
  | concat h hpast hpromo =>
    obtain ⟨rfl, hlast⟩ := List.append_inj' hall rfl
    obtain rfl := List.singleton_injective hlast
    exact ⟨by rw [hpast], hpromo, by rwa [hpast]⟩

/-- `undo` leads to the state before the click that began the last move. -/
theorem undo_eq {g : GameState} {moves : List (List Event)} {before : List Event}
    (h : Stacked (moves ++ [before]) g.past) (hpromo : g.promo = none) :
    undo g = stateAfter before := by
  obtain ⟨hpast, hbefore, -⟩ := h.last
  unfold undo
  rw [hpromo, hpast, List.getLast?_concat, List.dropLast_concat]
  dsimp only
  rw [← hbefore]

private theorem undo_iterate {g : GameState} {moves back : List (List Event)} {before : List Event}
    (h : Stacked (moves ++ before :: back) g.past) (hpromo : g.promo = none) :
    undo^[back.length + 1] g = stateAfter before := by
  induction back using List.reverseRecOn generalizing g with
  | nil => exact undo_eq h hpromo
  | append_singleton back last ih =>
    rw [← List.cons_append, ← List.append_assoc] at h
    obtain ⟨-, hlast, hrest⟩ := h.last
    rw [List.length_append, Function.iterate_succ_apply, undo_eq h hpromo]
    exact ih hrest hlast

private theorem stateAfter_undo (events : List Event) (k : Nat) :
    stateAfter (events ++ List.replicate k .undo) = undo^[k] (stateAfter events) := by
  induction k with
  | zero => rw [List.replicate_zero, List.append_nil, Function.iterate_zero_apply]
  | succ k ih =>
    rw [List.replicate_succ', ← List.append_assoc, stateAfter_concat, ih, Function.iterate_succ_apply']
    rfl

/-- Undos lead to the state before the click that began the last of the moves they undo, and a game
goes on from there as if these moves had never been made. With no move left, or one waiting for its
kind, `undo` does nothing. -/
theorem undo_exact (events : List Event) :
    ((stateAfter events).promo = none → ∀ k before, (begun events).reverse[k]? = some before →
      undo^[k + 1] (stateAfter events) = stateAfter before ∧
      ∀ later, stateAfter (events ++ List.replicate (k + 1) .undo ++ later) =
        stateAfter (before ++ later)) ∧
    (begun events = [] ∨ (stateAfter events).promo ≠ none →
      undo (stateAfter events) = stateAfter events) := by
  have hstacked := stacked events
  constructor
  · intro hpromo k before hbefore
    obtain ⟨hk, hget⟩ := List.getElem?_eq_some_iff.mp hbefore
    -- The moves up to `before`, and those begun after it.
    have hsplit : begun events = ((begun events).reverse.drop (k + 1)).reverse ++
        before :: ((begun events).reverse.take k).reverse := by
      rw [← List.reverse_inj, List.reverse_append, List.reverse_cons, List.reverse_reverse,
        List.reverse_reverse, ← hget, List.append_assoc, List.singleton_append,
        List.getElem_cons_drop, List.take_append_drop]
    have hundone : undo^[k + 1] (stateAfter events) = stateAfter before := by
      rw [hsplit] at hstacked
      have hiterate := undo_iterate hstacked hpromo
      rwa [List.length_reverse, List.length_take, Nat.min_eq_left (Nat.le_of_lt hk)] at hiterate
    refine ⟨hundone, fun later ↦ ?_⟩
    rw [stateAfter_append (events ++ _), stateAfter_undo, hundone, stateAfter_append]
  · rintro (hnone | hpending)
    · rw [hnone] at hstacked
      have hpast : (stateAfter events).past = [] := by
        generalize (stateAfter events).past = past at hstacked
        generalize hmoves : ([] : List (List Event)) = moves at hstacked
        cases hstacked with
        | nil => rfl
        | concat => simp at hmoves
      unfold undo
      rw [hpast]
      rfl
    · exact undo_of_pending hpending

/-- Undo after e4 gives the state with the pawn on e2 selected. -/
theorem undo_exact_pawn : undo (stateAfter [.click (6, 4), .click (4, 4)]) =
    stateAfter [.click (6, 4)] := by
  have hpromo : (stateAfter [.click (6, 4), .click (4, 4)]).promo.isNone = true := by decide +kernel
  have hbegins : (stateAfter [.click (6, 4)]).begins (4, 4) = true := by decide +kernel
  have hselects : (stateAfter []).begins (6, 4) = false := by decide +kernel
  have hbegun : begun [.click (6, 4), .click (4, 4)] = [[.click (6, 4)]] := by
    simp only [begun, begunRun, begunNext, List.nil_append, hselects, hbegins, if_true,
      Bool.false_eq_true, if_false]
  exact ((undo_exact [.click (6, 4), .click (4, 4)]).1 (Option.isNone_iff_eq_none.mp hpromo) 0 _
    (by rw [hbegun]; rfl)).1

end ChessStack.Client
