import ChessStack.Library.Machine

/-!
# Recorded runs

Library `Library`. A machine that keeps the labels of the steps it has taken, so that a state can be
traced to the steps that led to it.
-/

namespace ChessStack.Library.Machine

universe u v

variable {State : Type u} {Label : Type v} {M : Machine State Label}

/-- The machine with the labels of its steps so far, the first step first. -/
def recorded (M : Machine State Label) : Machine (State × List Label) Label where
  init p := M.init p.1 ∧ p.2 = []
  step p l p' := M.step p.1 l p'.1 ∧ p'.2 = p.2 ++ [l]

/-- What holds of the state and the labels so far, and is kept by every step. -/
theorem recorded_invariant {I : State → List Label → Prop} (hinit : ∀ s, M.init s → I s [])
    (hstep : ∀ s past l s', I s past → M.step s l s' → I s' (past ++ [l])) {s : State}
    {past : List Label} (h : M.recorded.Reachable (s, past)) : I s past := by
  refine Invariant.reachable (M := M.recorded) (I := fun p ↦ I p.1 p.2) ⟨?_, ?_⟩ h
  · rintro ⟨s, _⟩ ⟨h0, rfl⟩
    exact hinit s h0
  · rintro ⟨s, past⟩ l ⟨s', _⟩ hI ⟨hst, rfl⟩
    exact hstep s past l s' hI hst

/-- The steps of a list are a recorded run. -/
theorem Reachable.foldlM_recorded {next : State → Label → Option State}
    (hnext : ∀ s l s', next s l = some s' → M.step s l s') {s s' : State} {past labels : List Label}
    (hs : M.recorded.Reachable (s, past)) (h : labels.foldlM next s = some s') :
    M.recorded.Reachable (s', past ++ labels) := by
  induction labels generalizing s past with
  | nil => simpa [Option.some.inj h] using hs
  | cons l labels ih =>
    obtain ⟨mid, hmid, hrest⟩ := Option.bind_eq_some_iff.mp h
    have hstep : M.recorded.step (s, past) l (mid, past ++ [l]) := ⟨hnext s l mid hmid, rfl⟩
    simpa using ih (hs.step hstep) hrest

end ChessStack.Library.Machine
