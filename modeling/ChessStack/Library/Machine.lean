/-!
# State machines and their invariants

Library `Library`. A machine is a set of initial states and a labelled step relation. Every
run property of this development is an inductive invariant: it holds initially and each step
preserves it. A guard restricts a machine to the steps that satisfy a condition on the state
they start from. What a run must reach is shown by a measure its steps lower.
-/

namespace ChessStack.Library

universe u v

/-- Initial states and labelled steps. -/
structure Machine (State : Type u) (Label : Type v) where
  init : State → Prop
  step : State → Label → State → Prop

namespace Machine

variable {State : Type u} {Label : Type v} {M : Machine State Label}

/-- The states some run passes through. -/
inductive Reachable (M : Machine State Label) : State → Prop
  | init {s : State} : M.init s → Reachable M s
  | step {s s' : State} {l : Label} : Reachable M s → M.step s l s' → Reachable M s'

/-- Some run leads from the first state to the second. -/
inductive Steps (M : Machine State Label) (s : State) : State → Prop
  | refl : Steps M s s
  | step {s' s'' : State} {l : Label} : Steps M s s' → M.step s' l s'' → Steps M s s''

/-- The machine that takes a step only where the guard holds. -/
def restrict (M : Machine State Label) (guard : State → Label → Prop) :
    Machine State Label where
  init := M.init
  step s l s' := guard s l ∧ M.step s l s'

/-- A predicate that holds initially and is preserved by every step. -/
structure Invariant (M : Machine State Label) (I : State → Prop) : Prop where
  init : ∀ s, M.init s → I s
  step : ∀ s l s', I s → M.step s l s' → I s'

/-- An invariant holds in every reachable state. -/
theorem Invariant.reachable {I : State → Prop} (h : M.Invariant I) {s : State}
    (hs : M.Reachable s) : I s := by
  induction hs with
  | init h0 => exact h.init _ h0
  | step _ hst ih => exact h.step _ _ _ ih hst

/-- What a reachable state leads to is reachable. -/
theorem Reachable.steps {s s' : State} (h : M.Reachable s) (hs : M.Steps s s') :
    M.Reachable s' := by
  induction hs with
  | refl => exact h
  | step _ hst ih => exact ih.step hst

/-- Steps after steps. -/
theorem Steps.trans {s s' s'' : State} (h : M.Steps s s') (h' : M.Steps s' s'') :
    M.Steps s s'' := by
  induction h' with
  | refl => exact h
  | step _ hst ih => exact ih.step hst

/-- A guarded run is a run. -/
theorem Reachable.of_restrict {guard : State → Label → Prop} {s : State}
    (h : (M.restrict guard).Reachable s) : M.Reachable s := by
  induction h with
  | init h0 => exact .init h0
  | step _ hst ih => exact ih.step hst.2

/-- A run whose steps all satisfy the guard is a guarded run. -/
theorem Reachable.restrict {guard : State → Label → Prop} (hguard : ∀ s l, guard s l) {s : State}
    (h : M.Reachable s) : (M.restrict guard).Reachable s := by
  induction h with
  | init h0 => exact .init h0
  | step _ hst ih => exact ih.step ⟨hguard _ _, hst⟩

/-- Two guards are one. -/
theorem Reachable.restrict_and {P Q : State → Label → Prop} {s : State}
    (h : (M.restrict fun s l ↦ P s l ∧ Q s l).Reachable s) :
    ((M.restrict P).restrict Q).Reachable s := by
  induction h with
  | init h0 => exact .init h0
  | step _ hst ih => exact ih.step ⟨hst.1.2, hst.1.1, hst.2⟩

/-- One step. -/
theorem Steps.single {s s' : State} (l : Label) (h : M.step s l s') : M.Steps s s' :=
  .step .refl h

/-! ### Step functions -/

/-- The machine of a partial step function. -/
def ofStep (start : State) (next : State → Label → Option State) : Machine State Label where
  init s := s = start
  step s l s' := next s l = some s'

/-- The state a script leads to, if each of its steps is possible and meets the guard. -/
def script (next : State → Label → Option State) (guard : State → Label → Bool) (s : State) :
    List Label → Option State
  | [] => some s
  | l :: labels => if guard s l then (next s l).bind fun s' ↦ script next guard s' labels else none

/-- A script that runs through is a guarded run. -/
theorem script_reachable {start s s' : State} {next : State → Label → Option State}
    {guard : State → Label → Bool} {P : State → Label → Prop} (hP : ∀ s l, guard s l → P s l)
    (hs : ((ofStep start next).restrict P).Reachable s) {labels : List Label}
    (h : script next guard s labels = some s') :
    ((ofStep start next).restrict P).Reachable s' := by
  induction labels generalizing s with
  | nil => exact Option.some.inj h ▸ hs
  | cons l labels ih =>
    simp only [script] at h
    split at h
    · rename_i hguard
      obtain ⟨mid, hmid, hrest⟩ := Option.bind_eq_some_iff.mp h
      exact ih (hs.step ⟨hP s l hguard, hmid⟩) hrest
    · cases h

/-- The steps of a list, taken one after the other, are a run. -/
theorem Reachable.foldlM {next : State → Label → Option State}
    (hnext : ∀ s l s', next s l = some s' → M.step s l s') {s s' : State} (hs : M.Reachable s)
    {labels : List Label} (h : labels.foldlM next s = some s') : M.Reachable s' := by
  induction labels generalizing s with
  | nil => exact Option.some.inj h ▸ hs
  | cons l labels ih =>
    obtain ⟨mid, hmid, hrest⟩ := Option.bind_eq_some_iff.mp h
    exact ih (hs.step (hnext s l mid hmid)) hrest

/-- A script that runs through is a sequence of steps. -/
theorem Steps.foldlM {next : State → Label → Option State}
    (hnext : ∀ s l s', next s l = some s' → M.step s l s') {s s' : State} {labels : List Label}
    (h : labels.foldlM next s = some s') : M.Steps s s' := by
  induction labels generalizing s with
  | nil => exact Option.some.inj h ▸ .refl
  | cons l labels ih =>
    obtain ⟨mid, hmid, hrest⟩ := Option.bind_eq_some_iff.mp h
    exact (Steps.single l (hnext s l mid hmid)).trans (ih hrest)

/-! ### Endless runs -/

/-- An endless run. -/
structure Run (M : Machine State Label) where
  state : Nat → State
  label : Nat → Label
  start : M.init (state 0)
  step : ∀ n, M.step (state n) (label n) (state (n + 1))

private theorem Run.reachable (r : M.Run) (n : Nat) : M.Reachable (r.state n) := by
  induction n with
  | zero => exact .init r.start
  | succ n ih => exact ih.step (r.step n)

/-- A script that runs through, prolonged for ever by a label that changes nothing. -/
def Run.ofScript {start : State} {next : State → Label → Option State} (idle : Label)
    (hidle : ∀ s, next s idle = some s) {labels : List Label}
    (h : (labels.foldlM next start).isSome = true) : (ofStep start next).Run where
  state n := ((labels.take n).foldlM next start).getD start
  label n := labels[n]?.getD idle
  start := rfl
  step n := by
    obtain ⟨last, hlast⟩ := Option.isSome_iff_exists.mp h
    change next _ _ = some _
    by_cases hn : n < labels.length
    · -- the script runs through, so it has a state before and after this label
      have hsplit : labels = labels.take n ++ labels[n] :: labels.drop (n + 1) := by simp
      rw [hsplit, List.foldlM_append, Option.bind_eq_bind, Option.bind_eq_some_iff] at hlast
      obtain ⟨s, hs, hrest⟩ := hlast
      rw [List.foldlM_cons, Option.bind_eq_bind, Option.bind_eq_some_iff] at hrest
      obtain ⟨s', hs', -⟩ := hrest
      rw [List.take_succ_eq_append_getElem hn, List.foldlM_append, hs, List.getElem?_eq_getElem hn]
      simp [hs']
    · have hall : ∀ m, labels.length ≤ m → labels.take m = labels := fun m hm ↦
        List.take_of_length_le hm
      rw [hall n (by omega), hall (n + 1) (by omega), List.getElem?_eq_none (by omega)]
      exact hidle _

/-- Behind its script such a run rests. -/
theorem Run.ofScript_rest {start s : State} {next : State → Label → Option State} {idle : Label}
    {hidle : ∀ s, next s idle = some s} {labels : List Label}
    {h : (labels.foldlM next start).isSome = true} (hs : labels.foldlM next start = some s) {n : Nat}
    (hn : labels.length ≤ n) : (Run.ofScript idle hidle h).state n = s := by
  change ((labels.take n).foldlM next start).getD start = s
  rw [List.take_of_length_le hn, hs]
  rfl

/-- While `P` holds every step stays in `P` without raising the measure, or reaches the goal, and
the steps that work lower it. A run that works again and again reaches the goal. -/
theorem Run.eventually (r : M.Run) (P goal : State → Prop) (works : Label → Prop)
    (measure : State → Nat)
    (hstep : ∀ s l s', M.Reachable s → P s → M.step s l s' →
      goal s' ∨ P s' ∧ measure s' ≤ measure s)
    (hworks : ∀ s l s', M.Reachable s → P s → works l → M.step s l s' →
      goal s' ∨ measure s' < measure s)
    (hfair : ∀ n, P (r.state n) → ∃ k, n ≤ k ∧ works (r.label k)) {n : Nat}
    (hn : P (r.state n)) : ∃ m, n ≤ m ∧ goal (r.state m) := by
  -- either the goal comes on the way to `n + k`, or the measure has not risen there
  have hstays : ∀ n, P (r.state n) → ∀ k, (∃ m, n ≤ m ∧ goal (r.state m)) ∨
      P (r.state (n + k)) ∧ measure (r.state (n + k)) ≤ measure (r.state n) := by
    intro n hn k
    induction k with
    | zero => exact Or.inr ⟨hn, Nat.le_refl _⟩
    | succ k ih =>
      rcases ih with hgoal | ⟨hP, hle⟩
      · exact Or.inl hgoal
      · rcases hstep _ _ _ (r.reachable _) hP (r.step (n + k)) with hgoal | ⟨hP', hle'⟩
        · exact Or.inl ⟨n + k + 1, by omega, hgoal⟩
        · exact Or.inr ⟨hP', Nat.le_trans hle' hle⟩
  induction hm : measure (r.state n) using Nat.strongRecOn generalizing n with
  | _ m ih =>
    obtain ⟨k, hk, hwork⟩ := hfair n hn
    obtain ⟨d, rfl⟩ := Nat.exists_eq_add_of_le hk
    rcases hstays n hn d with hgoal | ⟨hP, hle⟩
    · exact hgoal
    · have hreach := r.reachable (n + d)
      rcases hstep _ _ _ hreach hP (r.step _) with hgoal | ⟨hP', -⟩
      · exact ⟨n + d + 1, by omega, hgoal⟩
      · rcases hworks _ _ _ hreach hP hwork (r.step _) with hgoal | hlt
        · exact ⟨n + d + 1, by omega, hgoal⟩
        · obtain ⟨m', hm', hgoal⟩ := ih _ (by omega) hP' rfl
          exact ⟨m', by omega, hgoal⟩

end Machine

/-! ### Logs -/

/-- Every entry of the log met `P` when it was written, of the entries before it. -/
inductive Recorded {Entry : Type u} (P : List Entry → Entry → Prop) : List Entry → Prop
  | nil : Recorded P []
  | snoc {log : List Entry} {e : Entry} : Recorded P log → P log e → Recorded P (log ++ [e])

/-- Every entry of a recorded log satisfies its property after the entries before it. -/
theorem Recorded.entry {Entry : Type u} {P : List Entry → Entry → Prop} {log before after : List Entry}
    {e : Entry} (h : Recorded P log) (hlog : log = before ++ e :: after) : P before e := by
  induction h generalizing after with
  | nil => exact absurd hlog (by simp)
  | @snoc log last _ hlast ih =>
    rcases List.eq_nil_or_concat after with rfl | ⟨after', last', rfl⟩
    · obtain ⟨rfl, heq⟩ := List.append_inj' hlog rfl
      exact (List.singleton_inj.mp heq) ▸ hlast
    · rw [List.concat_eq_append, ← List.cons_append, ← List.append_assoc] at hlog
      obtain ⟨hlog', -⟩ := List.append_inj' hlog rfl
      exact ih hlog'

end ChessStack.Library
