import ChessStack.Library.Session

/-!
# Serial runs

Library `Library`. A run with whole transactions is also an interleaved run, the one in which
each transaction has the store to itself. Serial runs are executable: a list of actions leads
to a state that both systems reach.
-/

namespace ChessStack.Library.System

variable {Db Change Key Cell Fixed Stmt : Type} {Ans : Stmt → Type} {Call : Type}
  {Result : Call → Type} {S : System Db Change Key Cell Fixed Stmt Ans Call Result}
  {allowed : Call → Db → Prop}

/-- The state with no transaction running. -/
def AtomicState.resting (Change Key Stmt : Type) (Ans : Stmt → Type)
    (s : AtomicState Db Call Result) : SessionState Db Change Key Stmt Ans Call Result :=
  ⟨s.db, fun i ↦ .idle (s.tasks i), s.log⟩

/-- A task set in the atomic state is set in the interleaved one. -/
theorem resting_put (s : AtomicState Db Call Result) (i : Nat) (t : Task Db Call Result) :
    (s.resting Change Key Stmt Ans).put i (.idle t) = (s.put i t).resting Change Key Stmt Ans := by
  unfold SessionState.put AtomicState.resting AtomicState.put
  congr 1
  funext j
  dsimp only
  split <;> rfl

/-- The last slot put is the one that stays. -/
theorem put_put (s : SessionState Db Change Key Stmt Ans Call Result) (i : Nat)
    (slot slot' : Slot Db Change Key Stmt Ans Call Result) :
    (s.put i slot).put i slot' = s.put i slot' := by
  unfold SessionState.put
  congr 1
  funext j
  dsimp only
  split <;> rfl

/-- A transaction that nobody else's locks hinder runs to its end. -/
theorem steps_to_end {s : SessionState Db Change Key Stmt Ans Call Result} {i : Nat} {c : Call}
    {next : Result c → Task Db Call Result} {held : List Key} {cs : List Change}
    {rest : Tx Stmt Ans (Result c)} {value : Result c} {d' : Db}
    (hfree : ∀ j, j ≠ i → (s.slots j).held = [])
    (hrun : S.base.run rest (S.base.applyAll s.db cs) = some (value, d')) :
    ∃ held' cs', S.base.applyAll s.db cs' = d' ∧ (S.sessions allowed).Steps
      (s.put i (.running c next held cs rest)) (s.put i (.running c next held' cs' (.ret value))) := by
  induction rest generalizing held cs with
  | ret value' =>
    obtain ⟨rfl, rfl⟩ := Prod.mk.inj (Option.some.inj hrun)
    exact ⟨held, cs, rfl, .refl⟩
  | throw => cases hrun
  | query stmt k ih =>
    rw [Database.run_query, Option.bind_eq_some_iff] at hrun
    obtain ⟨⟨cs₁, a⟩, hexec, hrun⟩ := hrun
    rw [← Database.applyAll_append] at hrun
    obtain ⟨held', cs', hd', hsteps⟩ :=
      @ih a (held ++ S.base.locks stmt (S.base.applyAll s.db cs)) (cs ++ cs₁) hrun
    have hlocks : ∀ j, j ≠ i → ∀ key ∈ S.base.locks stmt (S.base.applyAll s.db cs),
        key ∉ ((s.put i (.running c next held cs (.query stmt k))).slots j).held := by
      intro j hj key _ hheld
      rw [s.put_of_ne _ hj, hfree j hj] at hheld
      cases hheld
    have hstep : SessionStep S allowed (s.put i (.running c next held cs (.query stmt k))) i _ :=
      .exec (s.put_self i _) hlocks hexec
    rw [put_put] at hstep
    exact ⟨held', cs', hd', Machine.Steps.trans (.single i hstep) hsteps⟩

section Commit

variable {s : AtomicState Db Call Result} {i : Nat} {c : Call}
  {next : Result c → Task Db Call Result} {value : Result c} {d' : Db}

/-- A call of a resting state begins and runs to its end. -/
theorem resting_runs (allowed : Call → Db → Prop) (hi : s.tasks i = .call c next)
    (hrun : S.base.run (S.prog c) s.db = some (value, d')) :
    ∃ held cs, S.base.applyAll s.db cs = d' ∧ (S.sessions allowed).Steps
      (s.resting Change Key Stmt Ans)
      ((s.resting Change Key Stmt Ans).put i (.running c next held cs (.ret value))) := by
  have hfree : ∀ j, j ≠ i → ((s.resting Change Key Stmt Ans).slots j).held = [] := fun _ _ ↦ rfl
  obtain ⟨held, cs, hd', hsteps⟩ := @steps_to_end _ _ _ _ _ _ _ _ _ S allowed _ i c next [] [] _
    value d' hfree hrun
  refine ⟨held, cs, hd', Machine.Steps.trans (.single i (.begin ?_)) hsteps⟩
  exact congrArg Slot.idle hi

/-- The resting state after task `i` leaves its transaction. -/
theorem resting_after (s : AtomicState Db Call Result) (i : Nat)
    (slot : Slot Db Change Key Stmt Ans Call Result) (t : Task Db Call Result) (d : Db)
    (log : List (Outcome Db Call Result)) :
    ({ ((s.resting Change Key Stmt Ans).put i slot).put i (.idle t) with db := d, log := log } :
      SessionState Db Change Key Stmt Ans Call Result) =
    AtomicState.resting Change Key Stmt Ans { s.put i t with db := d, log := log } := by
  rw [put_put, resting_put]
  rfl

private theorem resting_commit (hi : s.tasks i = .call c next) (hall : allowed c s.db)
    (hrun : S.base.run (S.prog c) s.db = some (value, d')) :
    (S.sessions allowed).Steps (s.resting Change Key Stmt Ans)
      (AtomicState.resting Change Key Stmt Ans { s.put i (next value) with
        db := d', log := s.log ++ [.committed c value s.db d' true] }) := by
  obtain ⟨held, cs, rfl, hsteps⟩ := resting_runs allowed hi hrun
  have hstep : SessionStep S allowed
      ((s.resting Change Key Stmt Ans).put i (.running c next held cs (.ret value))) i _ :=
    .commit (SessionState.put_self _ _ _) hall
  rw [resting_after] at hstep
  exact hsteps.step hstep

private theorem resting_lost (hi : s.tasks i = .call c next) (hall : allowed c s.db)
    (hrun : S.base.run (S.prog c) s.db = some (value, d')) :
    (S.sessions allowed).Steps (s.resting Change Key Stmt Ans)
      (AtomicState.resting Change Key Stmt Ans { s.put i .done with
        db := d', log := s.log ++ [.committed c value s.db d' false] }) := by
  obtain ⟨held, cs, rfl, hsteps⟩ := resting_runs allowed hi hrun
  have hstep : SessionStep S allowed
      ((s.resting Change Key Stmt Ans).put i (.running c next held cs (.ret value))) i _ :=
    .lost (SessionState.put_self _ _ _) hall
  rw [resting_after] at hstep
  exact hsteps.step hstep

private theorem resting_fail (hi : s.tasks i = .call c next) :
    (S.sessions allowed).Steps (s.resting Change Key Stmt Ans)
      (AtomicState.resting Change Key Stmt Ans
        { s.put i .done with log := s.log ++ [.failed c] }) := by
  have hbegin : SessionStep S allowed (s.resting Change Key Stmt Ans) i
      ((s.resting Change Key Stmt Ans).put i (.running c next [] [] (S.prog c))) :=
    .begin (congrArg Slot.idle hi)
  have habort : SessionStep S allowed
      ((s.resting Change Key Stmt Ans).put i (.running c next [] [] (S.prog c))) i _ :=
    .abort (SessionState.put_self _ _ _)
  simp only [put_put, resting_put] at habort
  exact (Machine.Steps.single i hbegin).step habort

end Commit

/-- Each step with whole transactions is made of interleaved steps. -/
theorem resting_step {s s' : AtomicState Db Call Result} {i : Nat}
    (h : AtomicStep S allowed s i s') : (S.sessions allowed).Steps
      (s.resting Change Key Stmt Ans) (s'.resting Change Key Stmt Ans) := by
  cases h with
  | spawn hi ht =>
    rw [← resting_put]
    exact .single i (.spawn (congrArg Slot.idle hi) ht)
  | read hi =>
    rw [← resting_put]
    exact .single i (.read (congrArg Slot.idle hi))
  | commit hi hall hrun => exact resting_commit hi hall hrun
  | lost hi hall hrun => exact resting_lost hi hall hrun
  | fail hi => exact resting_fail hi
  | stop =>
    rw [← resting_put]
    exact .single i (.stop rfl)

/-- Every run with whole transactions is an interleaved run. -/
theorem reachable_resting {s : AtomicState Db Call Result}
    (h : (S.atomic allowed).Reachable s) :
    (S.sessions allowed).Reachable (s.resting Change Key Stmt Ans) := by
  induction h with
  | init h0 => exact .init ⟨h0.1, h0.2.1, fun i ↦ congrArg Slot.idle (h0.2.2 i)⟩
  | step _ hst ih => exact ih.steps (resting_step hst)

/-! ### Executable runs -/

/-- An action of task `i`: a new task, or its next step, which may lose its reply or fail. -/
inductive Action (Db Call : Type) (Result : Call → Type) where
  | spawn (i : Nat) (t : Task Db Call Result)
  | go (i : Nat)
  | lose (i : Nat)
  | fail (i : Nat)

/-- The task an action is one of. -/
def Action.index : Action Db Call Result → Nat
  | .spawn i _ => i
  | .go i => i
  | .lose i => i
  | .fail i => i

/-- The state an action leads to. -/
def perform (S : System Db Change Key Cell Fixed Stmt Ans Call Result)
    (s : AtomicState Db Call Result) : Action Db Call Result → Option (AtomicState Db Call Result)
  | .spawn i t =>
    match s.tasks i with
    | .done => some (s.put i t)
    | _ => none
  | .go i =>
    match s.tasks i with
    | .done => none
    | .read next => some (s.put i (next s.db))
    | .call c next => (S.base.run (S.prog c) s.db).map fun x ↦
        { s.put i (next x.1) with db := x.2, log := s.log ++ [.committed c x.1 s.db x.2 true] }
  | .lose i =>
    match s.tasks i with
    | .call c _ => (S.base.run (S.prog c) s.db).map fun x ↦
        { s.put i .done with db := x.2, log := s.log ++ [.committed c x.1 s.db x.2 false] }
    | _ => none
  | .fail i =>
    match s.tasks i with
    | .call c _ => some { s.put i .done with log := s.log ++ [.failed c] }
    | _ => none

/-- The state a list of actions leads to, if each of them can be taken. -/
def performAll (S : System Db Change Key Cell Fixed Stmt Ans Call Result)
    (s : AtomicState Db Call Result) (actions : List (Action Db Call Result)) :
    Option (AtomicState Db Call Result) := actions.foldlM (perform S) s

/-- The tasks an action starts are tasks of the system. -/
def Action.Of (S : System Db Change Key Cell Fixed Stmt Ans Call Result) :
    Action Db Call Result → Prop
  | .spawn _ t => S.spawn t
  | _ => True

/-- An action is a step of its task. -/
theorem perform_step {s s' : AtomicState Db Call Result} {a : Action Db Call Result}
    (hall : ∀ i c next, s.tasks i = .call c next → allowed c s.db) (ha : a.Of S)
    (h : perform S s a = some s') : AtomicStep S allowed s a.index s' := by
  cases a with
  | spawn i t =>
    simp only [perform] at h
    split at h
    · next hi =>
      obtain rfl := Option.some.inj h
      exact .spawn hi ha
    · cases h
  | go i =>
    simp only [perform] at h
    split at h
    · cases h
    · next k hi =>
      obtain rfl := Option.some.inj h
      exact .read hi
    · next c k hi =>
      obtain ⟨x, hrun, rfl⟩ := Option.map_eq_some_iff.mp h
      exact .commit hi (hall i c k hi) hrun
  | lose i =>
    simp only [perform] at h
    split at h
    · next c k hi =>
      obtain ⟨x, hrun, rfl⟩ := Option.map_eq_some_iff.mp h
      exact .lost hi (hall i c k hi) hrun
    · cases h
  | fail i =>
    simp only [perform] at h
    split at h
    · next c k hi =>
      obtain rfl := Option.some.inj h
      exact .fail hi
    · cases h

/-- What a list of actions leads to is reached, with and without interleaving. -/
theorem performAll_reachable (hall : ∀ c d, allowed c d) {s s' : AtomicState Db Call Result}
    (hs : (S.atomic allowed).Reachable s) {actions : List (Action Db Call Result)}
    (ha : ∀ a ∈ actions, a.Of S) (h : performAll S s actions = some s') :
    (S.atomic allowed).Reachable s' := by
  induction actions generalizing s with
  | nil =>
    obtain rfl := Option.some.inj h
    exact hs
  | cons a actions ih =>
    obtain ⟨s₁, hfirst, hrest⟩ := Option.bind_eq_some_iff.mp h
    have hstep := perform_step (fun _ c _ _ ↦ hall c s.db) (ha a List.mem_cons_self) hfirst
    exact ih (hs.step hstep) (fun a' ha' ↦ ha a' (List.mem_cons_of_mem _ ha')) hrest

end ChessStack.Library.System
