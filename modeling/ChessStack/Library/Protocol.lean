import ChessStack.Library.Session

/-!
# Rely and guarantee for tasks

Library `Library`. A protocol says what always holds of the store, how the store may move on
while a task is not looking, and what each call may assume. When every call keeps the protocol
and every task makes its calls as the protocol asks, each run leaves a trace of outcomes in
which every committed call met its precondition; what is to be shown of all interleavings is
then shown by induction on traces.
-/

namespace ChessStack.Library.System

variable {Db Change Key Cell Fixed Stmt : Type} {Ans : Stmt → Type} {Call : Type}
  {Result : Call → Type}

/-- What holds of the store, how it may move on, and what each call assumes of it. -/
structure Protocol (Db Call : Type) where
  inv : Db → Prop
  rely : Db → Db → Prop
  pre : Call → Db → Prop

namespace Protocol

/-- From the store `d` on, the task makes each of its calls where the call's precondition holds,
whatever the others do meanwhile. -/
def Safe (S : System Db Change Key Cell Fixed Stmt Ans Call Result) (P : Protocol Db Call) :
    Task Db Call Result → Db → Prop
  | .done, _ => True
  | .read next, d => ∀ d', P.inv d' → P.rely d d' → Safe S P (next d') d'
  | .call c next, d => P.pre c d ∧ ∀ d₁ value d₂, P.inv d₁ → P.rely d d₁ → P.pre c d₁ →
      S.base.run (S.prog c) d₁ = some (value, d₂) → Safe S P (next value) d₂

/-- Calls keep the protocol, and tasks start safe. -/
structure Sound (S : System Db Change Key Cell Fixed Stmt Ans Call Result)
    (P : Protocol Db Call) : Prop where
  start : ∀ d, S.start d → P.inv d
  refl : ∀ d, P.rely d d
  trans : ∀ d d' d'', P.rely d d' → P.rely d' d'' → P.rely d d''
  stable : ∀ c d d', P.pre c d → P.rely d d' → P.pre c d'
  commit : ∀ c d value d', P.inv d → P.pre c d → S.base.run (S.prog c) d = some (value, d') →
    P.inv d' ∧ P.rely d d'
  spawn : ∀ t, S.spawn t → ∀ d, P.inv d → Safe S P t d

/-- The outcomes of a run, in order, and the store they lead to from an initial one. -/
inductive Trace (S : System Db Change Key Cell Fixed Stmt Ans Call Result) (P : Protocol Db Call)
    (allowed : Call → Db → Prop) : List (Outcome Db Call Result) → Db → Prop
  | start {d : Db} : S.start d → Trace S P allowed [] d
  | commit {log : List (Outcome Db Call Result)} {d d' : Db} {c : Call} {value : Result c}
      {answered : Bool} : Trace S P allowed log d → P.inv d → P.pre c d → allowed c d →
      S.base.run (S.prog c) d = some (value, d') →
      Trace S P allowed (log ++ [.committed c value d d' answered]) d'
  | failed {log : List (Outcome Db Call Result)} {d : Db} {c : Call} :
      Trace S P allowed log d → Trace S P allowed (log ++ [.failed c]) d

variable {S : System Db Change Key Cell Fixed Stmt Ans Call Result} {P : Protocol Db Call}
  {allowed : Call → Db → Prop}

/-- A safe task stays safe while the store moves on. -/
theorem Safe.stable (hP : P.Sound S) {t : Task Db Call Result} {d d' : Db} (h : P.Safe S t d)
    (hd : P.rely d d') : P.Safe S t d' := by
  cases t with
  | done => trivial
  | read next =>
    intro d'' hinv hrely
    exact h d'' hinv (hP.trans d d' d'' hd hrely)
  | call c next =>
    obtain ⟨hpre, hnext⟩ := h
    refine ⟨hP.stable c d d' hpre hd, ?_⟩
    intro d₁ value d₂ hinv hrely
    exact hnext d₁ value d₂ hinv (hP.trans d d' d₁ hd hrely)

/-- What every state of a run with whole transactions satisfies. -/
structure Kept (S : System Db Change Key Cell Fixed Stmt Ans Call Result) (P : Protocol Db Call)
    (allowed : Call → Db → Prop) (s : AtomicState Db Call Result) : Prop where
  inv : P.inv s.db
  safe : ∀ i, P.Safe S (s.tasks i) s.db
  trace : P.Trace S allowed s.log s.db

/-- The other tasks stay safe when one moves and the store moves on. -/
theorem safe_put (hP : P.Sound S) {s : AtomicState Db Call Result}
    (h : ∀ i, P.Safe S (s.tasks i) s.db) {d' : Db} (hd : P.rely s.db d') (i : Nat)
    {t : Task Db Call Result} (ht : P.Safe S t d') (j : Nat) :
    P.Safe S ((s.put i t).tasks j) d' := by
  unfold AtomicState.put
  dsimp only
  split
  · exact ht
  · exact (h j).stable hP hd

/-- One step keeps the protocol, and the store moves on as relied on. -/
theorem Kept.step (hP : P.Sound S) {s s' : AtomicState Db Call Result} {i : Nat}
    (h : P.Kept S allowed s) (hst : AtomicStep S allowed s i s') :
    P.Kept S allowed s' ∧ P.rely s.db s'.db := by
  have hrefl := hP.refl s.db
  cases hst with
  | spawn _ ht =>
    exact ⟨⟨h.inv, safe_put hP h.safe hrefl i (hP.spawn _ ht s.db h.inv), h.trace⟩, hrefl⟩
  | read hi =>
    have hsafe := h.safe i
    rw [hi] at hsafe
    exact ⟨⟨h.inv, safe_put hP h.safe hrefl i (hsafe s.db h.inv hrefl), h.trace⟩, hrefl⟩
  | commit hi hall hrun =>
    have hsafe := h.safe i
    rw [hi] at hsafe
    obtain ⟨hpre, hnext⟩ := hsafe
    obtain ⟨hinv, hrely⟩ := hP.commit _ _ _ _ h.inv hpre hrun
    have hcont := hnext s.db _ _ h.inv hrefl hpre hrun
    exact ⟨⟨hinv, safe_put hP h.safe hrely i hcont, h.trace.commit h.inv hpre hall hrun⟩, hrely⟩
  | lost hi hall hrun =>
    have hsafe := h.safe i
    rw [hi] at hsafe
    have hpre := hsafe.1
    obtain ⟨hinv, hrely⟩ := hP.commit _ _ _ _ h.inv hpre hrun
    exact ⟨⟨hinv, safe_put hP h.safe hrely i trivial, h.trace.commit h.inv hpre hall hrun⟩, hrely⟩
  | fail hi => exact ⟨⟨h.inv, safe_put hP h.safe hrefl i trivial, h.trace.failed⟩, hrefl⟩
  | stop => exact ⟨⟨h.inv, safe_put hP h.safe hrefl i trivial, h.trace⟩, hrefl⟩

private theorem Kept.invariant (hP : P.Sound S) : (S.atomic allowed).Invariant
    (P.Kept S allowed) where
  init s hs := by
    obtain ⟨hstart, hlog, hdone⟩ := hs
    refine ⟨hP.start _ hstart, fun i ↦ ?_, ?_⟩
    · rw [hdone i]
      trivial
    · rw [hlog]
      exact .start hstart
  step s _ s' hs hst := (Kept.step hP hs hst).1

/-- The protocol is kept in every reachable interleaved state. -/
theorem kept (hP : P.Sound S) (hB : S.base.Lawful)
    {s : SessionState Db Change Key Stmt Ans Call Result}
    (hs : (S.sessions allowed).Reachable s) : P.Kept S allowed s.settled :=
  sessions_invariant hB (Kept.invariant hP) hs

/-- From a reachable interleaved state on, the store moves on as relied on. -/
theorem rely_of_steps (hP : P.Sound S) (hB : S.base.Lawful)
    {s s' : SessionState Db Change Key Stmt Ans Call Result}
    (hs : (S.sessions allowed).Reachable s) (hrun : (S.sessions allowed).Steps s s') :
    P.rely s.db s'.db := by
  induction hrun with
  | refl => exact hP.refl s.db
  | @step s' s'' i hsteps hst ih =>
    have hreach := hs.steps hsteps
    obtain ⟨_, hset | hset⟩ := sessionStep_settled hB (reachable_settled hB hreach).1 hst
    · have hdb : s''.db = s'.db := congrArg AtomicState.db hset
      rw [hdb]
      exact ih
    · exact hP.trans _ _ _ ih (Kept.step hP (kept hP hB hreach) hset).2

/-! ### Two protocols at once -/

/-- What both protocols say. -/
def and (P Q : Protocol Db Call) : Protocol Db Call where
  inv d := P.inv d ∧ Q.inv d
  rely d d' := P.rely d d' ∧ Q.rely d d'
  pre c d := P.pre c d ∧ Q.pre c d

private theorem Safe.and {P Q : Protocol Db Call} {t : Task Db Call Result} {d : Db}
    (h : P.Safe S t d)
    (h' : Q.Safe S t d) : (P.and Q).Safe S t d := by
  induction t generalizing d with
  | done => trivial
  | read next ih =>
    intro d' hinv hrely
    exact ih d' (h d' hinv.1 hrely.1) (h' d' hinv.2 hrely.2)
  | call c next ih =>
    refine ⟨⟨h.1, h'.1⟩, ?_⟩
    intro d₁ value d₂ hinv hrely hpre hrun
    exact ih value (h.2 d₁ value d₂ hinv.1 hrely.1 hpre.1 hrun)
      (h'.2 d₁ value d₂ hinv.2 hrely.2 hpre.2 hrun)

/-- Two sound protocols are kept together. -/
theorem Sound.and {P Q : Protocol Db Call} (hP : P.Sound S) (hQ : Q.Sound S) :
    (P.and Q).Sound S where
  start d hd := ⟨hP.start d hd, hQ.start d hd⟩
  refl d := ⟨hP.refl d, hQ.refl d⟩
  trans d d' d'' h h' := ⟨hP.trans d d' d'' h.1 h'.1, hQ.trans d d' d'' h.2 h'.2⟩
  stable c d d' h h' := ⟨hP.stable c d d' h.1 h'.1, hQ.stable c d d' h.2 h'.2⟩
  commit c d value d' hinv hpre hrun := by
    obtain ⟨hinv', hrely⟩ := hP.commit c d value d' hinv.1 hpre.1 hrun
    obtain ⟨hinv'', hrely'⟩ := hQ.commit c d value d' hinv.2 hpre.2 hrun
    exact ⟨⟨hinv', hinv''⟩, hrely, hrely'⟩
  spawn t ht d hinv := (hP.spawn t ht d hinv.1).and (hQ.spawn t ht d hinv.2)

/-- A property of stores and their traces that each outcome preserves. -/
theorem Trace.rule {J : List (Outcome Db Call Result) → Db → Prop}
    (hstart : ∀ d, S.start d → J [] d)
    (hcommit : ∀ log d c value d' answered, J log d → P.inv d → P.pre c d → allowed c d →
      S.base.run (S.prog c) d = some (value, d') →
      J (log ++ [.committed c value d d' answered]) d')
    (hfailed : ∀ log d c, J log d → J (log ++ [.failed c]) d)
    {log : List (Outcome Db Call Result)} {d : Db} (h : P.Trace S allowed log d) : J log d := by
  induction h with
  | start h => exact hstart _ h
  | commit _ hinv hpre hall hrun ih => exact hcommit _ _ _ _ _ _ ih hinv hpre hall hrun
  | failed _ ih => exact hfailed _ _ _ ih

/-- A committed call of the trace met its precondition, and the store has moved on since. -/
theorem Trace.committed (hP : P.Sound S) {log : List (Outcome Db Call Result)} {d : Db}
    (h : P.Trace S allowed log d) {c : Call} {value : Result c} {before after : Db}
    {answered : Bool} (hmem : .committed c value before after answered ∈ log) :
    P.inv before ∧ P.pre c before ∧ S.base.run (S.prog c) before = some (value, after) ∧
      P.rely after d := by
  induction h with
  | start _ => cases hmem
  | commit _ hinv hpre _ hrun ih =>
    have hrely := (hP.commit _ _ _ _ hinv hpre hrun).2
    rcases List.mem_append.mp hmem with hmem | hmem
    · obtain ⟨hinv', hpre', hrun', hrely'⟩ := ih hmem
      exact ⟨hinv', hpre', hrun', hP.trans _ _ _ hrely' hrely⟩
    · cases List.mem_singleton.mp hmem
      exact ⟨hinv, hpre, hrun, hP.refl _⟩
  | failed _ ih =>
    rcases List.mem_append.mp hmem with hmem | hmem
    · exact ih hmem
    · cases List.mem_singleton.mp hmem

end Protocol
end ChessStack.Library.System
