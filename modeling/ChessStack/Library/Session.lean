import ChessStack.Library.Machine
import ChessStack.Library.Transaction

/-!
# Tasks that run transactions

Library `Library`. Any number of tasks, on any number of processes, share one store. A task
reads the committed store, calls transactions and stops; it may stop early at any point, also
after a commit whose reply is lost. `sessions` runs the statements of all transactions
interleaved under row locks; `atomic` runs each transaction at once. Every run of the first is
a run of the second, so what holds of every `atomic` run holds under every interleaving.
-/

namespace ChessStack.Library

/-- What a task does next; `call` continues with the value of the committed transaction. -/
inductive Task (Db Call : Type) (Result : Call → Type) where
  | done
  | read (next : Db → Task Db Call Result)
  | call (c : Call) (next : Result c → Task Db Call Result)

/-- How a call ended. `answered` tells whether its caller learnt of the commit. -/
inductive Outcome (Db Call : Type) (Result : Call → Type) where
  | committed (c : Call) (value : Result c) (before after : Db) (answered : Bool)
  | failed (c : Call)

/-- Tasks and the transactions their calls run. -/
structure System (Db Change Key Cell Fixed Stmt : Type) (Ans : Stmt → Type) (Call : Type)
    (Result : Call → Type) where
  base : Database Db Change Key Cell Fixed Stmt Ans
  prog : (c : Call) → Tx Stmt Ans (Result c)
  start : Db → Prop
  spawn : Task Db Call Result → Prop

namespace System

variable {Db Change Key Cell Fixed Stmt : Type} {Ans : Stmt → Type} {Call : Type}
  {Result : Call → Type}

/-! ### Whole transactions -/

/-- The store, the tasks by number, and the outcomes of all calls in order. -/
structure AtomicState (Db Call : Type) (Result : Call → Type) where
  db : Db
  tasks : Nat → Task Db Call Result
  log : List (Outcome Db Call Result)

/-- Task `i` becomes `t`. -/
def AtomicState.put (s : AtomicState Db Call Result) (i : Nat) (t : Task Db Call Result) :
    AtomicState Db Call Result :=
  { s with tasks := fun j ↦ if j = i then t else s.tasks j }

/-- A step of task `i` when transactions run at once. A call may commit only where `allowed`. -/
inductive AtomicStep (S : System Db Change Key Cell Fixed Stmt Ans Call Result)
    (allowed : Call → Db → Prop) :
    AtomicState Db Call Result → Nat → AtomicState Db Call Result → Prop
  | spawn {s : AtomicState Db Call Result} {i : Nat} {t : Task Db Call Result} :
      s.tasks i = .done → S.spawn t → AtomicStep S allowed s i (s.put i t)
  | read {s : AtomicState Db Call Result} {i : Nat} {next : Db → Task Db Call Result} :
      s.tasks i = .read next → AtomicStep S allowed s i (s.put i (next s.db))
  | commit {s : AtomicState Db Call Result} {i : Nat} {c : Call}
      {next : Result c → Task Db Call Result} {value : Result c} {after : Db} :
      s.tasks i = .call c next → allowed c s.db → S.base.run (S.prog c) s.db = some (value, after) →
      AtomicStep S allowed s i
        { s.put i (next value) with
          db := after, log := s.log ++ [.committed c value s.db after true] }
  | lost {s : AtomicState Db Call Result} {i : Nat} {c : Call}
      {next : Result c → Task Db Call Result} {value : Result c} {after : Db} :
      s.tasks i = .call c next → allowed c s.db → S.base.run (S.prog c) s.db = some (value, after) →
      AtomicStep S allowed s i
        { s.put i .done with
          db := after, log := s.log ++ [.committed c value s.db after false] }
  | fail {s : AtomicState Db Call Result} {i : Nat} {c : Call}
      {next : Result c → Task Db Call Result} : s.tasks i = .call c next →
      AtomicStep S allowed s i { s.put i .done with log := s.log ++ [.failed c] }
  | stop {s : AtomicState Db Call Result} {i : Nat} : AtomicStep S allowed s i (s.put i .done)

/-- The system with transactions run at once. -/
def atomic (S : System Db Change Key Cell Fixed Stmt Ans Call Result)
    (allowed : Call → Db → Prop) : Machine (AtomicState Db Call Result) Nat where
  init s := S.start s.db ∧ s.log = [] ∧ ∀ i, s.tasks i = .done
  step := AtomicStep S allowed

/-! ### Interleaved statements -/

/-- A task between transactions, or inside the transaction of a call. -/
inductive Slot (Db Change Key Stmt : Type) (Ans : Stmt → Type) (Call : Type)
    (Result : Call → Type) where
  | idle (t : Task Db Call Result)
  | running (c : Call) (next : Result c → Task Db Call Result) (held : List Key)
      (changes : List Change) (rest : Tx Stmt Ans (Result c))

/-- The locks a task holds. -/
def Slot.held : Slot Db Change Key Stmt Ans Call Result → List Key
  | .idle _ => []
  | .running _ _ held _ _ => held

/-- The task as it was before its running transaction began. -/
def Slot.task : Slot Db Change Key Stmt Ans Call Result → Task Db Call Result
  | .idle t => t
  | .running c next _ _ _ => .call c next

/-- The committed store, the tasks with their transactions, and the outcomes in order. -/
structure SessionState (Db Change Key Stmt : Type) (Ans : Stmt → Type) (Call : Type)
    (Result : Call → Type) where
  db : Db
  slots : Nat → Slot Db Change Key Stmt Ans Call Result
  log : List (Outcome Db Call Result)

/-- A session in a slot. -/
def SessionState.put (s : SessionState Db Change Key Stmt Ans Call Result) (i : Nat)
    (slot : Slot Db Change Key Stmt Ans Call Result) :
    SessionState Db Change Key Stmt Ans Call Result :=
  { s with slots := fun j ↦ if j = i then slot else s.slots j }

/-- A step of task `i`. A statement waits until nobody else holds what it locks; a running
transaction may abort at any statement, for whatever reason. -/
inductive SessionStep (S : System Db Change Key Cell Fixed Stmt Ans Call Result)
    (allowed : Call → Db → Prop) : SessionState Db Change Key Stmt Ans Call Result → Nat →
    SessionState Db Change Key Stmt Ans Call Result → Prop
  | spawn {s : SessionState Db Change Key Stmt Ans Call Result} {i : Nat}
      {t : Task Db Call Result} : s.slots i = .idle .done → S.spawn t →
      SessionStep S allowed s i (s.put i (.idle t))
  | read {s : SessionState Db Change Key Stmt Ans Call Result} {i : Nat}
      {next : Db → Task Db Call Result} : s.slots i = .idle (.read next) →
      SessionStep S allowed s i (s.put i (.idle (next s.db)))
  | begin {s : SessionState Db Change Key Stmt Ans Call Result} {i : Nat} {c : Call}
      {next : Result c → Task Db Call Result} : s.slots i = .idle (.call c next) →
      SessionStep S allowed s i (s.put i (.running c next [] [] (S.prog c)))
  | exec {s : SessionState Db Change Key Stmt Ans Call Result} {i : Nat} {c : Call}
      {next : Result c → Task Db Call Result} {held : List Key} {cs cs' : List Change}
      {stmt : Stmt} {a : Ans stmt} {k : Ans stmt → Tx Stmt Ans (Result c)} :
      s.slots i = .running c next held cs (.query stmt k) →
      (∀ j, j ≠ i → ∀ key ∈ S.base.locks stmt (S.base.applyAll s.db cs), key ∉ (s.slots j).held) →
      S.base.exec stmt (S.base.applyAll s.db cs) = some (cs', a) →
      SessionStep S allowed s i (s.put i (.running c next
        (held ++ S.base.locks stmt (S.base.applyAll s.db cs)) (cs ++ cs') (k a)))
  | commit {s : SessionState Db Change Key Stmt Ans Call Result} {i : Nat} {c : Call}
      {next : Result c → Task Db Call Result} {held : List Key} {cs : List Change}
      {value : Result c} : s.slots i = .running c next held cs (.ret value) → allowed c s.db →
      SessionStep S allowed s i
        { s.put i (.idle (next value)) with
          db := S.base.applyAll s.db cs
          log := s.log ++ [.committed c value s.db (S.base.applyAll s.db cs) true] }
  | lost {s : SessionState Db Change Key Stmt Ans Call Result} {i : Nat} {c : Call}
      {next : Result c → Task Db Call Result} {held : List Key} {cs : List Change}
      {value : Result c} : s.slots i = .running c next held cs (.ret value) → allowed c s.db →
      SessionStep S allowed s i
        { s.put i (.idle .done) with
          db := S.base.applyAll s.db cs
          log := s.log ++ [.committed c value s.db (S.base.applyAll s.db cs) false] }
  | abort {s : SessionState Db Change Key Stmt Ans Call Result} {i : Nat} {c : Call}
      {next : Result c → Task Db Call Result} {held : List Key} {cs : List Change}
      {rest : Tx Stmt Ans (Result c)} : s.slots i = .running c next held cs rest →
      SessionStep S allowed s i { s.put i (.idle .done) with log := s.log ++ [.failed c] }
  | stop {s : SessionState Db Change Key Stmt Ans Call Result} {i : Nat}
      {t : Task Db Call Result} : s.slots i = .idle t →
      SessionStep S allowed s i (s.put i (.idle .done))

/-- The system with its statements interleaved. -/
def sessions (S : System Db Change Key Cell Fixed Stmt Ans Call Result)
    (allowed : Call → Db → Prop) :
    Machine (SessionState Db Change Key Stmt Ans Call Result) Nat where
  init s := S.start s.db ∧ s.log = [] ∧ ∀ i, s.slots i = .idle .done
  step := SessionStep S allowed

/-! ### Interleaved runs are runs of whole transactions -/

/-- The state with its unfinished transactions not yet begun. -/
def SessionState.settled (s : SessionState Db Change Key Stmt Ans Call Result) :
    AtomicState Db Call Result := ⟨s.db, fun i ↦ (s.slots i).task, s.log⟩

/-- Every running transaction could have come to where it is on the committed store, and no key
is locked twice. -/
structure Coherent (S : System Db Change Key Cell Fixed Stmt Ans Call Result)
    (s : SessionState Db Change Key Stmt Ans Call Result) : Prop where
  progress : ∀ i c next held cs rest, s.slots i = .running c next held cs rest →
    S.base.Progress (S.prog c) s.db held cs rest
  disjoint : ∀ i j, i ≠ j → ∀ key ∈ (s.slots i).held, key ∉ (s.slots j).held

variable {S : System Db Change Key Cell Fixed Stmt Ans Call Result} {allowed : Call → Db → Prop}

/-- The slot that was put. -/
@[simp] theorem SessionState.put_self (s : SessionState Db Change Key Stmt Ans Call Result) (i : Nat)
    (slot : Slot Db Change Key Stmt Ans Call Result) : (s.put i slot).slots i = slot := if_pos rfl

/-- The other slots stay. -/
@[simp] theorem SessionState.put_of_ne (s : SessionState Db Change Key Stmt Ans Call Result)
    {i j : Nat} (slot : Slot Db Change Key Stmt Ans Call Result) (h : j ≠ i) :
    (s.put i slot).slots j = s.slots j := if_neg h

private theorem SessionState.tasks_put (s : SessionState Db Change Key Stmt Ans Call Result)
    (i : Nat)
    (slot : Slot Db Change Key Stmt Ans Call Result) :
    (fun j ↦ ((s.put i slot).slots j).task) = (s.settled.put i slot.task).tasks := by
  funext j
  unfold put AtomicState.put
  dsimp only
  split <;> rfl

/-- What a slot says of its task is what the atomic state holds. -/
theorem SessionState.settled_put (s : SessionState Db Change Key Stmt Ans Call Result) (i : Nat)
    (slot : Slot Db Change Key Stmt Ans Call Result) :
    (s.put i slot).settled = s.settled.put i slot.task :=
  congrArg (AtomicState.mk s.db · s.log) (s.tasks_put i slot)

/-- Putting the task that is there. -/
theorem AtomicState.put_eq_self {s : AtomicState Db Call Result} {i : Nat}
    {t : Task Db Call Result} (h : s.tasks i = t) : s.put i t = s := by
  unfold put
  congr 1
  funext j
  split
  · next hj => rw [hj, h]
  · rfl

/-- A task that moves to a place without locks leaves the others coherent. -/
theorem Coherent.put_unlocked {s : SessionState Db Change Key Stmt Ans Call Result}
    (h : S.Coherent s) (i : Nat) (slot : Slot Db Change Key Stmt Ans Call Result)
    (hfree : slot.held = []) (hprog : ∀ c next held cs rest,
      slot = .running c next held cs rest → S.base.Progress (S.prog c) s.db held cs rest) :
    S.Coherent (s.put i slot) where
  progress j c next held cs rest hj := by
    by_cases hij : j = i
    · subst hij
      rw [s.put_self] at hj
      exact hprog c next held cs rest hj
    · rw [s.put_of_ne _ hij] at hj
      exact h.progress j c next held cs rest hj
  disjoint j k hjk key hkey := by
    by_cases hji : j = i
    · subst hji
      rw [s.put_self, hfree] at hkey
      cases hkey
    · rw [s.put_of_ne _ hji] at hkey
      by_cases hki : k = i
      · subst hki
        rw [s.put_self, hfree]
        exact List.not_mem_nil
      · rw [s.put_of_ne _ hki]
        exact h.disjoint j k hjk key hkey

private theorem Coherent.put_idle {s : SessionState Db Change Key Stmt Ans Call Result}
    (h : S.Coherent s) (i : Nat) (t : Task Db Call Result) : S.Coherent (s.put i (.idle t)) :=
  h.put_unlocked i _ rfl nofun

/-- Committing the changes of one transaction leaves the others where they are. -/
theorem Coherent.commit (hB : S.base.Lawful) {s : SessionState Db Change Key Stmt Ans Call Result}
    (h : S.Coherent s) {i : Nat} {c : Call} {next : Result c → Task Db Call Result}
    {held : List Key} {cs : List Change} {rest : Tx Stmt Ans (Result c)}
    (hi : s.slots i = .running c next held cs rest) (t : Task Db Call Result)
    (log : List (Outcome Db Call Result)) :
    S.Coherent { s.put i (.idle t) with db := S.base.applyAll s.db cs, log := log } where
  progress j c' next' held' cs' rest' hj := by
    by_cases hij : j = i
    · subst hij
      rw [show ({ s.put j (.idle t) with db := S.base.applyAll s.db cs, log := log } :
        SessionState Db Change Key Stmt Ans Call Result).slots j = _ from s.put_self j _] at hj
      cases hj
    · have hj : s.slots j = .running c' next' held' cs' rest' := (s.put_of_ne _ hij) ▸ hj
      have hdisj := h.disjoint j i hij
      rw [hj, hi] at hdisj
      exact (h.progress j c' next' held' cs' rest' hj).congr hB
        ((h.progress i c next held cs rest hi).agree_of_disjoint hB hdisj)
  disjoint := (h.put_idle i t).disjoint

/-- A statement that takes its locks keeps every transaction's view of the rows it holds. -/
theorem Coherent.exec {s : SessionState Db Change Key Stmt Ans Call Result} (h : S.Coherent s)
    {i : Nat} {c : Call} {next : Result c → Task Db Call Result} {held : List Key}
    {cs cs' : List Change} {stmt : Stmt} {a : Ans stmt} {k : Ans stmt → Tx Stmt Ans (Result c)}
    (hi : s.slots i = .running c next held cs (.query stmt k))
    (hfree : ∀ j, j ≠ i → ∀ key ∈ S.base.locks stmt (S.base.applyAll s.db cs),
      key ∉ (s.slots j).held)
    (hexec : S.base.exec stmt (S.base.applyAll s.db cs) = some (cs', a)) :
    S.Coherent (s.put i (.running c next (held ++ S.base.locks stmt (S.base.applyAll s.db cs))
      (cs ++ cs') (k a))) where
  progress j c' next' held' cs'' rest' hj := by
    by_cases hij : j = i
    · subst hij
      rw [s.put_self] at hj
      cases hj
      exact .query (h.progress j _ _ _ _ _ hi) hexec
    · rw [s.put_of_ne _ hij] at hj
      exact h.progress j _ _ _ _ _ hj
  disjoint j l hjl key hkey := by
    by_cases hji : j = i
    · subst hji
      rw [s.put_self] at hkey
      rw [s.put_of_ne _ hjl.symm]
      rcases List.mem_append.mp hkey with hkey | hkey
      · apply h.disjoint j l hjl
        rw [hi]
        exact hkey
      · exact hfree l hjl.symm key hkey
    · rw [s.put_of_ne _ hji] at hkey
      by_cases hli : l = i
      · subst hli
        rw [s.put_self]
        intro hmem
        rcases List.mem_append.mp hmem with hmem | hmem
        · apply h.disjoint j l hjl key hkey
          rw [hi]
          exact hmem
        · exact hfree j hji key hmem hkey
      · rw [s.put_of_ne _ hli]
        exact h.disjoint j l hjl key hkey

/-- One interleaved step is a step with whole transactions, or none, and keeps coherence. -/
theorem sessionStep_settled (hB : S.base.Lawful)
    {s s' : SessionState Db Change Key Stmt Ans Call Result} {i : Nat} (h : S.Coherent s)
    (hst : SessionStep S allowed s i s') :
    S.Coherent s' ∧ (s'.settled = s.settled ∨ AtomicStep S allowed s.settled i s'.settled) := by
  have htask : ∀ {slot}, s.slots i = slot → s.settled.tasks i = slot.task := by
    rintro slot rfl
    rfl
  cases hst with
  | spawn hi ht =>
    refine ⟨h.put_idle i _, Or.inr ?_⟩
    rw [s.settled_put]
    exact .spawn (htask hi) ht
  | read hi =>
    refine ⟨h.put_idle i _, Or.inr ?_⟩
    rw [s.settled_put]
    exact .read (htask hi)
  | begin hi =>
    constructor
    · refine h.put_unlocked i _ rfl ?_
      intro c' next' held cs rest hrun
      cases hrun
      exact .refl
    · left
      rw [s.settled_put]
      have hput := htask hi
      exact AtomicState.put_eq_self hput
  | exec hi hfree hexec =>
    refine ⟨h.exec hi hfree hexec, Or.inl ?_⟩
    rw [s.settled_put]
    have hput := htask hi
    exact AtomicState.put_eq_self hput
  | commit hi hall =>
    refine ⟨h.commit hB hi _ _, Or.inr ?_⟩
    have hrun := (h.progress i _ _ _ _ _ hi).run_ret
    unfold SessionState.settled
    dsimp only
    rw [s.tasks_put]
    exact .commit (htask hi) hall hrun
  | lost hi hall =>
    refine ⟨h.commit hB hi _ _, Or.inr ?_⟩
    have hrun := (h.progress i _ _ _ _ _ hi).run_ret
    unfold SessionState.settled
    dsimp only
    rw [s.tasks_put]
    exact .lost (htask hi) hall hrun
  | abort hi =>
    have hidle := h.put_idle i .done
    refine ⟨⟨hidle.progress, hidle.disjoint⟩, Or.inr ?_⟩
    unfold SessionState.settled
    dsimp only
    rw [s.tasks_put]
    exact .fail (htask hi)
  | stop hi =>
    refine ⟨h.put_idle i _, Or.inr ?_⟩
    rw [s.settled_put]
    exact .stop

/-- Every interleaved run is a run of whole transactions: its committed store, its tasks with
the unfinished transactions not yet begun, and its outcomes are those of an `atomic` run. -/
theorem reachable_settled (hB : S.base.Lawful)
    {s : SessionState Db Change Key Stmt Ans Call Result}
    (hs : (S.sessions allowed).Reachable s) :
    S.Coherent s ∧ (S.atomic allowed).Reachable s.settled := by
  induction hs with
  | @init s h0 =>
    obtain ⟨hstart, hlog, hidle⟩ := h0
    constructor
    · constructor
      · intro i c next held cs rest hi
        rw [hidle i] at hi
        cases hi
      · intro i j _ key hkey
        rw [hidle i] at hkey
        cases hkey
    · refine .init ⟨hstart, hlog, fun i ↦ ?_⟩
      change (s.slots i).task = _
      rw [hidle i]
      rfl
  | @step s s' i _ hst ih =>
    obtain ⟨hco, heq | hstep⟩ := sessionStep_settled hB ih.1 hst
    · exact ⟨hco, heq ▸ ih.2⟩
    · exact ⟨hco, ih.2.step hstep⟩

/-- What holds of every state of the whole-transaction runs holds of every interleaved state. -/
theorem sessions_invariant (hB : S.base.Lawful) {I : AtomicState Db Call Result → Prop}
    (hI : (S.atomic allowed).Invariant I)
    {s : SessionState Db Change Key Stmt Ans Call Result}
    (hs : (S.sessions allowed).Reachable s) : I s.settled :=
  hI.reachable (reachable_settled hB hs).2

end System
end ChessStack.Library
