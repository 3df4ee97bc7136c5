import ChessStack.Library.Session
import Mathlib.Logic.Relation
import Mathlib.Data.List.Basic

/-!
# Row locks, one at a time

Library `Library`. A statement locks its rows one after the other, and waits while another
transaction holds the next one. The machine here adds to the interleaved transactions the rows
that each has locked so far; it says who waits for whom. A rank that every wait increases rules
out a cycle of waits.
-/

namespace ChessStack.Library

/-- Every statement that a program can still come to is `ok` in the phase it is then in; `after` is
the phase that a statement and its answer lead to. -/
def Tx.Follows {Stmt Result Phase : Type} {Ans : Stmt → Type} (ok : Phase → Stmt → Prop)
    (after : Phase → (stmt : Stmt) → Ans stmt → Phase) : Phase → Tx Stmt Ans Result → Prop
  | _, .ret _ => True
  | _, .throw => True
  | p, .query stmt next => ok p stmt ∧ ∀ a, Follows ok after (after p stmt a) (next a)

namespace System

variable {Db Change Key Cell Fixed Stmt Row : Type} {Ans : Stmt → Type} {Call : Type}
  {Result : Call → Type}

/-- The transactions, and the rows that each has locked. -/
structure LockState (Db Change Key Stmt Row : Type) (Ans : Stmt → Type) (Call : Type)
    (Result : Call → Type) where
  base : SessionState Db Change Key Stmt Ans Call Result
  locked : Nat → List Row

/-- The locks of what a task does next, in the order it takes them. -/
def Slot.asks (S : System Db Change Key Cell Fixed Stmt Ans Call Result) (rows : Stmt → Db → List Row)
    (d : Db) : Slot Db Change Key Stmt Ans Call Result → List Row
  | .running _ _ _ cs (.query stmt _) => rows stmt (S.base.applyAll d cs)
  | _ => []

/-- A task inside a transaction. -/
def Slot.Running : Slot Db Change Key Stmt Ans Call Result → Prop
  | .idle _ => False
  | .running .. => True

/-- What a task still holds when it has come to a place: everything until its transaction ends. -/
def Slot.keeps (locked : List Row) : Slot Db Change Key Stmt Ans Call Result → List Row
  | .idle _ => []
  | .running .. => locked

/-- A task takes one row lock, or a step of its own. -/
inductive LockLabel (Row : Type) where
  | lock (i : Nat) (row : Row)
  | step (i : Nat)

/-- The task that takes the step. -/
def LockLabel.task : LockLabel Row → Nat
  | .lock i _ | .step i => i

/-- Task `i` gets a row. -/
def LockState.grant (s : LockState Db Change Key Stmt Row Ans Call Result) (i : Nat) (row : Row) :
    LockState Db Change Key Stmt Row Ans Call Result :=
  { s with locked := fun j ↦ if j = i then s.locked i ++ [row] else s.locked j }

/-- Task `i` has moved on. -/
def LockState.move (s : LockState Db Change Key Stmt Row Ans Call Result) (i : Nat)
    (base : SessionState Db Change Key Stmt Ans Call Result) :
    LockState Db Change Key Stmt Row Ans Call Result :=
  ⟨base, fun j ↦ if j = i then (base.slots i).keeps (s.locked i) else s.locked j⟩

/-- The row that was granted comes last. -/
@[simp] theorem LockState.grant_self (s : LockState Db Change Key Stmt Row Ans Call Result) (i : Nat) (row : Row) :
    (s.grant i row).locked i = s.locked i ++ [row] := if_pos rfl

/-- A grant leaves the locks of the others. -/
@[simp] theorem LockState.grant_of_ne (s : LockState Db Change Key Stmt Row Ans Call Result)
    {i j : Nat} (row : Row) (h : j ≠ i) :
    (s.grant i row).locked j = s.locked j := if_neg h

/-- A step keeps the row locks unless it ends the transaction. -/
@[simp] theorem LockState.move_self (s : LockState Db Change Key Stmt Row Ans Call Result)
    (i : Nat)
    (base : SessionState Db Change Key Stmt Ans Call Result) :
    (s.move i base).locked i = (base.slots i).keeps (s.locked i) := if_pos rfl

/-- A step leaves the locks of the others. -/
@[simp] theorem LockState.move_of_ne (s : LockState Db Change Key Stmt Row Ans Call Result)
    {i j : Nat}
    (base : SessionState Db Change Key Stmt Ans Call Result) (h : j ≠ i) :
    (s.move i base).locked j = s.locked j := if_neg h

private theorem Slot.keeps_subset {locked : List Row}
    {slot : Slot Db Change Key Stmt Ans Call Result} :
    ∀ row ∈ slot.keeps locked, row ∈ locked := by
  cases slot with
  | idle t => exact nofun
  | running => exact fun _ h ↦ h

/-- A step of one task leaves the slots of the others. -/
theorem SessionStep.slots_of_ne {b b' : SessionState Db Change Key Stmt Ans Call Result} {i j : Nat}
    {S : System Db Change Key Cell Fixed Stmt Ans Call Result} {allowed : Call → Db → Prop}
    (h : SessionStep S allowed b i b') (hj : j ≠ i) : b'.slots j = b.slots j := by
  cases h <;> exact b.put_of_ne _ hj

/-- Nobody but these tasks does anything. -/
def Quiet (tasks : List Nat) (s : LockState Db Change Key Stmt Row Ans Call Result) : Prop :=
  ∀ j, j ∉ tasks → s.base.slots j = .idle .done ∧ s.locked j = []

private theorem Quiet.move {s : LockState Db Change Key Stmt Row Ans Call Result} {tasks : List Nat}
    (h : Quiet tasks s) {i : Nat} (hi : i ∈ tasks)
    {base : SessionState Db Change Key Stmt Ans Call Result}
    (hother : ∀ j, j ≠ i → base.slots j = s.base.slots j) : Quiet tasks (s.move i base) := by
  intro j hj
  have hji : j ≠ i := by
    rintro rfl
    exact hj hi
  rw [s.move_of_ne base hji]
  exact ⟨(hother j hji).trans (h j hj).1, (h j hj).2⟩

section Locks

variable [DecidableEq Row]

/-- The row a task has to lock next. -/
def LockState.wants (S : System Db Change Key Cell Fixed Stmt Ans Call Result)
    (rows : Stmt → Db → List Row) (s : LockState Db Change Key Stmt Row Ans Call Result) (i : Nat) :
    Option Row := ((s.base.slots i).asks S rows s.base.db).find? (· ∉ s.locked i)

/-- A statement runs once all its rows are locked; the end of a transaction frees its rows. -/
inductive LockStep (S : System Db Change Key Cell Fixed Stmt Ans Call Result)
    (rows : Stmt → Db → List Row) (allowed : Call → Db → Prop) :
    LockState Db Change Key Stmt Row Ans Call Result → LockLabel Row →
    LockState Db Change Key Stmt Row Ans Call Result → Prop
  | lock {s : LockState Db Change Key Stmt Row Ans Call Result} {i : Nat} {row : Row} :
      s.wants S rows i = some row → (∀ j, j ≠ i → row ∉ s.locked j) →
      LockStep S rows allowed s (.lock i row) (s.grant i row)
  | step {s : LockState Db Change Key Stmt Row Ans Call Result} {i : Nat}
      {base : SessionState Db Change Key Stmt Ans Call Result} :
      SessionStep S allowed s.base i base →
      ((base.slots i).Running → s.wants S rows i = none) →
      LockStep S rows allowed s (.step i) (s.move i base)

/-- The system with its row locks. -/
def locking (S : System Db Change Key Cell Fixed Stmt Ans Call Result) (rows : Stmt → Db → List Row)
    (allowed : Call → Db → Prop) :
    Machine (LockState Db Change Key Stmt Row Ans Call Result) (LockLabel Row) where
  init s := (S.sessions allowed).init s.base ∧ ∀ i, s.locked i = []
  step := LockStep S rows allowed

/-- Task `i` cannot go on before task `j` frees a row. -/
def LockState.Waits (S : System Db Change Key Cell Fixed Stmt Ans Call Result)
    (rows : Stmt → Db → List Row) (s : LockState Db Change Key Stmt Row Ans Call Result)
    (i j : Nat) : Prop := i ≠ j ∧ ∃ row, s.wants S rows i = some row ∧ row ∈ s.locked j

/-- Some tasks wait for each other in a cycle. -/
def LockState.Deadlocked (S : System Db Change Key Cell Fixed Stmt Ans Call Result)
    (rows : Stmt → Db → List Row) (s : LockState Db Change Key Stmt Row Ans Call Result) : Prop :=
  ∃ i, Relation.TransGen (s.Waits S rows) i i

variable {S : System Db Change Key Cell Fixed Stmt Ans Call Result} {rows : Stmt → Db → List Row}
  {allowed : Call → Db → Prop} {s s' : LockState Db Change Key Stmt Row Ans Call Result}

/-- Waits for tasks that wait themselves increase a rank: there is no cycle. -/
theorem not_deadlocked_of_wait_rank (rank : Nat → Nat)
    (h : ∀ i j k, s.Waits S rows i j → s.Waits S rows j k → rank i < rank j) :
    ¬ s.Deadlocked S rows := by
  rintro ⟨i, hcycle⟩
  have hlt : ∀ {i j}, Relation.TransGen (s.Waits S rows) i j →
      ∀ k, s.Waits S rows j k → rank i < rank j := by
    intro i j hij
    induction hij with
    | single hij => exact fun k hk ↦ h _ _ k hij hk
    | tail _ hjk ih => exact fun k hk ↦ Nat.lt_trans (ih _ hjk) (h _ _ k hjk hk)
  obtain ⟨k, hik, _⟩ := Relation.TransGen.head'_iff.mp hcycle
  exact Nat.lt_irrefl _ (hlt hcycle k hik)

/-- Waits that increase a rank have no cycle. -/
theorem not_deadlocked_of_rank (rank : Nat → Nat)
    (h : ∀ i j, s.Waits S rows i j → rank i < rank j) : ¬ s.Deadlocked S rows :=
  not_deadlocked_of_wait_rank rank fun i j _ hij _ ↦ h i j hij

/-- Two tasks that wait for each other are deadlocked. -/
theorem deadlocked_of_two {i j : Nat} (hij : s.Waits S rows i j) (hji : s.Waits S rows j i) :
    s.Deadlocked S rows := ⟨i, .tail (.single hij) hji⟩

/-- A wanted row is asked for and not yet locked. -/
theorem LockState.mem_of_wants {i : Nat} {row : Row} (h : s.wants S rows i = some row) :
    row ∈ (s.base.slots i).asks S rows s.base.db ∧ row ∉ s.locked i := by
  refine ⟨List.mem_of_find?_eq_some h, ?_⟩
  have hfree := List.find?_some h
  exact of_decide_eq_true hfree

/-- A task that wants nothing has locked all it asks for. -/
theorem LockState.locked_of_wants {i : Nat} (h : s.wants S rows i = none) :
    ∀ row ∈ (s.base.slots i).asks S rows s.base.db, row ∈ s.locked i := by
  intro row hrow
  have hfree := List.find?_eq_none.mp h row hrow
  exact not_not.mp fun hnot ↦ hfree (decide_eq_true hnot)

/-- Only a running transaction holds rows, and no two hold the same one. -/
structure Exclusive (s : LockState Db Change Key Stmt Row Ans Call Result) : Prop where
  idle : ∀ i t, s.base.slots i = .idle t → s.locked i = []
  apart : ∀ i j, i ≠ j → ∀ row ∈ s.locked i, row ∉ s.locked j

/-- No step lets two tasks hold one row. -/
theorem Exclusive.step {l : LockLabel Row} (h : Exclusive s) (hst : LockStep S rows allowed s l s') :
    Exclusive s' := by
  cases hst with
  | @lock i row hwants hfree =>
    have hmem := (LockState.mem_of_wants hwants).1
    constructor
    · intro j t hj
      by_cases hji : j = i
      · subst hji
        rw [show s.base.slots j = .idle t from hj] at hmem
        cases hmem
      · rw [s.grant_of_ne row hji]
        exact h.idle j t hj
    · intro j k hjk row' hrow'
      by_cases hji : j = i
      · subst hji
        rw [s.grant_self, List.mem_append, List.mem_singleton] at hrow'
        rw [s.grant_of_ne row hjk.symm]
        rcases hrow' with hrow' | rfl
        · exact h.apart j k hjk row' hrow'
        · exact hfree k hjk.symm
      · rw [s.grant_of_ne row hji] at hrow'
        by_cases hki : k = i
        · subst hki
          rw [s.grant_self, List.mem_append, List.mem_singleton, not_or]
          refine ⟨h.apart j k hjk row' hrow', ?_⟩
          rintro rfl
          exact hfree j hjk hrow'
        · rw [s.grant_of_ne row hki]
          exact h.apart j k hjk row' hrow'
  | @step i base hbase _ =>
    have hsub : ∀ j, ∀ row ∈ (s.move i base).locked j, row ∈ s.locked j := by
      intro j row hrow
      by_cases hji : j = i
      · subst hji
        rw [s.move_self] at hrow
        exact Slot.keeps_subset row hrow
      · rwa [s.move_of_ne base hji] at hrow
    constructor
    · intro j t hj
      by_cases hji : j = i
      · subst hji
        rw [s.move_self, show base.slots j = .idle t from hj]
        rfl
      · rw [s.move_of_ne base hji]
        exact h.idle j t ((hbase.slots_of_ne hji).symm.trans hj)
    · intro j k hjk row hrow hrow'
      exact h.apart j k hjk row (hsub j row hrow) (hsub k row hrow')

/-- A run with row locks is a run of the interleaved transactions. -/
theorem locking_base {guard : LockState Db Change Key Stmt Row Ans Call Result → LockLabel Row → Prop}
    (hs : ((S.locking rows allowed).restrict guard).Reachable s) :
    (S.sessions allowed).Reachable s.base ∧ Exclusive s := by
  induction hs with
  | @init s h =>
    refine ⟨.init h.1, fun i _ _ ↦ h.2 i, fun i j _ row hrow ↦ ?_⟩
    rw [h.2 i] at hrow
    cases hrow
  | @step s s' l _ hst ih =>
    refine ⟨?_, ih.2.step hst.2⟩
    cases hst.2 with
    | lock => exact ih.1
    | step hbase _ => exact ih.1.step hbase

/-! ### Executable runs -/

/-- A turn of a run: a task makes a call, or goes on. -/
inductive Turn (Call : Type) where
  | call (i : Nat) (c : Call)
  | go (i : Nat)

/-- The task whose turn it is. -/
def Turn.task : Turn Call → Nat
  | .call i _ | .go i => i

/-- What a task does when it goes on: it locks the row it wants, or runs its statement, or commits. -/
def LockState.go (S : System Db Change Key Cell Fixed Stmt Ans Call Result)
    (rows : Stmt → Db → List Row) [DecidableEq Key] (tasks : List Nat)
    (s : LockState Db Change Key Stmt Row Ans Call Result) (i : Nat) :
    Option (LockState Db Change Key Stmt Row Ans Call Result) :=
  match s.wants S rows i with
  | some row => if ∀ j ∈ tasks, j ≠ i → row ∉ s.locked j then some (s.grant i row) else none
  | none =>
    match s.base.slots i with
    | .idle (.call c next) => some (s.move i (s.base.put i (.running c next [] [] (S.prog c))))
    | .idle _ => none
    | .running _ _ _ _ .throw => none
    | .running c next _ cs (.ret value) => some (s.move i
        { s.base.put i (.idle (next value)) with
          db := S.base.applyAll s.base.db cs
          log := s.base.log ++ [.committed c value s.base.db (S.base.applyAll s.base.db cs) true] })
    | .running c next held cs (.query stmt k) =>
      if ∀ j ∈ tasks, j ≠ i → ∀ key ∈ S.base.locks stmt (S.base.applyAll s.base.db cs),
          key ∉ (s.base.slots j).held then
        (S.base.exec stmt (S.base.applyAll s.base.db cs)).map fun x ↦ s.move i (s.base.put i
          (.running c next (held ++ S.base.locks stmt (S.base.applyAll s.base.db cs)) (cs ++ x.1)
            (k x.2)))
      else none

/-- One turn of some tasks. -/
def LockState.turn (S : System Db Change Key Cell Fixed Stmt Ans Call Result)
    (rows : Stmt → Db → List Row) [DecidableEq Key] (tasks : List Nat)
    (s : LockState Db Change Key Stmt Row Ans Call Result) :
    Turn Call → Option (LockState Db Change Key Stmt Row Ans Call Result)
  | .call i c =>
    match s.base.slots i with
    | .idle .done => if i ∈ tasks then
        some (s.move i (s.base.put i (.idle (.call c fun _ ↦ .done)))) else none
    | _ => none
  | .go i => if i ∈ tasks then s.go S rows tasks i else none

/-- The turns of a list one after the other, each in a state that lets its task take it. -/
def LockState.turns (S : System Db Change Key Cell Fixed Stmt Ans Call Result)
    (rows : Stmt → Db → List Row) [DecidableEq Key] (tasks : List Nat)
    (lets : LockState Db Change Key Stmt Row Ans Call Result → Nat → Bool)
    (s : LockState Db Change Key Stmt Row Ans Call Result) (l : List (Turn Call)) :
    Option (LockState Db Change Key Stmt Row Ans Call Result) :=
  l.foldlM (fun s t ↦ if lets s t.task then s.turn S rows tasks t else none) s

variable [DecidableEq Key] {tasks : List Nat}

private theorem go_step (hall : ∀ c d, allowed c d) (h : Quiet tasks s) {i : Nat} (hi : i ∈ tasks)
    (hgo : s.go S rows tasks i = some s') :
    (∃ l : LockLabel Row, l.task = i ∧ LockStep S rows allowed s l s') ∧ Quiet tasks s' := by
  unfold LockState.go at hgo
  split at hgo
  · next row hwants =>
    split at hgo
    · next hfree =>
      obtain rfl := Option.some.inj hgo
      refine ⟨⟨_, rfl, .lock hwants fun j hji ↦ ?_⟩, fun j hj ↦ ?_⟩
      · by_cases hj : j ∈ tasks
        · exact hfree j hj hji
        · rw [(h j hj).2]
          exact List.not_mem_nil
      · have hji : j ≠ i := by
          rintro rfl
          exact hj hi
        rw [s.grant_of_ne row hji]
        exact h j hj
    · cases hgo
  · next hwants =>
    split at hgo
    · next c next hslot =>
      obtain rfl := Option.some.inj hgo
      exact ⟨⟨_, rfl, .step (.begin hslot) fun _ ↦ hwants⟩, h.move hi fun j hji ↦ s.base.put_of_ne _ hji⟩
    · cases hgo
    · cases hgo
    · next c next held cs value hslot =>
      obtain rfl := Option.some.inj hgo
      exact ⟨⟨_, rfl, .step (.commit hslot (hall c _)) fun _ ↦ hwants⟩,
        h.move hi fun j hji ↦ s.base.put_of_ne _ hji⟩
    · next c next held cs stmt k hslot =>
      split at hgo
      · next hfree =>
        obtain ⟨⟨cs', a⟩, hexec, rfl⟩ := Option.map_eq_some_iff.mp hgo
        refine ⟨⟨_, rfl, .step (.exec hslot (fun j hji key hkey ↦ ?_) hexec) fun _ ↦ hwants⟩,
          h.move hi fun j hji ↦ s.base.put_of_ne _ hji⟩
        by_cases hj : j ∈ tasks
        · exact hfree j hj hji key hkey
        · rw [(h j hj).1]
          exact List.not_mem_nil
      · cases hgo

private theorem turn_step (hall : ∀ c d, allowed c d)
    (hspawn : ∀ c, S.spawn (.call c fun _ ↦ .done))
    (h : Quiet tasks s) {turn : Turn Call} (hturn : s.turn S rows tasks turn = some s') :
    (∃ l : LockLabel Row, l.task = turn.task ∧ LockStep S rows allowed s l s') ∧
      Quiet tasks s' := by
  cases turn with
  | call i c =>
    simp only [LockState.turn] at hturn
    split at hturn
    · next hslot =>
      split at hturn
      · next hi =>
        obtain rfl := Option.some.inj hturn
        refine ⟨⟨.step i, rfl, .step (.spawn hslot (hspawn c)) fun hrunning ↦ ?_⟩,
          h.move hi fun j hji ↦ s.base.put_of_ne _ hji⟩
        rw [s.base.put_self] at hrunning
        cases hrunning
      · cases hturn
    · cases hturn
  | go i =>
    simp only [LockState.turn] at hturn
    split at hturn
    · next hi => exact go_step hall h hi hturn
    · cases hturn

/-- What a list of turns leads to is reached, when the guard admits every turn that is let. -/
theorem turns_reachable (hall : ∀ c d, allowed c d) (hspawn : ∀ c, S.spawn (.call c fun _ ↦ .done))
    {guard : LockState Db Change Key Stmt Row Ans Call Result → LockLabel Row → Prop}
    {lets : LockState Db Change Key Stmt Row Ans Call Result → Nat → Bool}
    (hguard : ∀ s l, Quiet tasks s → lets s l.task = true → guard s l) (h : Quiet tasks s)
    (hs : ((S.locking rows allowed).restrict guard).Reachable s) {l : List (Turn Call)}
    (hrun : s.turns S rows tasks lets l = some s') :
    ((S.locking rows allowed).restrict guard).Reachable s' := by
  induction l generalizing s with
  | nil =>
    obtain rfl := Option.some.inj hrun
    exact hs
  | cons turn l ih =>
    obtain ⟨s₁, hfirst, hrest⟩ := Option.bind_eq_some_iff.mp hrun
    obtain ⟨hlets, hfirst⟩ := Option.ite_none_right_eq_some.mp hfirst
    obtain ⟨⟨label, htask, hstep⟩, hquiet⟩ := turn_step hall hspawn h hfirst
    exact ih hquiet (hs.step ⟨hguard s label h (htask ▸ hlets), hstep⟩) hrest

end Locks

end System
end ChessStack.Library
