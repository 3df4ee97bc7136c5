import Mathlib.Data.List.Basic

/-!
# Transactions under row locks

Library `Library`. A transaction is a program of statements. A statement locks keys, reads
the last committed rows together with the transaction's own changes, and adds changes that
become visible to others at the commit. When what a statement does depends only on the keys it
has locked, the part of a transaction that has run so far can be rerun on any store that
agrees on its locks, with the same changes and answers: it commits as if it had run at once.
-/

namespace ChessStack.Library

/-- A transaction: `query` runs a statement and continues with its answer, `throw` leaves the
callback with an exception. -/
inductive Tx (Stmt : Type) (Ans : Stmt → Type) (Result : Type) where
  | ret (value : Result)
  | throw
  | query (stmt : Stmt) (next : Ans stmt → Tx Stmt Ans Result)

namespace Tx

variable {Stmt Result Result' : Type} {Ans : Stmt → Type}

/-- Sequencing: the second part starts from the value of the first. -/
def bind : Tx Stmt Ans Result → (Result → Tx Stmt Ans Result') → Tx Stmt Ans Result'
  | .ret value, f => f value
  | .throw, _ => .throw
  | .query stmt next, f => .query stmt fun a ↦ (next a).bind f

/-- Transactions run one after the other. -/
instance : Monad (Tx Stmt Ans) where
  pure := .ret
  bind := bind

/-- One statement and its answer. -/
def stmt (s : Stmt) : Tx Stmt Ans (Ans s) := .query s .ret

end Tx

/-- What a database does with a statement. `fixed` is the part no statement changes. -/
structure Database (Db Change Key Cell Fixed Stmt : Type) (Ans : Stmt → Type) where
  apply : Db → Change → Db
  cell : Key → Db → Cell
  fixed : Db → Fixed
  locks : Stmt → Db → List Key
  exec : (stmt : Stmt) → Db → Option (List Change × Ans stmt)

namespace Database

variable {Db Change Key Cell Fixed Stmt Result : Type} {Ans : Stmt → Type}

/-- The database seen through a list of changes. -/
def applyAll (B : Database Db Change Key Cell Fixed Stmt Ans) (d : Db) (cs : List Change) : Db :=
  cs.foldl B.apply d

/-- The stores hold the same in the given keys and in what never changes. -/
structure Agree (B : Database Db Change Key Cell Fixed Stmt Ans) (held : List Key) (d d' : Db) :
    Prop where
  cell : ∀ k ∈ held, B.cell k d = B.cell k d'
  fixed : B.fixed d = B.fixed d'

/-- A statement reads and writes only what it has locked. -/
structure Lawful (B : Database Db Change Key Cell Fixed Stmt Ans) : Prop where
  apply_congr : ∀ k c d d', B.cell k d = B.cell k d' → B.cell k (B.apply d c) = B.cell k (B.apply d' c)
  apply_fixed : ∀ d c, B.fixed (B.apply d c) = B.fixed d
  locks_congr : ∀ stmt d d', B.Agree (B.locks stmt d) d d' → B.locks stmt d = B.locks stmt d'
  exec_congr : ∀ stmt d d', B.Agree (B.locks stmt d) d d' → B.exec stmt d = B.exec stmt d'
  frame : ∀ stmt d cs a, B.exec stmt d = some (cs, a) →
    ∀ k, k ∉ B.locks stmt d → B.cell k (B.applyAll d cs) = B.cell k d

/-- The transaction run alone: `none` when it throws or a statement fails. -/
def run (B : Database Db Change Key Cell Fixed Stmt Ans) :
    Tx Stmt Ans Result → Db → Option (Result × Db)
  | .ret value, d => some (value, d)
  | .throw, _ => none
  | .query stmt next, d =>
    match B.exec stmt d with
    | none => none
    | some (cs, a) => B.run (next a) (B.applyAll d cs)

/-- The statements the transaction runs alone, up to one that fails. -/
def statements (B : Database Db Change Key Cell Fixed Stmt Ans) :
    Tx Stmt Ans Result → Db → List Stmt
  | .ret _, _ => []
  | .throw, _ => []
  | .query stmt next, d => stmt ::
    match B.exec stmt d with
    | none => []
    | some (cs, a) => B.statements (next a) (B.applyAll d cs)

/-- From `start` on the store `d` the transaction has come to `rest`, holding the locks `held`
and with the changes `cs` not yet visible to others. -/
inductive Progress (B : Database Db Change Key Cell Fixed Stmt Ans) (start : Tx Stmt Ans Result)
    (d : Db) : List Key → List Change → Tx Stmt Ans Result → Prop
  | refl : Progress B start d [] [] start
  | query {held : List Key} {cs cs' : List Change} {stmt : Stmt} {a : Ans stmt}
      {next : Ans stmt → Tx Stmt Ans Result} : Progress B start d held cs (.query stmt next) →
      B.exec stmt (B.applyAll d cs) = some (cs', a) →
      Progress B start d (held ++ B.locks stmt (B.applyAll d cs)) (cs ++ cs') (next a)

variable {B : Database Db Change Key Cell Fixed Stmt Ans}

/-- No changes. -/
@[simp] theorem applyAll_nil (d : Db) : B.applyAll d [] = d := rfl

/-- Changes one after the other. -/
theorem applyAll_append (d : Db) (cs cs' : List Change) :
    B.applyAll d (cs ++ cs') = B.applyAll (B.applyAll d cs) cs' := by
  unfold applyAll
  exact List.foldl_append

/-- A value runs to itself. -/
@[simp] theorem run_pure (value : Result) (d : Db) :
    B.run (pure value) d = some (value, d) := rfl

/-- A throw aborts. -/
@[simp] theorem run_throw (d : Db) : B.run (.throw : Tx Stmt Ans Result) d = none := rfl

/-- A statement runs, then what follows on the tables it leaves. -/
theorem run_query (stmt : Stmt) (next : Ans stmt → Tx Stmt Ans Result) (d : Db) :
    B.run (.query stmt next) d =
      (B.exec stmt d).bind fun x ↦ B.run (next x.2) (B.applyAll d x.1) := by
  rw [run]
  cases B.exec stmt d <;> rfl

/-- The second part of a sequence runs on what the first part leaves. -/
@[simp] theorem run_bind {Result' : Type} (t : Tx Stmt Ans Result) (f : Result → Tx Stmt Ans Result')
    (d : Db) : B.run (t >>= f) d = (B.run t d).bind fun x ↦ B.run (f x.1) x.2 := by
  change B.run (t.bind f) d = _
  induction t generalizing d with
  | ret value => rfl
  | throw => rfl
  | query stmt next ih =>
    rw [Tx.bind, run_query, run_query]
    cases B.exec stmt d with
    | none => rfl
    | some x => exact ih x.2 (B.applyAll d x.1)

/-- One statement alone. -/
@[simp] theorem run_stmt (s : Stmt) (d : Db) :
    B.run (Tx.stmt s) d = (B.exec s d).map fun x ↦ (x.2, B.applyAll d x.1) := by
  rw [Tx.stmt, run_query]
  cases B.exec s d <;> rfl

/-- The second part of a sequence begins where the first has ended. -/
theorem statements_bind {Result' : Type} {t : Tx Stmt Ans Result} {f : Result → Tx Stmt Ans Result'}
    {d d' : Db} {value : Result} (h : B.run t d = some (value, d')) :
    B.statements (t >>= f) d = B.statements t d ++ B.statements (f value) d' := by
  change B.statements (t.bind f) d = _
  induction t generalizing d with
  | ret value =>
    obtain ⟨rfl, rfl⟩ := Prod.mk.inj (Option.some.inj h)
    rfl
  | throw => cases h
  | query stmt next ih =>
    rw [run_query, Option.bind_eq_some_iff] at h
    obtain ⟨⟨cs, a⟩, hexec, hrest⟩ := h
    simp only [Tx.bind, statements, hexec, ih a hrest, List.cons_append]

/-- Tables agree with themselves. -/
theorem Agree.refl (held : List Key) (d : Db) : B.Agree held d d := ⟨fun _ _ ↦ rfl, rfl⟩

private theorem Agree.mono {held held' : List Key} {d d' : Db} (h : B.Agree held d d')
    (hsub : ∀ k ∈ held', k ∈ held) : B.Agree held' d d' :=
  ⟨fun k hk ↦ h.cell k (hsub k hk), h.fixed⟩

/-- Changes keep stores in agreement. -/
theorem Lawful.agree_applyAll (hB : B.Lawful) {held : List Key} {d d' : Db}
    (h : B.Agree held d d') (cs : List Change) :
    B.Agree held (B.applyAll d cs) (B.applyAll d' cs) := by
  induction cs generalizing d d' with
  | nil => exact h
  | cons c cs ih =>
    apply ih
    constructor
    · intro k hk
      exact hB.apply_congr k c d d' (h.cell k hk)
    · rw [hB.apply_fixed, hB.apply_fixed, h.fixed]

/-- What no statement changes, no list of changes does. -/
theorem Lawful.fixed_applyAll (hB : B.Lawful) (d : Db) (cs : List Change) :
    B.fixed (B.applyAll d cs) = B.fixed d := by
  induction cs generalizing d with
  | nil => rfl
  | cons c cs ih => exact (ih _).trans (hB.apply_fixed d c)

namespace Progress

variable {start rest : Tx Stmt Ans Result} {d d' : Db} {held : List Key} {cs : List Change}

/-- Running the rest on the changed store is running the whole. -/
theorem run_eq (h : B.Progress start d held cs rest) :
    B.run start d = B.run rest (B.applyAll d cs) := by
  induction h with
  | refl => rfl
  | query h hexec ih =>
    rw [ih, run_query, hexec, applyAll_append]
    rfl

/-- A transaction that has reached its end has done what it does alone. -/
theorem run_ret {value : Result} (h : B.Progress start d held cs (.ret value)) :
    B.run start d = some (value, B.applyAll d cs) := h.run_eq

/-- The same statements run with the same answers on every store that agrees on the locks. -/
theorem congr (hB : B.Lawful) (h : B.Progress start d held cs rest) (hag : B.Agree held d d') :
    B.Progress start d' held cs rest := by
  induction h with
  | refl => exact .refl
  | @query held cs cs' stmt a next h hexec ih =>
    have hprev : B.Agree held d d' := hag.mono fun k hk ↦ List.mem_append_left _ hk
    have hnow : B.Agree (B.locks stmt (B.applyAll d cs)) (B.applyAll d cs) (B.applyAll d' cs) :=
      hB.agree_applyAll (hag.mono fun k hk ↦ List.mem_append_right _ hk) cs
    rw [hB.locks_congr _ _ _ hnow]
    rw [hB.exec_congr _ _ _ hnow] at hexec
    exact .query (ih hprev) hexec

/-- Nothing outside the locks changes. -/
theorem frame (hB : B.Lawful) (h : B.Progress start d held cs rest) {k : Key} (hk : k ∉ held) :
    B.cell k (B.applyAll d cs) = B.cell k d := by
  induction h with
  | refl => rfl
  | query h hexec ih =>
    rw [List.mem_append, not_or] at hk
    rw [applyAll_append, hB.frame _ _ _ _ hexec k hk.2, ih hk.1]

/-- What one transaction commits leaves in agreement those that hold other locks. -/
theorem agree_of_disjoint (hB : B.Lawful) (h : B.Progress start d held cs rest)
    {held' : List Key} (hdisj : ∀ k ∈ held', k ∉ held) : B.Agree held' d (B.applyAll d cs) :=
  ⟨fun k hk ↦ (h.frame hB (hdisj k hk)).symm, (hB.fixed_applyAll d cs).symm⟩

end Progress

end Database
end ChessStack.Library
