import ChessStack.Library.Locks

/-!
# Coarser locks than a store takes

Library `Library`. Serializability is shown once for a store whose statements lock all they read.
A real store locks fewer rows, one at a time. Where a transaction always holds rows that stand for
all the keys its statement reads, its runs are runs of the store with the coarser locks.
-/

namespace ChessStack.Library.System

variable {Db Change Key Cell Fixed Key' Cell' Fixed' Stmt Row : Type} {Ans : Stmt → Type}
  {Call : Type} {Result : Call → Type}

/-- The same tasks on the same store, with other locks. -/
def relock (S : System Db Change Key Cell Fixed Stmt Ans Call Result) (cell : Key' → Db → Cell')
    (fixed : Db → Fixed') (locks : Stmt → Db → List Key') :
    System Db Change Key' Cell' Fixed' Stmt Ans Call Result where
  base := { apply := S.base.apply, cell := cell, fixed := fixed, locks := locks, exec := S.base.exec }
  prog := S.prog
  start := S.start
  spawn := S.spawn

/-- The same place, with other keys held. -/
def Slot.rekey (held : List Key') : Slot Db Change Key Stmt Ans Call Result →
    Slot Db Change Key' Stmt Ans Call Result
  | .idle t => .idle t
  | .running c next _ cs rest => .running c next held cs rest

/-- The same state, with other keys held by each task. -/
def SessionState.rekey (b : SessionState Db Change Key Stmt Ans Call Result) (keys : Nat → List Key') :
    SessionState Db Change Key' Stmt Ans Call Result :=
  ⟨b.db, fun i ↦ (b.slots i).rekey (keys i), b.log⟩

/-- Task `i` holds `held`, the others what they held. -/
def give (keys : Nat → List Key') (i : Nat) (held : List Key') (j : Nat) : List Key' :=
  if j = i then held else keys j

private theorem give_self (keys : Nat → List Key') (i : Nat) (held : List Key') :
    give keys i held i = held := if_pos rfl

private theorem give_of_ne (keys : Nat → List Key') {i j : Nat} (held : List Key') (h : j ≠ i) :
    give keys i held j = keys j := if_neg h

private theorem SessionState.slots_rekey_put (b : SessionState Db Change Key Stmt Ans Call Result)
    (keys : Nat → List Key') (i : Nat) (slot : Slot Db Change Key Stmt Ans Call Result)
    (held : List Key') :
    (fun j ↦ ((b.put i slot).slots j).rekey (give keys i held j)) =
      ((b.rekey keys).put i (slot.rekey held)).slots := by
  funext j
  by_cases hji : j = i
  · subst hji
    rw [put_self, put_self, give_self]
  · rw [put_of_ne _ _ hji, put_of_ne _ _ hji, give_of_ne _ _ hji]
    rfl

/-- Moving one task, and other keys for it, in either order. -/
theorem SessionState.rekey_put (b : SessionState Db Change Key Stmt Ans Call Result)
    (keys : Nat → List Key') (i : Nat) (slot : Slot Db Change Key Stmt Ans Call Result)
    (held : List Key') (d : Db) (log : List (Outcome Db Call Result)) :
    ({ b.put i slot with db := d, log := log } : SessionState Db Change Key Stmt Ans Call Result).rekey
        (give keys i held) =
      { (b.rekey keys).put i (slot.rekey held) with db := d, log := log } :=
  congrArg (SessionState.mk d · log) (b.slots_rekey_put keys i slot held)

private theorem Slot.mem_held_rekey {held : List Key'}
    {slot : Slot Db Change Key Stmt Ans Call Result} :
    ∀ key ∈ (slot.rekey held).held, key ∈ held := by
  cases slot with
  | idle => exact nofun
  | running => exact fun _ h ↦ h

variable {S : System Db Change Key Cell Fixed Stmt Ans Call Result} {rows : Stmt → Db → List Row}
  {allowed : Call → Db → Prop} {cell : Key' → Db → Cell'} {fixed : Db → Fixed'}
  {locks : Stmt → Db → List Key'} {row : Key' → Row} [DecidableEq Row]

/-- A task that runs a statement has locked the rows that stand for its keys. -/
def Covered (S : System Db Change Key Cell Fixed Stmt Ans Call Result) (rows : Stmt → Db → List Row)
    (locks : Stmt → Db → List Key') (row : Key' → Row)
    (s : LockState Db Change Key Stmt Row Ans Call Result) : Prop :=
  ∀ i c next held cs stmt k, s.base.slots i = .running c next held cs (.query stmt k) →
    s.wants S rows i = none →
    ∀ key ∈ locks stmt (S.base.applyAll s.base.db cs), row key ∈ s.locked i

/-- The keys each task holds stand for rows it has locked. -/
def Standing (row : Key' → Row) (s : LockState Db Change Key Stmt Row Ans Call Result)
    (keys : Nat → List Key') : Prop := ∀ i, ∀ key ∈ keys i, row key ∈ s.locked i

omit [DecidableEq Row] in
private theorem Standing.move {s : LockState Db Change Key Stmt Row Ans Call Result}
    {keys : Nat → List Key'}
    (h : Standing row s keys) {i : Nat} {base : SessionState Db Change Key Stmt Ans Call Result}
    {held : List Key'} (hheld : ∀ key ∈ held, row key ∈ (base.slots i).keeps (s.locked i)) :
    Standing row (s.move i base) (give keys i held) := by
  intro j key hkey
  by_cases hji : j = i
  · subst hji
    rw [give_self] at hkey
    rw [s.move_self]
    exact hheld key hkey
  · rw [give_of_ne _ _ hji] at hkey
    rw [s.move_of_ne base hji]
    exact h j key hkey

/-- One step with the store's locks is a step with the coarser ones, or none. -/
theorem lockStep_relocked {s s' : LockState Db Change Key Stmt Row Ans Call Result}
    {l : LockLabel Row} (hstep : LockStep S rows allowed s l s') (hexclusive : Exclusive s)
    (hcovered : Covered S rows locks row s) {keys : Nat → List Key'} (hkeys : Standing row s keys) :
    ∃ keys', Standing row s' keys' ∧ (s'.base.rekey keys' = s.base.rekey keys ∨
      ∃ i, SessionStep (S.relock cell fixed locks) allowed (s.base.rekey keys) i
        (s'.base.rekey keys')) := by
  cases hstep with
  | @lock i r hwants hfree =>
    refine ⟨keys, fun j key hkey ↦ ?_, .inl rfl⟩
    by_cases hji : j = i
    · subst hji
      rw [s.grant_self]
      exact List.mem_append_left _ (hkeys j key hkey)
    · rw [s.grant_of_ne r hji]
      exact hkeys j key hkey
  | @step i base hbase hready =>
    have hslot : ∀ slot, s.base.slots i = slot →
        (s.base.rekey keys).slots i = slot.rekey (keys i) := by
      rintro slot rfl
      rfl
    have hfree : Standing row (s.move i base) (give keys i []) := hkeys.move nofun
    cases hbase with
    | @spawn t hi hspawn =>
      refine ⟨give keys i [], hfree, .inr ⟨i, ?_⟩⟩
      rw [show (s.move i _).base.rekey (give keys i []) = _ from s.base.rekey_put keys i _ [] _ _]
      exact .spawn (hslot _ hi) hspawn
    | @read next hi =>
      refine ⟨give keys i [], hfree, .inr ⟨i, ?_⟩⟩
      rw [show (s.move i _).base.rekey (give keys i []) = _ from s.base.rekey_put keys i _ [] _ _]
      exact .read (hslot _ hi)
    | @begin c next hi =>
      refine ⟨give keys i [], hfree, .inr ⟨i, ?_⟩⟩
      rw [show (s.move i _).base.rekey (give keys i []) = _ from s.base.rekey_put keys i _ [] _ _]
      exact .begin (hslot _ hi)
    | @exec c next held cs cs' stmt a k hi hapart hexec =>
      have hwants : s.wants S rows i = none := by
        apply hready
        rw [s.base.put_self]
        trivial
      have hmine := hcovered i c next held cs stmt k hi hwants
      refine ⟨give keys i (keys i ++ locks stmt (S.base.applyAll s.base.db cs)), ?_, .inr ⟨i, ?_⟩⟩
      · refine hkeys.move fun key hkey ↦ ?_
        rw [s.base.put_self]
        rcases List.mem_append.mp hkey with hkey | hkey
        · exact hkeys i key hkey
        · exact hmine key hkey
      · rw [show (s.move i _).base.rekey (give keys i _) = _ from s.base.rekey_put keys i _ _ _ _]
        refine .exec (hslot _ hi) (fun j hji key hkey hheld ↦ ?_) hexec
        have hother : row key ∈ s.locked j := hkeys j key (Slot.mem_held_rekey key hheld)
        exact hexclusive.apart i j hji.symm (row key) (hmine key hkey) hother
    | @commit c next held cs value hi hallowed =>
      refine ⟨give keys i [], hfree, .inr ⟨i, ?_⟩⟩
      rw [show (s.move i _).base.rekey (give keys i []) = _ from s.base.rekey_put keys i _ [] _ _]
      exact .commit (hslot _ hi) hallowed
    | @lost c next held cs value hi hallowed =>
      refine ⟨give keys i [], hfree, .inr ⟨i, ?_⟩⟩
      rw [show (s.move i _).base.rekey (give keys i []) = _ from s.base.rekey_put keys i _ [] _ _]
      exact .lost (hslot _ hi) hallowed
    | @abort c next held cs rest hi =>
      refine ⟨give keys i [], hfree, .inr ⟨i, ?_⟩⟩
      rw [show (s.move i _).base.rekey (give keys i []) = _ from s.base.rekey_put keys i _ [] _ _]
      exact .abort (hslot _ hi)
    | @stop t hi =>
      refine ⟨give keys i [], hfree, .inr ⟨i, ?_⟩⟩
      rw [show (s.move i _).base.rekey (give keys i []) = _ from s.base.rekey_put keys i _ [] _ _]
      exact .stop (hslot _ hi)

variable (cell fixed) in
/-- A run with the store's locks is a run with the coarser ones. -/
theorem locking_relocked {s : LockState Db Change Key Stmt Row Ans Call Result}
    (hs : (S.locking rows allowed).Reachable s)
    (hcovered : ∀ s, (S.locking rows allowed).Reachable s → Covered S rows locks row s) :
    Exclusive s ∧ ∃ keys, Standing row s keys ∧
      ((S.relock cell fixed locks).sessions allowed).Reachable (s.base.rekey keys) := by
  induction hs with
  | @init s h =>
    have hnone : ∀ i, s.locked i = [] := h.2
    refine ⟨⟨fun i _ _ ↦ hnone i, fun i j _ r hr ↦ ?_⟩, fun _ ↦ [], fun _ ↦ nofun, ?_⟩
    · rw [hnone i] at hr
      cases hr
    · refine .init ⟨h.1.1, h.1.2.1, fun i ↦ ?_⟩
      change (s.base.slots i).rekey [] = _
      rw [h.1.2.2 i]
      rfl
  | @step s s' l hs hst ih =>
    obtain ⟨hexclusive, keys, hkeys, hreach⟩ := ih
    obtain ⟨keys', hkeys', hsame | ⟨i, hstep⟩⟩ :=
      lockStep_relocked hst hexclusive (hcovered s hs) hkeys
    · exact ⟨hexclusive.step hst, keys', hkeys', hsame ▸ hreach⟩
    · exact ⟨hexclusive.step hst, keys', hkeys', hreach.step hstep⟩

end ChessStack.Library.System
