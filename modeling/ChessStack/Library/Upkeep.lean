import ChessStack.Library.Async

/-!
# Debts on one event loop

Library `Library`. A turn of an asynchronous function may leave something in the memory of its
process that must not stay: a debt. A function minds its debts when each debt that one of its
turns leaves is its own and it sees to it: however the others use the memory meanwhile, it does
not come to its end before the debt is gone, has been passed on, or is left to its `catch`.
-/

namespace ChessStack.Library

/-- The rules by which debts of one function are judged. -/
structure Upkeep (Memory Request : Type) (Answer : Request → Type) (Message Key : Type) where
  /-- What holds of the memory between any two stores. -/
  inv : Memory → Prop
  /-- What a store of the function may do. -/
  does : Memory → Memory → Prop
  /-- What the others may do while the function waits. -/
  later : Memory → Memory → Prop
  /-- What holds while the function waits. -/
  waits : Memory → Prop
  debt : Memory → Key → Prop
  mine : Key → Prop
  /-- The function's `catch` sees to the debt. -/
  caught : Key → Prop
  /-- Somebody else sees to the debt. -/
  passed : Memory → Key → Prop
  /-- The answers that can come. -/
  returns : (r : Request) → Answer r → Prop
  /-- The answers that leave the function able to see to the debt. -/
  answers : Key → (r : Request) → Answer r → Prop
  /-- The turns that are looked at. -/
  admits : Memory → Code Memory Request Answer Message → Prop

namespace Code

variable {State Memory Request Message Key : Type} {Answer : Request → Type}

/-- The function, within a turn, does not come to its end before the debt is gone. -/
def SeesTo (U : Upkeep Memory Request Answer Message Key) (key : Key) :
    Code Memory Request Answer Message → Memory → Prop
  | .look k, m => (k m).SeesTo U key m
  | .store f k, m => k.SeesTo U key (f m)
  | .tell _ k, m => k.SeesTo U key m
  | .await r k, m => U.debt m key → ∀ a, U.returns r a → U.answers key r a →
      ∀ m', U.later m m' → U.inv m' → (k a).SeesTo U key m'
  | .done, m => U.debt m key → U.passed m key
  | .throw _, m => U.debt m key → U.caught key

/-- The function sees to the debt from its next turn on, however late that is. -/
def Bound (U : Upkeep Memory Request Answer Message Key) (key : Key)
    (c : Code Memory Request Answer Message) (m : Memory) : Prop :=
  ∀ m', U.later m m' → U.inv m' → c.SeesTo U key m'

/-- The function, within a turn that began with the first memory, minds its debts. -/
def Minds (U : Upkeep Memory Request Answer Message Key) :
    Code Memory Request Answer Message → Memory → Memory → Prop
  | .look k, m₀, m => (k m).Minds U m₀ m
  | .store f k, m₀, m => U.does m (f m) ∧ U.inv (f m) ∧ k.Minds U m₀ (f m)
  | .tell _ k, m₀, m => k.Minds U m₀ m
  | .await r k, m₀, m => U.waits m ∧
      (∀ key, U.debt m key → ¬ U.debt m₀ key →
        U.mine key ∧ ∀ a, U.returns r a → U.answers key r a → (k a).Bound U key m) ∧
      ∀ a, U.returns r a → ∀ m', U.later m m' → U.inv m' → U.admits m' (k a) →
        (k a).Minds U m' m'
  | .done, m₀, m => ∀ key, U.debt m key → ¬ U.debt m₀ key → U.passed m key
  | .throw _, m₀, m => ∀ key, U.debt m key → ¬ U.debt m₀ key → U.caught key

/-- The function minds its debts from its next turn on, however late that is. -/
def Willing (U : Upkeep Memory Request Answer Message Key)
    (c : Code Memory Request Answer Message) (m : Memory) : Prop :=
  ∀ m', U.later m m' → U.inv m' → U.admits m' c → c.Minds U m' m'

/-- The function waits for an answer after which it goes on seeing to the debt. -/
def BoundAwait (U : Upkeep Memory Request Answer Message Key) (key : Key) :
    Code Memory Request Answer Message → Memory → Prop
  | .await r k, m => ∀ a, U.returns r a → U.answers key r a → (k a).Bound U key m
  | _, _ => False

/-- The function waits for an answer after which it goes on minding its debts. -/
def WillingAwait (U : Upkeep Memory Request Answer Message Key) :
    Code Memory Request Answer Message → Memory → Prop
  | .await r k, m => U.waits m ∧ ∀ a, U.returns r a → (k a).Willing U m
  | _, _ => False

end Code

/-- Telling a client leaves the memory alone, and what is stored is there. -/
structure Host.Lawful {State Memory Message : Type} (H : Host State Memory Message) : Prop where
  memory_put : ∀ s m, H.memory (H.put s m) = m
  memory_say : ∀ s x, H.memory (H.say s x) = H.memory s

/-- The relations compose. -/
structure Upkeep.Lawful {Memory Request Message Key : Type} {Answer : Request → Type}
    (U : Upkeep Memory Request Answer Message Key) : Prop where
  does_refl : ∀ m, U.does m m
  does_trans : ∀ m m' m'', U.does m m' → U.does m' m'' → U.does m m''
  later_refl : ∀ m, U.later m m
  later_trans : ∀ m m' m'', U.later m m' → U.later m' m'' → U.later m m''

namespace Code

variable {State Memory Request Message Key : Type} {Answer : Request → Type}
  {U : Upkeep Memory Request Answer Message Key} {H : Host State Memory Message}
  {c : Code Memory Request Answer Message} {key : Key} {m m' m₀ : Memory} {s : State}

/-- A turn of a function that sees to a debt. -/
theorem SeesTo.exec (hH : H.Lawful) (h : c.SeesTo U key (H.memory s)) :
    (c.exec H s).2.SeesTo U key (H.memory (c.exec H s).1) := by
  induction c generalizing s with
  | look k ih => exact ih _ h
  | store f k ih =>
    apply ih
    rw [hH.memory_put]
    exact h
  | tell x k ih =>
    apply ih
    rw [hH.memory_say]
    exact h
  | done => exact h
  | throw text => exact h
  | await r k => exact h

/-- A turn of a function that minds its debts. -/
theorem Minds.exec (hH : H.Lawful) (hU : U.Lawful) (h : c.Minds U m₀ (H.memory s))
    (hinv : U.inv (H.memory s)) :
    U.does (H.memory s) (H.memory (c.exec H s).1) ∧ U.inv (H.memory (c.exec H s).1) ∧
      (c.exec H s).2.Minds U m₀ (H.memory (c.exec H s).1) := by
  induction c generalizing s with
  | look k ih => exact ih _ h hinv
  | store f k ih =>
    obtain ⟨hdoes, hinv', hk⟩ := h
    rw [← hH.memory_put s (f (H.memory s))] at hdoes hinv' hk
    obtain ⟨hdoes', hinv'', hk'⟩ := ih hk hinv'
    exact ⟨hU.does_trans _ _ _ hdoes hdoes', hinv'', hk'⟩
  | tell x k ih =>
    rw [← hH.memory_say s x] at h hinv
    obtain ⟨hdoes, hinv', hk⟩ := ih h hinv
    rw [hH.memory_say] at hdoes
    exact ⟨hdoes, hinv', hk⟩
  | done => exact ⟨hU.does_refl _, hinv, h⟩
  | throw text => exact ⟨hU.does_refl _, hinv, h⟩
  | await r k => exact ⟨hU.does_refl _, hinv, h⟩

/-- A debt that is bound stays so. -/
theorem Bound.later (hU : U.Lawful) (h : c.Bound U key m) (hlater : U.later m m') :
    c.Bound U key m' :=
  fun m'' hlater' ↦ h m'' (hU.later_trans _ _ _ hlater hlater')

/-- Code that is willing stays so. -/
theorem Willing.later (hU : U.Lawful) (h : c.Willing U m) (hlater : U.later m m') :
    c.Willing U m' :=
  fun m'' hlater' ↦ h m'' (hU.later_trans _ _ _ hlater hlater')

/-- A debt bound across a wait stays so. -/
theorem BoundAwait.later (hU : U.Lawful) (h : c.BoundAwait U key m) (hlater : U.later m m') :
    c.BoundAwait U key m' := by
  cases c with
  | await r k => exact fun a hreturns hanswers ↦ (h a hreturns hanswers).later hU hlater
  | _ => exact h

/-- Code willing across a wait stays so. -/
theorem WillingAwait.later (hU : U.Lawful) (hwaits : ∀ m m', U.waits m → U.later m m' → U.waits m')
    (h : c.WillingAwait U m) (hlater : U.later m m') : c.WillingAwait U m' := by
  cases c with
  | await r k => exact ⟨hwaits _ _ h.1 hlater, fun a hreturns ↦ (h.2 a hreturns).later hU hlater⟩
  | _ => exact h

end Code

end ChessStack.Library
