import Mathlib.Logic.Function.Basic

/-!
# Promises

Library `Library`. Promises by number and the queue of the event loop. `then` on a promise makes
another one: its reaction waits until the first is settled and is then queued as a job. A promise
settles once; its reactions become jobs in the order they were made.
-/

namespace ChessStack.Library

/-- How a promise settles. -/
inductive Settlement (Error : Type) where
  | fulfilled
  | rejected (e : Error)
  deriving DecidableEq, Repr

/-- A handler given to `then`, and the promise `then` returned. -/
structure Reaction (Handler : Type) where
  handler : Handler
  derived : Nat

/-- A reaction whose promise has settled. -/
structure Job (Handler Error : Type) where
  handler : Handler
  result : Settlement Error
  derived : Nat

/-- The promises of a process: how each has settled, what waits for each, and the jobs to run. -/
structure Heap (Handler Error : Type) where
  status : Nat → Option (Settlement Error)
  reactions : Nat → List (Reaction Handler)
  queue : List (Job Handler Error)
  next : Nat

namespace Heap

variable {Handler Error : Type} (h : Heap Handler Error)

/-- `promise.then(handler, handler)`: the new promise is the one numbered `h.next`. -/
def chain (p : Nat) (handler : Handler) : Heap Handler Error :=
  match h.status p with
  | none => { h with
      reactions := Function.update h.reactions p (h.reactions p ++ [⟨handler, h.next⟩])
      next := h.next + 1 }
  | some result => { h with
      queue := h.queue ++ [⟨handler, result, h.next⟩]
      next := h.next + 1 }

/-- A promise settles, unless it has. -/
def settle (p : Nat) (result : Settlement Error) : Heap Handler Error :=
  match h.status p with
  | none => { h with
      status := Function.update h.status p (some result)
      reactions := Function.update h.reactions p []
      queue := h.queue ++ (h.reactions p).map fun r ↦ ⟨r.handler, result, r.derived⟩ }
  | some _ => h

variable {h} {p : Nat}

/-- A handler of a pending promise waits for it. -/
theorem chain_of_pending (hp : h.status p = none) (handler : Handler) : h.chain p handler =
    { h with
      reactions := Function.update h.reactions p (h.reactions p ++ [⟨handler, h.next⟩])
      next := h.next + 1 } := by
  unfold chain
  rw [hp]

/-- A handler of a settled promise is queued at once. -/
theorem chain_of_settled {result : Settlement Error} (hp : h.status p = some result)
    (handler : Handler) : h.chain p handler =
      { h with
        queue := h.queue ++ [⟨handler, result, h.next⟩]
        next := h.next + 1 } := by
  unfold chain
  rw [hp]

/-- Settling a pending promise queues the handlers that wait for it. -/
theorem settle_of_pending (hp : h.status p = none) (result : Settlement Error) :
    h.settle p result =
      { h with
        status := Function.update h.status p (some result)
        reactions := Function.update h.reactions p []
        queue := h.queue ++ (h.reactions p).map fun r ↦ ⟨r.handler, result, r.derived⟩ } := by
  unfold settle
  rw [hp]

/-- Chaining a handler settles nothing. -/
@[simp] theorem status_chain (handler : Handler) : (h.chain p handler).status = h.status := by
  unfold chain
  split
  · rfl
  · rfl

/-- Chaining a handler makes one promise. -/
@[simp] theorem next_chain (handler : Handler) : (h.chain p handler).next = h.next + 1 := by
  unfold chain
  split
  · rfl
  · rfl

end Heap
end ChessStack.Library
