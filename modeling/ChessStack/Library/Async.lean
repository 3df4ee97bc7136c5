/-!
# Asynchronous functions on one event loop

Library `Library`. An asynchronous function runs between two of its awaits without interruption:
it reads and writes the memory of its process and tells its clients. At an await it hands over a
request and goes on with the answer, while other functions of the same process, and whatever lies
outside, take their turns. Functions are followed by rely and guarantee: what the others may do
while one waits, and what each of its own turns does.
-/

namespace ChessStack.Library

/-- An asynchronous function: what it does next. -/
inductive Code (Memory Request : Type) (Answer : Request → Type) (Message : Type) : Type
  | done
  | throw (text : String)
  | await (r : Request) (k : Answer r → Code Memory Request Answer Message)
  | look (k : Memory → Code Memory Request Answer Message)
  | store (f : Memory → Memory) (k : Code Memory Request Answer Message)
  | tell (m : Message) (k : Code Memory Request Answer Message)

/-- Where a function runs: the memory it sees in the state of the whole system. -/
structure Host (State Memory Message : Type) where
  memory : State → Memory
  put : State → Memory → State
  say : State → Message → State

namespace Code

variable {State Memory Request Message Ghost : Type} {Answer : Request → Type}

/-- One turn: up to the next await, or to the end. -/
def exec (H : Host State Memory Message) :
    Code Memory Request Answer Message → State → State × Code Memory Request Answer Message
  | .look k, s => (k (H.memory s)).exec H s
  | .store f k, s => k.exec H (H.put s (f (H.memory s)))
  | .tell m k, s => k.exec H (H.say s m)
  | .done, s => (s, .done)
  | .throw text, s => (s, .throw text)
  | .await r k, s => (s, .await r k)

/-- The function has come to an await or to its end. -/
def Rests : Code Memory Request Answer Message → Prop
  | .done | .throw _ | .await _ _ => True
  | _ => False

/-- What is left after a turn waits for something or is over. -/
theorem exec_rests (H : Host State Memory Message) (c : Code Memory Request Answer Message)
    (s : State) : (c.exec H s).2.Rests := by
  induction c generalizing s with
  | look k ih => exact ih _ s
  | store f k ih => exact ih _
  | tell m k ih => exact ih _
  | done => trivial
  | throw text => trivial
  | await r k => trivial

/-! ### Rely and guarantee -/

/-- What a function may count on and what it owes, for a ghost value that says what is its own.
`serves` is what serving its request does, with the answer that comes back. -/
structure Rules (State Request : Type) (Answer : Request → Type) (Ghost : Type) where
  inv : State → Prop
  rely : Ghost → State → State → Prop
  guar : Ghost → State → Ghost → State → Prop
  pre : Ghost → Request → State → Prop
  serves : (r : Request) → Answer r → State → State → Prop
  post : State → Prop

/-- The function keeps the rules from here on, whatever the others do while it waits. -/
def Keeps (H : Host State Memory Message) (R : Rules State Request Answer Ghost) :
    Code Memory Request Answer Message → Ghost → State → Prop
  | .look k, g, s => (k (H.memory s)).Keeps H R g s
  | .store f k, g, s => ∃ g', R.guar g s g' (H.put s (f (H.memory s))) ∧
      R.inv (H.put s (f (H.memory s))) ∧ k.Keeps H R g' (H.put s (f (H.memory s)))
  | .tell m k, g, s => R.guar g s g (H.say s m) ∧ R.inv (H.say s m) ∧ k.Keeps H R g (H.say s m)
  | .await r k, g, s => R.pre g r s ∧
      ∀ s₁ a s₂ s₃, R.rely g s s₁ → R.inv s₁ → R.serves r a s₁ s₂ → R.rely g s₂ s₃ → R.inv s₃ →
        (k a).Keeps H R g s₃
  | .done, _, s => R.post s
  | .throw _, _, s => R.post s

/-- The function keeps the rules when its next turn comes, however late that is. -/
def Ready (H : Host State Memory Message) (R : Rules State Request Answer Ghost)
    (c : Code Memory Request Answer Message) (g : Ghost) (s : State) : Prop :=
  ∀ s', R.rely g s s' → R.inv s' → c.Keeps H R g s'

/-- The relations compose, and what a function has secured stays while it waits. -/
structure Rules.Lawful (R : Rules State Request Answer Ghost) : Prop where
  guar_refl : ∀ g s, R.guar g s g s
  guar_trans : ∀ g s g' s' g'' s'', R.guar g s g' s' → R.guar g' s' g'' s'' → R.guar g s g'' s''
  rely_trans : ∀ g s s' s'', R.rely g s s' → R.rely g s' s'' → R.rely g s s''
  pre_stable : ∀ g r s s', R.pre g r s → R.rely g s s' → R.inv s' → R.pre g r s'
  post_stable : ∀ g s s', R.post s → R.rely g s s' → R.post s'

variable {H : Host State Memory Message} {R : Rules State Request Answer Ghost}
  {c : Code Memory Request Answer Message} {g : Ghost} {s s' : State}

/-- A turn of a function that keeps the rules. -/
theorem Keeps.exec (hR : R.Lawful) (h : c.Keeps H R g s) (hinv : R.inv s) :
    ∃ g', R.guar g s g' (c.exec H s).1 ∧ R.inv (c.exec H s).1 ∧
      (c.exec H s).2.Keeps H R g' (c.exec H s).1 := by
  induction c generalizing g s with
  | look k ih => exact ih _ h hinv
  | store f k ih =>
    obtain ⟨g', hguar, hinv', hk⟩ := h
    obtain ⟨g'', hguar', hinv'', hk'⟩ := ih hk hinv'
    exact ⟨g'', hR.guar_trans _ _ _ _ _ _ hguar hguar', hinv'', hk'⟩
  | tell m k ih =>
    obtain ⟨hguar, hinv', hk⟩ := h
    obtain ⟨g', hguar', hinv'', hk'⟩ := ih hk hinv'
    exact ⟨g', hR.guar_trans _ _ _ _ _ _ hguar hguar', hinv'', hk'⟩
  | done => exact ⟨g, hR.guar_refl g s, hinv, h⟩
  | throw text => exact ⟨g, hR.guar_refl g s, hinv, h⟩
  | await r k => exact ⟨g, hR.guar_refl g s, hinv, h⟩

/-- A function at rest still keeps the rules after the others took their turns. -/
theorem Keeps.stable (hR : R.Lawful) (hrests : c.Rests) (h : c.Keeps H R g s)
    (hrely : R.rely g s s') (hinv : R.inv s') : c.Keeps H R g s' := by
  cases c with
  | look k => cases hrests
  | store f k => cases hrests
  | tell m k => cases hrests
  | done => exact hR.post_stable _ _ _ h hrely
  | throw text => exact hR.post_stable _ _ _ h hrely
  | await r k =>
    obtain ⟨hpre, hk⟩ := h
    refine ⟨hR.pre_stable _ _ _ _ hpre hrely hinv, fun s₁ a s₂ s₃ hrely' ↦ ?_⟩
    exact hk s₁ a s₂ s₃ (hR.rely_trans _ _ _ _ hrely hrely')

/-- A function that is ready stays so while the others take their turns. -/
theorem Ready.stable (hR : R.Lawful) (h : c.Ready H R g s) (hrely : R.rely g s s') :
    c.Ready H R g s' :=
  fun s'' hrely' hinv ↦ h s'' (hR.rely_trans _ _ _ _ hrely hrely') hinv

/-- When its request has been served a function is ready to go on. -/
theorem Keeps.served {r : Request} {k : Answer r → Code Memory Request Answer Message}
    (h : (Code.await r k).Keeps H R g s) (hrefl : R.rely g s s) (hinv : R.inv s) {a : Answer r}
    (hserves : R.serves r a s s') : (k a).Ready H R g s' :=
  fun s'' hrely hinv' ↦ h.2 s a s' s'' hrefl hinv hserves hrely hinv'

end Code
end ChessStack.Library
