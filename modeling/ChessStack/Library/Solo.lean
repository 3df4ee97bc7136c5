import ChessStack.Library.ReadCommitted
import Mathlib.Data.List.Basic

/-!
# A transaction alone

Library `Library`. What a transaction does when nobody else has one: it is the whole of the
interleaving, so the machine leads from rest to rest with the outcome that `run` computes.
-/

namespace ChessStack.Library.ReadCommitted

variable {Key Row Call : Type} {Result : Call → Type} [DecidableEq Key]

/-- How a transaction that runs alone ends. -/
inductive Ending (Key Row R : Type) where
  | committed (value : R) (after : Store Key Row)
  | returned (value : R)
  | failed

/-- The rows an `UPDATE` finds, with their keys. -/
def Store.found (d : Store Key Row) (cond : Key → Row → Bool) : Writes Key Row :=
  (d.targets cond).filterMap fun k ↦ (d.row? k).map (k, ·)

/-- The run of a transaction with these writes on a store that nobody else changes. -/
def Program.run {R : Type} : Program Key Row R → Store Key Row → Writes Key Row → Ending Key Row R
  | .commit value, d, own => .committed value (d.write own)
  | .rollback value, _, _ => .returned value
  | .throw, _, _ => .failed
  | .read next, d, own => (next (d.write own)).run d own
  | .update cond set next, d, own =>
    (next (((d.write own).found cond).map Prod.snd)).run d
      (own ++ ((d.write own).found cond).map fun w ↦ (w.1, set w.2))
  | .insert k row next, d, own =>
    if ((d.write own).row? k).isNone then next.run d (own ++ [(k, row)]) else .failed

/-- The state that a call has led to when it has ended. -/
def State.ended (s : State Key Row Call Result) (c : Call) :
    Ending Key Row (Result c) → State Key Row Call Result
  | .committed value d' => { s with db := d', log := s.log ++ [.committed c value s.db d'] }
  | .returned value => { s with log := s.log ++ [.returned c value s.db] }
  | .failed => { s with log := s.log ++ [.failed c s.db] }

variable {S : System Key Row Call Result} {s : State Key Row Call Result} {i : Nat} {c : Call}
  {d : Store Key Row} {cond : Key → Row → Bool}

omit [DecidableEq Key] in
private theorem Store.found_keys (d : Store Key Row) (cond : Key → Row → Bool) :
    (d.found cond).map Prod.fst = d.targets cond := by
  have hall : ∀ l : List Key, (∀ k ∈ l, (d.row? k).isSome) →
      (l.filterMap fun k ↦ (d.row? k).map (k, ·)).map Prod.fst = l := by
    intro l hl
    induction l with
    | nil => rfl
    | cons k l ih =>
      obtain ⟨row, hrow⟩ := Option.isSome_iff_exists.mp (hl k List.mem_cons_self)
      rw [List.filterMap_cons, hrow, Option.map_some]
      simp only [List.map_cons]
      rw [ih fun k' hk' ↦ hl k' (List.mem_cons_of_mem _ hk')]
  apply hall
  intro k hk
  obtain ⟨row, hrow, -⟩ := Store.mem_targets.mp hk
  rw [hrow]
  rfl

omit [DecidableEq Key] in
/-- A row found is in the store and satisfies the condition. -/
theorem Store.mem_found {w : Key × Row} (h : w ∈ d.found cond) :
    d.row? w.1 = some w.2 ∧ cond w.1 w.2 = true := by
  simp only [found, List.mem_filterMap] at h
  obtain ⟨k, hk, hw⟩ := h
  obtain ⟨row, hrow, hcond⟩ := Store.mem_targets.mp hk
  rw [hrow] at hw
  cases hw
  exact ⟨hrow, hcond⟩

omit [DecidableEq Key] in
/-- A condition of one key finds at most its row. -/
theorem Store.found_single (k : Key) (row : Row)
    (hcond : ∀ k' row, cond k' row = true → k' = k) (hrow : d.row? k = some row)
    (hk : cond k row = true) : d.found cond = [(k, row)] := by
  rw [found, Store.targets_single hcond hrow hk]
  simp [hrow]

omit [DecidableEq Key] in
private theorem State.put_put (s : State Key Row Call Result)
    (slot slot' : Slot Key Row Call Result) :
    (s.put i slot).put i slot' = s.put i slot' := by
  simp only [State.put, State.mk.injEq, and_true, true_and]
  funext j
  split <;> rfl

omit [DecidableEq Key] in
/-- A session that ends leaves the others at rest. -/
theorem State.put_idle (h : ∀ j, s.slots j = .idle) (slot : Slot Key Row Call Result) :
    (s.put i slot).put i .idle = s := by
  rw [State.put_put]
  simp only [State.put]
  cases s
  simp only [State.mk.injEq, and_true, true_and]
  funext j
  split
  · exact (h j).symm
  · rfl

/-- Alone, an `UPDATE` goes through the rows it has found. -/
theorem sweep_steps (h : ∀ j, s.slots j = .idle) (locks : List Key) (own : Writes Key Row)
    (set : Row → Row) (next : List Row → Program Key Row (Result c)) (got : List Row)
    (l : Writes Key Row) (hnodup : (l.map Prod.fst).Nodup)
    (hl : ∀ w ∈ l, (s.db.write own).row? w.1 = some w.2 ∧ cond w.1 w.2 = true) :
    ∃ locks', S.machine.Steps
      (s.put i (.running c locks own (.sweep cond set next (l.map Prod.fst) got)))
      (s.put i (.running c locks' (own ++ l.map fun w ↦ (w.1, set w.2))
        (.sweep cond set next [] (got ++ l.map Prod.snd)))) := by
  induction l generalizing locks own got with
  | nil => exact ⟨locks, by simpa using .refl⟩
  | cons w l ih =>
    rw [List.map_cons, List.nodup_cons] at hnodup
    obtain ⟨hrow, hcond⟩ := hl w List.mem_cons_self
    have hfree : (s.put i (.running c locks own
        (.sweep cond set next ((w :: l).map Prod.fst) got))).Free i w.1 := by
      intro j hj
      rw [State.put_of_ne _ _ hj, h j]
      exact List.not_mem_nil
    have hstep := Step.lock (S := S) (s.put_self i _) List.mem_cons_self hfree hrow hcond
    have hfilter : (w.1 :: l.map Prod.fst).filter (· ≠ w.1) = l.map Prod.fst := by
      rw [List.filter_cons_of_neg (by simp), List.filter_eq_self]
      intro k hk
      refine decide_eq_true fun heq ↦ hnodup.1 ?_
      rw [← heq]
      exact hk
    rw [hfilter, State.put_put] at hstep
    obtain ⟨locks', hsteps⟩ := ih (w.1 :: locks) (own ++ [(w.1, set w.2)]) (got ++ [w.2])
      hnodup.2 fun w' hw' ↦ by
        obtain ⟨hrow', hcond'⟩ := hl w' (List.mem_cons_of_mem _ hw')
        refine ⟨?_, hcond'⟩
        rw [Store.write_append, Store.write_singleton, Store.row?_put, if_neg, hrow']
        exact fun heq ↦ hnodup.1 (heq ▸ List.mem_map_of_mem hw')
    refine ⟨locks', (Machine.Steps.single _ hstep).trans ?_⟩
    simpa using hsteps

/-- From any point of its program a transaction that is alone comes to its end. -/
theorem run_steps (h : ∀ j, s.slots j = .idle) (rest : Program Key Row (Result c))
    (locks : List Key) (own : Writes Key Row) :
    S.machine.Steps (s.put i (.running c locks own (.stmt rest)))
      (s.ended c (rest.run s.db own)) := by
  have hend : ∀ slot, (s.put i slot).put i .idle = s := s.put_idle h
  induction rest generalizing locks own with
  | commit value =>
    have hstep := Step.commit (S := S) (s.put_self i (.running c locks own (.stmt (.commit value))))
    rw [hend] at hstep
    exact .single _ hstep
  | rollback value =>
    have hstep := Step.rollback (S := S)
      (s.put_self i (.running c locks own (.stmt (.rollback value))))
    rw [hend] at hstep
    exact .single _ hstep
  | throw =>
    have hstep := Step.abort (S := S) (s.put_self i (.running c locks own (.stmt .throw)))
    rw [hend] at hstep
    exact .single _ hstep
  | read next ih =>
    have hstep := Step.read (S := S) (s.put_self i (.running c locks own (.stmt (.read next))))
    rw [State.put_put] at hstep
    exact (Machine.Steps.single _ hstep).trans (ih _ locks own)
  | update cond set next ih =>
    have hsnapshot := Step.snapshot (S := S)
      (s.put_self i (.running c locks own (.stmt (.update cond set next))))
    rw [State.put_put] at hsnapshot
    obtain ⟨locks', hsteps⟩ := sweep_steps (S := S) (i := i) h locks own set next []
      ((s.db.write own).found cond)
      (by rw [Store.found_keys]; exact Store.nodup_targets _ cond) fun w hw ↦ Store.mem_found hw
    rw [Store.found_keys] at hsteps
    have hdone := Step.done (S := S) (s.put_self i (.running c locks'
      (own ++ ((s.db.write own).found cond).map fun w ↦ (w.1, set w.2))
      (.sweep cond set next [] ([] ++ ((s.db.write own).found cond).map Prod.snd))))
    rw [State.put_put] at hdone
    exact (Machine.Steps.single _ hsnapshot).trans
      (hsteps.trans ((Machine.Steps.single _ hdone).trans (ih _ locks' _)))
  | insert k row next ih =>
    rw [Program.run]
    split
    · next hnone =>
      have hfree : (s.put i (.running c locks own (.stmt (.insert k row next)))).Free i k := by
        intro j hj
        rw [State.put_of_ne _ _ hj, h j]
        exact List.not_mem_nil
      have hstep := Step.insert (S := S) (s.put_self i _) hfree (Option.isNone_iff_eq_none.mp hnone)
      rw [State.put_put] at hstep
      exact (Machine.Steps.single _ hstep).trans (ih _ _)
    · have hstep := Step.abort (S := S)
        (s.put_self i (.running c locks own (.stmt (.insert k row next))))
      rw [hend] at hstep
      exact .single _ hstep

/-- From rest a call comes to its end. -/
theorem call_steps (h : ∀ j, s.slots j = .idle) (i : Nat) (hspawn : S.spawn c) :
    S.machine.Steps s (s.ended c ((S.prog c).run s.db [])) :=
  (Machine.Steps.single (.begin i c) (Step.begin (h i) hspawn)).trans (run_steps h _ _ _)

end ChessStack.Library.ReadCommitted
