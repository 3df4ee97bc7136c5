import ChessStack.Library.Protocol
import ChessStack.Library.Serial

/-!
# What a task has missed

Library `Library`. Between the read a task decides on and the commit of its decision the others go
on. A watched run keeps, for each task, the outcomes the others have brought about since the task
last read the store. What a task knows of the store, up to what it has missed, is shown of the task
alone and then holds in every interleaving; and a condition on who may overtake whom is a guard on
watched runs.
-/

namespace ChessStack.Library

variable {Db Change Key Cell Fixed Stmt : Type} {Ans : Stmt → Type} {Call : Type}
  {Result : Call → Type}

/-- The task is about to read the store. -/
def Task.reads : Task Db Call Result → Bool
  | .read _ => true
  | _ => false

namespace System

/-- For each task the outcomes of the others since it last read the store. -/
abbrev Missed (Db Call : Type) (Result : Call → Type) := Nat → List (Outcome Db Call Result)

/-- What is missed after task `i`, which was about to read or not, has brought `outs` about. -/
def Missed.after (missed : Missed Db Call Result) (reads : Bool) (i : Nat)
    (outs : List (Outcome Db Call Result)) : Missed Db Call Result := fun j ↦
  if j = i then if reads then [] else missed j else missed j ++ outs

/-- The label of a watched step: the task, and the outcomes it brings about. -/
abbrev Watch (Db Call : Type) (Result : Call → Type) := Nat × List (Outcome Db Call Result)

/-- The interleaved system, watched. -/
def watched (S : System Db Change Key Cell Fixed Stmt Ans Call Result)
    (allowed : Call → Db → Prop) :
    Machine (SessionState Db Change Key Stmt Ans Call Result × Missed Db Call Result)
      (Watch Db Call Result) where
  init p := (S.sessions allowed).init p.1 ∧ p.2 = fun _ ↦ []
  step p l p' := SessionStep S allowed p.1 l.1 p'.1 ∧ p'.1.log = p.1.log ++ l.2 ∧
    p'.2 = p.2.after (p.1.slots l.1).task.reads l.1 l.2

variable {S : System Db Change Key Cell Fixed Stmt Ans Call Result} {allowed : Call → Db → Prop}
  {P : Protocol Db Call}

/-- A watched run is a run. -/
theorem reachable_of_watched
    {p : SessionState Db Change Key Stmt Ans Call Result × Missed Db Call Result}
    (h : (S.watched allowed).Reachable p) : (S.sessions allowed).Reachable p.1 := by
  induction h with
  | init h0 => exact .init h0.1
  | step _ hst ih => exact ih.step hst.1

/-! ### What a task knows -/

/-- The others have led from the first store to the second by these outcomes. -/
inductive Passed (S : System Db Change Key Cell Fixed Stmt Ans Call Result) (P : Protocol Db Call)
    (d : Db) : List (Outcome Db Call Result) → Db → Prop
  | refl : Passed S P d [] d
  | commit {outs : List (Outcome Db Call Result)} {d' d'' : Db} {c : Call} {value : Result c}
      {answered : Bool} : Passed S P d outs d' → P.inv d' → P.pre c d' →
      S.base.run (S.prog c) d' = some (value, d'') →
      Passed S P d (outs ++ [.committed c value d' d'' answered]) d''
  | failed {outs : List (Outcome Db Call Result)} {d' : Db} {c : Call} : Passed S P d outs d' →
      Passed S P d (outs ++ [.failed c]) d'

/-- Each call of the task is made where it knows the store up to what the task has missed: `told`
says what a call knows. -/
def Aware (S : System Db Change Key Cell Fixed Stmt Ans Call Result) (P : Protocol Db Call)
    (told : Call → Db → List (Outcome Db Call Result) → Prop) :
    Task Db Call Result → Db → List (Outcome Db Call Result) → Prop
  | .done, _, _ => True
  | .read next, _, _ => ∀ d, P.inv d → Aware S P told (next d) d []
  | .call c next, d, missed => told c d missed ∧ ∀ outs d₁ value d₂, Passed S P d outs d₁ →
      P.inv d₁ → P.pre c d₁ → S.base.run (S.prog c) d₁ = some (value, d₂) →
      Aware S P told (next value) d₂ (missed ++ outs)

/-- What a call knows stays known while the others go on, and every task starts aware. -/
structure Told (S : System Db Change Key Cell Fixed Stmt Ans Call Result) (P : Protocol Db Call)
    (told : Call → Db → List (Outcome Db Call Result) → Prop) : Prop where
  stable : ∀ c d missed outs d', told c d missed → Passed S P d outs d' → told c d' (missed ++ outs)
  spawn : ∀ t, S.spawn t → ∀ d missed, P.inv d → Aware S P told t d missed

variable {told : Call → Db → List (Outcome Db Call Result) → Prop}

/-- Stores follow one another. -/
theorem Passed.trans {d d' d'' : Db} {outs outs' : List (Outcome Db Call Result)}
    (h : Passed S P d outs d') (h' : Passed S P d' outs' d'') : Passed S P d (outs ++ outs') d'' := by
  induction h' with
  | refl => rwa [List.append_nil]
  | commit _ hinv hpre hrun ih =>
    rw [← List.append_assoc]
    exact ih.commit hinv hpre hrun
  | failed _ ih =>
    rw [← List.append_assoc]
    exact ih.failed

/-- An aware task stays aware while the others go on. -/
theorem Aware.stable (hT : Told S P told) {t : Task Db Call Result} {d d' : Db}
    {missed outs : List (Outcome Db Call Result)} (h : Aware S P told t d missed)
    (hp : Passed S P d outs d') : Aware S P told t d' (missed ++ outs) := by
  cases t with
  | done => trivial
  | read next => exact h
  | call c next =>
    refine ⟨hT.stable _ _ _ _ _ h.1 hp, fun outs' d₁ value d₂ hp' hinv hpre hrun ↦ ?_⟩
    rw [List.append_assoc]
    exact h.2 _ d₁ value d₂ (hp.trans hp') hinv hpre hrun

/-- A task that reads, or is done, need not have missed anything. -/
theorem Aware.reads {t : Task Db Call Result} {d : Db} {missed : List (Outcome Db Call Result)}
    (h : Aware S P told t d missed) (b : Bool) (hb : b = true → t.reads = true) :
    Aware S P told t d (if b then [] else missed) := by
  split
  · next heq =>
    cases t with
    | done => trivial
    | read next => exact h
    | call c next => exact absurd (hb heq) Bool.false_ne_true
  · exact h

/-- One step of a task: nothing comes of it, a call fails, or one commits. -/
inductive Brings (S : System Db Change Key Cell Fixed Stmt Ans Call Result) (P : Protocol Db Call)
    (s : AtomicState Db Call Result) (i : Nat) : List (Outcome Db Call Result) → Db → Prop
  | nothing : Brings S P s i [] s.db
  | failed {c : Call} : Brings S P s i [.failed c] s.db
  | committed {c : Call} {next : Result c → Task Db Call Result} {value : Result c} {after : Db}
      {answered : Bool} : s.tasks i = .call c next → P.inv s.db → P.pre c s.db →
      S.base.run (S.prog c) s.db = some (value, after) →
      Brings S P s i [.committed c value s.db after answered] after

/-- The outcomes of a step are passed by the other tasks. -/
theorem Brings.passed {s : AtomicState Db Call Result} {i : Nat}
    {outs : List (Outcome Db Call Result)} {d : Db} (h : Brings S P s i outs d) :
    Passed S P s.db outs d := by
  cases h with
  | nothing => exact .refl
  | failed => exact Passed.failed .refl
  | committed _ hinv hpre hrun => exact Passed.commit .refl hinv hpre hrun

/-- A step with whole transactions, its outcomes, and what its task and the others then know. -/
theorem atomicStep_aware (hT : Told S P told) {s s' : AtomicState Db Call Result}
    {i : Nat} {missed : Missed Db Call Result} (hkept : P.Kept S allowed s)
    (haware : ∀ j, Aware S P told (s.tasks j) s.db (missed j)) (hst : AtomicStep S allowed s i s')
    {outs : List (Outcome Db Call Result)} (hlog : s'.log = s.log ++ outs) :
    Brings S P s i outs s'.db ∧ ∀ j, Aware S P told (s'.tasks j) s'.db
      (missed.after (s.tasks i).reads i outs j) := by
  -- it is enough to look at the task itself
  have hothers : ∀ {t d}, Brings S P s i outs d →
      Aware S P told t d (missed.after (s.tasks i).reads i outs i) → ∀ j,
      Aware S P told (if j = i then t else s.tasks j) d (missed.after (s.tasks i).reads i outs j) := by
    intro t d hbrings ht j
    by_cases hj : j = i
    · rw [if_pos hj, hj]
      exact ht
    · rw [if_neg hj, Missed.after, if_neg hj]
      exact (haware j).stable hT hbrings.passed
  have hself : ∀ j, missed.after (s.tasks j).reads j outs j =
      if (s.tasks j).reads then [] else missed j := fun j ↦ if_pos rfl
  have hnil : s'.log = s.log → outs = [] := fun heq ↦ by
    rw [heq] at hlog
    exact List.append_right_eq_self.mp hlog.symm
  cases hst with
  | spawn hi ht =>
    obtain rfl := hnil rfl
    exact ⟨.nothing, hothers .nothing (hT.spawn _ ht _ _ hkept.inv)⟩
  | read hi =>
    obtain rfl := hnil rfl
    refine ⟨.nothing, hothers .nothing ?_⟩
    have hread := haware i
    rw [hself, hi]
    rw [hi] at hread
    exact hread s.db hkept.inv
  | @commit c next value after hi _ hrun =>
    obtain rfl := List.append_cancel_left hlog
    have hsafe := hkept.safe i
    have hcall := haware i
    rw [hi] at hsafe hcall
    have hbrings : Brings S P s i [.committed c value s.db after true] after :=
      .committed hi hkept.inv hsafe.1 hrun
    refine ⟨hbrings, hothers hbrings ?_⟩
    have hnext := hcall.2 [] s.db value after .refl hkept.inv hsafe.1 hrun
    rw [List.append_nil] at hnext
    rw [hself, hi]
    exact hnext
  | @lost c next value after hi _ hrun =>
    obtain rfl := List.append_cancel_left hlog
    have hsafe := hkept.safe i
    rw [hi] at hsafe
    have hbrings : Brings S P s i [.committed c value s.db after false] after :=
      .committed hi hkept.inv hsafe.1 hrun
    exact ⟨hbrings, hothers hbrings trivial⟩
  | @fail c next hi =>
    obtain rfl := List.append_cancel_left hlog
    exact ⟨.failed, hothers .failed trivial⟩
  | stop =>
    obtain rfl := hnil rfl
    exact ⟨.nothing, hothers .nothing trivial⟩

/-- What holds in a watched run: the protocol is kept, and each task knows the store up to what it
has missed. -/
structure WatchedOk (S : System Db Change Key Cell Fixed Stmt Ans Call Result)
    (allowed : Call → Db → Prop) (P : Protocol Db Call)
    (told : Call → Db → List (Outcome Db Call Result) → Prop)
    (p : SessionState Db Change Key Stmt Ans Call Result × Missed Db Call Result) : Prop where
  reachable : (S.sessions allowed).Reachable p.1
  kept : P.Kept S allowed p.1.settled
  aware : ∀ i, Aware S P told (p.1.slots i).task p.1.db (p.2 i)

/-- A watched step brings about what a step with whole transactions does, and keeps the rest. -/
theorem WatchedOk.step (hP : P.Sound S) (hB : S.base.Lawful) (hT : Told S P told)
    {p p' : SessionState Db Change Key Stmt Ans Call Result × Missed Db Call Result}
    {l : Watch Db Call Result} (h : WatchedOk S allowed P told p)
    (hst : (S.watched allowed).step p l p') :
    Brings S P p.1.settled l.1 l.2 p'.1.db ∧ WatchedOk S allowed P told p' := by
  obtain ⟨s, missed⟩ := p
  obtain ⟨s', missed'⟩ := p'
  obtain ⟨i, outs⟩ := l
  obtain ⟨hstep, hlog, hmissed⟩ := hst
  dsimp only at hstep hlog hmissed ⊢
  subst hmissed
  have hreach := h.reachable.step hstep
  obtain ⟨-, heq | hatomic⟩ := sessionStep_settled hB (reachable_settled hB h.reachable).1 hstep
  · -- a transaction begins or makes a statement
    have hdb : s'.db = s.db := congrArg AtomicState.db heq
    have houts : outs = [] := by
      have hsame : s'.log = s.log := congrArg AtomicState.log heq
      rw [hlog] at hsame
      exact List.append_right_eq_self.mp hsame
    subst houts
    refine ⟨?_, hreach, heq ▸ h.kept, fun j ↦ ?_⟩
    · rw [hdb]
      exact .nothing
    · have hj : (s'.slots j).task = (s.slots j).task := congrFun (congrArg AtomicState.tasks heq) j
      dsimp only
      rw [hdb, hj, Missed.after]
      split
      · next hji => exact (h.aware j).reads _ fun hreads ↦ hji ▸ hreads
      · rw [List.append_nil]
        exact h.aware j
  · obtain ⟨hbrings, haware⟩ := atomicStep_aware hT h.kept h.aware hatomic hlog
    exact ⟨hbrings, hreach, (Protocol.Kept.step hP h.kept hatomic).1, haware⟩

/-- Every state of a watched run is in order. -/
theorem watched_ok (hP : P.Sound S) (hB : S.base.Lawful) (hT : Told S P told)
    {p : SessionState Db Change Key Stmt Ans Call Result × Missed Db Call Result}
    (h : (S.watched allowed).Reachable p) : WatchedOk S allowed P told p := by
  induction h with
  | init h0 =>
    have hreach : (S.sessions allowed).Reachable _ := .init h0.1
    refine ⟨hreach, Protocol.kept hP hB hreach, fun i ↦ ?_⟩
    rw [h0.1.2.2 i]
    trivial
  | step _ hst ih => exact (ih.step hP hB hT hst).2

/-! ### Watched serial runs -/

section Serial

variable {guard : AtomicState Db Call Result × Missed Db Call Result → Watch Db Call Result → Prop}

/-- A guard on watched runs that sees the state as if no transaction had begun. -/
def guarded (S : System Db Change Key Cell Fixed Stmt Ans Call Result)
    (allowed : Call → Db → Prop)
    (guard : AtomicState Db Call Result × Missed Db Call Result → Watch Db Call Result → Prop) :
    Machine (SessionState Db Change Key Stmt Ans Call Result × Missed Db Call Result)
      (Watch Db Call Result) :=
  (S.watched allowed).restrict fun p l ↦ guard (p.1.settled, p.2) l

/-- A watched action, if it meets the guard. -/
def watch (S : System Db Change Key Cell Fixed Stmt Ans Call Result)
    (guard : AtomicState Db Call Result × Missed Db Call Result → Watch Db Call Result → Bool)
    (p : AtomicState Db Call Result × Missed Db Call Result) (a : Action Db Call Result) :
    Option (AtomicState Db Call Result × Missed Db Call Result) :=
  (S.perform p.1 a).bind fun s' ↦
    if guard p (a.index, s'.log.drop p.1.log.length) then
      some (s', p.2.after (p.1.tasks a.index).reads a.index (s'.log.drop p.1.log.length))
    else none

/-- Nothing that only its own task notices changes what is missed. -/
theorem Missed.after_nil (missed : Missed Db Call Result) (i : Nat) :
    missed.after false i [] = missed := by
  funext j
  unfold Missed.after
  split
  · rfl
  · exact List.append_nil _

/-- A step of which nothing comes, and that is not a read, changes nothing that is missed. -/
theorem guarded_quiet (hguard : ∀ p i, guard p (i, []))
    {s s' : SessionState Db Change Key Stmt Ans Call Result} {i : Nat}
    (hst : SessionStep S allowed s i s') (hlog : s'.log = s.log)
    (hreads : (s.slots i).task.reads = false) (missed : Missed Db Call Result) :
    (S.guarded allowed guard).step (s, missed) (i, []) (s', missed) := by
  refine ⟨hguard _ i, hst, hlog.trans (List.append_nil _).symm, ?_⟩
  change missed = missed.after (s.slots i).task.reads i []
  rw [hreads, missed.after_nil]

/-- Statements of a transaction that nobody hinders are watched steps. -/
theorem watched_to_end {s : SessionState Db Change Key Stmt Ans Call Result}
    {missed : Missed Db Call Result} {i : Nat} {c : Call} {next : Result c → Task Db Call Result}
    {held : List Key} {cs : List Change} {rest : Tx Stmt Ans (Result c)} {value : Result c} {d' : Db}
    (hguard : ∀ p i, guard p (i, [])) (hfree : ∀ j, j ≠ i → (s.slots j).held = [])
    (hrun : S.base.run rest (S.base.applyAll s.db cs) = some (value, d')) :
    ∃ held' cs', S.base.applyAll s.db cs' = d' ∧ (S.guarded allowed guard).Steps
      (s.put i (.running c next held cs rest), missed)
      (s.put i (.running c next held' cs' (.ret value)), missed) := by
  induction rest generalizing held cs with
  | ret value' =>
    obtain ⟨rfl, rfl⟩ := Prod.mk.inj (Option.some.inj hrun)
    exact ⟨held, cs, rfl, .refl⟩
  | throw => cases hrun
  | query stmt k ih =>
    rw [Database.run_query, Option.bind_eq_some_iff] at hrun
    obtain ⟨⟨cs₁, a⟩, hexec, hrun⟩ := hrun
    rw [← Database.applyAll_append] at hrun
    obtain ⟨held', cs', hd', hsteps⟩ :=
      @ih a (held ++ S.base.locks stmt (S.base.applyAll s.db cs)) (cs ++ cs₁) hrun
    have hlocks : ∀ j, j ≠ i → ∀ key ∈ S.base.locks stmt (S.base.applyAll s.db cs),
        key ∉ ((s.put i (.running c next held cs (.query stmt k))).slots j).held := by
      intro j hj key _ hheld
      rw [s.put_of_ne _ hj, hfree j hj] at hheld
      cases hheld
    have hstep : SessionStep S allowed (s.put i (.running c next held cs (.query stmt k))) i _ :=
      .exec (s.put_self i _) hlocks hexec
    rw [put_put] at hstep
    have hquiet := guarded_quiet hguard hstep rfl (by rw [s.put_self]; rfl) missed
    exact ⟨held', cs', hd', (Machine.Steps.single _ hquiet).trans hsteps⟩

/-- A resting task begins its transaction. -/
theorem resting_begins (hguard : ∀ p i, guard p (i, [])) {s : AtomicState Db Call Result} {i : Nat}
    {c : Call} {next : Result c → Task Db Call Result} (hi : s.tasks i = .call c next)
    (missed : Missed Db Call Result) : (S.guarded allowed guard).step
      (s.resting Change Key Stmt Ans, missed) (i, [])
      ((s.resting Change Key Stmt Ans).put i (.running c next [] [] (S.prog c)), missed) := by
  refine guarded_quiet hguard (.begin (congrArg Slot.idle hi)) rfl ?_ missed
  change (s.tasks i).reads = false
  rw [hi]
  rfl

/-- A resting task comes to the end of its transaction by watched steps. -/
theorem watched_runs (hguard : ∀ p i, guard p (i, [])) {s : AtomicState Db Call Result} {i : Nat}
    {c : Call} {next : Result c → Task Db Call Result} {value : Result c} {d' : Db}
    (hi : s.tasks i = .call c next) (hrun : S.base.run (S.prog c) s.db = some (value, d'))
    (missed : Missed Db Call Result) :
    ∃ held cs, S.base.applyAll s.db cs = d' ∧ (S.guarded allowed guard).Steps
      (s.resting Change Key Stmt Ans, missed)
      ((s.resting Change Key Stmt Ans).put i (.running c next held cs (.ret value)), missed) := by
  have hfree : ∀ j, j ≠ i → ((s.resting Change Key Stmt Ans).slots j).held = [] := fun _ _ ↦ rfl
  obtain ⟨held, cs, hd', hsteps⟩ := @watched_to_end _ _ _ _ _ _ _ _ _ S allowed guard _ missed i c
    next [] [] _ value d' hguard hfree hrun
  exact ⟨held, cs, hd', (Machine.Steps.single _ (resting_begins hguard hi missed)).trans hsteps⟩

/-- The state in which one task runs a call is, with nothing begun, the state at rest. -/
theorem settled_running {s : AtomicState Db Call Result} {i : Nat} {c : Call}
    {next : Result c → Task Db Call Result} {held : List Key} {cs : List Change}
    {rest : Tx Stmt Ans (Result c)} (hi : s.tasks i = .call c next) :
    ((s.resting Change Key Stmt Ans).put i (.running c next held cs rest)).settled = s := by
  rw [SessionState.settled_put]
  exact AtomicState.put_eq_self hi

/-- Each step with whole transactions that meets the guard is made of guarded watched steps. -/
theorem watched_resting (hguard : ∀ p i, guard p (i, [])) {s s' : AtomicState Db Call Result}
    {missed : Missed Db Call Result} {i : Nat} {outs : List (Outcome Db Call Result)}
    (h : AtomicStep S allowed s i s') (hlog : s'.log = s.log ++ outs)
    (hmeets : guard (s, missed) (i, outs)) :
    (S.guarded allowed guard).Steps (s.resting Change Key Stmt Ans, missed)
      (s'.resting Change Key Stmt Ans, missed.after (s.tasks i).reads i outs) := by
  -- the last step of task `i`, which may be in its transaction
  have hlast : ∀ {slot t d log}, slot.task = s.tasks i →
      SessionStep S allowed ((s.resting Change Key Stmt Ans).put i slot) i
        (AtomicState.resting Change Key Stmt Ans { s.put i t with db := d, log := log }) →
      ((s.resting Change Key Stmt Ans).put i slot).settled = s → log = s.log ++ outs →
      (S.guarded allowed guard).step ((s.resting Change Key Stmt Ans).put i slot, missed) (i, outs)
        (AtomicState.resting Change Key Stmt Ans { s.put i t with db := d, log := log },
          missed.after (s.tasks i).reads i outs) := by
    intro slot t d log htask hstep hsettled hout
    refine ⟨?_, hstep, hout, ?_⟩
    · dsimp only
      rw [hsettled]
      exact hmeets
    · dsimp only
      rw [SessionState.put_self, htask]
  have hidle : ∀ {t}, SessionStep S allowed (s.resting Change Key Stmt Ans) i
      ((s.resting Change Key Stmt Ans).put i (.idle t)) → s' = s.put i t →
      (S.guarded allowed guard).Steps (s.resting Change Key Stmt Ans, missed)
        (s'.resting Change Key Stmt Ans, missed.after (s.tasks i).reads i outs) := by
    rintro t hstep rfl
    refine .single (i, outs) ⟨hmeets, ?_, hlog, rfl⟩
    rw [resting_put] at hstep
    exact hstep
  cases h with
  | spawn hi ht => exact hidle (.spawn (congrArg Slot.idle hi) ht) rfl
  | read hi => exact hidle (.read (congrArg Slot.idle hi)) rfl
  | stop => exact hidle (.stop rfl) rfl
  | @commit c next value after hi hall hrun =>
    obtain ⟨held, cs, rfl, hsteps⟩ := watched_runs hguard hi hrun missed
    have hstep := SessionStep.commit (S := S)
      ((s.resting Change Key Stmt Ans).put_self i (.running c next held cs (.ret value))) hall
    rw [resting_after] at hstep
    exact hsteps.step (hlast hi.symm hstep (settled_running hi) hlog)
  | @lost c next value after hi hall hrun =>
    obtain ⟨held, cs, rfl, hsteps⟩ := watched_runs hguard hi hrun missed
    have hstep := SessionStep.lost (S := S)
      ((s.resting Change Key Stmt Ans).put_self i (.running c next held cs (.ret value))) hall
    rw [resting_after] at hstep
    exact hsteps.step (hlast hi.symm hstep (settled_running hi) hlog)
  | @fail c next hi =>
    have hstep : SessionStep S allowed _ i _ := .abort
      ((s.resting Change Key Stmt Ans).put_self i (.running c next [] [] (S.prog c)))
    simp only [put_put, resting_put] at hstep
    exact (Machine.Steps.single _ (resting_begins hguard hi missed)).step (hlast hi.symm hstep (settled_running hi) hlog)

/-- A step adds to the log. -/
theorem atomicStep_log {s s' : AtomicState Db Call Result} {i : Nat}
    (h : AtomicStep S allowed s i s') : s'.log = s.log ++ s'.log.drop s.log.length := by
  have hprefix : s.log <+: s'.log := by
    cases h with
    | commit => exact List.prefix_append _ _
    | lost => exact List.prefix_append _ _
    | fail => exact List.prefix_append _ _
    | _ => exact List.prefix_rfl
  obtain ⟨outs, houts⟩ := hprefix
  rw [← houts, List.drop_left]

/-- A list of actions that meet the guard leads through a guarded watched run. -/
theorem watch_reachable (hall : ∀ c d, allowed c d) (hguard : ∀ p i, guard p (i, []))
    {decideGuard : AtomicState Db Call Result × Missed Db Call Result → Watch Db Call Result → Bool}
    (hdecide : ∀ p l, decideGuard p l = true → guard p l)
    {p p' : AtomicState Db Call Result × Missed Db Call Result}
    (hp : (S.guarded allowed guard).Reachable (p.1.resting Change Key Stmt Ans, p.2))
    {actions : List (Action Db Call Result)} (ha : ∀ a ∈ actions, a.Of S)
    (h : actions.foldlM (S.watch decideGuard) p = some p') :
    (S.guarded allowed guard).Reachable (p'.1.resting Change Key Stmt Ans, p'.2) := by
  induction actions generalizing p with
  | nil =>
    obtain rfl := Option.some.inj h
    exact hp
  | cons a actions ih =>
    obtain ⟨p₁, hfirst, hrest⟩ := Option.bind_eq_some_iff.mp h
    obtain ⟨s₁, hperform, hwatch⟩ := Option.bind_eq_some_iff.mp hfirst
    split at hwatch
    · next hmeets =>
      obtain rfl := Option.some.inj hwatch
      have hstep := perform_step (fun _ c _ _ ↦ hall c p.1.db) (ha a List.mem_cons_self) hperform
      refine ih (hp.steps ?_) (fun a' ha' ↦ ha a' (List.mem_cons_of_mem _ ha')) hrest
      exact watched_resting hguard hstep (atomicStep_log hstep) (hdecide _ _ hmeets)
    · cases hwatch

end Serial

end System
end ChessStack.Library
