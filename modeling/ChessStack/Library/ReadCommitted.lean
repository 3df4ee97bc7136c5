import ChessStack.Library.Machine
import Mathlib.Data.List.Basic
import Mathlib.Logic.Function.Basic
import Mathlib.Logic.Relation

/-!
# Transactions at READ COMMITTED

Library `Library`. A statement sees the rows that were committed before it started, together with
its transaction's own writes. An `UPDATE` (or `SELECT … FOR UPDATE`) finds its rows in that snapshot,
then goes through them in any order: it waits for the lock of each, reads the row again and passes
it over when it no longer qualifies. Rows that others insert meanwhile are not among them.
-/

namespace ChessStack.Library.ReadCommitted

/-! ### Stores -/

/-- Rows by key; `keys` lists the keys that have one. -/
structure Store (Key Row : Type) where
  keys : List Key
  row? : Key → Option Row
  listed : ∀ k, (row? k).isSome → k ∈ keys
  nodup : keys.Nodup

/-- Rows to write, the latest last. -/
abbrev Writes (Key Row : Type) := List (Key × Row)

section Store

variable {Key Row : Type} [DecidableEq Key]

/-- The store with one row written. -/
def Store.put (d : Store Key Row) (k : Key) (row : Row) : Store Key Row where
  keys := if k ∈ d.keys then d.keys else d.keys ++ [k]
  row? := Function.update d.row? k (some row)
  listed := by
    intro k' h
    by_cases hk : k' = k
    · subst hk
      split
      · assumption
      · exact List.mem_append_right _ (List.mem_singleton_self k')
    · rw [Function.update_of_ne hk] at h
      split
      · exact d.listed k' h
      · exact List.mem_append_left _ (d.listed k' h)
  nodup := by
    split
    · exact d.nodup
    · next hk =>
      refine List.nodup_append.mpr ⟨d.nodup, by simp, fun k' hk' k'' hk'' heq ↦ hk ?_⟩
      rw [← List.mem_singleton.mp hk'', ← heq]
      exact hk'

/-- The store with all rows written. -/
def Store.write (d : Store Key Row) (own : Writes Key Row) : Store Key Row :=
  own.foldl (fun d w ↦ d.put w.1 w.2) d

/-- The keys whose rows qualify. -/
def Store.targets (d : Store Key Row) (cond : Key → Row → Bool) : List Key :=
  d.keys.filter fun k ↦ (d.row? k).any (cond k)

variable {d d' : Store Key Row} {k : Key} {row : Row} {own own' : Writes Key Row}

/-- A row after one row was written. -/
theorem Store.row?_put (d : Store Key Row) (k k' : Key) (row : Row) :
    (d.put k row).row? k' = if k' = k then some row else d.row? k' := Function.update_apply ..

/-- Nothing written. -/
@[simp] theorem Store.write_nil (d : Store Key Row) : d.write [] = d := rfl

/-- Writes one after the other. -/
theorem Store.write_append (d : Store Key Row) (own own' : Writes Key Row) :
    d.write (own ++ own') = (d.write own).write own' := List.foldl_append

/-- One row written. -/
theorem Store.write_singleton (d : Store Key Row) (k : Key) (row : Row) :
    d.write [(k, row)] = d.put k row := rfl

/-- A row that is not written stays. -/
theorem Store.row?_write_of_not_mem (h : ∀ w ∈ own, w.1 ≠ k) :
    (d.write own).row? k = d.row? k := by
  induction own generalizing d with
  | nil => rfl
  | cons w own ih =>
    change ((d.put w.1 w.2).write own).row? k = _
    rw [ih fun w' hw' ↦ h w' (List.mem_cons_of_mem _ hw'), Store.row?_put,
      if_neg (h w List.mem_cons_self).symm]

/-- What is read of a written store depends on the row below only. -/
theorem Store.row?_write_congr (h : d.row? k = d'.row? k) (own : Writes Key Row) :
    (d.write own).row? k = (d'.write own).row? k := by
  induction own generalizing d d' with
  | nil => exact h
  | cons w own ih =>
    apply ih
    rw [Store.row?_put, Store.row?_put, h]

/-- A written row is read. -/
theorem Store.row?_write_of_mem (hnodup : (own.map Prod.fst).Nodup) (h : (k, row) ∈ own) :
    (d.write own).row? k = some row := by
  induction own generalizing d with
  | nil => cases h
  | cons w own ih =>
    rw [List.map_cons, List.nodup_cons] at hnodup
    change ((d.put w.1 w.2).write own).row? k = _
    rcases List.mem_cons.mp h with rfl | h
    · rw [Store.row?_write_of_not_mem, Store.row?_put, if_pos rfl]
      intro w hw heq
      exact hnodup.1 (List.mem_map.mpr ⟨w, hw, heq⟩)
    · exact ih hnodup.2 h

omit [DecidableEq Key] in
/-- The targets are the keys of the rows that satisfy the condition. -/
theorem Store.mem_targets {cond : Key → Row → Bool} :
    k ∈ d.targets cond ↔ ∃ row, d.row? k = some row ∧ cond k row = true := by
  rw [targets, List.mem_filter, Option.any_eq_true]
  refine ⟨And.right, fun h ↦ ⟨d.listed k ?_, h⟩⟩
  obtain ⟨row, hrow, -⟩ := h
  rw [hrow]
  rfl

omit [DecidableEq Key] in
/-- No key is a target twice. -/
theorem Store.nodup_targets (d : Store Key Row) (cond : Key → Row → Bool) :
    (d.targets cond).Nodup := d.nodup.filter _

omit [DecidableEq Key] in
/-- A condition on one key has at most one target. -/
theorem Store.targets_single {cond : Key → Row → Bool} (hcond : ∀ k' row, cond k' row = true → k' = k)
    (hrow : d.row? k = some row) (hk : cond k row = true) : d.targets cond = [k] := by
  have hmem : ∀ k', k' ∈ d.targets cond ↔ k' = k := by
    intro k'
    rw [mem_targets]
    constructor
    · rintro ⟨row', -, hk'⟩
      exact hcond k' row' hk'
    · rintro rfl
      exact ⟨row, hrow, hk⟩
  exact List.perm_singleton.mp
    ((List.perm_ext_iff_of_nodup (d.nodup_targets cond) (by simp)).mpr (by simpa using hmem))

/-- The stores hold the same rows under these keys. -/
def Agree (locks : List Key) (d d' : Store Key Row) : Prop := ∀ k ∈ locks, d.row? k = d'.row? k

end Store

/-! ### Transactions -/

/-- A transaction: `rollback` ends it with a value and no changes, `throw` with an exception.
`update` locks the rows that satisfy a condition, writes them and continues with what they were. -/
inductive Program (Key Row Result : Type) where
  | commit (value : Result)
  | rollback (value : Result)
  | throw
  | read (next : Store Key Row → Program Key Row Result)
  | update (cond : Key → Row → Bool) (set : Row → Row) (next : List Row → Program Key Row Result)
  | insert (k : Key) (row : Row) (next : Program Key Row Result)

/-- Where a transaction is: before a statement, or on its way through the rows of an `UPDATE`, with
the keys to do and the rows that have qualified. -/
inductive Point (Key Row Result : Type) where
  | stmt (rest : Program Key Row Result)
  | sweep (cond : Key → Row → Bool) (set : Row → Row) (next : List Row → Program Key Row Result)
      (todo : List Key) (got : List Row)

/-- The calls and their transactions. -/
structure System (Key Row Call : Type) (Result : Call → Type) where
  prog : (c : Call) → Program Key Row (Result c)
  start : Store Key Row → Prop
  spawn : Call → Prop

/-- How a call ended, and on which store. -/
inductive Outcome (Key Row Call : Type) (Result : Call → Type) where
  | committed (c : Call) (value : Result c) (before after : Store Key Row)
  | returned (c : Call) (value : Result c) (at_ : Store Key Row)
  | failed (c : Call) (at_ : Store Key Row)

/-- A session without a transaction, or with one: its locks, its writes and where it is. -/
inductive Slot (Key Row Call : Type) (Result : Call → Type) where
  | idle
  | running (c : Call) (locks : List Key) (own : Writes Key Row) (point : Point Key Row (Result c))

/-- The committed store, the sessions and the outcomes in order. -/
structure State (Key Row Call : Type) (Result : Call → Type) where
  db : Store Key Row
  slots : Nat → Slot Key Row Call Result
  log : List (Outcome Key Row Call Result)

/-- What a step is; `snapshot` begins an `UPDATE`, `lock` goes through one of its rows. -/
inductive Label (Key Call : Type) where
  | begin (i : Nat) (c : Call)
  | snapshot (i : Nat)
  | lock (i : Nat) (k : Key)
  | go (i : Nat)
  | commit (i : Nat)
  | stop (i : Nat)

variable {Key Row Call : Type} {Result : Call → Type}

/-- The row locks of a session. -/
def Slot.locks : Slot Key Row Call Result → List Key
  | .idle => []
  | .running _ locks _ _ => locks

/-- The rows a session has written and not committed. -/
def Slot.own : Slot Key Row Call Result → Writes Key Row
  | .idle => []
  | .running _ _ own _ => own

/-- Session `i` becomes `slot`. -/
def State.put (s : State Key Row Call Result) (i : Nat) (slot : Slot Key Row Call Result) :
    State Key Row Call Result := { s with slots := fun j ↦ if j = i then slot else s.slots j }

/-- The slot that was put. -/
@[simp] theorem State.put_self (s : State Key Row Call Result) (i : Nat)
    (slot : Slot Key Row Call Result) : (s.put i slot).slots i = slot := if_pos rfl

/-- The other slots stay. -/
@[simp] theorem State.put_of_ne (s : State Key Row Call Result) {i j : Nat}
    (slot : Slot Key Row Call Result) (h : j ≠ i) : (s.put i slot).slots j = s.slots j := if_neg h

section Machine

variable [DecidableEq Key]

/-- Nobody else has locked the key. -/
def State.Free (s : State Key Row Call Result) (i : Nat) (k : Key) : Prop :=
  ∀ j, j ≠ i → k ∉ (s.slots j).locks

/-- The steps of a session; its transaction may also fail anywhere. -/
inductive Step (S : System Key Row Call Result) :
    State Key Row Call Result → Label Key Call → State Key Row Call Result → Prop
  | begin {s : State Key Row Call Result} {i : Nat} {c : Call} : s.slots i = .idle → S.spawn c →
      Step S s (.begin i c) (s.put i (.running c [] [] (.stmt (S.prog c))))
  | snapshot {s : State Key Row Call Result} {i : Nat} {c : Call} {locks : List Key}
      {own : Writes Key Row} {cond : Key → Row → Bool} {set : Row → Row}
      {next : List Row → Program Key Row (Result c)} :
      s.slots i = .running c locks own (.stmt (.update cond set next)) →
      Step S s (.snapshot i) (s.put i (.running c locks own
        (.sweep cond set next ((s.db.write own).targets cond) [])))
  | lock {s : State Key Row Call Result} {i : Nat} {c : Call} {locks : List Key}
      {own : Writes Key Row} {cond : Key → Row → Bool} {set : Row → Row}
      {next : List Row → Program Key Row (Result c)} {todo : List Key} {got : List Row} {k : Key}
      {row : Row} : s.slots i = .running c locks own (.sweep cond set next todo got) → k ∈ todo →
      s.Free i k → (s.db.write own).row? k = some row → cond k row = true →
      Step S s (.lock i k) (s.put i (.running c (k :: locks) (own ++ [(k, set row)])
        (.sweep cond set next (todo.filter (· ≠ k)) (got ++ [row]))))
  | skip {s : State Key Row Call Result} {i : Nat} {c : Call} {locks : List Key}
      {own : Writes Key Row} {cond : Key → Row → Bool} {set : Row → Row}
      {next : List Row → Program Key Row (Result c)} {todo : List Key} {got : List Row} {k : Key} :
      s.slots i = .running c locks own (.sweep cond set next todo got) → k ∈ todo → s.Free i k →
      (∀ row, (s.db.write own).row? k = some row → cond k row = false) →
      Step S s (.lock i k) (s.put i (.running c (k :: locks) own
        (.sweep cond set next (todo.filter (· ≠ k)) got)))
  | done {s : State Key Row Call Result} {i : Nat} {c : Call} {locks : List Key}
      {own : Writes Key Row} {cond : Key → Row → Bool} {set : Row → Row}
      {next : List Row → Program Key Row (Result c)} {got : List Row} :
      s.slots i = .running c locks own (.sweep cond set next [] got) →
      Step S s (.go i) (s.put i (.running c locks own (.stmt (next got))))
  | read {s : State Key Row Call Result} {i : Nat} {c : Call} {locks : List Key}
      {own : Writes Key Row} {next : Store Key Row → Program Key Row (Result c)} :
      s.slots i = .running c locks own (.stmt (.read next)) →
      Step S s (.go i) (s.put i (.running c locks own (.stmt (next (s.db.write own)))))
  | insert {s : State Key Row Call Result} {i : Nat} {c : Call} {locks : List Key}
      {own : Writes Key Row} {k : Key} {row : Row} {next : Program Key Row (Result c)} :
      s.slots i = .running c locks own (.stmt (.insert k row next)) → s.Free i k →
      (s.db.write own).row? k = none →
      Step S s (.go i) (s.put i (.running c (k :: locks) (own ++ [(k, row)]) (.stmt next)))
  | commit {s : State Key Row Call Result} {i : Nat} {c : Call} {locks : List Key}
      {own : Writes Key Row} {value : Result c} :
      s.slots i = .running c locks own (.stmt (.commit value)) →
      Step S s (.commit i) { s.put i .idle with
        db := s.db.write own, log := s.log ++ [.committed c value s.db (s.db.write own)] }
  | rollback {s : State Key Row Call Result} {i : Nat} {c : Call} {locks : List Key}
      {own : Writes Key Row} {value : Result c} :
      s.slots i = .running c locks own (.stmt (.rollback value)) →
      Step S s (.stop i) { s.put i .idle with log := s.log ++ [.returned c value s.db] }
  | abort {s : State Key Row Call Result} {i : Nat} {c : Call} {locks : List Key}
      {own : Writes Key Row} {point : Point Key Row (Result c)} :
      s.slots i = .running c locks own point →
      Step S s (.stop i) { s.put i .idle with log := s.log ++ [.failed c s.db] }

/-- The machine of a system. -/
def System.machine (S : System Key Row Call Result) :
    Machine (State Key Row Call Result) (Label Key Call) where
  init s := S.start s.db ∧ s.log = [] ∧ ∀ i, s.slots i = .idle
  step := Step S

/-! ### Outcomes -/

/-- The outcomes lead from one store to the other: only a commit changes it. -/
def Linked : Store Key Row → List (Outcome Key Row Call Result) → Store Key Row → Prop
  | d, [], d' => d = d'
  | d, .committed _ _ before after :: log, d' => before = d ∧ Linked after log d'
  | d, .returned _ _ at_ :: log, d' => at_ = d ∧ Linked d log d'
  | d, .failed _ at_ :: log, d' => at_ = d ∧ Linked d log d'

omit [DecidableEq Key] in
private theorem linked_append {d d' : Store Key Row} {log log' : List (Outcome Key Row Call Result)}
    (h : Linked d log d') {d'' : Store Key Row} (h' : Linked d' log' d'') :
    Linked d (log ++ log') d'' := by
  induction log generalizing d with
  | nil => exact Eq.mpr (congrArg (Linked · log' d'') h) h'
  | cons e log ih =>
    cases e with
    | committed => exact ⟨h.1, ih h.2⟩
    | returned => exact ⟨h.1, ih h.2⟩
    | failed => exact ⟨h.1, ih h.2⟩

/-- In every run the log says how the store came about. -/
theorem linked_of_reachable {S : System Key Row Call Result} {s : State Key Row Call Result}
    (hs : S.machine.Reachable s) : ∃ d, S.start d ∧ Linked d s.log s.db := by
  induction hs with
  | init h =>
    obtain ⟨hstart, hlog, -⟩ := h
    exact ⟨_, hstart, hlog ▸ rfl⟩
  | step _ hst ih =>
    obtain ⟨d, hstart, hlinked⟩ := ih
    refine ⟨d, hstart, ?_⟩
    cases hst with
    | commit => exact linked_append hlinked ⟨rfl, rfl⟩
    | rollback => exact linked_append hlinked ⟨rfl, rfl⟩
    | abort => exact linked_append hlinked ⟨rfl, rfl⟩
    | begin => exact hlinked
    | snapshot => exact hlinked
    | lock => exact hlinked
    | skip => exact hlinked
    | done => exact hlinked
    | read => exact hlinked
    | insert => exact hlinked

/-! ### Scripts -/

/-- Only the sessions below `n` have a transaction. -/
def State.Quiet (n : Nat) (s : State Key Row Call Result) : Prop := ∀ j, n ≤ j → s.slots j = .idle

/-- The state after a step of the given label, when there is one. -/
def State.act (S : System Key Row Call Result) (n : Nat) (s : State Key Row Call Result) :
    Label Key Call → Option (State Key Row Call Result)
  | .begin i c =>
    match s.slots i with
    | .idle => if i < n then some (s.put i (.running c [] [] (.stmt (S.prog c)))) else none
    | .running .. => none
  | .snapshot i =>
    match s.slots i with
    | .running c locks own (.stmt (.update cond set next)) => some (s.put i (.running c locks own
        (.sweep cond set next ((s.db.write own).targets cond) [])))
    | _ => none
  | .lock i k =>
    match s.slots i with
    | .running c locks own (.sweep cond set next todo got) =>
      if k ∈ todo ∧ ∀ j < n, j ≠ i → k ∉ (s.slots j).locks then
        match ((s.db.write own).row? k).filter (cond k) with
        | some row => some (s.put i (.running c (k :: locks) (own ++ [(k, set row)])
            (.sweep cond set next (todo.filter (· ≠ k)) (got ++ [row]))))
        | none => some (s.put i (.running c (k :: locks) own
            (.sweep cond set next (todo.filter (· ≠ k)) got)))
      else none
    | _ => none
  | .go i =>
    match s.slots i with
    | .running c locks own (.sweep _ _ next [] got) =>
      some (s.put i (.running c locks own (.stmt (next got))))
    | .running c locks own (.stmt (.read next)) =>
      some (s.put i (.running c locks own (.stmt (next (s.db.write own)))))
    | .running c locks own (.stmt (.insert k row next)) =>
      if (∀ j < n, j ≠ i → k ∉ (s.slots j).locks) ∧ ((s.db.write own).row? k).isNone then
        some (s.put i (.running c (k :: locks) (own ++ [(k, row)]) (.stmt next)))
      else none
    | _ => none
  | .commit i =>
    match s.slots i with
    | .running c _ own (.stmt (.commit value)) => some { s.put i .idle with
        db := s.db.write own, log := s.log ++ [.committed c value s.db (s.db.write own)] }
    | _ => none
  | .stop i =>
    match s.slots i with
    | .running c _ _ (.stmt (.rollback value)) =>
      some { s.put i .idle with log := s.log ++ [.returned c value s.db] }
    | .running c _ _ _ => some { s.put i .idle with log := s.log ++ [.failed c s.db] }
    | .idle => none

variable {S : System Key Row Call Result} {s s' : State Key Row Call Result} {n : Nat}

omit [DecidableEq Key] in
private theorem State.Quiet.put (h : s.Quiet n) {i : Nat} (hi : i < n)
    {slot : Slot Key Row Call Result} :
    (s.put i slot).Quiet n := by
  intro j hj
  have hne : j ≠ i := by omega
  rw [State.put_of_ne _ _ hne]
  exact h j hj

omit [DecidableEq Key] in
private theorem State.Quiet.free (h : s.Quiet n) {i : Nat} {k : Key}
    (hk : ∀ j < n, j ≠ i → k ∉ (s.slots j).locks) : s.Free i k := by
  intro j hji
  by_cases hj : j < n
  · exact hk j hj hji
  · rw [h j (by omega)]
    exact List.not_mem_nil

omit [DecidableEq Key] in
/-- Only the first `n` sessions run. -/
theorem State.Quiet.lt (h : s.Quiet n) {i : Nat} {c : Call} {locks : List Key}
    {own : Writes Key Row} {point : Point Key Row (Result c)}
    (hi : s.slots i = .running c locks own point) : i < n := by
  by_contra hn
  rw [h i (by omega)] at hi
  cases hi

/-- What a script does is a step. -/
theorem act_step {l : Label Key Call} (hspawn : ∀ i c, l = .begin i c → S.spawn c)
    (h : s.Quiet n) (hact : s.act S n l = some s') : Step S s l s' ∧ s'.Quiet n := by
  cases l with
  | begin i c =>
    simp only [State.act] at hact
    split at hact
    · next hi =>
      split at hact
      · next hn =>
        obtain rfl := Option.some.inj hact
        exact ⟨.begin hi (hspawn i c rfl), h.put hn⟩
      · cases hact
    · cases hact
  | snapshot i =>
    simp only [State.act] at hact
    split at hact
    · next hi =>
      obtain rfl := Option.some.inj hact
      exact ⟨.snapshot hi, h.put (h.lt hi)⟩
    · cases hact
  | lock i k =>
    simp only [State.act] at hact
    split at hact
    · next hi =>
      split at hact
      · next hk =>
        split at hact
        · next row hrow =>
          obtain rfl := Option.some.inj hact
          rw [Option.filter_eq_some_iff] at hrow
          exact ⟨.lock hi hk.1 (h.free hk.2) hrow.1 hrow.2, h.put (h.lt hi)⟩
        · next hrow =>
          obtain rfl := Option.some.inj hact
          rw [Option.filter_eq_none_iff] at hrow
          exact ⟨.skip hi hk.1 (h.free hk.2) (by simpa using hrow), h.put (h.lt hi)⟩
      · cases hact
    · cases hact
  | go i =>
    simp only [State.act] at hact
    split at hact
    · next hi =>
      obtain rfl := Option.some.inj hact
      exact ⟨.done hi, h.put (h.lt hi)⟩
    · next hi =>
      obtain rfl := Option.some.inj hact
      exact ⟨.read hi, h.put (h.lt hi)⟩
    · next hi =>
      split at hact
      · next hk =>
        obtain rfl := Option.some.inj hact
        exact ⟨.insert hi (h.free hk.1) (Option.isNone_iff_eq_none.mp hk.2), h.put (h.lt hi)⟩
      · cases hact
    · cases hact
  | commit i =>
    simp only [State.act] at hact
    split at hact
    · next hi =>
      obtain rfl := Option.some.inj hact
      exact ⟨.commit hi, h.put (h.lt hi)⟩
    · cases hact
  | stop i =>
    simp only [State.act] at hact
    split at hact
    · next hi =>
      obtain rfl := Option.some.inj hact
      exact ⟨.rollback hi, h.put (h.lt hi)⟩
    · next hi =>
      obtain rfl := Option.some.inj hact
      exact ⟨.abort hi, h.put (h.lt hi)⟩
    · cases hact

/-- The state after the steps of a script, each of which must pass a check. -/
def State.acts (S : System Key Row Call Result) (n : Nat)
    (check : State Key Row Call Result → Label Key Call → Bool) (s : State Key Row Call Result)
    (l : List (Label Key Call)) : Option (State Key Row Call Result) :=
  l.foldlM (fun s l ↦ if check s l then s.act S n l else none) s

/-- What a script leads to is reached, when the check implies the guard. -/
theorem acts_reachable {l : List (Label Key Call)}
    (hspawn : ∀ i c, Label.begin i c ∈ l → S.spawn c)
    {guard : State Key Row Call Result → Label Key Call → Prop}
    {check : State Key Row Call Result → Label Key Call → Bool}
    (hcheck : ∀ s l, s.Quiet n → check s l = true → guard s l) (h : s.Quiet n)
    (hs : (S.machine.restrict guard).Reachable s)
    (hrun : s.acts S n check l = some s') : (S.machine.restrict guard).Reachable s' := by
  induction l generalizing s with
  | nil =>
    obtain rfl := Option.some.inj hrun
    exact hs
  | cons l ls ih =>
    obtain ⟨s₁, hfirst, hrest⟩ := Option.bind_eq_some_iff.mp hrun
    dsimp only at hfirst
    split at hfirst
    · next hc =>
      have hl : ∀ i c, l = .begin i c → S.spawn c := fun i c heq ↦ hspawn i c (by simp [heq])
      obtain ⟨hstep, hquiet⟩ := act_step hl h hfirst
      exact ih (fun i c hc ↦ hspawn i c (List.mem_cons_of_mem _ hc)) hquiet
        (hs.step ⟨hcheck s l h hc, hstep⟩) hrest
    · cases hfirst

/-- Nobody has called anything yet. -/
def State.atRest (d : Store Key Row) : State Key Row Call Result := ⟨d, fun _ ↦ .idle, []⟩

/-- The state after a script from rest. -/
def System.play (S : System Key Row Call Result) (n : Nat) (d : Store Key Row)
    (l : List (Label Key Call)) : Option (State Key Row Call Result) :=
  State.acts S n (fun _ _ ↦ true) (.atRest d) l

/-- A script of few sessions is a guarded run when the guard lets them take every step. -/
theorem play_restrict {guard : State Key Row Call Result → Label Key Call → Prop}
    (hguard : ∀ s l, s.Quiet n → guard s l) {d : Store Key Row} {l : List (Label Key Call)}
    (hstart : S.start d) (hspawn : ∀ i c, Label.begin i c ∈ l → S.spawn c)
    (h : S.play n d l = some s) : (S.machine.restrict guard).Reachable s :=
  acts_reachable hspawn (fun s l hq _ ↦ hguard s l hq) (fun _ _ ↦ rfl)
    (.init ⟨hstart, rfl, fun _ ↦ rfl⟩) h

/-- What a script leads to is reached. -/
theorem play_reachable {d : Store Key Row} {l : List (Label Key Call)} (hstart : S.start d)
    (hspawn : ∀ i c, Label.begin i c ∈ l → S.spawn c) (h : S.play n d l = some s) :
    S.machine.Reachable s := by
  have hguard : ∀ (s : State Key Row Call Result) (l : Label Key Call), s.Quiet n →
      (fun _ _ ↦ True) s l := fun _ _ _ ↦ trivial
  exact (play_restrict hguard hstart hspawn h).of_restrict

end Machine

end ChessStack.Library.ReadCommitted
