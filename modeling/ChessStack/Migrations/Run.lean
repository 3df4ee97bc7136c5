import ChessStack.Library.Machine
import Mathlib.Data.List.Basic
import Mathlib.Data.List.Perm.Subperm
import Mathlib.Logic.Function.Basic

/-!
# The migration runner

Library `Migrations`. `run` of `Database/migrations/run.js`: any number of executions take their
statements in any order, a statement can be refused or its reply be lost, and a session can end
between any two statements. Whoever works on the table holds the advisory lock, so what an
execution has read of the table stays true until its own next statement.
-/

namespace ChessStack.Migrations

open ChessStack.Library

/-- The files of the directory that match the pattern, in the order of `sort`, `run.js:44`. -/
structure Listing where
  names : List String
  nodup : names.Nodup

/-- `f` comes before `g` in the listing. -/
def Listing.Before (L : Listing) (f g : String) : Prop :=
  ∃ done todo, L.names = done ++ g :: todo ∧ f ∈ done

/-- A row of `schema_migrations`. -/
structure Row where
  filename : String
  checksum : Option String
  deriving DecidableEq, Repr

/-- A file whose SQL has been committed, by an execution or before all of them. -/
structure Commit where
  runner : Option Nat
  file : String
  sql : String
  deriving DecidableEq, Repr

/-- What an execution has read of a file. -/
structure Read where
  runner : Nat
  file : String
  sql : String
  deriving DecidableEq, Repr

/-- The turn of a file: what `SELECT` returned, the file and its text, and the files to come. -/
structure Work where
  applied : List Row
  file : String
  sql : String
  todo : List String
  deriving DecidableEq, Repr

/-- An execution, by the statement it makes next. -/
inductive Phase where
  | connect
  | lock
  | create
  | alter
  | select
  | turn (applied : List Row) (todo : List String)
  | update (w : Work)
  | beginTx (w : Work)
  | runSql (w : Work)
  | insert (w : Work)
  | commit (w : Work)
  | rollback
  | unlock
  | close
  | gone
  deriving DecidableEq, Repr

/-- The checksum a file is recorded with. -/
def lookup (rows : List Row) (file : String) : Option (Option String) :=
  (rows.find? fun row ↦ row.filename == file).map Row.checksum

/-- `UPDATE schema_migrations SET checksum=$2 WHERE filename=$1`. -/
def setChecksum (file digest : String) (row : Row) : Row :=
  if row.filename = file then { row with checksum := some digest } else row

/-- The committed database, the advisory lock and the executions. An old database has the table
without the column `checksum`. -/
structure State where
  created : Bool
  checksumColumn : Bool
  rows : List Row
  lock : Option Nat
  phase : Nat → Phase
  commits : List Commit
  reads : List Read

namespace State

/-- The files recorded in `schema_migrations`. -/
def recorded (s : State) : List String := s.rows.map Row.filename

/-- Where a runner is now. -/
def setPhase (s : State) (i : Nat) (phase : Phase) : State :=
  { s with phase := Function.update s.phase i phase }

/-- `readFileSync` of the next file. -/
def sees (s : State) (i : Nat) (file sql : String) : State :=
  { s with reads := s.reads ++ [⟨i, file, sql⟩] }

/-- The session of `i` is over: PostgreSQL rolls back its transaction and releases its lock. -/
def release (s : State) (i : Nat) : State :=
  { s with lock := if s.lock = some i then none else s.lock }

variable (digest : String → String)

/-- `COMMIT` of the SQL of a file and of its record. -/
def committed (s : State) (i : Nat) (w : Work) : State :=
  { s with
    rows := s.rows ++ [⟨w.file, some (digest w.sql)⟩]
    commits := s.commits ++ [⟨some i, w.file, w.sql⟩] }

/-- What a statement does to the committed database; `none` where it is refused or waits. The SQL
of a file and its record are in the transaction until `COMMIT`. -/
def effect (s : State) (i : Nat) : Phase → Option State
  | .lock => if s.lock = none then some { s with lock := some i } else none
  | .create => some (if s.created then s else { s with created := true, checksumColumn := true })
  | .alter => if s.created then some { s with checksumColumn := true } else none
  | .select => if s.created ∧ s.checksumColumn then some s else none
  | .update w => some { s with rows := s.rows.map (setChecksum w.file (digest w.sql)) }
  | .insert w => if w.file ∈ s.recorded then none else some s
  | .commit w => some (s.committed digest i w)
  | .unlock => some (s.release i)
  | .connect | .beginTx _ | .runSql _ | .rollback => some s
  | .turn _ _ | .close | .gone => none

/-- Where `run` goes on when the statement has returned. -/
def returned (s : State) (names : List String) : Phase → Phase
  | .connect => .lock
  | .lock => .create
  | .create => .alter
  | .alter => .select
  | .select => if names = [] then .unlock else .turn s.rows names
  | .update w => .turn w.applied w.todo
  | .beginTx w => .runSql w
  | .runSql w => .insert w
  | .insert w => .commit w
  | .commit w => .turn w.applied w.todo
  | .rollback => .unlock
  | .unlock => .close
  | phase => phase

/-- Where `run` goes on when the statement has thrown. -/
def thrown : Phase → Phase
  | .connect => .close
  | .beginTx _ | .runSql _ | .insert _ | .commit _ => .rollback
  | .unlock => .close
  | .close => .close
  | .gone => .gone
  | _ => .unlock

/-- The turn of a file whose text is `sql`, `run.js:47–57`. -/
def turn (applied : List Row) (file sql : String) (todo : List String) : Phase :=
  match lookup applied file with
  | some (some stored) => if stored = digest sql then .turn applied todo else .unlock
  | some none => .update ⟨applied, file, sql, todo⟩
  | none => .beginTx ⟨applied, file, sql, todo⟩

/-- A statement returns, is refused, or is done but throws; the next file is read with the text
it has at that time; a session ends, with its process or without. -/
inductive Label where
  | returns (i : Nat)
  | refused (i : Nat)
  | lost (i : Nat)
  | read (i : Nat) (sql : String)
  | drop (i : Nat)
  deriving DecidableEq, Repr

/-- The state after a step. -/
def next (names : List String) (s : State) : Label → Option State
  | .returns i => (s.effect digest i (s.phase i)).map fun s' ↦
      s'.setPhase i (s'.returned names (s.phase i))
  | .refused i => some (s.setPhase i (thrown (s.phase i)))
  | .lost i => (s.effect digest i (s.phase i)).map fun s' ↦ s'.setPhase i (thrown (s.phase i))
  | .read i sql =>
    match s.phase i with
    | .turn _ [] => some (s.setPhase i .unlock)
    | .turn applied (file :: todo) =>
      some ((s.sees i file sql).setPhase i (turn digest applied file sql todo))
    | _ => none
  | .drop i => some ((s.release i).setPhase i .gone)

/-- Before any execution: nobody holds the lock, and what is recorded is what was committed, the
first files of the listing, with or without their checksums. -/
structure Fresh (L : Listing) (s : State) : Prop where
  lock : s.lock = none
  phase : s.phase = fun _ ↦ .connect
  empty : s.created = false → s.rows = []
  recorded : s.recorded = s.commits.map Commit.file
  first : s.recorded <+: L.names
  runner : ∀ c ∈ s.commits, c.runner = none
  reads : s.reads = []

end State

/-- The executions of `run` over one listing. -/
def machine (L : Listing) (digest : String → String) : Machine State State.Label where
  init := State.Fresh L
  step s l s' := State.next digest L.names s l = some s'

/-! ### Rows -/

private theorem lookup_isSome_iff {rows : List Row} {file : String} :
    (lookup rows file).isSome ↔ file ∈ rows.map Row.filename := by
  simp [lookup]

private theorem lookup_append (rows : List Row) (row : Row) (file : String) :
    lookup (rows ++ [row]) file =
      (lookup rows file).or (if row.filename = file then some row.checksum else none) := by
  unfold lookup
  rw [List.find?_append]
  cases rows.find? fun row ↦ row.filename == file with
  | some r => rfl
  | none => by_cases h : row.filename = file <;> simp [h]

private theorem lookup_setChecksum (rows : List Row) (file file' digest : String) :
    lookup (rows.map (setChecksum file digest)) file' =
      if file' = file then (lookup rows file').map fun _ ↦ some digest else lookup rows file' := by
  have hname : ∀ row : Row, (setChecksum file digest row).filename = row.filename := by
    intro row
    unfold setChecksum
    split <;> rfl
  unfold lookup
  rw [List.find?_map]
  have hfind : (fun row : Row ↦ row.filename == file') ∘ setChecksum file digest =
      fun row ↦ row.filename == file' := funext fun row ↦ by
    rw [Function.comp_apply, hname]
  rw [hfind]
  cases hfound : rows.find? fun row ↦ row.filename == file' with
  | none => simp
  | some row =>
    have hrow : row.filename = file' := by simpa using List.find?_some hfound
    simp only [Option.map_some, setChecksum, hrow]
    split <;> rfl

private theorem map_setChecksum (rows : List Row) (file digest : String) :
    (rows.map (setChecksum file digest)).map Row.filename = rows.map Row.filename := by
  rw [List.map_map]
  apply List.map_congr_left
  intro row _
  simp only [Function.comp_apply, setChecksum]
  split <;> rfl

/-! ### The listing -/

section Listing

variable {L : Listing}

/-- What comes before a file is what stands before it. -/
theorem Listing.Before.mem {f file : String} {done todo : List String} (h : L.Before f file)
    (hnames : L.names = done ++ file :: todo) : f ∈ done := by
  obtain ⟨done', todo', hnames', hf⟩ := h
  have hnodup := L.nodup
  have hnot : ∀ {xs ys : List String}, L.names = xs ++ file :: ys → file ∉ xs := by
    intro xs ys heq hmem
    rw [heq] at hnodup
    exact (List.nodup_append.mp hnodup).2.2 file hmem file List.mem_cons_self rfl
  have hidx : ∀ {xs ys : List String}, L.names = xs ++ file :: ys →
      L.names.idxOf file = xs.length := by
    intro xs ys heq
    rw [heq, List.idxOf_append_of_notMem (hnot heq), List.idxOf_cons_self, Nat.add_zero]
  have hlength := (hidx hnames).symm.trans (hidx hnames')
  exact (List.append_inj (hnames.symm.trans hnames') hlength).1 ▸ hf

/-- The first files, without the next one and with all before it. -/
theorem Listing.eq_done {recorded done todo : List String} {file : String}
    (hfront : recorded <+: L.names) (hnames : L.names = done ++ file :: todo)
    (hfile : file ∉ recorded) (hdone : ∀ f ∈ done, f ∈ recorded) : recorded = done := by
  have hnodup := L.nodup
  rw [hnames] at hnodup hfront
  have hle : done.length ≤ recorded.length :=
    (List.subperm_of_subset (List.nodup_append.mp hnodup).1 hdone).length_le
  obtain ⟨rest, hrest⟩ := hfront
  obtain ⟨more, rfl⟩ : done <+: recorded :=
    List.prefix_of_prefix_length_le (List.prefix_append done (file :: todo)) ⟨rest, hrest⟩ hle
  cases more with
  | nil => exact List.append_nil done
  | cons x more =>
    rw [List.append_assoc, List.append_cancel_left_eq, List.cons_append, List.cons.injEq] at hrest
    exact absurd (List.mem_append_right done (hrest.1 ▸ List.mem_cons_self)) hfile

end Listing

/-! ### The invariant -/

section Invariant

variable {L : Listing} {digest : String → String} {s s' : State} {i : Nat}

/-- The execution holds the lock in these phases. -/
def Phase.holds : Phase → Bool
  | .create | .alter | .select | .turn _ _ | .update _ | .beginTx _ | .runSql _ | .insert _
  | .commit _ => true
  | _ => false

/-- The execution has read the file as it is recorded. -/
def Found (digest : String → String) (s : State) (i : Nat) (file : String) : Prop :=
  ∃ sql, ⟨i, file, sql⟩ ∈ s.reads ∧ lookup s.rows file = some (some (digest sql))

/-- The files done have been found as recorded, and what is known of the others is true. -/
structure Progress (L : Listing) (digest : String → String) (s : State) (i : Nat)
    (applied : List Row) (done todo : List String) : Prop where
  names : L.names = done ++ todo
  found : ∀ f ∈ done, Found digest s i f
  known : ∀ f ∈ todo, lookup applied f = lookup s.rows f

/-- The execution is at the turn of the file it has read, recorded as `stored`. -/
structure AtFile (L : Listing) (digest : String → String) (s : State) (i : Nat) (w : Work)
    (stored : Option (Option String)) : Prop where
  progress : ∃ done, Progress L digest s i w.applied done (w.file :: w.todo)
  read : ⟨i, w.file, w.sql⟩ ∈ s.reads
  stored : lookup w.applied w.file = stored

/-- What an execution that holds the lock knows of the table. -/
def Phase.Knows (L : Listing) (digest : String → String) (s : State) (i : Nat) : Phase → Prop
  | .turn applied todo => ∃ done, Progress L digest s i applied done todo
  | .update w => AtFile L digest s i w (some none)
  | .beginTx w | .runSql w | .insert w | .commit w => AtFile L digest s i w none
  | _ => True

/-- A runner in a phase that needs the lock holds it and knows what is recorded. -/
def Phase.Ok (L : Listing) (digest : String → String) (s : State) (i : Nat) (p : Phase) : Prop :=
  p.holds = true → s.lock = some i ∧ p.Knows L digest s i

/-- What holds of the committed database. -/
structure DbOk (L : Listing) (digest : String → String) (s : State) : Prop where
  recorded : s.recorded = s.commits.map Commit.file
  first : s.recorded <+: L.names
  passed : ∀ c ∈ s.commits, ∀ i, c.runner = some i → ∀ f, L.Before f c.file → Found digest s i f

/-- What holds of every state. -/
structure Ok (L : Listing) (digest : String → String) (s : State) : Prop where
  db : DbOk L digest s
  phases : ∀ i, (s.phase i).Ok L digest s i

/-- What holds between the effect of a statement of `i` and its return. -/
structure Served (L : Listing) (digest : String → String) (i : Nat) (s : State) : Prop where
  db : DbOk L digest s
  others : ∀ j, j ≠ i → (s.phase j).Ok L digest s j

private theorem Ok.served (h : Ok L digest s) (i : Nat) : Served L digest i s :=
  ⟨h.db, fun j _ ↦ h.phases j⟩

private theorem phase_setPhase (s : State) (i j : Nat) (p : Phase) :
    (s.setPhase i p).phase j = if j = i then p else s.phase j := Function.update_apply ..

private theorem not_holds_thrown (p : Phase) : (State.thrown p).holds = false := by cases p <;> rfl

private theorem Phase.Ok.of_not_holds {p : Phase} (hp : p.holds = false) : p.Ok L digest s i :=
  fun h ↦ absurd (hp.symm.trans h) Bool.false_ne_true

/-- Nobody else holds the lock. -/
theorem Phase.Ok.alone {j : Nat} {p : Phase} (hlock : s.lock = some i) (hj : j ≠ i)
    (h : p.Ok L digest s j) : p.holds = false := by
  by_contra hp
  have hown := (h (Bool.not_eq_false _ ▸ hp)).1
  exact hj (Option.some.inj (hown.symm.trans hlock))

/-- What a runner knows of the table depends on the rows and on what it has read. -/
theorem Phase.Knows.frame {j : Nat} {p : Phase} (h : p.Knows L digest s j)
    (hrows : s'.rows = s.rows) (hreads : s.reads ⊆ s'.reads) : p.Knows L digest s' j := by
  have hfound : ∀ f, Found digest s j f → Found digest s' j f := by
    rintro f ⟨sql, hread, hrow⟩
    exact ⟨sql, hreads hread, hrows ▸ hrow⟩
  have hprogress : ∀ {applied done todo}, Progress L digest s j applied done todo →
      Progress L digest s' j applied done todo := fun h ↦
    ⟨h.names, fun f hf ↦ hfound f (h.found f hf), hrows ▸ h.known⟩
  have hat : ∀ {w stored}, AtFile L digest s j w stored → AtFile L digest s' j w stored := fun h ↦
    ⟨h.progress.imp fun _ ↦ hprogress, hreads h.read, h.stored⟩
  cases p with
  | turn applied todo => exact h.imp fun _ ↦ hprogress
  | update w | beginTx w | runSql w | insert w | commit w => exact hat h
  | _ => trivial

private theorem Phase.Ok.setPhase {j : Nat} {p q : Phase} (h : p.Ok L digest s j) :
    p.Ok L digest (s.setPhase i q) j := fun hp ↦
  ⟨(h hp).1, (h hp).2.frame rfl (List.Subset.refl _)⟩

private theorem Served.setPhase (h : Served L digest i s) {p : Phase} (hp : p.Ok L digest s i) :
    Ok L digest (s.setPhase i p) := by
  refine ⟨⟨h.db.recorded, h.db.first, h.db.passed⟩, fun j ↦ ?_⟩
  rw [phase_setPhase]
  split
  · next hj =>
    subst hj
    exact hp.setPhase
  · next hj => exact (h.others j hj).setPhase

/-- A statement that leaves the rows and everybody else's lock alone. -/
theorem Ok.quiet (h : Ok L digest s) (hrows : s'.rows = s.rows) (hcommits : s'.commits = s.commits)
    (hreads : s.reads ⊆ s'.reads) (hphase : s'.phase = s.phase)
    (hlock : ∀ j, j ≠ i → s.lock = some j → s'.lock = some j) : Served L digest i s' := by
  refine ⟨⟨?_, ?_, ?_⟩, ?_⟩
  · rw [State.recorded, hrows, hcommits]
    exact h.db.recorded
  · rw [State.recorded, hrows]
    exact h.db.first
  · intro c hc j hj f hf
    rw [hcommits] at hc
    obtain ⟨sql, hread, hrow⟩ := h.db.passed c hc j hj f hf
    exact ⟨sql, hreads hread, hrows ▸ hrow⟩
  · intro j hj hp
    rw [hphase] at hp ⊢
    obtain ⟨hown, hknows⟩ := h.phases j hp
    exact ⟨hlock j hj hown, hknows.frame hrows hreads⟩

/-- The end of a session, or its unlocking, takes the lock from nobody else. -/
theorem Ok.released (h : Ok L digest s) : Served L digest i (s.release i) := by
  refine h.quiet rfl rfl (List.Subset.refl _) rfl fun j hj hlock ↦ ?_
  have hne : ¬ s.lock = some i := fun hi ↦ hj (Option.some.inj (hlock.symm.trans hi))
  exact (if_neg hne).trans hlock

/-- Rows may change while `i` holds the lock, as long as stored checksums stay. -/
theorem Ok.changed (h : Ok L digest s) (hlock : s.lock = some i) (hphase : s'.phase = s.phase)
    (hdb : DbOk L digest s') : Served L digest i s' := by
  refine ⟨hdb, fun j hj ↦ ?_⟩
  rw [hphase]
  exact .of_not_holds ((h.phases j).alone hlock hj)

/-- A stored checksum stays. -/
def Kept (rows rows' : List Row) : Prop :=
  ∀ f checksum, lookup rows f = some (some checksum) → lookup rows' f = some (some checksum)

private theorem Found.kept {f : String} (h : Found digest s i f) (hreads : s'.reads = s.reads)
    (hkept : Kept s.rows s'.rows) : Found digest s' i f := by
  obtain ⟨sql, hread, hrow⟩ := h
  exact ⟨sql, hreads ▸ hread, hkept _ _ hrow⟩

private theorem AtFile.row {w : Work} {stored : Option (Option String)}
    (h : AtFile L digest s i w stored) : lookup s.rows w.file = stored := by
  obtain ⟨done, hprogress⟩ := h.progress
  exact (hprogress.known _ List.mem_cons_self).symm.trans h.stored

private theorem kept_setChecksum {rows : List Row} {file text : String}
    (h : lookup rows file = some none) : Kept rows (rows.map (setChecksum file text)) := by
  intro f checksum hf
  have hne : f ≠ file := by
    rintro rfl
    rw [h] at hf
    cases hf
  rw [lookup_setChecksum, if_neg hne, hf]

private theorem kept_append (rows : List Row) (row : Row) : Kept rows (rows ++ [row]) := by
  intro f checksum hf
  rw [lookup_append, hf]
  rfl

/-- The missing checksum of a file is filled in. -/
theorem update_served (h : Ok L digest s) (hlock : s.lock = some i) {w : Work}
    (hw : AtFile L digest s i w (some none)) :
    Served L digest i { s with rows := s.rows.map (setChecksum w.file (digest w.sql)) } ∧
      (Phase.turn w.applied w.todo).Ok L digest
        { s with rows := s.rows.map (setChecksum w.file (digest w.sql)) } i := by
  have hrow := hw.row
  obtain ⟨⟨done, hprogress⟩, hread, hstored⟩ := hw
  generalize hs' : { s with rows := s.rows.map (setChecksum w.file (digest w.sql)) } = s'
  have hrows : s'.rows = s.rows.map (setChecksum w.file (digest w.sql)) := hs' ▸ rfl
  have hreads : s'.reads = s.reads := hs' ▸ rfl
  have hcommits : s'.commits = s.commits := hs' ▸ rfl
  have hlookup : ∀ f, f ≠ w.file → lookup s'.rows f = lookup s.rows f := by
    intro f hf
    rw [hrows, lookup_setChecksum, if_neg hf]
  have hfound : ∀ j f, Found digest s j f → Found digest s' j f := fun j f hf ↦
    hf.kept hreads (hrows ▸ kept_setChecksum hrow)
  have hnames : s'.recorded = s.recorded := by
    rw [State.recorded, hrows, map_setChecksum]
    rfl
  refine ⟨h.changed hlock (hs' ▸ rfl) ⟨?_, ?_, ?_⟩, fun _ ↦ ⟨hs' ▸ hlock, done ++ [w.file], ?_⟩⟩
  · rw [hnames, hcommits]
    exact h.db.recorded
  · rw [hnames]
    exact h.db.first
  · rw [hcommits]
    exact fun c hc j hj f hf ↦ hfound j f (h.db.passed c hc j hj f hf)
  · have hnot : w.file ∉ w.todo := by
      have hnodup := L.nodup
      rw [hprogress.names] at hnodup
      exact (List.nodup_cons.mp (List.nodup_append.mp hnodup).2.1).1
    refine ⟨by rw [hprogress.names, List.append_assoc]; rfl, fun f hf ↦ ?_, fun f hf ↦ ?_⟩
    · rcases List.mem_append.mp hf with hf | hf
      · exact hfound i f (hprogress.found f hf)
      · obtain rfl := List.mem_singleton.mp hf
        refine ⟨w.sql, hreads ▸ hread, ?_⟩
        rw [hrows, lookup_setChecksum, if_pos rfl, hrow]
        rfl
    · rw [hlookup f fun heq ↦ hnot (heq ▸ hf)]
      exact hprogress.known f (List.mem_cons_of_mem _ hf)

/-- The SQL of the next file of the listing is committed with its record. -/
theorem commit_served (h : Ok L digest s) (hlock : s.lock = some i) {w : Work}
    (hw : AtFile L digest s i w none) :
    Served L digest i (s.committed digest i w) ∧
      (Phase.turn w.applied w.todo).Ok L digest (s.committed digest i w) i := by
  have hrow := hw.row
  obtain ⟨⟨done, hprogress⟩, hread, hstored⟩ := hw
  have hrows : (s.committed digest i w).rows = s.rows ++ [⟨w.file, some (digest w.sql)⟩] := rfl
  have hnew : w.file ∉ s.recorded := fun hmem ↦ by
    have hsome := lookup_isSome_iff.mpr hmem
    rw [hrow] at hsome
    cases hsome
  have hdone : s.recorded = done := L.eq_done h.db.first hprogress.names hnew fun f hf ↦ by
    obtain ⟨sql, -, hf⟩ := hprogress.found f hf
    exact lookup_isSome_iff.mp (hf ▸ rfl)
  have hlookup : ∀ f, lookup (s.committed digest i w).rows f =
      (lookup s.rows f).or (if w.file = f then some (some (digest w.sql)) else none) := by
    intro f
    rw [hrows, lookup_append]
  have hfound : ∀ j f, Found digest s j f → Found digest (s.committed digest i w) j f :=
    fun j f hf ↦ hf.kept rfl (kept_append _ _)
  have hlast : Found digest (s.committed digest i w) i w.file := by
    refine ⟨w.sql, hread, ?_⟩
    rw [hlookup, hrow, if_pos rfl]
    rfl
  have hnames : (s.committed digest i w).recorded = done ++ [w.file] := by
    rw [State.recorded, hrows, List.map_append, ← hdone]
    rfl
  have hlisting : L.names = (done ++ [w.file]) ++ w.todo := by
    rw [hprogress.names, List.append_assoc]
    rfl
  refine ⟨h.changed hlock rfl ⟨?_, ?_, ?_⟩, fun _ ↦ ⟨hlock, done ++ [w.file], hlisting, ?_, ?_⟩⟩
  · change _ = (s.commits ++ [(⟨some i, w.file, w.sql⟩ : Commit)]).map Commit.file
    rw [hnames, List.map_append, ← h.db.recorded, hdone]
    rfl
  · rw [hnames, hlisting]
    exact List.prefix_append _ _
  · intro c hc j hj f hf
    rcases List.mem_append.mp hc with hc | hc
    · exact hfound j f (h.db.passed c hc j hj f hf)
    · obtain rfl := List.mem_singleton.mp hc
      obtain rfl := Option.some.inj hj
      exact hfound i f (hprogress.found f (hf.mem hprogress.names))
  · intro f hf
    rcases List.mem_append.mp hf with hf | hf
    · exact hfound i f (hprogress.found f hf)
    · obtain rfl := List.mem_singleton.mp hf
      exact hlast
  · intro f hf
    have hne : w.file ≠ f := by
      rintro rfl
      have hnodup := L.nodup
      rw [hprogress.names] at hnodup
      exact (List.nodup_cons.mp (List.nodup_append.mp hnodup).2.1).1 hf
    rw [hlookup, if_neg hne, Option.or_none]
    exact hprogress.known f (List.mem_cons_of_mem _ hf)

/-- A statement keeps the database, and leaves `run` where it knows what it needs. -/
theorem effect_served (h : Ok L digest s) (heffect : s.effect digest i (s.phase i) = some s') :
    Served L digest i s' ∧ (s'.returned L.names (s.phase i)).Ok L digest s' i := by
  have hown := h.phases i
  -- the lock is kept by a statement that does not touch it
  have hkeeps : ∀ {p : Phase}, p.holds = true → s.phase i = p → s.lock = some i := fun hp heq ↦
    (hown (heq ▸ hp)).1
  generalize hp : s.phase i = p at heffect hown ⊢
  cases p with
  | connect | rollback =>
    obtain rfl := Option.some.inj heffect
    exact ⟨h.served i, .of_not_holds rfl⟩
  | lock =>
    simp only [State.effect, Option.ite_none_right_eq_some, Option.some.injEq] at heffect
    obtain ⟨hfree, rfl⟩ := heffect
    refine ⟨h.quiet rfl rfl (List.Subset.refl _) rfl fun j _ hj ↦ ?_, fun _ ↦ ⟨rfl, trivial⟩⟩
    rw [hfree] at hj
    cases hj
  | create =>
    obtain rfl := Option.some.inj heffect
    have hlock := hkeeps rfl hp
    split
    · exact ⟨h.served i, fun _ ↦ ⟨hlock, trivial⟩⟩
    · exact ⟨h.quiet rfl rfl (List.Subset.refl _) rfl fun j _ hj ↦ hj, fun _ ↦ ⟨hlock, trivial⟩⟩
  | alter =>
    simp only [State.effect, Option.ite_none_right_eq_some, Option.some.injEq] at heffect
    obtain ⟨-, rfl⟩ := heffect
    exact ⟨h.quiet rfl rfl (List.Subset.refl _) rfl fun j _ hj ↦ hj,
      fun _ ↦ ⟨hkeeps rfl hp, trivial⟩⟩
  | select =>
    simp only [State.effect, Option.ite_none_right_eq_some, Option.some.injEq] at heffect
    obtain ⟨-, rfl⟩ := heffect
    refine ⟨h.served i, ?_⟩
    change (if L.names = [] then Phase.unlock else .turn s.rows L.names).Ok L digest s i
    split
    · exact .of_not_holds rfl
    · exact fun _ ↦ ⟨hkeeps rfl hp, [], ⟨rfl, fun f hf ↦ absurd hf List.not_mem_nil, fun f _ ↦ rfl⟩⟩
  | update w =>
    obtain rfl := Option.some.inj heffect
    obtain ⟨hlock, hw⟩ := hown rfl
    exact update_served h hlock hw
  | beginTx w | runSql w =>
    obtain rfl := Option.some.inj heffect
    exact ⟨h.served i, fun _ ↦ hown rfl⟩
  | insert w =>
    simp only [State.effect, Option.ite_none_left_eq_some, Option.some.injEq] at heffect
    obtain ⟨-, rfl⟩ := heffect
    exact ⟨h.served i, fun _ ↦ hown rfl⟩
  | commit w =>
    obtain rfl := Option.some.inj heffect
    obtain ⟨hlock, hw⟩ := hown rfl
    exact commit_served h hlock hw
  | unlock =>
    obtain rfl := Option.some.inj heffect
    exact ⟨h.released, .of_not_holds rfl⟩
  | turn | close | gone => cases heffect

private theorem effect_kept (h : Ok L digest s)
    (heffect : s.effect digest i (s.phase i) = some s') :
    Kept s.rows s'.rows := by
  have hown := h.phases i
  have hsame : s'.rows = s.rows → Kept s.rows s'.rows := fun heq f checksum hf ↦ heq ▸ hf
  generalize s.phase i = p at heffect hown
  cases p with
  | update w =>
    obtain rfl := Option.some.inj heffect
    exact kept_setChecksum (hown rfl).2.row
  | commit w =>
    obtain rfl := Option.some.inj heffect
    exact kept_append _ _
  | create =>
    obtain rfl := Option.some.inj heffect
    apply hsame
    split <;> rfl
  | lock | alter | select | insert =>
    simp only [State.effect, Option.ite_none_right_eq_some, Option.ite_none_left_eq_some,
      Option.some.injEq] at heffect
    obtain ⟨-, rfl⟩ := heffect
    exact hsame rfl
  | connect | beginTx | runSql | rollback | unlock =>
    obtain rfl := Option.some.inj heffect
    exact hsame rfl
  | turn | close | gone => cases heffect

/-- Reading a file decides its turn by what was recorded of it. -/
theorem read_ok (h : Ok L digest s) {applied : List Row} {file sql : String} {todo : List String}
    (hp : s.phase i = .turn applied (file :: todo)) :
    Ok L digest ((s.sees i file sql).setPhase i (State.turn digest applied file sql todo)) := by
  have hreads : s.reads ⊆ (s.sees i file sql).reads := List.subset_append_left _ _
  obtain ⟨hlock, hknows⟩ := h.phases i (hp ▸ rfl)
  rw [hp] at hknows
  obtain ⟨done, hprogress⟩ : ∃ done, Progress L digest (s.sees i file sql) i applied done
      (file :: todo) := hknows.frame (p := .turn applied (file :: todo)) rfl hreads
  have hread : ⟨i, file, sql⟩ ∈ (s.sees i file sql).reads :=
    List.mem_append_right _ List.mem_cons_self
  refine (Ok.quiet h rfl rfl hreads rfl fun j _ hj ↦ hj : Served L digest i (s.sees i file sql)).setPhase
    fun _ ↦ ⟨hlock, ?_⟩
  unfold State.turn
  split
  · next stored hstored =>
    split
    · next heq =>
      refine ⟨done ++ [file], ?_, fun f hf ↦ ?_, fun f hf ↦ ?_⟩
      · rw [hprogress.names, List.append_assoc]
        rfl
      · rcases List.mem_append.mp hf with hf | hf
        · exact hprogress.found f hf
        · obtain rfl := List.mem_singleton.mp hf
          exact ⟨sql, hread, heq ▸ (hprogress.known f List.mem_cons_self).symm.trans hstored⟩
      · exact hprogress.known f (List.mem_cons_of_mem _ hf)
    · trivial
  · next hstored => exact ⟨⟨done, hprogress⟩, hread, hstored⟩
  · next hstored => exact ⟨⟨done, hprogress⟩, hread, hstored⟩

/-- One step keeps the invariant. -/
theorem next_ok (h : Ok L digest s) {l : State.Label}
    (hstep : State.next digest L.names s l = some s') : Ok L digest s' := by
  cases l with
  | returns i =>
    obtain ⟨mid, heffect, rfl⟩ := Option.map_eq_some_iff.mp hstep
    obtain ⟨hserved, hp⟩ := effect_served h heffect
    exact hserved.setPhase hp
  | refused i =>
    obtain rfl := Option.some.inj hstep
    exact (h.served i).setPhase (.of_not_holds (not_holds_thrown _))
  | lost i =>
    obtain ⟨mid, heffect, rfl⟩ := Option.map_eq_some_iff.mp hstep
    exact (effect_served h heffect).1.setPhase (.of_not_holds (not_holds_thrown _))
  | read i sql =>
    simp only [State.next] at hstep
    split at hstep
    · obtain rfl := Option.some.inj hstep
      exact (h.served i).setPhase (.of_not_holds rfl)
    · next applied file todo hp =>
      obtain rfl := Option.some.inj hstep
      exact read_ok h hp
    · cases hstep
  | drop i =>
    obtain rfl := Option.some.inj hstep
    exact h.released.setPhase (.of_not_holds rfl)

private theorem ok_invariant (L : Listing) (digest : String → String) :
    (machine L digest).Invariant (Ok L digest) where
  init s h := by
    refine ⟨⟨h.recorded, h.first, fun c hc i hi ↦ ?_⟩, fun i ↦ .of_not_holds ?_⟩
    · rw [h.runner c hc] at hi
      cases hi
    · rw [h.phase]
      rfl
  step _ _ _ h hstep := next_ok h hstep

private theorem next_kept (h : Ok L digest s) {l : State.Label}
    (hstep : State.next digest L.names s l = some s') : Kept s.rows s'.rows := by
  cases l with
  | returns i | lost i =>
    obtain ⟨mid, heffect, rfl⟩ := Option.map_eq_some_iff.mp hstep
    have hkept : Kept s.rows mid.rows := effect_kept h heffect
    exact hkept
  | refused i | drop i =>
    obtain rfl := Option.some.inj hstep
    exact fun f checksum hf ↦ hf
  | read i sql =>
    simp only [State.next] at hstep
    split at hstep
    · obtain rfl := Option.some.inj hstep
      exact fun f checksum hf ↦ hf
    · obtain rfl := Option.some.inj hstep
      exact fun f checksum hf ↦ hf
    · cases hstep

private theorem steps_kept (hs : (machine L digest).Reachable s)
    (hsteps : (machine L digest).Steps s s') :
    Kept s.rows s'.rows := by
  induction hsteps with
  | refl => exact fun f checksum hf ↦ hf
  | step hsteps hstep ih =>
    have hok := (ok_invariant L digest).reachable (hs.steps hsteps)
    exact fun f checksum hf ↦ next_kept hok hstep f checksum (ih f checksum hf)

/-- In every committed state the files recorded are those whose SQL has been committed, each of
them once, and they are the first of the listing. A stored checksum stays, and an execution that
has read the file with no text of that checksum commits no file after it. -/
theorem migrations_once_in_order (hs : (machine L digest).Reachable s) :
    s.recorded = s.commits.map Commit.file ∧ (s.commits.map Commit.file).Nodup ∧
      s.recorded <+: L.names ∧
      ∀ f checksum, lookup s.rows f = some (some checksum) → ∀ s', (machine L digest).Steps s s' →
        lookup s'.rows f = some (some checksum) ∧
        ∀ i, (∀ sql, ⟨i, f, sql⟩ ∈ s'.reads → digest sql ≠ checksum) →
          ∀ c ∈ s'.commits, c.runner = some i → ¬ L.Before f c.file := by
  have hok := (ok_invariant L digest).reachable hs
  refine ⟨hok.db.recorded, ?_, hok.db.first, ?_⟩
  · rw [← hok.db.recorded]
    exact L.nodup.sublist hok.db.first.sublist
  · intro f checksum hrow s' hsteps
    have hrow' := steps_kept hs hsteps f checksum hrow
    refine ⟨hrow', fun i hreads c hc hi hbefore ↦ ?_⟩
    have hok' := (ok_invariant L digest).reachable (hs.steps hsteps)
    obtain ⟨sql, hread, hfound⟩ := hok'.db.passed c hc i hi f hbefore
    rw [hrow', Option.some.injEq, Option.some.injEq] at hfound
    exact hreads sql hread hfound.symm

/-! ### Two files, two executions -/

/-- The first two migrations. -/
def twoFiles : Listing := ⟨["001_init.sql", "002_game_features.sql"], by decide⟩

/-- An empty database, and nobody connected. -/
def empty : State := ⟨false, false, [], none, fun _ ↦ .connect, [], []⟩

/-- The first execution applies the first file and its session ends in the turn of the second;
another one, which reads the first file changed, is refused it. -/
def interrupted : List State.Label :=
  [.returns 0, .returns 1, .returns 0, .returns 0, .returns 0, .returns 0, .read 0 "a",
    .returns 0, .returns 0, .returns 0, .returns 0, .read 0 "b", .returns 0, .returns 0, .drop 0,
    .returns 1, .returns 1, .returns 1, .returns 1, .read 1 "changed"]

/-- A session is dropped after the first file, and another runner goes on. -/
theorem migrations_once_in_order_interrupted :
    ∃ s, (machine twoFiles id).Reachable s ∧ s.recorded = ["001_init.sql"] ∧
      s.phase 1 = .unlock ∧ (s.commits.map Commit.file).Nodup ∧ s.recorded <+: twoFiles.names := by
  have hfresh : State.Fresh twoFiles empty :=
    ⟨rfl, rfl, fun _ ↦ rfl, rfl, List.nil_prefix, fun _ h ↦ absurd h List.not_mem_nil, rfl⟩
  have hrun : (interrupted.foldlM (State.next id twoFiles.names) empty).any (fun s ↦
      s.recorded = ["001_init.sql"] ∧ s.phase 1 = .unlock) = true := by decide +kernel
  obtain ⟨s, hs, hfacts⟩ := Option.any_eq_true _ _ |>.mp hrun
  obtain ⟨hrecorded, hphase⟩ := of_decide_eq_true hfacts
  have hreach : (machine twoFiles id).Reachable s :=
    .foldlM (fun _ _ _ h ↦ h) (.init hfresh) hs
  obtain ⟨-, hnodup, hfront, -⟩ := migrations_once_in_order hreach
  exact ⟨s, hreach, hrecorded, hphase, hnodup, hfront⟩

end Invariant

end ChessStack.Migrations
