import ChessStack.Library.ReadCommitted

/-!
# One transaction among others

Library `Library`. What a transaction does at READ COMMITTED is shown of its program alone: between
any two of its steps the others may move the store on as the rule allows, except for the rows it
has locked. A program that keeps the rule does so in every interleaving.
-/

namespace ChessStack.Library.ReadCommitted

variable {Key Row Call : Type} {Result : Call → Type}

/-- What always holds of the store, how it may move on, how it may move on while a session is at a
point, what a commit does and what a call may return without one. -/
structure Rule (Key Row Call : Type) (Result : Call → Type) where
  inv : Store Key Row → Prop
  rely : Store Key Row → Store Key Row → Prop
  allow : (c : Call) → Writes Key Row → Point Key Row (Result c) → Store Key Row →
    Store Key Row → Prop
  post : (c : Call) → Result c → Store Key Row → Store Key Row → Prop
  back : (c : Call) → Result c → Store Key Row → Prop
  refl : ∀ d, rely d d
  trans : ∀ d d' d'', rely d d' → rely d' d'' → rely d d''
  allow_refl : ∀ c own point d, allow c own point d d
  allow_trans : ∀ c own point d d' d'', rely d d' → rely d' d'' → allow c own point d d' →
    allow c own point d' d'' → allow c own point d d''

namespace Rule

/-- The store moved on while a session was at a point, but not under its keys. -/
structure Env (P : Rule Key Row Call Result) (c : Call) (locks : List Key) (own : Writes Key Row)
    (point : Point Key Row (Result c)) (d d' : Store Key Row) : Prop where
  inv : P.inv d'
  rely : P.rely d d'
  allow : P.allow c own point d d'
  agree : Agree locks d d'

/-- How far an `UPDATE` is. -/
structure Sweep (Key Row : Type) where
  db : Store Key Row
  locks : List Key
  own : Writes Key Row
  todo : List Key
  got : List Row

/-- The point of a session that far in an `UPDATE`. -/
abbrev Sweep.point {R : Type} (x : Sweep Key Row) (cond : Key → Row → Bool) (set : Row → Row)
    (next : List Row → Program Key Row R) : Point Key Row R := .sweep cond set next x.todo x.got

variable [DecidableEq Key]

/-- A step of an `UPDATE`: the others move on, or it goes through one of its rows. -/
inductive SweepStep (P : Rule Key Row Call Result) (c : Call) (cond : Key → Row → Bool)
    (set : Row → Row) (next : List Row → Program Key Row (Result c)) :
    Sweep Key Row → Sweep Key Row → Prop
  | env {x : Sweep Key Row} {d : Store Key Row} :
      P.Env c x.locks x.own (x.point cond set next) x.db d → SweepStep P c cond set next x
        { x with db := d }
  | lock {x : Sweep Key Row} {k : Key} {row : Row} : k ∈ x.todo →
      (x.db.write x.own).row? k = some row → cond k row = true →
      SweepStep P c cond set next x ⟨x.db, k :: x.locks, x.own ++ [(k, set row)],
        x.todo.filter (· ≠ k), x.got ++ [row]⟩
  | skip {x : Sweep Key Row} {k : Key} : k ∈ x.todo →
      (∀ row, (x.db.write x.own).row? k = some row → cond k row = false) →
      SweepStep P c cond set next x ⟨x.db, k :: x.locks, x.own, x.todo.filter (· ≠ k), x.got⟩

/-- An `UPDATE` goes from one place to another. -/
abbrev Sweeps (P : Rule Key Row Call Result) (c : Call) (cond : Key → Row → Bool)
    (set : Row → Row) (next : List Row → Program Key Row (Result c)) :
    Sweep Key Row → Sweep Key Row → Prop := Relation.ReflTransGen (P.SweepStep c cond set next)

/-- From here on the program keeps the rule, whatever the others do meanwhile. -/
def Ok (P : Rule Key Row Call Result) (c : Call) :
    Program Key Row (Result c) → Store Key Row → List Key → Writes Key Row → Prop
  | .commit value, d, locks, own => ∀ d', P.Env c locks own (.stmt (.commit value)) d d' →
    P.post c value d' (d'.write own)
  | .rollback value, d, locks, own => ∀ d', P.Env c locks own (.stmt (.rollback value)) d d' →
    P.back c value d'
  | .throw, _, _, _ => True
  | .read next, d, locks, own => ∀ d', P.Env c locks own (.stmt (.read next)) d d' →
    Ok P c (next (d'.write own)) d' locks own
  | .update cond set next, d, locks, own =>
    ∀ d', P.Env c locks own (.stmt (.update cond set next)) d d' → ∀ x : Sweep Key Row,
      P.Sweeps c cond set next ⟨d', locks, own, (d'.write own).targets cond, []⟩ x →
      x.todo = [] → Ok P c (next x.got) x.db x.locks x.own
  | .insert k row next, d, locks, own =>
    ∀ d', P.Env c locks own (.stmt (.insert k row next)) d d' → (d'.write own).row? k = none →
      Ok P c next d' (k :: locks) (own ++ [(k, row)])

/-- The same of a point in the program. -/
def OkAt (P : Rule Key Row Call Result) (c : Call) (d : Store Key Row) (locks : List Key)
    (own : Writes Key Row) : Point Key Row (Result c) → Prop
  | .stmt rest => P.Ok c rest d locks own
  | .sweep cond set next todo got => ∀ x : Sweep Key Row,
    P.Sweeps c cond set next ⟨d, locks, own, todo, got⟩ x → x.todo = [] →
      P.Ok c (next x.got) x.db x.locks x.own

/-- Every call keeps the rule. -/
structure Sound (P : Rule Key Row Call Result) (S : System Key Row Call Result) : Prop where
  start : ∀ d, S.start d → P.inv d
  commit : ∀ c value d d', P.inv d → P.post c value d d' → P.inv d' ∧ P.rely d d'
  spawn : ∀ c, S.spawn c → ∀ d, P.inv d → P.Ok c (S.prog c) d [] []

/-- Under the guard a session commits only what the others allow. -/
def Permits (P : Rule Key Row Call Result)
    (guard : State Key Row Call Result → Label Key Call → Prop) : Prop :=
  ∀ s i, guard s (.commit i) → ∀ j, j ≠ i → ∀ c locks own point,
    s.slots j = .running c locks own point →
      P.allow c own point s.db (s.db.write (s.slots i).own)

/-- The outcomes of a run, in order, and the store they lead to from an initial one. -/
inductive Trace (P : Rule Key Row Call Result) (S : System Key Row Call Result) :
    List (Outcome Key Row Call Result) → Store Key Row → Prop
  | start {d : Store Key Row} : S.start d → Trace P S [] d
  | committed {log : List (Outcome Key Row Call Result)} {d d' : Store Key Row} {c : Call}
      {value : Result c} : Trace P S log d → P.inv d → P.post c value d d' →
      Trace P S (log ++ [.committed c value d d']) d'
  | returned {log : List (Outcome Key Row Call Result)} {d : Store Key Row} {c : Call}
      {value : Result c} : Trace P S log d → P.inv d → P.back c value d →
      Trace P S (log ++ [.returned c value d]) d
  | failed {log : List (Outcome Key Row Call Result)} {d : Store Key Row} {c : Call} :
      Trace P S log d → Trace P S (log ++ [.failed c d]) d

/-- What every state of a run satisfies. -/
structure Kept (P : Rule Key Row Call Result) (S : System Key Row Call Result)
    (s : State Key Row Call Result) : Prop where
  inv : P.inv s.db
  ok : ∀ i c locks own point, s.slots i = .running c locks own point →
    P.OkAt c s.db locks own point
  writes : ∀ i, ∀ w ∈ (s.slots i).own, w.1 ∈ (s.slots i).locks
  apart : ∀ i j, i ≠ j → ∀ k ∈ (s.slots i).locks, k ∉ (s.slots j).locks
  trace : P.Trace S s.log s.db

variable {P : Rule Key Row Call Result} {S : System Key Row Call Result}
  {s s' : State Key Row Call Result}

omit [DecidableEq Key] in
private theorem Env.refl {c : Call} {locks : List Key} {own : Writes Key Row}
    {point : Point Key Row (Result c)} {d : Store Key Row} (h : P.inv d) :
    P.Env c locks own point d d :=
  ⟨h, P.refl d, P.allow_refl c own point d, fun _ _ ↦ rfl⟩

omit [DecidableEq Key] in
private theorem Env.trans {c : Call} {locks : List Key} {own : Writes Key Row}
    {point : Point Key Row (Result c)} {d d' d'' : Store Key Row}
    (h : P.Env c locks own point d d') (h' : P.Env c locks own point d' d'') :
    P.Env c locks own point d d'' where
  inv := h'.inv
  rely := P.trans d d' d'' h.rely h'.rely
  allow := P.allow_trans c own point d d' d'' h.rely h'.rely h.allow h'.allow
  agree k hk := (h.agree k hk).trans (h'.agree k hk)

/-- A place in a program stays right while the others move on. -/
theorem OkAt.env {c : Call} {d d' : Store Key Row} {locks : List Key}
    {own : Writes Key Row} {point : Point Key Row (Result c)} (h : P.OkAt c d locks own point)
    (henv : P.Env c locks own point d d') : P.OkAt c d' locks own point := by
  cases point with
  | stmt rest =>
    cases rest with
    | commit value => exact fun d'' h' ↦ h d'' (henv.trans h')
    | rollback value => exact fun d'' h' ↦ h d'' (henv.trans h')
    | throw => trivial
    | read next => exact fun d'' h' ↦ h d'' (henv.trans h')
    | update cond set next => exact fun d'' h' ↦ h d'' (henv.trans h')
    | insert k row next => exact fun d'' h' ↦ h d'' (henv.trans h')
  | sweep cond set next todo got => exact fun x hx ↦ h x (.head (.env henv) hx)

/-- A session that stays off the rows of the others leaves them right. -/
theorem Kept.put (h : P.Kept S s) {i : Nat} {slot : Slot Key Row Call Result}
    {d : Store Key Row} {log : List (Outcome Key Row Call Result)}
    (henv : ∀ j, j ≠ i → ∀ c locks own point, s.slots j = .running c locks own point →
      P.Env c locks own point s.db d) (hinv : P.inv d)
    (hok : ∀ c locks own point, slot = .running c locks own point → P.OkAt c d locks own point)
    (hwrites : ∀ w ∈ slot.own, w.1 ∈ slot.locks)
    (hapart : ∀ j, j ≠ i → ∀ k ∈ slot.locks, k ∉ (s.slots j).locks) (htrace : P.Trace S log d) :
    P.Kept S { s.put i slot with db := d, log := log } where
  inv := hinv
  trace := htrace
  ok j c locks own point hj := by
    by_cases hji : j = i
    · subst hji
      exact hok c locks own point ((s.put_self j slot).symm.trans hj)
    · have hj' : s.slots j = .running c locks own point := (s.put_of_ne slot hji).symm.trans hj
      exact (h.ok j c locks own point hj').env (henv j hji c locks own point hj')
  writes j := by
    by_cases hji : j = i
    · subst hji
      change ∀ w ∈ ((s.put j slot).slots j).own, w.1 ∈ ((s.put j slot).slots j).locks
      rw [s.put_self]
      exact hwrites
    · change ∀ w ∈ ((s.put i slot).slots j).own, w.1 ∈ ((s.put i slot).slots j).locks
      rw [s.put_of_ne slot hji]
      exact h.writes j
  apart j k hjk key := by
    change key ∈ ((s.put i slot).slots j).locks → key ∉ ((s.put i slot).slots k).locks
    by_cases hji : j = i
    · subst hji
      rw [s.put_self, s.put_of_ne slot hjk.symm]
      exact hapart k hjk.symm key
    · rw [s.put_of_ne slot hji]
      by_cases hki : k = i
      · subst hki
        rw [s.put_self]
        exact fun hkey hslot ↦ hapart j hjk key hslot hkey
      · rw [s.put_of_ne slot hki]
        exact h.apart j k hjk key

/-- A session that only moves within its transaction. -/
theorem Kept.move (h : P.Kept S s) {i : Nat} {c : Call} {locks : List Key}
    {own : Writes Key Row} {point : Point Key Row (Result c)}
    (hok : P.OkAt c s.db locks own point) (hwrites : ∀ w ∈ own, w.1 ∈ locks)
    (hapart : ∀ k ∈ locks, s.Free i k) : P.Kept S (s.put i (.running c locks own point)) := by
  refine h.put (fun _ _ _ _ _ _ _ ↦ .refl h.inv) h.inv ?_ hwrites ?_ h.trace
  · rintro _ _ _ _ heq
    cases heq
    exact hok
  · exact fun j hj k hk ↦ hapart k hk j hj

/-- A session that ends its transaction without a commit. -/
theorem Kept.stop (h : P.Kept S s) {i : Nat} {log : List (Outcome Key Row Call Result)}
    (htrace : P.Trace S log s.db) : P.Kept S { s.put i .idle with log := log } :=
  h.put (fun _ _ _ _ _ _ _ ↦ .refl h.inv) h.inv nofun nofun nofun htrace

private theorem free_of_locks (h : P.Kept S s) {i : Nat} {c : Call} {locks : List Key}
    {own : Writes Key Row} {point : Point Key Row (Result c)}
    (hi : s.slots i = .running c locks own point) : ∀ k ∈ locks, s.Free i k := by
  intro k hk j hj hkj
  have hdisj := h.apart i j hj.symm k
  rw [hi] at hdisj
  exact hdisj hk hkj

/-- One permitted step keeps the rule, and the store moves on as relied on. -/
theorem Kept.step (hP : P.Sound S) {guard : State Key Row Call Result → Label Key Call → Prop}
    (hguard : P.Permits guard) {l : Label Key Call} (h : P.Kept S s)
    (hst : (S.machine.restrict guard).step s l s') :
    P.Kept S s' ∧ P.rely s.db s'.db := by
  obtain ⟨hpermit, hst⟩ := hst
  have hrefl := P.refl s.db
  have hfree : ∀ {i c locks own point}, s.slots i = .running c locks own point →
      (∀ k ∈ locks, s.Free i k) ∧ (∀ w ∈ own, w.1 ∈ locks) ∧ P.OkAt c s.db locks own point := by
    intro i c locks own point hi
    have hwrites := h.writes i
    rw [hi] at hwrites
    exact ⟨free_of_locks h hi, hwrites, h.ok i c locks own point hi⟩
  cases hst with
  | begin hi hspawn =>
    exact ⟨h.move (hP.spawn _ hspawn s.db h.inv) nofun nofun, hrefl⟩
  | snapshot hi =>
    obtain ⟨hlocks, hwrites, hok⟩ := hfree hi
    exact ⟨h.move (fun x hx hdone ↦ hok s.db (.refl h.inv) x hx hdone) hwrites hlocks, hrefl⟩
  | lock hi hk hkfree hrow hcond =>
    obtain ⟨hlocks, hwrites, hok⟩ := hfree hi
    refine ⟨h.move (fun x hx ↦ hok x (.head (.lock hk hrow hcond) hx)) ?_ ?_, hrefl⟩
    · intro w hw
      rw [List.mem_append, List.mem_singleton] at hw
      rcases hw with hw | rfl
      · exact List.mem_cons_of_mem _ (hwrites w hw)
      · exact List.mem_cons_self
    · exact List.forall_mem_cons.mpr ⟨hkfree, hlocks⟩
  | skip hi hk hkfree hrow =>
    obtain ⟨hlocks, hwrites, hok⟩ := hfree hi
    refine ⟨h.move (fun x hx ↦ hok x (.head (.skip hk hrow) hx)) ?_ ?_, hrefl⟩
    · exact fun w hw ↦ List.mem_cons_of_mem _ (hwrites w hw)
    · exact List.forall_mem_cons.mpr ⟨hkfree, hlocks⟩
  | done hi =>
    obtain ⟨hlocks, hwrites, hok⟩ := hfree hi
    exact ⟨h.move (hok _ .refl rfl) hwrites hlocks, hrefl⟩
  | read hi =>
    obtain ⟨hlocks, hwrites, hok⟩ := hfree hi
    exact ⟨h.move (hok s.db (.refl h.inv)) hwrites hlocks, hrefl⟩
  | insert hi hkfree hnew =>
    obtain ⟨hlocks, hwrites, hok⟩ := hfree hi
    refine ⟨h.move (hok s.db (.refl h.inv) hnew) ?_ ?_, hrefl⟩
    · intro w hw
      rw [List.mem_append, List.mem_singleton] at hw
      rcases hw with hw | rfl
      · exact List.mem_cons_of_mem _ (hwrites w hw)
      · exact List.mem_cons_self
    · exact List.forall_mem_cons.mpr ⟨hkfree, hlocks⟩
  | @commit i c locks own value hi =>
    obtain ⟨hlocks, hwrites, hok⟩ := hfree hi
    have hpost := hok s.db (.refl h.inv)
    obtain ⟨hinv, hrely⟩ := hP.commit c value s.db _ h.inv hpost
    have hallow := hguard s i hpermit
    rw [hi] at hallow
    refine ⟨h.put (fun j hj c' locks' own' point' hj' ↦
      ⟨hinv, hrely, hallow j hj c' locks' own' point' hj', fun k hk ↦ ?_⟩) hinv nofun nofun nofun
      (h.trace.committed h.inv hpost), hrely⟩
    rw [Store.row?_write_of_not_mem]
    rintro w hw rfl
    have hfree := hlocks _ (hwrites w hw) j hj
    rw [hj'] at hfree
    exact hfree hk
  | rollback hi =>
    obtain ⟨-, -, hok⟩ := hfree hi
    exact ⟨h.stop (h.trace.returned h.inv (hok s.db (.refl h.inv))), hrefl⟩
  | abort hi => exact ⟨h.stop h.trace.failed, hrefl⟩

/-- The rule is kept in every reachable state. -/
theorem kept (hP : P.Sound S) {guard : State Key Row Call Result → Label Key Call → Prop}
    (hguard : P.Permits guard) (hs : (S.machine.restrict guard).Reachable s) : P.Kept S s := by
  induction hs with
  | init h =>
    obtain ⟨hstart, hlog, hidle⟩ := h
    refine ⟨hP.start _ hstart, fun i c locks own point hi ↦ ?_, fun i w hw ↦ ?_,
      fun i j _ k hk ↦ ?_, hlog ▸ .start hstart⟩
    · rw [hidle i] at hi
      cases hi
    · rw [hidle i] at hw
      cases hw
    · rw [hidle i] at hk
      cases hk
  | step _ hst ih => exact (ih.step hP hguard hst).1

/-! ### What an UPDATE did -/

/-- What an `UPDATE` has done on its way: the rows it wrote were the latest versions and qualified,
and the keys it is done with are locked. -/
structure Swept (P : Rule Key Row Call Result) (c : Call) (cond : Key → Row → Bool)
    (set : Row → Row) (next : List Row → Program Key Row (Result c)) (x y : Sweep Key Row)
    (l : Writes Key Row) : Prop where
  inv : P.inv y.db
  rely : P.rely x.db y.db
  agree : Agree x.locks x.db y.db
  moved : Relation.ReflTransGen (fun d d' ↦ ∃ z : Sweep Key Row, x.own <+: z.own ∧
    P.Env c z.locks z.own (z.point cond set next) d d') x.db y.db
  locks : ∀ k ∈ x.locks, k ∈ y.locks
  own : y.own = x.own ++ l.map fun w ↦ (w.1, set w.2)
  got : y.got = x.got ++ l.map Prod.snd
  todo : ∀ k ∈ y.todo, k ∈ x.todo
  nodup : (l.map Prod.fst).Nodup
  rows : ∀ w ∈ l, w.1 ∈ x.todo ∧ w.1 ∉ y.todo ∧ w.1 ∈ y.locks ∧ cond w.1 w.2 = true ∧
    (y.db.write x.own).row? w.1 = some w.2
  done : ∀ k ∈ x.todo, k ∉ y.todo → k ∈ y.locks ∧ ((∃ row, (k, row) ∈ l) ∨
    ∀ row, (y.db.write x.own).row? k = some row → cond k row = false)

variable {c : Call} {cond : Key → Row → Bool} {set : Row → Row}
  {next : List Row → Program Key Row (Result c)} {x y : Sweep Key Row} {l : Writes Key Row}

private theorem Swept.refl (h : P.inv x.db) : P.Swept c cond set next x x [] where
  inv := h
  rely := P.refl x.db
  agree _ _ := rfl
  moved := .refl
  locks _ hk := hk
  own := (List.append_nil _).symm
  got := (List.append_nil _).symm
  todo _ hk := hk
  nodup := List.nodup_nil
  rows := nofun
  done _ hk hk' := absurd hk hk'

/-- What is read at a key still to do is what lies below the rows of this `UPDATE`. -/
theorem Swept.row? (h : P.Swept c cond set next x y l) {k : Key} (hk : k ∈ y.todo) :
    (y.db.write y.own).row? k = (y.db.write x.own).row? k := by
  rw [h.own, Store.write_append, Store.row?_write_of_not_mem]
  intro w hw heq
  simp only [List.mem_map] at hw
  obtain ⟨w', hw', rfl⟩ := hw
  exact (h.rows w' hw').2.1 (heq ▸ hk)

private theorem Swept.env {d : Store Key Row} (h : P.Swept c cond set next x y l)
    (henv : P.Env c y.locks y.own (y.point cond set next) y.db d) :
    P.Swept c cond set next x { y with db := d } l where
  inv := henv.inv
  rely := P.trans _ _ _ h.rely henv.rely
  agree k hk := (h.agree k hk).trans (henv.agree k (h.locks k hk))
  moved := h.moved.tail ⟨y, h.own ▸ List.prefix_append _ _, henv⟩
  locks := h.locks
  own := h.own
  got := h.got
  todo := h.todo
  nodup := h.nodup
  rows w hw := by
    obtain ⟨htodo, hdone, hlock, hcond, hrow⟩ := h.rows w hw
    exact ⟨htodo, hdone, hlock, hcond,
      (Store.row?_write_congr (henv.agree _ hlock) x.own).symm.trans hrow⟩
  done k hk hdone := by
    obtain ⟨hlock, hl⟩ := h.done k hk hdone
    rw [Store.row?_write_congr (henv.agree _ hlock) x.own] at hl
    exact ⟨hlock, hl⟩

private theorem Swept.lock {k : Key} {row : Row} (h : P.Swept c cond set next x y l)
    (hk : k ∈ y.todo)
    (hrow : (y.db.write y.own).row? k = some row) (hcond : cond k row = true) :
    P.Swept c cond set next x ⟨y.db, k :: y.locks, y.own ++ [(k, set row)],
      y.todo.filter (· ≠ k), y.got ++ [row]⟩ (l ++ [(k, row)]) where
  inv := h.inv
  rely := h.rely
  agree := h.agree
  moved := h.moved
  locks k' hk' := List.mem_cons_of_mem _ (h.locks k' hk')
  own := by simp [h.own]
  got := by simp [h.got]
  todo k' hk' := h.todo k' (List.mem_of_mem_filter hk')
  nodup := by
    rw [List.map_append, List.nodup_append]
    refine ⟨h.nodup, by simp, ?_⟩
    intro k' hk' k'' hk'' heq
    simp only [List.mem_map, List.map_cons, List.map_nil, List.mem_singleton] at hk' hk''
    obtain ⟨w, hw, rfl⟩ := hk'
    exact (h.rows w hw).2.1 (heq ▸ hk'' ▸ hk)
  rows w hw := by
    rw [List.mem_append, List.mem_singleton] at hw
    rcases hw with hw | rfl
    · obtain ⟨htodo, hdone, hlock, hrest⟩ := h.rows w hw
      exact ⟨htodo, fun hw' ↦ hdone (List.mem_of_mem_filter hw'), List.mem_cons_of_mem _ hlock,
        hrest⟩
    · exact ⟨h.todo k hk, by simp, List.mem_cons_self, hcond, h.row? hk ▸ hrow⟩
  done k' hk' hdone := by
    by_cases heq : k' = k
    · subst heq
      exact ⟨List.mem_cons_self, .inl ⟨row, by simp⟩⟩
    · obtain ⟨hlock, hl⟩ := h.done k' hk' fun hk'' ↦ hdone (by simp [hk'', heq])
      refine ⟨List.mem_cons_of_mem _ hlock, hl.imp_left ?_⟩
      rintro ⟨row', hrow'⟩
      exact ⟨row', List.mem_append_left _ hrow'⟩

private theorem Swept.skip {k : Key} (h : P.Swept c cond set next x y l) (hk : k ∈ y.todo)
    (hrow : ∀ row, (y.db.write y.own).row? k = some row → cond k row = false) :
    P.Swept c cond set next x ⟨y.db, k :: y.locks, y.own, y.todo.filter (· ≠ k), y.got⟩ l where
  inv := h.inv
  rely := h.rely
  agree := h.agree
  moved := h.moved
  locks k' hk' := List.mem_cons_of_mem _ (h.locks k' hk')
  own := h.own
  got := h.got
  todo k' hk' := h.todo k' (List.mem_of_mem_filter hk')
  nodup := h.nodup
  rows w hw := by
    obtain ⟨htodo, hdone, hlock, hrest⟩ := h.rows w hw
    exact ⟨htodo, fun hw' ↦ hdone (List.mem_of_mem_filter hw'), List.mem_cons_of_mem _ hlock, hrest⟩
  done k' hk' hdone := by
    by_cases heq : k' = k
    · subst heq
      exact ⟨List.mem_cons_self, .inr (h.row? hk ▸ hrow)⟩
    · obtain ⟨hlock, hl⟩ := h.done k' hk' fun hk'' ↦ hdone (by simp [hk'', heq])
      exact ⟨List.mem_cons_of_mem _ hlock, hl⟩

/-- Every `UPDATE` on its way has done what `Swept` says. -/
theorem swept (hinv : P.inv x.db) (h : P.Sweeps c cond set next x y) :
    ∃ l, P.Swept c cond set next x y l := by
  induction h with
  | refl => exact ⟨[], .refl hinv⟩
  | tail _ hstep ih =>
    obtain ⟨l, hl⟩ := ih
    cases hstep with
    | env henv => exact ⟨l, hl.env henv⟩
    | lock hk hrow hcond => exact ⟨_, hl.lock hk hrow hcond⟩
    | skip hk hrow => exact ⟨l, hl.skip hk hrow⟩

/-- Some rows that qualify were written, the others are as before. -/
def Updated (cond : Key → Row → Bool) (set : Row → Row) (d d' : Store Key Row) : Prop :=
  ∀ k, d'.row? k = d.row? k ∨
    ∃ row, d.row? k = some row ∧ cond k row = true ∧ d'.row? k = some (set row)

/-- What an `UPDATE` wrote, on whatever store its transaction goes on. -/
theorem Swept.updated (h : P.Swept c cond set next x y l) {d : Store Key Row}
    (hd : Agree y.locks y.db d) : Updated cond set (d.write x.own) (d.write y.own) := by
  intro k
  rw [h.own, Store.write_append]
  by_cases hk : k ∈ l.map Prod.fst
  · simp only [List.mem_map] at hk
    obtain ⟨⟨k, row⟩, hw, rfl⟩ := hk
    obtain ⟨-, -, hlock, hcond, hrow⟩ := h.rows _ hw
    refine .inr ⟨row, (Store.row?_write_congr (hd k hlock) x.own).symm.trans hrow, hcond, ?_⟩
    apply Store.row?_write_of_mem
    · simpa [Function.comp_def] using h.nodup
    · exact List.mem_map.mpr ⟨(k, row), hw, rfl⟩
  · refine .inl (Store.row?_write_of_not_mem fun w hw heq ↦ hk ?_)
    simp only [List.mem_map] at hw ⊢
    obtain ⟨w', hw', rfl⟩ := hw
    exact ⟨w', hw', heq⟩

/-- A row found in the snapshot that still qualifies was written, and is locked. -/
theorem Swept.full (h : P.Swept c cond set next x y l) (htodo : y.todo = []) {d : Store Key Row}
    (hd : Agree y.locks y.db d) {k : Key} (hk : k ∈ x.todo) : k ∈ y.locks ∧
      ∀ row, (d.write x.own).row? k = some row → cond k row = true →
        (d.write y.own).row? k = some (set row) := by
  obtain ⟨hlock, hl⟩ := h.done k hk (htodo ▸ List.not_mem_nil)
  refine ⟨hlock, fun row hrow hcond ↦ ?_⟩
  rw [← Store.row?_write_congr (hd k hlock) x.own] at hrow
  rcases hl with ⟨row', hl⟩ | hl
  · obtain ⟨-, -, -, -, hrow'⟩ := h.rows _ hl
    obtain rfl := Option.some.inj (hrow.symm.trans hrow')
    rw [h.own, Store.write_append]
    apply Store.row?_write_of_mem
    · simpa [Function.comp_def] using h.nodup
    · exact List.mem_map.mpr ⟨(k, row), hl, rfl⟩
  · rw [hl row hrow] at hcond
    cases hcond

/-- What holds on the way still holds where the transaction goes on from. -/
theorem Swept.agree_of (h : P.Swept c cond set next x y l) {d : Store Key Row}
    (hd : Agree y.locks y.db d) : Agree x.locks x.db d :=
  fun k hk ↦ (h.agree k hk).trans (hd k (h.locks k hk))

/-- An `UPDATE` of one row by its key finds it or does not. -/
theorem Swept.single (h : P.Swept c cond set next x y l) {k₀ : Key}
    (hk : ∀ k row, cond k row = true → k = k₀) : l = [] ∨ ∃ row, l = [(k₀, row)] := by
  cases l with
  | nil => exact .inl rfl
  | cons w l =>
    have hw := hk w.1 w.2 (h.rows w List.mem_cons_self).2.2.2.1
    refine .inr ⟨w.2, ?_⟩
    cases l with
    | nil => rw [← hw]
    | cons w' l =>
      have hw' := hk w'.1 w'.2 (h.rows w' (by simp)).2.2.2.1
      have hnodup := h.nodup
      simp [hw, hw'] at hnodup

/-- A program that begins with an `UPDATE` keeps the rule when it does after the `UPDATE`. -/
theorem ok_update {d : Store Key Row} {locks : List Key} {own : Writes Key Row}
    (h : ∀ d' y l, P.Env c locks own (.stmt (.update cond set next)) d d' →
      P.Swept c cond set next ⟨d', locks, own, (d'.write own).targets cond, []⟩ y l →
      y.todo = [] → P.Ok c (next y.got) y.db y.locks y.own) :
    P.Ok c (.update cond set next) d locks own := by
  intro d' henv y hy htodo
  obtain ⟨l, hl⟩ := swept henv.inv hy
  exact h d' y l henv hl htodo

end Rule

end ChessStack.Library.ReadCommitted
