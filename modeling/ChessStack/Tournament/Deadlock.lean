import ChessStack.Tournament.Locks

/-!
# Do the tournament transactions deadlock?

Library `Tournament`. `reportResult` of `Chess-Backend/src/models/Tournament.js` locks its match before
the tournament, `advanceRound` the tournament before the matches of the round: two reports of one
round that overlap can wait for each other. When the transactions that lock a round do not
overlap, no cycle of waits comes about.
-/

namespace ChessStack.Tournament

open ChessStack.Library

/-! ### What views keep -/

section Views

variable {d d' : Db} {t : Nat}

/-- An entry of the index leads to its match. -/
def Indexed (d : Db) : Prop :=
  ∀ t, ∀ e ∈ d.index t, ∃ m, d.match? e.id = some m ∧ m.tournamentId = t ∧ m.entry = e

/-- Entries and matches are only added, and a match keeps its place. -/
structure Grown (d d' : Db) : Prop where
  index : ∀ t, ∀ e ∈ d.index t, e ∈ d'.index t
  slot : ∀ id m, d.match? id = some m → ∃ m', d'.match? id = some m' ∧ m'.slot = m.slot

private theorem Grown.refl (d : Db) : Grown d d := ⟨fun _ _ h ↦ h, fun _ m h ↦ ⟨m, h, rfl⟩⟩

private theorem Grown.trans {d'' : Db} (h : Grown d d') (h' : Grown d' d'') : Grown d d'' where
  index t e he := h'.index t e (h.index t e he)
  slot id m hm := by
    obtain ⟨m', hm', hslot⟩ := h.slot id m hm
    obtain ⟨m'', hm'', hslot'⟩ := h'.slot id m' hm'
    exact ⟨m'', hm'', hslot'.trans hslot⟩

/-- A change adds no match under an id that is taken. -/
def Change.New (d : Db) : Change → Prop
  | .addMatch row => d.match? row.id = none
  | _ => True

private theorem Change.New.grown {c : Change} (h : c.New d) : Grown d (d.apply c) := by
  cases c with
  | putTournament id row => exact ⟨fun _ _ he ↦ he, fun _ m hm ↦ ⟨m, hm, rfl⟩⟩
  | addEntrant t e => exact ⟨fun _ _ he ↦ he, fun _ m hm ↦ ⟨m, hm, rfl⟩⟩
  | addMatch row =>
    refine ⟨fun t e he ↦ ?_, fun id m hm ↦ ⟨m, ?_, rfl⟩⟩
    · rw [Db.index_addMatch]
      split
      · next heq => exact List.mem_append_left _ (heq ▸ he)
      · exact he
    · rw [Db.match?_addMatch, if_neg, hm]
      rintro rfl
      rw [show d.match? row.id = none from h] at hm
      cases hm
  | resolve id w =>
    refine ⟨fun _ _ he ↦ he, fun id' m hm ↦ ?_⟩
    rw [Db.match?_resolve]
    split
    · next heq =>
      rw [← heq, hm]
      exact ⟨_, rfl, rfl⟩
    · exact ⟨m, hm, rfl⟩

private theorem Change.New.indexed {c : Change} (h : c.New d) (hd : Indexed d) : Indexed
    (d.apply c) := by
  have hold : ∀ t, ∀ e ∈ d.index t, ∃ m, (d.apply c).match? e.id = some m ∧ m.tournamentId = t ∧
      m.entry = e := by
    intro t e he
    obtain ⟨m, hm, ht, hentry⟩ := hd t e he
    obtain ⟨m', hm', hslot⟩ := h.grown.slot _ m hm
    simp only [MatchRow.slot, Prod.mk.injEq] at hslot
    refine ⟨m', hm', hslot.2.1.trans ht, ?_⟩
    rw [← hentry, MatchRow.entry, MatchRow.entry, hslot.1, hslot.2.2.1, hslot.2.2.2.1]
  cases c with
  | addMatch row =>
    intro t e he
    rw [Db.index_addMatch] at he
    split at he
    · next heq =>
      subst heq
      rw [List.mem_append, List.mem_singleton] at he
      rcases he with he | rfl
      · exact hold _ e he
      · refine ⟨row, ?_, rfl, rfl⟩
        rw [Db.match?_addMatch]
        exact if_pos rfl
    · exact hold t e he
  | putTournament => exact hold
  | addEntrant => exact hold
  | resolve => exact hold

/-- What a statement changes: at most one row, and a result only of the match it names. -/
theorem exec_change {stmt : Stmt} {cs : List Change} {a : Ans stmt} (h : exec stmt d = some (cs, a)) :
    ∀ c ∈ cs, cs = [c] ∧ c.New d ∧
      ∀ id w, c = .resolve id w → stmt = .setResult id w ∧ (d.match? id).isSome := by
  have hone : ∀ {c : Change}, c.New d →
      (∀ id w, c = .resolve id w → stmt = .setResult id w ∧ (d.match? id).isSome) →
      ∀ c' ∈ [c], [c] = [c'] ∧ c'.New d ∧
        ∀ id w, c' = .resolve id w → stmt = .setResult id w ∧ (d.match? id).isSome := by
    intro c hnew hresolve c' hc'
    obtain rfl := List.mem_singleton.mp hc'
    exact ⟨rfl, hnew, hresolve⟩
  have hupdate : ∀ {id : Nat} {status : Status} {new : TournamentRow → TournamentRow},
      cs = (updateTournament d id status new).1 → ∀ c ∈ cs, cs = [c] ∧ c.New d ∧
        ∀ id w, c = .resolve id w → stmt = .setResult id w ∧ (d.match? id).isSome := by
    intro id status new hcs
    unfold updateTournament at hcs
    split at hcs
    · split at hcs
      · subst hcs
        exact hone trivial fun _ _ heq ↦ by cases heq
      · subst hcs
        exact fun _ hc ↦ by cases hc
    · subst hcs
      exact fun _ hc ↦ by cases hc
  cases stmt with
  | insertTournament row =>
    simp only [exec] at h
    split at h
    · obtain ⟨rfl, -⟩ := Prod.mk.inj (Option.some.inj h)
      exact hone trivial fun _ _ heq ↦ by cases heq
    · cases h
  | insertEntrant id userId now =>
    simp only [exec] at h
    split at h
    · cases h
    · iterate 4 split at h <;> try cases h
      exact hone trivial fun _ _ heq ↦ by cases heq
  | insertMatch row =>
    simp only [exec] at h
    split at h
    · cases h
    · next hfree =>
      split at h
      · obtain ⟨rfl, -⟩ := Prod.mk.inj (Option.some.inj h)
        rw [Bool.or_eq_true, not_or, Option.not_isSome_iff_eq_none] at hfree
        exact hone hfree.1 fun _ _ heq ↦ by cases heq
      · cases h
  | insertNext row =>
    simp only [exec] at h
    split at h
    · obtain ⟨rfl, -⟩ := Prod.mk.inj (Option.some.inj h)
      exact fun _ hc ↦ by cases hc
    · split at h
      · cases h
      · next hfree =>
        split at h
        · obtain ⟨rfl, -⟩ := Prod.mk.inj (Option.some.inj h)
          exact hone (Option.not_isSome_iff_eq_none.mp hfree) fun _ _ heq ↦ by cases heq
        · cases h
  | startTournament id =>
    obtain ⟨hcs, -⟩ := Prod.mk.inj (Option.some.inj h)
    exact hupdate hcs.symm
  | finishTournament id winner =>
    simp only [exec] at h
    split at h
    · obtain ⟨hcs, -⟩ := Prod.mk.inj (Option.some.inj h)
      exact hupdate hcs.symm
    · cases h
  | setResult id winner =>
    simp only [exec] at h
    split at h
    · next row hrow =>
      split at h
      · split at h
        · obtain ⟨rfl, -⟩ := Prod.mk.inj (Option.some.inj h)
          refine hone trivial fun id' w heq ↦ ?_
          obtain ⟨rfl, rfl⟩ := Change.resolve.inj heq
          exact ⟨rfl, by rw [hrow]; rfl⟩
        · cases h
      · obtain ⟨rfl, -⟩ := Prod.mk.inj (Option.some.inj h)
        exact fun _ hc ↦ by cases hc
    · obtain ⟨rfl, -⟩ := Prod.mk.inj (Option.some.inj h)
      exact fun _ hc ↦ by cases hc
  | _ =>
    obtain ⟨rfl, -⟩ := Prod.mk.inj (Option.some.inj h)
    exact fun _ hc ↦ by cases hc

private theorem exec_view {stmt : Stmt} {cs : List Change} {a : Ans stmt}
    (h : exec stmt d = some (cs, a)) :
    Grown d (backend.applyAll d cs) ∧ (Indexed d → Indexed (backend.applyAll d cs)) := by
  cases cs with
  | nil => exact ⟨.refl d, fun hd ↦ hd⟩
  | cons c cs =>
    obtain ⟨hcs, hnew, -⟩ := exec_change h c List.mem_cons_self
    rw [hcs]
    exact ⟨hnew.grown, hnew.indexed⟩

variable {Value : Type} {held : List Key} {cs : List Change} {start rest : TournamentTx Value}

/-- What a transaction sees has grown from the committed tables. -/
theorem progress_view (h : backend.Progress start d held cs rest) :
    Grown d (backend.applyAll d cs) ∧ (Indexed d → Indexed (backend.applyAll d cs)) := by
  induction h with
  | refl => exact ⟨.refl d, fun hd ↦ hd⟩
  | query _ hexec ih =>
    rw [Database.applyAll_append]
    obtain ⟨hgrown, hindexed⟩ := exec_view hexec
    exact ⟨ih.1.trans hgrown, fun hd ↦ hindexed (ih.2 hd)⟩

/-- A match that a transaction gave no result is in its view as it is in the tables. -/
theorem progress_match? (h : backend.Progress start d held cs rest) {id : Nat} {m : MatchRow}
    (hm : d.match? id = some m) (hcs : ∀ w, .resolve id w ∉ cs) :
    (backend.applyAll d cs).match? id = some m := by
  induction h with
  | refl => exact hm
  | @query held cs cs' stmt a next _ hexec ih =>
    have hview := ih fun w hw ↦ hcs w (List.mem_append_left _ hw)
    rw [Database.applyAll_append]
    cases cs' with
    | nil => exact hview
    | cons c cs' =>
      obtain ⟨hone, hnew, -⟩ := exec_change hexec c List.mem_cons_self
      have hc : ∀ w, c ≠ .resolve id w := by
        rintro w rfl
        exact hcs w (List.mem_append_right _ List.mem_cons_self)
      rw [hone]
      change (Db.apply _ c).match? id = some m
      cases c with
      | putTournament => exact hview
      | addEntrant => exact hview
      | addMatch row =>
        rw [Db.match?_addMatch, if_neg, hview]
        rintro rfl
        rw [show (backend.applyAll d cs).match? row.id = none from hnew] at hview
        cases hview
      | resolve id' w =>
        rw [Db.match?_resolve, if_neg, hview]
        rintro rfl
        exact hc w rfl

private theorem indexed_run {tx : TournamentTx Value} {value : Value} (hd : Indexed d)
    (hrun : backend.run tx d = some (value, d')) : Indexed d' := by
  induction tx generalizing d with
  | ret v =>
    obtain ⟨-, rfl⟩ := Prod.mk.inj (Option.some.inj hrun)
    exact hd
  | throw => cases hrun
  | query stmt next ih =>
    rw [Database.run_query, Option.bind_eq_some_iff] at hrun
    obtain ⟨⟨cs, a⟩, hexec, hrest⟩ := hrun
    exact ih a ((exec_view hexec).2 hd) hrest

private theorem indexed_of_trace {allowed : Call → Db → Prop} {log : Log}
    (h : tournamentProtocol.Trace server allowed log d) : Indexed d :=
  h.rule (J := fun _ d ↦ Indexed d) (fun _ (hd : Fresh _) t e he ↦ by rw [hd.index] at he; cases he)
    (fun _ _ _ _ _ _ hi _ _ _ hrun ↦ indexed_run hi hrun) fun _ _ _ hi ↦ hi

end Views

/-! ### Where a transaction is -/

/-- The row a transaction locks first. -/
def Call.firstRow : Call → Option Row
  | .create .. => none
  | .join t _ _ => some (.tournament t)
  | .start t _ _ _ _ => some (.tournament t)
  | .reportResult matchId _ _ _ => some (.match_ matchId)
  | .maybeAdvanceRound t _ _ => some (.tournament t)

/-- A row of a tournament, as a transaction sees its index. -/
def Db.Belongs (d : Db) (t : Nat) : Row → Prop
  | .tournament id => id = t
  | .player id _ => id = t
  | .match_ id => ∃ e ∈ d.index t, e.id = id

/-- The match that a report resolves, once it is locked. -/
def Call.Accepts (c : Call) (d : Db) (id : Nat) (m : MatchRow) : Prop :=
  d.match? id = some m ∧ ∃ reporterId winnerId ids,
    c = .reportResult id reporterId winnerId ids ∧ accepts reporterId winnerId m = true

/-- The calls that lock this round: an accepted report on one of its matches, and
`maybeAdvanceRound` of it. -/
def Call.Locks (c : Call) (d : Db) (t round : Nat) : Prop :=
  (∃ id m, c.Accepts d id m ∧ m.tournamentId = t ∧ m.round = round) ∨
    ∃ ids, c = .maybeAdvanceRound t round ids

/-- Why a call has come to lock a tournament, and which round it may lock. -/
def Call.Reaches (c : Call) (d : Db) (held : List Key) (t : Nat) (round : Option Nat) : Prop :=
  (∃ r, round = some r ∧ c.Locks d t r ∧ ∀ id m, c.Accepts d id m → .match_ id ∈ held) ∨
    (∃ row, d.tournament? t = some row ∧ row.status = .open_) ∨ round = none

/-- What the committed tables say in each phase; `held` are the keys of the statements so far. -/
def Phase.Known (c : Call) (d : Db) (held : List Key) (cs : List Change) : Phase → Prop
  | .first => held = [] ∧ cs = []
  | .matched id m => .match_ id ∈ held ∧ c.Accepts d id m
  | .holding t round => .tournament t ∈ held ∧ c.Reaches d held t round
  | .ended => True

/-- The rows a transaction can have locked in each phase; `d` is what it sees. -/
def Phase.Rows (c : Call) (d : Db) (locked : List Row) : Phase → Prop
  | .first => ∀ row ∈ locked, c.firstRow = some row
  | .matched id m => .match_ id ∈ locked ∧
      ∀ row ∈ locked, row = .match_ id ∨ row = .tournament m.tournamentId
  | .holding t _ => (c.firstRow ≠ none → locked ≠ []) ∧ ∀ row ∈ locked, d.Belongs t row
  | .ended => True

/-- A running transaction is in this phase. -/
structure Placed (c : Call) (d : Db) (held : List Key) (cs : List Change)
    (rest : TournamentTx (Result c)) (locked : List Row) (p : Phase) : Prop where
  follows : rest.Follows c.ok c.after p
  known : p.Known c d held cs
  within : p.Rows c (backend.applyAll d cs) locked
  resolves : ∀ id w, .resolve id w ∈ cs → .match_ id ∈ locked
  own : ∀ id reporterId winnerId ids, c = .reportResult id reporterId winnerId ids → locked ≠ [] →
    .match_ id ∈ locked ∧ (d.match? id).isSome

section Placed

variable {c : Call} {d d' : Db} {held : List Key} {cs cs' : List Change}
  {rest : TournamentTx (Result c)} {locked : List Row} {p : Phase} {t : Nat}

private theorem placed_first (c : Call) (d : Db) : Placed c d [] [] (prog c) [] .first where
  follows := follows_prog c
  known := ⟨rfl, rfl⟩
  within := nofun
  resolves := nofun
  own _ _ _ _ _ hne := absurd rfl hne

private theorem Call.Accepts.congr {id : Nat} {m : MatchRow} (h : c.Accepts d id m)
    (hm : d'.match? id = d.match? id) : c.Accepts d' id m := ⟨hm.trans h.1, h.2⟩

/-- The commit of another transaction leaves a transaction where it is. -/
theorem Placed.congr (h : Placed c d held cs rest locked p) (hag : backend.Agree held d d')
    (hgrown : Grown d d') : Placed c d' held cs rest locked p where
  follows := h.follows
  resolves := h.resolves
  own id reporterId winnerId ids hc hne := by
    obtain ⟨hmem, hsome⟩ := h.own id reporterId winnerId ids hc hne
    obtain ⟨m, hm⟩ := Option.isSome_iff_exists.mp hsome
    obtain ⟨m', hm', -⟩ := hgrown.slot id m hm
    exact ⟨hmem, by rw [hm']; rfl⟩
  known := by
    cases p with
    | first => exact h.known
    | ended => trivial
    | matched id m =>
      obtain ⟨hheld, haccepts⟩ := h.known
      exact ⟨hheld, haccepts.congr (match?_congr hag hheld).symm⟩
    | holding t round =>
      obtain ⟨hheld, ⟨r, hr, ⟨id, m, haccepts, hround⟩ | hmaybe, hall⟩ | ⟨row, hrow, hopen⟩ | hnone⟩ :=
        h.known
      · have hid := hall id m haccepts
        have hm' := match?_congr hag hid
        refine ⟨hheld, Or.inl ⟨r, hr, Or.inl ⟨id, m, haccepts.congr hm'.symm, hround⟩, ?_⟩⟩
        rintro id' m' ⟨-, reporterId, winnerId, ids, hc, -⟩
        obtain ⟨-, reporterId', winnerId', ids', hc', -⟩ := haccepts
        obtain ⟨rfl, -⟩ := Call.reportResult.inj (hc.symm.trans hc')
        exact hid
      · refine ⟨hheld, Or.inl ⟨r, hr, Or.inr hmaybe, ?_⟩⟩
        rintro id m ⟨-, reporterId, winnerId, ids, hc, -⟩
        obtain ⟨ids', hc'⟩ := hmaybe
        rw [hc] at hc'
        cases hc'
      · exact ⟨hheld, Or.inr (Or.inl ⟨row, (tournament?_congr hag hheld).symm.trans hrow, hopen⟩)⟩
      · exact ⟨hheld, Or.inr (Or.inr hnone)⟩
  within := by
    cases p with
    | first => exact h.within
    | ended => trivial
    | matched id m => exact h.within
    | holding t round =>
      refine ⟨h.within.1, fun row hrow ↦ ?_⟩
      have hbelongs := h.within.2 row hrow
      cases row with
      | tournament id => exact hbelongs
      | player id u => exact hbelongs
      | match_ id =>
        have hindex := index_congr (backend_lawful.agree_applyAll hag cs) h.known.1
        obtain ⟨e, he, hid⟩ := hbelongs
        exact ⟨e, hindex ▸ he, hid⟩

/-! ### What a transaction asks for -/

private theorem mem_tournamentRow {id : Nat} {row : Row} (h : row ∈ d.tournamentRow id) :
    row = .tournament id := by
  unfold Db.tournamentRow at h
  split at h
  · exact List.mem_singleton.mp h
  · cases h

private theorem mem_matchRow {id : Nat} {row : Row} (h : row ∈ d.matchRow id) :
    row = .match_ id ∧ (d.match? id).isSome := by
  unfold Db.matchRow at h
  split at h
  · next hsome => exact ⟨List.mem_singleton.mp h, hsome⟩
  · cases h

private theorem mem_rows_opens {row : Row} (h : row ∈ rows c.opens d) : c.firstRow = some row ∧
    ∀ id reporterId winnerId ids, c = .reportResult id reporterId winnerId ids →
      (d.match? id).isSome := by
  cases c with
  | create => cases h
  | reportResult id reporterId winnerId ids =>
    obtain ⟨rfl, hsome⟩ := mem_matchRow h
    refine ⟨rfl, ?_⟩
    rintro id' _ _ _ heq
    obtain ⟨rfl, -⟩ := Call.reportResult.inj heq
    exact hsome
  | join => exact ⟨congrArg some (mem_tournamentRow h).symm, nofun⟩
  | start => exact ⟨congrArg some (mem_tournamentRow h).symm, nofun⟩
  | maybeAdvanceRound => exact ⟨congrArg some (mem_tournamentRow h).symm, nofun⟩

private theorem mem_rows_matched {id : Nat} {m : MatchRow} {stmt : Stmt} {row : Row}
    (hok : c.ok (.matched id m) stmt) (h : row ∈ rows stmt d) :
    row = .match_ id ∨ (stmt = .lockTournament m.tournamentId ∧ row = .tournament m.tournamentId) := by
  obtain ⟨w, rfl⟩ | rfl := hok
  · exact Or.inl (mem_matchRow h).1
  · exact Or.inr ⟨rfl, mem_tournamentRow h⟩

/-- A match that the statement locking a round finds is a match of that round. -/
theorem mem_rows_lockRound (hd : Indexed d) {r : Nat} {row : Row} (h : row ∈ rows (.lockRound t r) d) :
    ∃ m, row = .match_ m.id ∧ d.match? m.id = some m ∧ m.tournamentId = t ∧ m.round = r ∧
      m.entry ∈ d.index t := by
  obtain ⟨m, hm, rfl⟩ := List.mem_map.mp h
  obtain ⟨e, he, hfound⟩ := List.mem_filterMap.mp hm
  rw [Db.roundEntries, List.mem_insertionSort, List.mem_filter, beq_iff_eq] at he
  obtain ⟨m', hm', ht, rfl⟩ := hd t e he.1
  obtain rfl := Option.some.inj (hfound.symm.trans hm')
  exact ⟨m, rfl, hfound, ht, he.2, he.1⟩

private theorem mem_rows_holding (hd : Indexed d) {round : Option Nat} {stmt : Stmt} {row : Row}
    (hok : stmt.On t round) (h : row ∈ rows stmt d) : d.Belongs t row := by
  have htournament : ∀ {id}, id = t → row ∈ d.tournamentRow id → d.Belongs t row := by
    rintro id rfl hrow
    rw [mem_tournamentRow hrow]
    rfl
  cases stmt with
  | lockTournament id => exact htournament hok h
  | insertEntrant id u now => exact htournament hok h
  | startTournament id => exact htournament hok h
  | finishTournament id w => exact htournament hok h
  | playersOf id =>
    obtain ⟨u, -, rfl⟩ := List.mem_map.mp h
    exact hok
  | lockRound id r =>
    obtain ⟨rfl, -⟩ := hok
    obtain ⟨m, rfl, -, -, -, hentry⟩ := mem_rows_lockRound hd h
    exact ⟨m.entry, hentry, rfl⟩
  | lockMatch id => cases hok
  | setResult id w => cases hok
  | _ => cases h

/-- Only the statement that locks a round asks for matches while the tournament is held. -/
theorem on_lockRound {round : Option Nat} {stmt : Stmt} {id : Nat} (hok : stmt.On t round)
    (h : .match_ id ∈ Tournament.rows stmt d) : ∃ r, stmt = .lockRound t r ∧ round = some r := by
  cases stmt with
  | lockTournament id => cases mem_tournamentRow h
  | insertEntrant id u now => cases mem_tournamentRow h
  | startTournament id => cases mem_tournamentRow h
  | finishTournament id w => cases mem_tournamentRow h
  | playersOf id =>
    obtain ⟨u, -, hrow⟩ := List.mem_map.mp h
    cases hrow
  | lockRound id r =>
    obtain ⟨rfl, hr⟩ := hok
    exact ⟨r, rfl, hr.symm⟩
  | lockMatch id => cases hok
  | setResult id w => cases hok
  | _ => cases h

/-! ### Steps of one transaction -/

/-- A transaction that gets a row it asks for stays where it is. -/
theorem Placed.lock {stmt : Stmt} {k : Ans stmt → TournamentTx (Result c)} {row : Row}
    (h : Placed c d held cs (.query stmt k) locked p) (hd : Indexed (backend.applyAll d cs))
    (hrow : row ∈ rows stmt (backend.applyAll d cs)) :
    Placed c d held cs (.query stmt k) (locked ++ [row]) p where
  follows := h.follows
  known := h.known
  resolves id w hw := List.mem_append_left _ (h.resolves id w hw)
  own id reporterId winnerId ids hc _ := by
    by_cases hne : locked = []
    · have hok := h.follows.1
      cases p with
      | first =>
        obtain ⟨hheld, rfl⟩ := h.known
        obtain rfl : stmt = c.opens := hok
        obtain ⟨hfirst, hsome⟩ := mem_rows_opens hrow
        refine ⟨?_, hsome id reporterId winnerId ids hc⟩
        rw [hc] at hfirst
        rw [← Option.some.inj hfirst]
        exact List.mem_append_right _ (List.mem_singleton_self _)
      | matched id' m =>
        have hmem := h.within.1
        rw [hne] at hmem
        cases hmem
      | holding t round =>
        exact absurd hne (h.within.1 (by rw [hc]; exact nofun))
      | ended => cases hok
    · obtain ⟨hmem, hsome⟩ := h.own id reporterId winnerId ids hc hne
      exact ⟨List.mem_append_left _ hmem, hsome⟩
  within := by
    have hok := h.follows.1
    have hall : ∀ {P : Row → Prop}, (∀ row ∈ locked, P row) → P row → ∀ row' ∈ locked ++ [row], P row' := by
      intro P hold hnew row' hrow'
      rw [List.mem_append, List.mem_singleton] at hrow'
      rcases hrow' with hrow' | rfl
      · exact hold row' hrow'
      · exact hnew
    cases p with
    | first =>
      obtain rfl : stmt = c.opens := hok
      exact hall h.within (mem_rows_opens hrow).1
    | matched id m =>
      refine ⟨List.mem_append_left _ h.within.1, hall h.within.2 ?_⟩
      exact (mem_rows_matched hok hrow).imp_right And.right
    | holding t round =>
      exact ⟨fun _ ↦ List.append_ne_nil_of_right_ne_nil _ (List.cons_ne_nil _ _),
        hall h.within.2 (mem_rows_holding hd hok hrow)⟩
    | ended => trivial

private theorem Db.Belongs.grown {row : Row} (h : d.Belongs t row) (hgrown : Grown d d') :
    d'.Belongs t row := by
  cases row with
  | tournament id => exact h
  | player id u => exact h
  | match_ id =>
    obtain ⟨e, he, hid⟩ := h
    exact ⟨e, hgrown.index t e he, hid⟩

private theorem Call.Reaches.mono {held' : List Key} {round : Option Nat}
    (h : c.Reaches d held t round)
    (hsub : ∀ k ∈ held, k ∈ held') : c.Reaches d held' t round := by
  obtain ⟨r, hr, hlocks, hall⟩ | hopen | hnone := h
  · exact Or.inl ⟨r, hr, hlocks, fun id m hm ↦ hsub _ (hall id m hm)⟩
  · exact Or.inr (Or.inl hopen)
  · exact Or.inr (Or.inr hnone)

/-- What a transaction has found out when its first statement has run. -/
theorem known_opened {a : Ans c.opens} (hexec : exec c.opens d = some (cs, a)) :
    (c.opened c.opens a).Known c d (Tournament.locks c.opens d) cs := by
  cases c with
  | create id creatorId name maxPlayers now =>
    simp only [Call.opens, exec] at hexec
    split at hexec
    · obtain ⟨-, rfl⟩ := Prod.mk.inj (Option.some.inj hexec)
      exact ⟨List.mem_cons_self, Or.inr (Or.inr rfl)⟩
    · cases hexec
  | join t u now =>
    cases a with
    | none => trivial
    | some row => exact ⟨List.mem_cons_self, Or.inr (Or.inr rfl)⟩
  | start t requesterId draws ids ids' =>
    obtain ⟨-, hrow⟩ := Prod.mk.inj (Option.some.inj hexec)
    cases a with
    | none => trivial
    | some row =>
      unfold Call.opened Call.opens
      dsimp only
      split
      · next hopen => exact ⟨List.mem_cons_self, Or.inr (Or.inl ⟨row, hrow, hopen⟩)⟩
      · trivial
  | reportResult id reporterId winnerId ids =>
    obtain ⟨-, hm⟩ := Prod.mk.inj (Option.some.inj hexec)
    cases a with
    | none => trivial
    | some m =>
      unfold Call.opened Call.opens
      dsimp only
      split
      · next haccepts =>
        exact ⟨List.mem_cons_self, hm, reporterId, winnerId, ids, rfl, haccepts⟩
      · trivial
  | maybeAdvanceRound t r ids =>
    cases a with
    | none => trivial
    | some row =>
      refine ⟨List.mem_cons_self, Or.inl ⟨r, rfl, Or.inr ⟨ids, rfl⟩, ?_⟩⟩
      rintro id m ⟨-, _, _, _, hc, -⟩
      cases hc

/-- The rows a transaction has locked when its first statement has run. -/
theorem within_opened {a : Ans c.opens} (hexec : exec c.opens d = some (cs, a))
    (hfirst : ∀ row ∈ locked, c.firstRow = some row)
    (hall : ∀ row ∈ Tournament.rows c.opens d, row ∈ locked) :
    (c.opened c.opens a).Rows c d' locked := by
  -- The calls that begin with the tournament's row.
  have hholding : ∀ {t : Nat} {row : TournamentRow}, c.firstRow = some (.tournament t) →
      c.opens = .lockTournament t → d.tournament? t = some row → ∀ round,
      (Phase.holding t round).Rows c d' locked := by
    intro t row hc hopens hrow round
    have hmem : Row.tournament t ∈ locked := by
      apply hall
      rw [hopens]
      change Row.tournament t ∈ d.tournamentRow t
      rw [Db.tournamentRow, hrow]
      exact List.mem_singleton_self _
    refine ⟨fun _ ↦ List.ne_nil_of_mem hmem, fun row' hrow' ↦ ?_⟩
    rw [← Option.some.inj (hc.symm.trans (hfirst row' hrow'))]
    rfl
  cases c with
  | create id creatorId name maxPlayers now =>
    refine ⟨fun hne ↦ absurd rfl hne, fun row hrow ↦ ?_⟩
    have hnone := hfirst row hrow
    cases hnone
  | join t u now =>
    obtain ⟨-, hrow⟩ := Prod.mk.inj (Option.some.inj hexec)
    cases a with
    | none => trivial
    | some row => exact hholding rfl rfl hrow none
  | start t requesterId draws ids ids' =>
    obtain ⟨-, hrow⟩ := Prod.mk.inj (Option.some.inj hexec)
    cases a with
    | none => trivial
    | some row =>
      unfold Call.opened Call.opens
      dsimp only
      split
      · exact hholding rfl rfl hrow (some 1)
      · trivial
  | reportResult id reporterId winnerId ids =>
    obtain ⟨-, hm⟩ := Prod.mk.inj (Option.some.inj hexec)
    cases a with
    | none => trivial
    | some m =>
      unfold Call.opened Call.opens
      dsimp only
      split
      · refine ⟨hall _ ?_, fun row hrow ↦ Or.inl (Option.some.inj (hfirst row hrow)).symm⟩
        change Row.match_ id ∈ d.matchRow id
        rw [Db.matchRow, show d.match? id = some m from hm]
        exact List.mem_singleton_self _
      · trivial
  | maybeAdvanceRound t r ids =>
    obtain ⟨-, hrow⟩ := Prod.mk.inj (Option.some.inj hexec)
    cases a with
    | none => trivial
    | some row => exact hholding rfl rfl hrow (some r)

/-- A statement leads a transaction from its phase to the next. -/
theorem Placed.exec {stmt : Stmt} {k : Ans stmt → TournamentTx (Result c)} {a : Ans stmt}
    (hok : DbOk d) (h : Placed c d held cs (.query stmt k) locked p)
    (hgrown : Grown d (backend.applyAll d (cs ++ cs')))
    (hall : ∀ row ∈ Tournament.rows stmt (backend.applyAll d cs), row ∈ locked)
    (hexec : Tournament.exec stmt (backend.applyAll d cs) = some (cs', a)) :
    Placed c d (held ++ Tournament.locks stmt (backend.applyAll d cs)) (cs ++ cs') (k a) locked
      (c.after p stmt a) where
  follows := h.follows.2 a
  own := h.own
  resolves id w hw := by
    rcases List.mem_append.mp hw with hw | hw
    · exact h.resolves id w hw
    · obtain ⟨-, -, hset⟩ := exec_change hexec _ hw
      obtain ⟨rfl, hsome⟩ := hset id w rfl
      refine hall _ ?_
      change Row.match_ id ∈ Db.matchRow _ id
      rw [Db.matchRow, if_pos hsome]
      exact List.mem_singleton_self _
  known := by
    have hok' := h.follows.1
    cases p with
    | first =>
      obtain ⟨rfl, rfl⟩ := h.known
      obtain rfl : stmt = c.opens := hok'
      exact known_opened hexec
    | matched id m =>
      obtain ⟨hheld, haccepts⟩ := h.known
      obtain ⟨w, rfl⟩ | rfl := hok'
      · exact ⟨List.mem_append_left _ hheld, haccepts⟩
      · cases a with
        | none => trivial
        | some row =>
          refine ⟨List.mem_append_right _ List.mem_cons_self,
            Or.inl ⟨m.round, rfl, Or.inl ⟨id, m, haccepts, rfl, rfl⟩, ?_⟩⟩
          rintro id' m' ⟨-, reporterId, winnerId, ids, hc, -⟩
          obtain ⟨-, reporterId', winnerId', ids', hc', -⟩ := haccepts
          obtain ⟨rfl, -⟩ := Call.reportResult.inj (hc.symm.trans hc')
          exact List.mem_append_left _ hheld
    | holding t round =>
      exact ⟨List.mem_append_left _ h.known.1, h.known.2.mono fun _ hk ↦ List.mem_append_left _ hk⟩
    | ended => cases hok'
  within := by
    have hok' := h.follows.1
    cases p with
    | first =>
      obtain ⟨rfl, rfl⟩ := h.known
      obtain rfl : stmt = c.opens := hok'
      exact within_opened hexec h.within hall
    | matched id m =>
      obtain ⟨hheld, hm, -⟩ := h.known
      obtain ⟨w, rfl⟩ | rfl := hok'
      · exact h.within
      · cases a with
        | none => trivial
        | some row =>
          obtain ⟨hid, hentry⟩ := hok.matches_ id m hm
          refine ⟨fun _ ↦ List.ne_nil_of_mem h.within.1, fun row' hrow' ↦ ?_⟩
          obtain rfl | rfl := h.within.2 row' hrow'
          · exact ⟨m.entry, hgrown.index _ _ hentry, hid⟩
          · rfl
    | holding t round =>
      refine ⟨h.within.1, fun row hrow ↦ ?_⟩
      rw [Database.applyAll_append]
      exact (h.within.2 row hrow).grown (exec_view hexec).1
    | ended => cases hok'

end Placed

/-! ### Runs in which the transactions of a round do not overlap -/

/-- The transactions of the tournament server with their row locks. -/
abbrev Locked := System.LockState Db Change Key Stmt Row Ans Call Result

/-- Task `i` is in a transaction that locks this round. -/
def LocksRound (s : Locked) (i t round : Nat) : Prop :=
  ∃ c next held cs rest, s.base.slots i = .running c next held cs rest ∧ c.Locks s.base.db t round

/-- A transaction that locks a round takes its first row only while no other one that locks this
round holds a row. -/
def apart (s : Locked) : System.LockLabel Row → Prop
  | .lock i _ => s.locked i = [] → ∀ t round, LocksRound s i t round →
      ∀ j, j ≠ i → LocksRound s j t round → s.locked j = []
  | .step _ => True

/-- Every running transaction is in its phase, and of those that lock a round one at most holds
rows. -/
structure LockOk (s : Locked) : Prop where
  placed : ∀ i c next held cs rest, s.base.slots i = .running c next held cs rest →
    ∃ p, Placed c s.base.db held cs rest (s.locked i) p
  alone : ∀ i j t round, i ≠ j → LocksRound s i t round → LocksRound s j t round →
    s.locked i = [] ∨ s.locked j = []

section Steps

variable {s : Locked} {i : Nat} {base : System.SessionState Db Change Key Stmt Ans Call Result}

private theorem LockOk.lock (h : LockOk s) {row : Row} (hco : server.Coherent s.base)
    (hindexed : Indexed s.base.db) (hwants : s.wants server rows i = some row)
    (hapart : apart s (.lock i row)) : LockOk (s.grant i row) where
  placed j c next held cs rest hj := by
    by_cases hji : j = i
    · subst hji
      have hrow := (System.LockState.mem_of_wants hwants).1
      rw [show s.base.slots j = _ from hj] at hrow
      cases rest with
      | ret value => cases hrow
      | throw => cases hrow
      | query stmt k =>
        obtain ⟨p, hp⟩ := h.placed j c next held cs _ hj
        rw [s.grant_self]
        exact ⟨p, hp.lock ((progress_view (hco.progress j _ _ _ _ _ hj)).2 hindexed) hrow⟩
    · rw [s.grant_of_ne row hji]
      exact h.placed j c next held cs rest hj
  alone j k t round hjk hj hk := by
    have hrest : ∀ l, l ≠ i → LocksRound s l t round → LocksRound s i t round → s.locked l = [] := by
      intro l hl hround hround'
      by_cases hfirst : s.locked i = []
      · exact hapart hfirst t round hround' l hl hround
      · exact (h.alone i l t round hl.symm hround' hround).resolve_left hfirst
    by_cases hji : j = i
    · subst hji
      rw [s.grant_of_ne row hjk.symm]
      exact Or.inr (hrest k hjk.symm hk hj)
    · rw [s.grant_of_ne row hji]
      by_cases hki : k = i
      · subst hki
        exact Or.inl (hrest j hji hj hk)
      · rw [s.grant_of_ne row hki]
        exact h.alone j k t round hjk hj hk

/-- A round that is locked after others moved on was locked before. -/
theorem LocksRound.of_move {j t round : Nat} (hj : LocksRound (s.move i base) j t round)
    (hslot : base.slots j = s.base.slots j)
    (hmatch : ∀ id, .match_ id ∈ s.locked j → ∀ m, s.base.db.match? id = some m →
      base.db.match? id = some m) (h : LockOk s) (hne : s.locked j ≠ []) : LocksRound s j t round := by
  obtain ⟨c, next, held, cs, rest, hrun, hlocks⟩ := hj
  have hrun' : s.base.slots j = .running c next held cs rest := hslot.symm.trans hrun
  refine ⟨c, next, held, cs, rest, hrun', ?_⟩
  obtain ⟨id, m, ⟨hm, reporterId, winnerId, ids, hc, haccepts⟩, hround⟩ | hmaybe := hlocks
  · obtain ⟨p, hp⟩ := h.placed j c next held cs rest hrun'
    obtain ⟨hmem, hsome⟩ := hp.own id reporterId winnerId ids hc hne
    obtain ⟨m', hm'⟩ := Option.isSome_iff_exists.mp hsome
    have hsame := hmatch id hmem m' hm'
    obtain rfl := Option.some.inj (hsame.symm.trans hm)
    exact Or.inl ⟨id, m', ⟨hm', reporterId, winnerId, ids, hc, haccepts⟩, hround⟩
  · exact Or.inr hmaybe

/-- A task that moved on, with what that leaves the others to see. -/
theorem LockOk.move (h : LockOk s) (hother : ∀ j, j ≠ i → base.slots j = s.base.slots j)
    (hag : ∀ j, j ≠ i → backend.Agree (s.base.slots j).held s.base.db base.db)
    (hgrown : Grown s.base.db base.db)
    (hmatch : ∀ j, j ≠ i → ∀ id, .match_ id ∈ s.locked j → ∀ m, s.base.db.match? id = some m →
      base.db.match? id = some m)
    (hself : ∀ c next held cs rest, base.slots i = .running c next held cs rest →
      (∃ p, Placed c base.db held cs rest (s.locked i) p) ∧
        (s.locked i ≠ [] → ∀ t round, LocksRound (s.move i base) i t round → LocksRound s i t round)) :
    LockOk (s.move i base) where
  placed j c next held cs rest hj := by
    by_cases hji : j = i
    · subst hji
      rw [s.move_self, show base.slots j = _ from hj]
      exact (hself c next held cs rest hj).1
    · rw [s.move_of_ne base hji]
      have hj' : s.base.slots j = .running c next held cs rest := (hother j hji).symm.trans hj
      obtain ⟨p, hp⟩ := h.placed j c next held cs rest hj'
      have hagree := hag j hji
      rw [hj'] at hagree
      exact ⟨p, hp.congr hagree hgrown⟩
  alone j k t round hjk hj hk := by
    have hback : ∀ l, LocksRound (s.move i base) l t round → (s.move i base).locked l ≠ [] →
        LocksRound s l t round ∧ s.locked l ≠ [] := by
      intro l hl hne
      by_cases hli : l = i
      · subst hli
        rw [s.move_self] at hne
        have hne' : s.locked l ≠ [] := by
          intro hnil
          rw [hnil] at hne
          cases hslot : base.slots l <;> rw [hslot] at hne <;> exact hne rfl
        obtain ⟨c, next, held, cs, rest, hrun, -⟩ := id hl
        exact ⟨(hself c next held cs rest hrun).2 hne' t round hl, hne'⟩
      · rw [s.move_of_ne base hli] at hne
        exact ⟨hl.of_move (hother l hli) (hmatch l hli) h hne, hne⟩
    by_contra hnot
    rw [not_or] at hnot
    obtain ⟨hj', hnej⟩ := hback j hj hnot.1
    obtain ⟨hk', hnek⟩ := hback k hk hnot.2
    exact (h.alone j k t round hjk hj' hk').elim hnej hnek

/-- A task that stays outside transactions, or leaves one without a commit. -/
theorem LockOk.idle (h : LockOk s) {task : Task Db Call Result}
    (hslots : base.slots = (s.base.put i (.idle task)).slots) (hdb : base.db = s.base.db) :
    LockOk (s.move i base) := by
  refine h.move (fun j hj ↦ ?_) (fun j _ ↦ hdb ▸ .refl _ _) (hdb ▸ .refl _)
    (fun _ _ id _ m hm ↦ hdb ▸ hm) fun c next held cs rest hrun ↦ ?_
  · rw [hslots, s.base.put_of_ne _ hj]
  · rw [hslots, s.base.put_self] at hrun
    cases hrun

/-- A task that commits. -/
theorem LockOk.commit (h : LockOk s) (hco : server.Coherent s.base) (hex : System.Exclusive s)
    {task : Task Db Call Result} {c : Call} {next : Result c → Task Db Call Result} {held : List Key}
    {cs : List Change} {rest : TournamentTx (Result c)}
    (hi : s.base.slots i = .running c next held cs rest)
    (hslots : base.slots = (s.base.put i (.idle task)).slots)
    (hdb : base.db = backend.applyAll s.base.db cs) : LockOk (s.move i base) := by
  have hprogress := hco.progress i c next held cs rest hi
  obtain ⟨p, hp⟩ := h.placed i c next held cs rest hi
  refine h.move (fun j hj ↦ ?_) (fun j hj ↦ ?_) (hdb ▸ (progress_view hprogress).1)
    (fun j hj id hid m hm ↦ ?_) fun c next held cs rest hrun ↦ ?_
  · rw [hslots, s.base.put_of_ne _ hj]
  · rw [hdb]
    refine hprogress.agree_of_disjoint backend_lawful fun key hkey ↦ ?_
    have hdisj := hco.disjoint j i hj key hkey
    rwa [hi] at hdisj
  · rw [hdb]
    refine progress_match? hprogress hm fun w hw ↦ ?_
    exact hex.apart j i hj _ hid (hp.resolves id w hw)
  · rw [hslots, s.base.put_self] at hrun
    cases hrun

private theorem LockOk.step {s' : Locked} {l : System.LockLabel Row} (h : LockOk s)
    (hco : server.Coherent s.base) (hex : System.Exclusive s) (hok : DbOk s.base.db)
    (hindexed : Indexed s.base.db) (hapart : apart s l) (hst : lockServer.step s l s') : LockOk s' := by
  cases hst with
  | lock hwants _ => exact h.lock hco hindexed hwants hapart
  | @step i base hbase hready =>
    cases hbase with
    | spawn => exact h.idle rfl rfl
    | read => exact h.idle rfl rfl
    | stop => exact h.idle rfl rfl
    | abort => exact h.idle rfl rfl
    | commit hi _ => exact h.commit hco hex hi rfl rfl
    | lost hi _ => exact h.commit hco hex hi rfl rfl
    | @begin c next hi =>
      have hnil := hex.idle i _ hi
      refine h.move (fun j hj ↦ s.base.put_of_ne _ hj) (fun _ _ ↦ .refl _ _) (.refl _)
        (fun _ _ _ _ _ hm ↦ hm) fun c' next' held cs rest hrun ↦ ?_
      rw [s.base.put_self] at hrun
      cases hrun
      rw [hnil]
      exact ⟨⟨.first, placed_first c _⟩, fun hne ↦ absurd rfl hne⟩
    | @exec c next held cs cs' stmt a k hi hfree hexec =>
      obtain ⟨p, hp⟩ := h.placed i c next held cs _ hi
      have hnew := (hco.exec hi hfree hexec).progress i c next _ _ _ (s.base.put_self i _)
      refine h.move (fun j hj ↦ s.base.put_of_ne _ hj) (fun _ _ ↦ .refl _ _) (.refl _)
        (fun _ _ _ _ _ hm ↦ hm) fun c' next' held' cs'' rest hrun ↦ ?_
      have hwants := hready (by rw [s.base.put_self]; trivial)
      have hall := System.LockState.locked_of_wants hwants
      rw [hi] at hall
      rw [s.base.put_self] at hrun
      cases hrun
      refine ⟨⟨_, hp.exec hok (progress_view hnew).1 hall hexec⟩, fun _ t round hround ↦ ?_⟩
      obtain ⟨c', next', held', cs'', rest', hrun, hlocks⟩ := hround
      have hrun' := (s.base.put_self i _).symm.trans hrun
      cases hrun'
      exact ⟨c, next, held, cs, _, hi, hlocks⟩

end Steps

/-- What every state of a run satisfies in which the transactions of a round do not overlap. -/
theorem lockOk_of_reachable {s : Locked} (hs : (lockServer.restrict apart).Reachable s) :
    LockOk s ∧ System.Exclusive s ∧ server.Coherent s.base ∧ DbOk s.base.db ∧ Indexed s.base.db := by
  have hbase : ∀ {s : Locked}, (lockServer.restrict apart).Reachable s →
      System.Exclusive s ∧ server.Coherent s.base ∧ DbOk s.base.db ∧ Indexed s.base.db := by
    intro s hs
    obtain ⟨hreach, hex⟩ := System.locking_base hs
    have hkept := System.Protocol.kept tournamentProtocol_sound backend_lawful hreach
    exact ⟨hex, (System.reachable_settled backend_lawful hreach).1, hkept.inv,
      indexed_of_trace hkept.trace⟩
  refine ⟨?_, hbase hs⟩
  induction hs with
  | @init s h =>
    refine ⟨fun i c next held cs rest hi ↦ ?_, fun i _ _ _ _ hi _ ↦ ?_⟩
    · rw [h.1.2.2 i] at hi
      cases hi
    · exact Or.inl (h.2 i)
  | step hreach hst ih =>
    obtain ⟨hex, hco, hok, hindexed⟩ := hbase hreach
    exact ih.step hco hex hok hindexed hst.1 hst.2

/-! ### No cycle of waits -/

/-- How far a transaction is in locking its rows. -/
def Phase.rank : Phase → Nat
  | .first => 0
  | .matched .. => 1
  | .holding .. => 2
  | .ended => 3

/-- A task waits in this phase, for this row. -/
structure Waiting (s : Locked) (i : Nat) (p : Phase) (row : Row) : Prop where
  wants : s.wants server rows i = some row
  placed : ∃ c next held cs stmt k, s.base.slots i = .running c next held cs (.query stmt k) ∧
    Placed c s.base.db held cs (.query stmt k) (s.locked i) p ∧
    row ∈ rows stmt (backend.applyAll s.base.db cs)

section Rank

variable {s : Locked} {i j : Nat} {p q : Phase} {row row' : Row}

private theorem LockOk.waiting (h : LockOk s) (hwants : s.wants server rows i = some row) :
    ∃ p, Waiting s i p row := by
  have hrow := (System.LockState.mem_of_wants hwants).1
  cases hi : s.base.slots i with
  | idle t =>
    rw [hi] at hrow
    cases hrow
  | running c next held cs rest =>
    obtain ⟨p, hp⟩ := h.placed i c next held cs rest hi
    rw [hi] at hrow
    cases rest with
    | ret value => cases hrow
    | throw => cases hrow
    | query stmt k => exact ⟨p, hwants, c, next, held, cs, stmt, k, hi, hp, hrow⟩

/-- Two transactions that hold a tournament do not hold the same one. -/
theorem not_both (hco : server.Coherent s.base) (hij : i ≠ j) {key : Key}
    {slot slot' : System.Slot Db Change Key Stmt Ans Call Result} (hi : s.base.slots i = slot)
    (hj : s.base.slots j = slot') (hkey : key ∈ slot.held) : key ∉ slot'.held := by
  have hdisj := hco.disjoint i j hij key
  rw [hi, hj] at hdisj
  exact hdisj hkey

/-- A row belongs to one tournament, whoever looks. -/
theorem belongs_unique (hindexed : Indexed s.base.db) (hco : server.Coherent s.base) (hij : i ≠ j)
    {c c' : Call} {next : Result c → Task Db Call Result} {next' : Result c' → Task Db Call Result}
    {held held' : List Key} {cs cs' : List Change} {rest : TournamentTx (Result c)}
    {rest' : TournamentTx (Result c')} {t t' : Nat} (hi : s.base.slots i = .running c next held cs rest)
    (hj : s.base.slots j = .running c' next' held' cs' rest')
    (ht : (backend.applyAll s.base.db cs).Belongs t row)
    (ht' : (backend.applyAll s.base.db cs').Belongs t' row) : t = t' := by
  cases row with
  | tournament id => exact ht.symm.trans ht'
  | player id u => exact ht.symm.trans ht'
  | match_ id =>
    have hprogress := hco.progress i c next held cs rest hi
    have hprogress' := hco.progress j c' next' held' cs' rest' hj
    obtain ⟨e, he, rfl⟩ := ht
    obtain ⟨e', he', hid⟩ := ht'
    obtain ⟨m, hm, rfl, -⟩ := (progress_view hprogress).2 hindexed t e he
    obtain ⟨m', hm', rfl, -⟩ := (progress_view hprogress').2 hindexed t' e' he'
    rw [hid] at hm'
    -- One of the two has the match from the committed tables.
    have hcommitted : ∀ {cs₀ cs₁ : List Change} {held₀ : List Key} {c₀ c₁ : Call} {held₁ : List Key}
        {rest₀ : TournamentTx (Result c₀)} {rest₁ : TournamentTx (Result c₁)} {m₀ m₁ : MatchRow},
        backend.Progress (prog c₀) s.base.db held₀ cs₀ rest₀ →
        backend.Progress (prog c₁) s.base.db held₁ cs₁ rest₁ → .match_ e.id ∉ held₀ →
        (backend.applyAll s.base.db cs₀).match? e.id = some m₀ →
        (backend.applyAll s.base.db cs₁).match? e.id = some m₁ →
        m₀.tournamentId = m₁.tournamentId := by
      intro cs₀ cs₁ held₀ c₀ c₁ held₁ rest₀ rest₁ m₀ m₁ h₀ h₁ hfree hm₀ hm₁
      have hsame := Cell.match_.inj (h₀.frame backend_lawful hfree)
      rw [hsame] at hm₀
      obtain ⟨m₂, hm₂, hslot⟩ := (progress_view h₁).1.slot _ m₀ hm₀
      obtain rfl := Option.some.inj (hm₁.symm.trans hm₂)
      simp only [MatchRow.slot, Prod.mk.injEq] at hslot
      exact hslot.2.1.symm
    by_cases hfree : .match_ e.id ∈ held
    · exact (hcommitted hprogress' hprogress (not_both hco hij hi hj hfree) hm' hm).symm
    · exact hcommitted hprogress hprogress' hfree hm hm'

/-- Who asks for a match while holding a tournament locks the round of that match. -/
theorem locks_of_holding (hok : DbOk s.base.db) (hindexed : Indexed s.base.db)
    (hco : server.Coherent s.base) {c : Call} {next : Result c → Task Db Call Result}
    {held : List Key} {cs : List Change} {stmt : Stmt} {k : Ans stmt → TournamentTx (Result c)}
    {t id : Nat} {round : Option Nat} {m : MatchRow}
    (hi : s.base.slots i = .running c next held cs (.query stmt k))
    (hp : Placed c s.base.db held cs (.query stmt k) (s.locked i) (.holding t round))
    (hm : s.base.db.match? id = some m)
    (hasks : .match_ id ∈ rows stmt (backend.applyAll s.base.db cs)) :
    c.Locks s.base.db m.tournamentId m.round := by
  have hprogress := hco.progress i c next held cs _ hi
  obtain ⟨r, rfl, rfl⟩ := on_lockRound hp.follows.1 hasks
  obtain ⟨m', hid, hm', ht, hr, -⟩ := mem_rows_lockRound ((progress_view hprogress).2 hindexed) hasks
  obtain rfl := Row.match_.inj hid
  obtain ⟨m'', hm'', hslot⟩ := (progress_view hprogress).1.slot _ m hm
  obtain rfl := Option.some.inj (hm'.symm.trans hm'')
  simp only [MatchRow.slot, Prod.mk.injEq] at hslot
  have hmt : m.tournamentId = t := hslot.2.1.symm.trans ht
  obtain ⟨-, ⟨r', hr', hlocks, -⟩ | ⟨row, hrow, hopen⟩ | hnone⟩ := hp.known
  · rw [hmt, ← hslot.2.2.1, hr, Option.some.inj hr']
    exact hlocks
  · -- An open tournament has no matches.
    obtain ⟨-, hentry⟩ := hok.matches_ _ m hm
    rw [hmt] at hentry
    cases (hok.rows t row hrow).stage with
    | open_ _ hempty _ =>
      rw [hempty] at hentry
      cases hentry
    | running hactive => rw [hopen] at hactive; cases hactive
    | «over» hfin => rw [hopen] at hfin; cases hfin
  · cases hnone

/-- A wait leads to a transaction that is further. -/
theorem Waiting.rank_lt (hall : LockOk s) (hco : server.Coherent s.base) (hok : DbOk s.base.db)
    (hindexed : Indexed s.base.db) (hij : i ≠ j) (hi : Waiting s i p row) (hj : Waiting s j q row')
    (hrow : row ∈ s.locked j) : p.rank < q.rank := by
  obtain ⟨hwants, c, next, held, cs, stmt, k, hslot, hp, hasks⟩ := hi
  obtain ⟨hwants', c', next', held', cs', stmt', k', hslot', hq, hasks'⟩ := hj
  have hnew := (System.LockState.mem_of_wants hwants).2
  have hnew' := (System.LockState.mem_of_wants hwants').2
  have hviewi := (progress_view (hco.progress i _ _ _ _ _ hslot)).2 hindexed
  have hviewj := (progress_view (hco.progress j _ _ _ _ _ hslot')).2 hindexed
  have hstmt := hp.follows.1
  have hstmt' := hq.follows.1
  cases q with
  | ended => cases hstmt'
  | first =>
    -- Before its first lock a transaction holds nothing.
    obtain ⟨-, rfl⟩ := hq.known
    obtain rfl : stmt' = c'.opens := hstmt'
    have hfirst := (mem_rows_opens hasks').1
    rw [hq.within row hrow] at hfirst
    exact absurd (Option.some.inj hfirst ▸ hrow) hnew'
  | matched id m =>
    obtain ⟨hheld', haccepts'⟩ := hq.known
    -- It holds its match and waits for the tournament.
    have hmatch : row = .match_ id := by
      obtain hmatch | htournament := hq.within.2 row hrow
      · exact hmatch
      · obtain rfl | ⟨-, rfl⟩ := mem_rows_matched hstmt' hasks'
        · exact absurd hq.within.1 hnew'
        · exact absurd (htournament ▸ hrow) hnew'
    subst hmatch
    cases p with
    | first => exact Nat.zero_lt_one
    | ended => cases hstmt
    | matched id' m' =>
      exfalso
      obtain heq | ⟨-, heq⟩ := mem_rows_matched hstmt hasks
      · obtain rfl := Row.match_.inj heq
        exact not_both hco hij hslot hslot' hp.known.1 hheld'
      · cases heq
    | holding t round =>
      -- Only then can a round be locked in the wrong order, and these two would overlap.
      exfalso
      have hround := locks_of_holding hok hindexed hco hslot hp haccepts'.1 hasks
      have hne : s.locked i ≠ [] := hp.within.1 (by
        obtain ⟨id', m', ⟨-, _, _, _, hc, -⟩, -⟩ | ⟨ids, hc⟩ := hround <;> rw [hc] <;> exact nofun)
      have hlocks : LocksRound s i m.tournamentId m.round := ⟨c, next, held, cs, _, hslot, hround⟩
      have hlocks' : LocksRound s j m.tournamentId m.round :=
        ⟨c', next', held', cs', _, hslot', Or.inl ⟨id, m, haccepts', rfl, rfl⟩⟩
      obtain hnil | hnil := hall.alone i j _ _ hij hlocks hlocks'
      · exact hne hnil
      · rw [hnil] at hrow
        cases hrow
  | holding t' round' =>
    cases p with
    | first => exact Nat.zero_lt_two
    | matched id m => exact Nat.lt_succ_self 1
    | ended => cases hstmt
    | holding t round =>
      exfalso
      have heq := belongs_unique hindexed hco hij hslot hslot' (mem_rows_holding hviewi hstmt hasks)
        (hq.within.2 row hrow)
      subst heq
      exact not_both hco hij hslot hslot' hp.known.1 hq.known.1

end Rank

/-- In every run in which the transactions that lock a round do not overlap, no transactions wait
for each other in a cycle. -/
theorem not_deadlocked {s : Locked} (hs : (lockServer.restrict apart).Reachable s) :
    ¬ s.Deadlocked server rows := by
  obtain ⟨hall, -, hco, hok, hindexed⟩ := lockOk_of_reachable hs
  -- Who waits for nothing is further than everybody who waits.
  have hphase : ∀ i, ∃ p, ∀ row, s.wants server rows i = some row → Waiting s i p row := by
    intro i
    cases hwants : s.wants server rows i with
    | none => exact ⟨.ended, nofun⟩
    | some row =>
      obtain ⟨p, hp⟩ := hall.waiting hwants
      exact ⟨p, fun row' hrow' ↦ Option.some.inj hrow' ▸ hp⟩
  choose phase hphase using hphase
  refine System.not_deadlocked_of_rank
    (fun i ↦ if s.wants server rows i = none then 3 else (phase i).rank) ?_
  rintro i j ⟨hij, row, hwants, hrow⟩
  have hi := hphase i row hwants
  rw [if_neg (by rw [hwants]; exact nofun)]
  cases hwants' : s.wants server rows j with
  | none =>
    rw [if_pos rfl]
    obtain ⟨c, next, held, cs, stmt, k, -, hp, -⟩ := hi.placed
    cases hphase : phase i with
    | first => exact Nat.zero_lt_succ 2
    | matched id m => exact Nat.one_lt_succ_succ 1
    | holding t round => exact Nat.lt_succ_self 2
    | ended =>
      rw [hphase] at hp
      cases hp.follows.1
  | some row' =>
    rw [if_neg (by exact nofun)]
    exact hi.rank_lt hall hco hok hindexed hij (hphase j row' hwants') hrow

/-! ### Scripted runs -/

/-- No tournament yet, and no transaction. -/
def unlocked : Locked := ⟨⟨noTournament, fun _ ↦ .idle .done, []⟩, fun _ ↦ []⟩

private theorem quiet_unlocked (tasks : List Nat) : System.Quiet tasks unlocked := fun _ _ ↦
    ⟨rfl, rfl⟩

private theorem unlocked_reachable (guard : Locked → System.LockLabel Row → Prop) :
    (lockServer.restrict guard).Reachable unlocked :=
  .init ⟨⟨fresh_noTournament, rfl, fun _ ↦ rfl⟩, fun _ ↦ rfl⟩

private theorem spawn_call (c : Call) : server.spawn (.call c fun _ ↦ .done) := ⟨c, rfl⟩

/-- Task 0 makes a call and takes this many steps. -/
def served (c : Call) (steps : Nat) : List (System.Turn Call) :=
  .call 0 c :: List.replicate steps (.go 0)

/-- Users 1 to 4 enter tournament 1, and user 1 starts it. -/
def fourPlayers : List (System.Turn Call) :=
  served (.create 1 1 "Cup" 4 0) 5 ++ served (.join 1 2 2) 7 ++ served (.join 1 3 3) 7 ++
    served (.join 1 4 4) 7 ++ served (.start 1 1 (fun i ↦ Fin.last i) (· + 10) (· + 20)) 16

/-- A call that can lock a round. -/
def Call.locksRound : Call → Bool
  | .reportResult .. | .maybeAdvanceRound .. => true
  | _ => false

/-- The task holds rows for a call that can lock a round. -/
def inRound (s : Locked) (i : Nat) : Bool :=
  match s.base.slots i with
  | .running c .. => c.locksRound && !(s.locked i).isEmpty
  | _ => false

/-- A task may go on when it holds rows already, when its call locks no round, and while no other of
the tasks 0 to 2 holds rows for a call that can lock one. -/
def keepsApart (s : Locked) (i : Nat) : Bool :=
  !(s.locked i).isEmpty || (match s.base.slots i with
    | .running c .. => !c.locksRound
    | _ => true) || [0, 1, 2].all fun j ↦ j == i || !inRound s j

private theorem LocksRound.call {s : Locked} {i t round : Nat} (h : LocksRound s i t round) :
    ∃ c next held cs rest, s.base.slots i = .running c next held cs rest ∧ c.locksRound = true := by
  obtain ⟨c, next, held, cs, rest, hslot, haccepts | ⟨ids, rfl⟩⟩ := h
  · obtain ⟨id, m, ⟨-, reporterId, winnerId, ids, rfl, -⟩, -⟩ := haccepts
    exact ⟨_, _, _, _, _, hslot, rfl⟩
  · exact ⟨_, _, _, _, _, hslot, rfl⟩

/-- Tasks that go on so keep apart. -/
theorem apart_of_keepsApart {s : Locked} {l : System.LockLabel Row}
    (h : System.Quiet [0, 1, 2] s) (hkeeps : keepsApart s l.task = true) : apart s l := by
  cases l with
  | step i => trivial
  | lock i row =>
    intro hnone t round hi j hji hj
    obtain ⟨c, next, held, cs, rest, hslot, hlocks⟩ := hi.call
    obtain ⟨c', next', held', cs', rest', hslot', hlocks'⟩ := hj.call
    have hothers : [0, 1, 2].all (fun k ↦ k == i || !inRound s k) = true := by
      simpa only [keepsApart, System.LockLabel.task, hnone, hslot, hlocks, List.isEmpty_nil,
        Bool.not_true, Bool.false_or] using hkeeps
    by_cases hmem : j ∈ [0, 1, 2]
    · have hout := List.all_eq_true.mp hothers j hmem
      simpa only [inRound, hslot', hlocks', beq_eq_false_iff_ne.mpr hji, Bool.true_and, Bool.not_not,
        Bool.false_or, List.isEmpty_iff] using hout
    · exact (h j hmem).2

/-- Match 10 is reported while a report of match 11 has begun and a fifth player enters another
tournament. -/
def apartCalls : List (System.Turn Call) :=
  fourPlayers ++ served (.create 2 1 "Bowl" 4 0) 5 ++
    [System.Turn.call 0 (.reportResult 10 1 1 (· + 20)), .call 1 (.reportResult 11 3 3 (· + 20)),
      .call 2 (.join 2 5 0), .go 0, .go 1, .go 2, .go 0, .go 0, .go 2, .go 0, .go 0, .go 0]

/-- The first report waits for match 11 with two rows, the second has begun and holds none, and the
player who enters holds a row meanwhile: no cycle. -/
theorem not_deadlocked_apart : ∃ s : Locked, s.locked 0 = [.match_ 10, .tournament 1] ∧
    s.wants server rows 0 = some (.match_ 11) ∧ s.locked 1 = [] ∧
    s.wants server rows 1 = some (.match_ 11) ∧ s.locked 2 = [.tournament 2] ∧
    ¬ s.Deadlocked server rows := by
  have hrun : (unlocked.turns server rows [0, 1, 2] keepsApart apartCalls).any (fun s ↦
      s.locked 0 = [.match_ 10, .tournament 1] ∧ s.wants server rows 0 = some (.match_ 11) ∧
      s.locked 1 = [] ∧ s.wants server rows 1 = some (.match_ 11) ∧
      s.locked 2 = [.tournament 2]) = true := by
    decide +kernel
  obtain ⟨s, hturns, hfacts⟩ := Option.any_eq_true _ _ |>.mp hrun
  have hreach := System.turns_reachable (fun _ _ ↦ trivial) spawn_call
    (fun _ _ hquiet hkeeps ↦ apart_of_keepsApart hquiet hkeeps) (quiet_unlocked [0, 1, 2])
    (unlocked_reachable apart) hturns
  obtain ⟨hlocked, hwants, hnone, hwants', hheld⟩ := of_decide_eq_true hfacts
  exact ⟨s, hlocked, hwants, hnone, hwants', hheld, not_deadlocked hreach⟩

/-- The reports of the matches 10 and 11 of one round, each by a player of the match: the first holds
its match and the tournament and waits for match 11, the second holds match 11 and waits for the
tournament. -/
theorem deadlocked_twoReports : ∃ s : Locked, lockServer.Reachable s ∧
    s.wants server rows 0 = some (.match_ 11) ∧ .match_ 11 ∈ s.locked 1 ∧
    s.wants server rows 1 = some (.tournament 1) ∧ .tournament 1 ∈ s.locked 0 ∧
    s.Deadlocked server rows := by
  have hrun : (unlocked.turns server rows [0, 1] (fun _ _ ↦ true) (fourPlayers ++
      [System.Turn.call 0 (.reportResult 10 1 1 (· + 20)), .call 1 (.reportResult 11 3 3 (· + 20)),
        .go 0, .go 1, .go 0, .go 1, .go 0, .go 1, .go 0, .go 1, .go 0, .go 0])).any (fun s ↦
      s.wants server rows 0 = some (.match_ 11) ∧ .match_ 11 ∈ s.locked 1 ∧
      s.wants server rows 1 = some (.tournament 1) ∧ .tournament 1 ∈ s.locked 0) = true := by
    decide +kernel
  obtain ⟨s, hturns, hfacts⟩ := Option.any_eq_true _ _ |>.mp hrun
  have hreach := System.turns_reachable (fun _ _ ↦ trivial) spawn_call
    (fun _ _ _ _ ↦ trivial) (quiet_unlocked [0, 1]) (unlocked_reachable fun _ _ ↦ True) hturns
  obtain ⟨hwants, hheld, hwants', hheld'⟩ := of_decide_eq_true hfacts
  exact ⟨s, hreach.of_restrict, hwants, hheld, hwants', hheld',
    System.deadlocked_of_two ⟨Nat.zero_ne_one, _, hwants, hheld⟩
      ⟨Nat.one_ne_zero, _, hwants', hheld'⟩⟩

end ChessStack.Tournament
