import ChessStack.Tournament.Protocol

/-!
# The invariant of the tournament tables

Library `Tournament`. An open tournament has no bracket; a running one has a correct bracket with
an unresolved match in its latest round; a finished one has a resolved final. Every committed
transaction of `Chess-Backend/src/models/Tournament.js` keeps this.
-/

namespace ChessStack.Tournament

open ChessStack.Library

/-- The tables hold these rounds of a tournament, the latest first. -/
structure Holds (d : Db) (t : Nat) (rs : List (List MatchRow)) : Prop where
  index : d.index t = rs.reverse.flatten.map MatchRow.entry
  rows : ∀ m ∈ rs.flatten, d.match? m.id = some m
  distinct : (rs.flatten.map MatchRow.id).Nodup

/-- The bracket was drawn from a shuffle of the entrants, and these are its rounds. -/
def Drawn (d : Db) (t : Nat) (rs : List (List MatchRow)) : Prop :=
  ∃ players : List Nat, players.Perm ((d.entrants t).map Entrant.userId) ∧ 2 ≤ players.length ∧
    Rounds t (pad (players.map some)) rs ∧ Holds d t rs

/-- How far a tournament is. -/
inductive Stage (d : Db) (t : Nat) (row : TournamentRow) : Prop
  | open_ : row.status = .open_ → d.index t = [] → row.winnerId = none → Stage d t row
  | running {ms : List MatchRow} {rs : List (List MatchRow)} {m : MatchRow} :
      row.status = .inProgress → row.winnerId = none → Drawn d t (ms :: rs) → m ∈ ms →
      m.status = .pending → Stage d t row
  | over {m : MatchRow} {rs : List (List MatchRow)} : row.status = .finished →
      Drawn d t ([m] :: rs) → m.status ≠ .pending → row.winnerId = m.winner → Stage d t row

/-- What holds of a tournament's row. -/
structure RowOk (d : Db) (t : Nat) (row : TournamentRow) : Prop where
  capacity : (d.entrants t).length ≤ row.maxPlayers
  once : ((d.entrants t).map Entrant.userId).Nodup
  exist : ∀ e ∈ d.entrants t, e.userId ∈ d.users
  stage : Stage d t row

/-- What holds of the tables. -/
structure DbOk (d : Db) : Prop where
  rows : ∀ t row, d.tournament? t = some row → RowOk d t row
  orphans : ∀ t, d.tournament? t = none → d.entrants t = [] ∧ d.index t = []
  matches_ : ∀ id m, d.match? id = some m → m.id = id ∧ m.entry ∈ d.index m.tournamentId

section Holds

variable {d d' : Db} {t : Nat} {rs : List (List MatchRow)} {seeds : List (Option Nat)}

private theorem reverse_flatten_perm (rs : List (List MatchRow)) :
    rs.reverse.flatten.Perm rs.flatten :=
  (List.reverse_perm rs).flatten

/-- The order of the rounds does not matter. -/
theorem mem_reverse_flatten {m : MatchRow} : m ∈ rs.reverse.flatten ↔ m ∈ rs.flatten :=
  (reverse_flatten_perm rs).mem_iff

private theorem range_pairwise (n : Nat) : (List.range n).Pairwise (· ≤ ·) :=
  List.pairwise_le_range

/-- The statement that reads a round finds the round. -/
theorem Holds.roundOf (h : Holds d t rs) (hrs : Rounds t seeds rs) (r : Nat) :
    d.roundOf t r = nthRound rs r := by
  have hentries : (d.index t).filter (·.round == r) = (nthRound rs r).map MatchRow.entry := by
    rw [h.index, List.filter_map, ← hrs.filter_round r]
    rfl
  have hsorted : d.roundEntries t r = (nthRound rs r).map MatchRow.entry := by
    unfold Db.roundEntries
    rw [hentries]
    apply List.Pairwise.insertionSort_eq
    rw [List.pairwise_map]
    by_cases hr : 1 ≤ r ∧ r ≤ rs.length
    · obtain ⟨pairs, hround⟩ := hrs.isRound_nthRound hr.1 hr.2
      have hpos : ((nthRound rs r).map MatchRow.position).Pairwise (· ≤ ·) := by
        rw [hround.positions]
        exact range_pairwise _
      exact List.pairwise_map.mp hpos
    · have hnil : nthRound rs r = [] := by
        by_cases hlen : rs.length < r
        · exact Rounds.nthRound_of_length_lt hlen
        · rw [List.eq_nil_iff_forall_not_mem]
          intro m hm
          obtain ⟨hmem, hpos, hle⟩ := hrs.mem_nthRound (Rounds.mem_flatten_of_mem_nthRound hm)
          rw [← hrs.filter_round r, List.mem_filter, beq_iff_eq] at hm
          omega
      rw [hnil]
      exact .nil
  unfold Db.roundOf
  rw [hsorted, List.filterMap_map]
  have hrows : ∀ m ∈ nthRound rs r, ((fun e : Entry ↦ d.match? e.id) ∘ MatchRow.entry) m = some m :=
    fun m hm ↦ h.rows m (Rounds.mem_flatten_of_mem_nthRound hm)
  rw [List.filterMap_congr hrows, List.filterMap_some]

/-- A match found under its id in a bracket is the bracket's. -/
theorem Holds.mem (h : Holds d t rs) {m : MatchRow} (hm : d.match? m.id = some m)
    (hentry : m.entry ∈ d.index t) : m ∈ rs.flatten := by
  rw [h.index] at hentry
  obtain ⟨m', hmem, heq⟩ := List.mem_map.mp hentry
  rw [mem_reverse_flatten] at hmem
  have hid : m'.id = m.id := congrArg Entry.id heq
  have hrow := h.rows m' hmem
  rw [hid, hm] at hrow
  rw [Option.some.inj hrow]
  exact hmem

/-- Only its own rows matter to a tournament. -/
theorem Holds.congr (h : Holds d t rs) (hindex : d'.index t = d.index t)
    (hrows : ∀ m ∈ rs.flatten, d'.match? m.id = d.match? m.id) : Holds d' t rs :=
  ⟨hindex.trans h.index, fun m hm ↦ (hrows m hm).trans (h.rows m hm), h.distinct⟩

private theorem Drawn.congr (h : Drawn d t rs) (hentrants : d'.entrants t = d.entrants t)
    (hindex : d'.index t = d.index t) (hrows : ∀ m ∈ rs.flatten, d'.match? m.id = d.match? m.id) :
    Drawn d' t rs := by
  obtain ⟨players, hperm, hlen, hrounds, hholds⟩ := h
  exact ⟨players, hentrants ▸ hperm, hlen, hrounds, hholds.congr hindex hrows⟩

/-- A tournament whose rows nobody touched is as it was. -/
theorem RowOk.congr {row : TournamentRow} (h : RowOk d t row)
    (hentrants : d'.entrants t = d.entrants t) (hindex : d'.index t = d.index t)
    (husers : d'.users = d.users)
    (hrows : ∀ m, m.tournamentId = t → d.match? m.id = some m → d'.match? m.id = some m) :
    RowOk d' t row := by
  have hdrawn : ∀ rs, Drawn d t rs → Drawn d' t rs := by
    intro rs hdrawn
    refine hdrawn.congr hentrants hindex ?_
    obtain ⟨players, -, -, hrounds, hholds⟩ := hdrawn
    intro m hm
    obtain ⟨hmem, hpos, hle⟩ := hrounds.mem_nthRound hm
    obtain ⟨pairs, hround⟩ := hrounds.isRound_nthRound hpos hle
    rw [hholds.rows m hm, hrows m (hround.tournament m hmem) (hholds.rows m hm)]
  refine ⟨hentrants ▸ h.capacity, hentrants ▸ h.once, ?_, ?_⟩
  · rw [hentrants, husers]
    exact h.exist
  · cases h.stage with
    | open_ hopen hempty hwinner => exact .open_ hopen (hindex.trans hempty) hwinner
    | running hactive hwinner hd hm hpending =>
      exact .running hactive hwinner (hdrawn _ hd) hm hpending
    | «over» hfin hd hdone hwinner => exact .over hfin (hdrawn _ hd) hdone hwinner

end Holds

/-! ### Advancing a round -/

section Advance

variable {d d' : Db} {t : Nat} {ms : List MatchRow} {rs : List (List MatchRow)}

/-- A padded list of at least two players has a power of two of slots, and at least two. -/
theorem length_seeds {players : List Nat} (h : 2 ≤ players.length) :
    ∃ k, (pad (players.map some)).length = 2 ^ (k + 1) := by
  rw [length_pad, List.length_map]
  obtain ⟨k, hk, hle, -⟩ := nextPow2_spec players.length
  cases k with
  | zero =>
    rw [pow_zero] at hle
    omega
  | succ k => exact ⟨k, hk⟩

/-- Two slots of a pair of an even list are slots of the list. -/
theorem mem_pairUp {l : List (Option Nat)} (heven : l.length % 2 = 0) {pair : Option Nat × Option Nat}
    (h : pair ∈ pairUp l) : pair.1 ∈ l ∧ pair.2 ∈ l := by
  rw [← flatMap_pairUp l heven, List.mem_flatMap, List.mem_flatMap]
  exact ⟨⟨pair, h, List.mem_cons_self⟩, ⟨pair, h, List.mem_cons_of_mem _ List.mem_cons_self⟩⟩

private theorem byeWinner_of_isSome {pair : Option Nat × Option Nat} (h₁ : pair.1.isSome)
    (h₂ : pair.2.isSome) : byeWinner pair = none := by
  obtain ⟨a, b⟩ := pair
  cases a <;> cases b <;> simp_all [byeWinner]

/-- The matches `advanceRound` inserts are the next round. -/
theorem isRound_next {t r : Nat} {ids : Nat → Nat} {winners : List (Option Nat)}
    (heven : winners.length % 2 = 0) (hwinners : ∀ w ∈ winners, w.isSome) :
    IsRound t (r + 1) (pairUp winners) (rowsFrom (nextMatch t r ids) (pairUp winners) 0) := by
  constructor
  · exact pairs_rowsFrom (fun _ _ ↦ rfl) 0
  · rw [positions_rowsFrom (fun _ _ ↦ rfl), length_rowsFrom, List.range_eq_range']
  · intro m hm
    obtain ⟨q, pair, -, rfl⟩ := mem_rowsFrom hm
    rfl
  · intro m hm
    obtain ⟨q, pair, -, rfl⟩ := mem_rowsFrom hm
    rfl
  · intro m hm
    obtain ⟨q, pair, hpair, rfl⟩ := mem_rowsFrom hm
    obtain ⟨h₁, h₂⟩ := mem_pairUp heven hpair
    refine ⟨fun _ ↦ rfl, nofun, nofun, ?_⟩
    constructor
    · intro hbye
      cases hbye
    · intro hsome
      rw [show (nextMatch t r ids q pair).pair = pair from rfl,
        byeWinner_of_isSome (hwinners _ h₁) (hwinners _ h₂)] at hsome
      cases hsome

/-- The matches `start` inserts are the first round. -/
theorem isRound_first {t : Nat} {ids : Nat → Nat} {pairs : List (Option Nat × Option Nat)} :
    IsRound t 1 pairs (rowsFrom (firstMatch t ids) pairs 0) := by
  constructor
  · exact pairs_rowsFrom (fun _ _ ↦ rfl) 0
  · rw [positions_rowsFrom (fun _ _ ↦ rfl), length_rowsFrom, List.range_eq_range']
  · intro m hm
    obtain ⟨q, pair, -, rfl⟩ := mem_rowsFrom hm
    rfl
  · intro m hm
    obtain ⟨q, pair, -, rfl⟩ := mem_rowsFrom hm
    rfl
  · intro m hm
    obtain ⟨q, pair, -, rfl⟩ := mem_rowsFrom hm
    have hpair : (firstMatch t ids q pair).pair = pair := rfl
    have hstatus : (firstMatch t ids q pair).status =
        if (byeWinner pair).isSome then .bye else .pending := rfl
    constructor
    · intro hpending
      change byeWinner pair = none
      cases hbye : byeWinner pair with
      | none => rfl
      | some w =>
        rw [hstatus, hbye] at hpending
        cases hpending
    · intro hdone
      rw [hstatus] at hdone
      split at hdone <;> cases hdone
    · intro _
      rfl
    · rw [hpair, hstatus]
      cases byeWinner pair with
      | none => exact ⟨nofun, nofun⟩
      | some w => exact ⟨fun _ ↦ rfl, fun _ ↦ rfl⟩

/-- New matches of a bracket's next round extend what the tables hold. -/
theorem Holds.adds {new : List MatchRow} (h : Holds d t rs) (hadds : Adds d new d')
    (hnew : ∀ m ∈ new, m.tournamentId = t) : Holds d' t (new :: rs) := by
  constructor
  · rw [hadds.index hnew, h.index, List.reverse_cons, List.flatten_append, List.flatten_singleton,
      List.map_append]
  · intro m hm
    rw [List.flatten_cons, List.mem_append] at hm
    rcases hm with hm | hm
    · exact (hadds.fresh hm).2
    · exact hadds.match?_of_some (h.rows m hm)
  · rw [List.flatten_cons, List.map_append, List.nodup_append]
    refine ⟨hadds.nodup, h.distinct, ?_⟩
    intro id hid id' hid' heq
    obtain ⟨m, hm, rfl⟩ := List.mem_map.mp hid
    obtain ⟨m', hm', rfl⟩ := List.mem_map.mp hid'
    have hnone := (hadds.fresh hm).1
    rw [heq, h.rows m' hm'] at hnone
    cases hnone

/-- What `advanceRound` did to a running tournament: nothing, or it finished it after its final,
or it drew the next round. -/
inductive Advanced (t : Nat) (row : TournamentRow) (ms : List MatchRow) (rs : List (List MatchRow))
    (d d' : Db) : Prop
  | same : d' = d → Advanced t row ms rs d d'
  | finished {m : MatchRow} : ms = [m] → m.status ≠ .pending →
      d' = d.apply (.putTournament t { row with status := .finished, winnerId := m.winner }) →
      Advanced t row ms rs d d'
  | next {new : List MatchRow} : (∀ m ∈ ms, m.status ≠ .pending) → 2 ≤ ms.length →
      IsRound t (rs.length + 2) (pairUp (ms.map MatchRow.winner)) new →
      (∀ m ∈ new, m.status = .pending) → new ≠ [] → Adds d new d' → Advanced t row ms rs d d'

/-- One call of `advanceRound` on a running tournament; on its latest round, once resolved, it
does not stand still. -/
theorem advanceRound_run {row : TournamentRow} {r : Nat} {ids : Nat → Nat} {seeds : List (Option Nat)}
    {k : Nat} (hrow : d.tournament? t = some row) (hactive : row.status = .inProgress)
    (hrs : Rounds t seeds (ms :: rs)) (hseeds : seeds.length = 2 ^ (k + 1))
    (hholds : Holds d t (ms :: rs))
    (h : backend.run (advanceRound t r ids) d = some ((), d')) :
    Advanced t row ms rs d d' ∧
      (r = rs.length + 1 → (∀ m ∈ ms, m.status ≠ .pending) → d' ≠ d) := by
  rw [advanceRound, Database.run_bind, run_lockTournament, Option.bind_some] at h
  dsimp only at h
  rw [hrow] at h
  dsimp only at h
  rw [if_neg (not_not.mpr hactive), Database.run_bind, run_lockRound, Option.bind_some,
    hholds.roundOf hrs] at h
  dsimp only at h
  obtain ⟨j, hj⟩ := hrs.pow_length hseeds
  by_cases hr : r = rs.length + 1
  · -- The latest round.
    subst hr
    rw [show nthRound (ms :: rs) (rs.length + 1) = ms from if_pos rfl] at h
    obtain ⟨pairs, hround⟩ := hrs.latest
    split at h
    · next hblocked =>
      obtain ⟨-, rfl⟩ := Prod.mk.inj (Option.some.inj h)
      refine ⟨.same rfl, fun _ hdone ↦ ?_⟩
      rw [Bool.or_eq_true, List.isEmpty_iff, List.any_eq_true] at hblocked
      rcases hblocked with rfl | ⟨m, hm, hpending⟩
      · exact absurd hj (Nat.two_pow_pos j).ne
      · exact absurd (beq_iff_eq.mp hpending) (hdone m hm)
    · next hready =>
      have hdone : ∀ m ∈ ms, m.status ≠ .pending := by
        intro m hm hpending
        apply hready
        rw [Bool.or_eq_true, List.any_eq_true]
        exact Or.inr ⟨m, hm, beq_iff_eq.mpr hpending⟩
      split at h
      · next winner hwinner =>
        obtain ⟨m, rfl, rfl⟩ := List.map_eq_singleton_iff.mp hwinner
        rw [Database.run_bind, Option.bind_eq_some_iff] at h
        obtain ⟨⟨finished, d₁⟩, hfinish, h⟩ := h
        split at h
        · cases h
        · next hone =>
          obtain rfl := not_not.mp hone
          obtain ⟨-, rfl⟩ := Prod.mk.inj (Option.some.inj h)
          obtain ⟨row', hrow', -, rfl⟩ := run_finishTournament hfinish
          obtain rfl := Option.some.inj (hrow.symm.trans hrow')
          refine ⟨.finished rfl (hdone m (List.mem_singleton_self m)) rfl, fun _ _ heq ↦ ?_⟩
          have htable := congrArg (Db.tournament? · t) heq
          dsimp only at htable
          rw [Db.tournament?_putTournament, if_pos rfl, hrow, Option.some.injEq] at htable
          have hstatus := congrArg TournamentRow.status htable
          rw [hactive] at hstatus
          cases hstatus
      · next hmany =>
        have htwo : 2 ≤ ms.length := by
          by_contra hlt
          have hpos : 0 < ms.length := by
            rw [hj]
            exact Nat.two_pow_pos j
          obtain ⟨m, rfl⟩ := List.length_eq_one_iff.mp (show ms.length = 1 by omega)
          exact hmany _ rfl
        have heven : (ms.map MatchRow.winner).length % 2 = 0 := by
          rw [List.length_map, hj]
          cases j with
          | zero =>
            rw [hj] at htwo
            omega
          | succ j =>
            rw [pow_succ]
            omega
        have hwinners : ∀ w ∈ ms.map MatchRow.winner, w.isSome := by
          intro w hw
          obtain ⟨m, hm, rfl⟩ := List.mem_map.mp hw
          obtain ⟨u, -, hu⟩ := (hround.ok m hm).winner (hdone m hm)
          rw [hu]
          rfl
        have hadds := insertNextRound_fresh (p := 0) (by
          intro e he hnext
          rw [hholds.index] at he
          obtain ⟨m, hm, rfl⟩ := List.mem_map.mp he
          have hle := (hrs.mem_nthRound (mem_reverse_flatten.mp hm)).2.2
          rw [List.length_cons] at hle
          have hnext : m.round = rs.length + 1 + 1 := hnext
          omega) h
        have hnew : rowsFrom (nextMatch t (rs.length + 1) ids) (pairUp (ms.map MatchRow.winner)) 0 ≠
            [] := by
          intro hnil
          have hlen := length_pairUp (ms.map MatchRow.winner)
          rw [← @length_rowsFrom (nextMatch t (rs.length + 1) ids) _ 0, hnil,
            List.length_map] at hlen
          rw [List.length_nil] at hlen
          omega
        refine ⟨.next hdone htwo (isRound_next heven hwinners) ?_ hnew hadds, fun _ _ heq ↦ ?_⟩
        · intro m hm
          obtain ⟨q, pair, -, rfl⟩ := mem_rowsFrom hm
          rfl
        · obtain ⟨m, hm⟩ := List.exists_mem_of_ne_nil _ hnew
          obtain ⟨hnone, hsome⟩ := hadds.fresh hm
          rw [heq, hnone] at hsome
          cases hsome
  · -- An earlier round, whose successor exists, or no round at all.
    refine ⟨.same ?_, fun heq ↦ absurd heq hr⟩
    rw [show nthRound (ms :: rs) r = nthRound rs r from if_neg hr] at h
    by_cases hin : 1 ≤ r ∧ r ≤ rs.length
    · obtain ⟨hdone, htwo, hnext⟩ := hrs.step (r := r) hin.1 (by rw [List.length_cons]; omega)
      rw [show nthRound (ms :: rs) r = nthRound rs r from if_neg hr] at hdone htwo hnext
      split at h
      · exact (Prod.mk.inj (Option.some.inj h)).2.symm
      · split at h
        · next winner hwinner =>
          obtain ⟨m, hm, -⟩ := List.map_eq_singleton_iff.mp hwinner
          rw [hm, List.length_singleton] at htwo
          omega
        · refine insertNextRound_taken ?_ h
          intro q _ hq
          rw [Nat.zero_add, ← hnext.length] at hq
          have hpos : q ∈ (nthRound (ms :: rs) (r + 1)).map MatchRow.position := by
            rw [hnext.positions, List.mem_range]
            exact hq
          obtain ⟨m, hm, hposition⟩ := List.mem_map.mp hpos
          rw [List.any_eq_true, hholds.index]
          refine ⟨m.entry, List.mem_map_of_mem (mem_reverse_flatten.mpr
            (Rounds.mem_flatten_of_mem_nthRound hm)), ?_⟩
          rw [Bool.and_eq_true, beq_iff_eq, beq_iff_eq]
          exact ⟨hnext.round m hm, hposition⟩
    · have hnil : nthRound rs r = [] := by
        by_cases hlen : rs.length < r
        · exact Rounds.nthRound_of_length_lt hlen
        · rw [List.eq_nil_iff_forall_not_mem]
          intro m hm
          have hm' : m ∈ nthRound (ms :: rs) r := by
            rw [nthRound, if_neg hr]
            exact hm
          obtain ⟨-, hpos, -⟩ := hrs.mem_nthRound (Rounds.mem_flatten_of_mem_nthRound hm')
          rw [← hrs.filter_round r, List.mem_filter, beq_iff_eq] at hm'
          omega
      rw [hnil] at h
      exact (Prod.mk.inj (Option.some.inj h)).2.symm

end Advance

/-! ### Every transaction keeps the invariant -/

section Keep

variable {d d' : Db} {t : Nat} {row : TournamentRow}

/-- Only rows of one tournament changed, and no match was lost. -/
structure Touches (t : Nat) (d d' : Db) : Prop where
  tournament? : ∀ u, u ≠ t → d'.tournament? u = d.tournament? u
  entrants : ∀ u, u ≠ t → d'.entrants u = d.entrants u
  index : ∀ u, u ≠ t → d'.index u = d.index u
  users : d'.users = d.users
  others : ∀ id m, m.tournamentId ≠ t → d.match? id = some m → d'.match? id = some m
  found : ∀ id m, d'.match? id = some m → m.id = id ∧ m.entry ∈ d'.index m.tournamentId

/-- What remains to be shown of tables in which one tournament changed. -/
theorem DbOk.touch (h : DbOk d) (ht : Touches t d d')
    (hrow : ∃ row, d'.tournament? t = some row ∧ RowOk d' t row) : DbOk d' := by
  constructor
  · intro u row' hrow'
    by_cases hu : u = t
    · subst hu
      obtain ⟨row, hrow, hok⟩ := hrow
      rw [hrow] at hrow'
      exact Option.some.inj hrow' ▸ hok
    · rw [ht.tournament? u hu] at hrow'
      refine (h.rows u row' hrow').congr (ht.entrants u hu) (ht.index u hu) ht.users ?_
      intro m hm
      exact ht.others m.id m (hm ▸ hu)
  · intro u hnone
    by_cases hu : u = t
    · subst hu
      obtain ⟨row, hrow, -⟩ := hrow
      rw [hrow] at hnone
      cases hnone
    · rw [ht.tournament? u hu] at hnone
      rw [ht.entrants u hu, ht.index u hu]
      exact h.orphans u hnone
  · exact ht.found

/-- A new version of a tournament's row touches nothing else. -/
theorem touches_putTournament (h : DbOk d) : Touches t d (d.apply (.putTournament t row)) where
  tournament? u hu := by rw [Db.tournament?_putTournament, if_neg hu]
  entrants _ _ := rfl
  index _ _ := rfl
  users := rfl
  others _ _ _ hm := hm
  found := h.matches_

/-- An entrant touches one tournament. -/
theorem touches_addEntrant (h : DbOk d) (e : Entrant) :
    Touches t d (d.apply (.addEntrant t e)) where
  tournament? _ _ := rfl
  entrants u hu := by rw [Db.entrants_addEntrant, if_neg hu]
  index _ _ := rfl
  users := rfl
  others _ _ _ hm := hm
  found := h.matches_

/-- Touching twice is touching. -/
theorem Touches.trans {d'' : Db} (h : Touches t d d') (h' : Touches t d' d'') : Touches t d d'' where
  tournament? u hu := (h'.tournament? u hu).trans (h.tournament? u hu)
  entrants u hu := (h'.entrants u hu).trans (h.entrants u hu)
  index u hu := (h'.index u hu).trans (h.index u hu)
  users := h'.users.trans h.users
  others id m hne hm := h'.others id m hne (h.others id m hne hm)
  found := h'.found

/-- New matches touch their tournament. -/
theorem Adds.touches {new : List MatchRow} (h : Adds d new d')
    (hfound : ∀ id m, d.match? id = some m → m.id = id ∧ m.entry ∈ d.index m.tournamentId)
    (hnew : ∀ m ∈ new, m.tournamentId = t) : Touches t d d' where
  tournament? u _ := h.tournament? u
  entrants u _ := h.entrants u
  index u hu := h.index_of_ne hnew hu
  users := h.users
  others id m _ hm := h.match?_of_some hm
  found id m hm := by
    obtain ⟨hmem, hid⟩ | hold := h.cases_match? hm
    · refine ⟨hid, ?_⟩
      rw [hnew m hmem, h.index hnew, List.mem_append]
      exact Or.inr (List.mem_map_of_mem hmem)
    · obtain ⟨hid, hentry⟩ := hfound id m hold
      refine ⟨hid, ?_⟩
      by_cases ht : m.tournamentId = t
      · rw [ht, h.index hnew, List.mem_append]
        exact Or.inl (ht ▸ hentry)
      · rw [h.index_of_ne hnew ht]
        exact hentry

/-- The row of a tournament whose bracket moved on, with nothing new about its entrants. -/
theorem RowOk.restage {row' : TournamentRow} (h : RowOk d t row)
    (hmax : row'.maxPlayers = row.maxPlayers) (hentrants : d'.entrants t = d.entrants t)
    (husers : d'.users = d.users) (hstage : Stage d' t row') : RowOk d' t row' := by
  refine ⟨?_, hentrants ▸ h.once, ?_, hstage⟩
  · rw [hentrants, hmax]
    exact h.capacity
  · rw [hentrants, husers]
    exact h.exist

/-- After `advanceRound` the tournament is in order again. -/
theorem Advanced.ok {ms : List MatchRow} {rs : List (List MatchRow)}
    (h : Advanced t row ms rs d d')
    (hmove : (∀ m ∈ ms, m.status ≠ .pending) → d' ≠ d) (hrow : d.tournament? t = some row)
    (hactive : row.status = .inProgress) (hwinner : row.winnerId = none)
    (hdrawn : Drawn d t (ms :: rs))
    (hfound : ∀ id m, d.match? id = some m → m.id = id ∧ m.entry ∈ d.index m.tournamentId) :
    Touches t d d' ∧ d'.entrants t = d.entrants t ∧
      ∃ row', d'.tournament? t = some row' ∧ row'.maxPlayers = row.maxPlayers ∧ Stage d' t row' := by
  cases h with
  | same heq =>
    subst heq
    have hpending : ∃ m ∈ ms, m.status = .pending := by
      by_contra hnone
      push Not at hnone
      exact hmove hnone rfl
    obtain ⟨m, hm, hpending⟩ := hpending
    exact ⟨⟨fun _ _ ↦ rfl, fun _ _ ↦ rfl, fun _ _ ↦ rfl, rfl, fun _ _ _ hm ↦ hm, hfound⟩, rfl, row,
      hrow, rfl, .running hactive hwinner hdrawn hm hpending⟩
  | @finished m hms hdone heq =>
    subst hms heq
    refine ⟨⟨?_, fun _ _ ↦ rfl, fun _ _ ↦ rfl, rfl, fun _ _ _ hm ↦ hm, hfound⟩, rfl,
      { row with status := .finished, winnerId := m.winner }, ?_, rfl, ?_⟩
    · intro u hu
      rw [Db.tournament?_putTournament, if_neg hu]
    · rw [Db.tournament?_putTournament, if_pos rfl]
    · exact .over rfl (hdrawn.congr rfl rfl fun _ _ ↦ rfl) hdone rfl
  | @next new hdone htwo hround hpending hne hadds =>
    obtain ⟨players, hperm, hlen, hrounds, hholds⟩ := hdrawn
    obtain ⟨m, hm⟩ := List.exists_mem_of_ne_nil _ hne
    refine ⟨hadds.touches hfound hround.tournament, hadds.entrants t, row,
      (hadds.tournament? t).trans hrow, rfl, .running hactive hwinner ⟨players, ?_, hlen,
        .next hrounds hdone htwo hround, hholds.adds hadds hround.tournament⟩ hm (hpending m hm)⟩
    rw [hadds.entrants t]
    exact hperm

/-- A bracket whose only seat of change is a pending match of its latest round. -/
theorem Drawn.resolve {ms : List MatchRow} {rs : List (List MatchRow)} {m : MatchRow} {w : Nat}
    (h : Drawn d t (ms :: rs)) (hm : m ∈ ms) (hpending : m.status = .pending) (hw : w ∈ m.players) :
    Drawn (d.apply (.resolve m.id w)) t
      ((ms.map fun m' ↦ if m'.id = m.id then m'.resolved w else m') :: rs) := by
  obtain ⟨players, hperm, hlen, hrounds, hholds⟩ := h
  have hunique : ∀ m' ∈ (ms :: rs).flatten, m'.id = m.id → m' = m := by
    intro m' hm' hid
    have hrow' := hholds.rows m' hm'
    rw [hid, hholds.rows m (by rw [List.flatten_cons]; exact List.mem_append_left _ hm)] at hrow'
    exact (Option.some.inj hrow').symm
  have hids : (ms.map fun m' ↦ if m'.id = m.id then m'.resolved w else m').map MatchRow.id =
      ms.map MatchRow.id := by
    rw [List.map_map]
    apply List.map_congr_left
    intro m' _
    dsimp only [Function.comp_apply]
    split <;> rfl
  refine ⟨players, hperm, hlen, hrounds.resolve ?_, ?_, ?_, ?_⟩
  · intro m' hm' hid
    rw [hunique m' (by rw [List.flatten_cons]; exact List.mem_append_left _ hm') hid]
    exact ⟨hpending, hw⟩
  · rw [Db.index_resolve, hholds.index, List.reverse_cons, List.reverse_cons, List.flatten_append,
      List.flatten_append, List.flatten_singleton, List.flatten_singleton, List.map_append,
      List.map_append]
    congr 1
    rw [List.map_map]
    apply List.map_congr_left
    intro m' _
    dsimp only [Function.comp_apply]
    split <;> rfl
  · intro m' hm'
    rw [List.flatten_cons, List.mem_append, List.mem_map] at hm'
    rw [Db.match?_resolve]
    rcases hm' with ⟨m₀, hm₀, rfl⟩ | hm'
    · have hrow₀ := hholds.rows m₀ (by rw [List.flatten_cons]; exact List.mem_append_left _ hm₀)
      by_cases hid : m₀.id = m.id
      · rw [if_pos hid, if_pos (show (m₀.resolved w).id = m.id from hid), ← hid, hrow₀]
        rfl
      · rw [if_neg hid, if_neg hid, hrow₀]
    · rw [if_neg, hholds.rows m' (by rw [List.flatten_cons]; exact List.mem_append_right _ hm')]
      intro hid
      have hsame := hunique m' (by rw [List.flatten_cons]; exact List.mem_append_right _ hm') hid
      have hdist := hholds.distinct
      rw [List.flatten_cons, List.map_append, List.nodup_append] at hdist
      exact hdist.2.2 _ (List.mem_map_of_mem hm) _ (List.mem_map_of_mem hm') hid.symm
  · rw [List.flatten_cons, List.map_append, hids, ← List.map_append, ← List.flatten_cons]
    exact hholds.distinct

/-- A result touches the tournament of its match. -/
theorem touches_resolve {id w : Nat} {m : MatchRow} (hm : d.match? id = some m)
    (ht : m.tournamentId = t)
    (hfound : ∀ id m, d.match? id = some m → m.id = id ∧ m.entry ∈ d.index m.tournamentId) :
    Touches t d (d.apply (.resolve id w)) where
  tournament? _ _ := rfl
  entrants _ _ := rfl
  index _ _ := rfl
  users := rfl
  others id' m' hne hm' := by
    rw [Db.match?_resolve, if_neg, hm']
    rintro rfl
    rw [hm, Option.some.injEq] at hm'
    exact hne (hm' ▸ ht)
  found id' m' hm' := by
    rw [Db.match?_resolve] at hm'
    split at hm'
    · next hid =>
      rw [hm, Option.map_some, Option.some.injEq] at hm'
      subst hm' hid
      exact hfound id' m hm
    · exact hfound id' m' hm'

end Keep

end ChessStack.Tournament
