import ChessStack.Tournament.Integrity

/-!
# Can a started tournament be finished?

Library `Tournament`. The padding of `start`, `Chess-Backend/src/models/Tournament.js:125`, can pair
two empty slots. It does not exactly when the power of two it pads to is at most one more than the
number of entrants; then every sequence of accepted reports comes to an end in a finished
tournament, and otherwise none does.
-/

namespace ChessStack.Tournament

open ChessStack.Library

/-- An accepted report on a match of a tournament. -/
def Accepted (t : Nat) (d d' : Db) : Prop :=
  ∃ matchId reporterId winnerId ids, ∃ m, d.match? matchId = some m ∧ m.tournamentId = t ∧
    backend.run (reportResult matchId reporterId winnerId ids) d = some (.reported, d')

/-- However the matches are reported, after finitely many reports the tournament is finished, and
until then there is one more that is accepted. -/
inductive Finishes (t : Nat) : Db → Prop
  | over {d : Db} {row : TournamentRow} : d.tournament? t = some row → row.status = .finished →
      Finishes t d
  | play {d : Db} : (∃ d', Accepted t d d') → (∀ d', Accepted t d d' → Finishes t d') → Finishes t d

/-- A started tournament can be played to its end. -/
structure Playable (d : Db) (t : Nat) (row : TournamentRow) : Prop where
  player : ∀ m ∈ d.matchesOf t, m.players ≠ []
  bye : ∀ m ∈ d.matchesOf t, ∀ u, m.players = [u] → m.status = .bye ∧ m.winner = some u
  next : row.status = .inProgress → ∃ m ∈ d.matchesOf t, m.status = .pending ∧
    ∃ u v, m.player1 = some u ∧ m.player2 = some v
  finishes : Finishes t d

/-! ### The padded pairs -/

section Pairs

private theorem playersOfPair_ne_nil {pair : Option Nat × Option Nat} :
    playersOfPair pair ≠ [] ↔ pair.1.isSome ∨ pair.2.isSome := by
  obtain ⟨a, b⟩ := pair
  cases a <;> cases b <;> simp [playersOfPair, List.reduceOption]

/-- Who is paired was on the list. -/
theorem some_mem_of_mem_pairUp {l : List (Option Nat)} {pair : Option Nat × Option Nat} {u : Nat}
    (hpair : pair ∈ pairUp l) (hu : u ∈ playersOfPair pair) : some u ∈ l := by
  rw [mem_playersOfPair] at hu
  induction l using pairUp.induct with
  | case1 => cases hpair
  | case2 a =>
    obtain rfl := List.mem_singleton.mp hpair
    rcases hu with rfl | hnone
    · exact List.mem_singleton_self _
    · cases hnone
  | case3 a b rest ih =>
    rcases List.mem_cons.mp hpair with rfl | hpair
    · rcases hu with rfl | rfl
      · exact List.mem_cons_self
      · exact List.mem_cons_of_mem _ List.mem_cons_self
    · exact List.mem_cons_of_mem _ (List.mem_cons_of_mem _ (ih hpair))

private theorem byeWinner_of_single {pair : Option Nat × Option Nat} {u : Nat}
    (h : playersOfPair pair = [u]) : byeWinner pair = some u := by
  obtain ⟨a, b⟩ := pair
  cases a <;> cases b <;> simp_all [byeWinner, playersOfPair, List.reduceOption]

private theorem getElem?_pad (players : List Nat) (i : Nat) : (pad (players.map some))[i]? =
    if h : i < players.length then some (some players[i])
    else if i < nextPow2 players.length then some none else none := by
  rw [pad_eq, List.getElem?_append, List.length_map]
  split
  · next h => rw [List.getElem?_map, List.getElem?_eq_getElem h, Option.map_some]
  · next h =>
    rw [List.getElem?_replicate]
    by_cases hlt : i < nextPow2 players.length
    · rw [if_pos (by omega), if_pos hlt]
    · rw [if_neg (by omega), if_neg hlt]

/-- The padding pairs two empty slots exactly when it adds more than one. -/
theorem pairUp_pad_players {players : List Nat} (hlen : 2 ≤ players.length) :
    (∀ pair ∈ pairUp (pad (players.map some)), playersOfPair pair ≠ []) ↔
      nextPow2 players.length ≤ players.length + 1 := by
  obtain ⟨k, hk⟩ := length_seeds hlen
  have hpow := hk
  rw [length_pad, List.length_map, pow_succ] at hpow
  have heven : (pad (players.map some)).length % 2 = 0 := by
    rw [hk, pow_succ]
    omega
  constructor
  · intro h
    by_contra hlt
    have hpair : (pairUp (pad (players.map some)))[2 ^ k - 1]? = some (none, none) := by
      rw [getElem?_pairUp _ heven, getElem?_pad, getElem?_pad, dif_neg (by omega),
        if_pos (by omega), dif_neg (by omega), if_pos (by omega)]
      rfl
    exact h _ (List.mem_of_getElem? hpair) rfl
  · intro hle pair hpair
    obtain ⟨p, hp⟩ := List.mem_iff_getElem?.mp hpair
    rw [getElem?_pairUp _ heven, Option.bind_eq_some_iff] at hp
    obtain ⟨a, ha, hp⟩ := hp
    obtain ⟨b, hb, rfl⟩ := Option.map_eq_some_iff.mp hp
    have hlast : 2 * p + 1 < nextPow2 players.length := by
      have hlt := (List.getElem?_eq_some_iff.mp hb).1
      rwa [length_pad, List.length_map] at hlt
    rw [getElem?_pad, dif_pos (by omega), Option.some.injEq] at ha
    rw [playersOfPair_ne_nil, ← ha]
    exact Or.inl rfl

end Pairs

/-! ### The bracket of a started tournament -/

section Bracket

variable {d d' : Db} {t : Nat} {row : TournamentRow} {ms : List MatchRow}
  {rs : List (List MatchRow)} {players : List Nat}

private theorem Rounds.ok {seeds : List (Option Nat)} (h : Rounds t seeds rs) {m : MatchRow}
    (hm : m ∈ rs.flatten) : MatchOk m := by
  obtain ⟨hmem, hpos, hle⟩ := h.mem_nthRound hm
  obtain ⟨pairs, hround⟩ := h.isRound_nthRound hpos hle
  exact hround.ok m hmem

/-- A match with one player is a bye, and that player won it. -/
theorem MatchOk.single {m : MatchRow} (h : MatchOk m) {u : Nat} (hu : m.players = [u]) :
    m.status = .bye ∧ m.winner = some u := by
  have hbye := byeWinner_of_single hu
  have hstatus := h.bye_iff.mpr (by rw [hbye]; rfl)
  exact ⟨hstatus, (h.bye hstatus).trans hbye⟩

/-- A pending match with a player has two. -/
theorem MatchOk.two {m : MatchRow} (h : MatchOk m) (hpending : m.status = .pending)
    (hplayer : m.players ≠ []) : ∃ u v, m.player1 = some u ∧ m.player2 = some v := by
  have hpair := h.pending_pair hpending
  rw [MatchRow.players, playersOfPair_ne_nil] at hplayer
  change byeWinner (m.player1, m.player2) = none at hpair
  change m.player1.isSome ∨ m.player2.isSome at hplayer
  cases h₁ : m.player1 <;> cases h₂ : m.player2 <;> simp_all [byeWinner]

/-- With at most one slot too many every match of the bracket has a player. -/
theorem Rounds.filled (h : Rounds t (pad (players.map some)) rs) (hlen : 2 ≤ players.length)
    (hfit : nextPow2 players.length ≤ players.length + 1) :
    ∀ m ∈ rs.flatten, m.players ≠ [] := by
  intro m hm
  obtain ⟨k, hk⟩ := length_seeds hlen
  obtain ⟨hmem, hpos, hle⟩ := h.mem_nthRound hm
  rcases Nat.eq_or_lt_of_le hpos with hone | hlater
  · rw [← hone] at hmem
    have hpair : m.pair ∈ pairUp (pad (players.map some)) := by
      rw [← h.nthRound_one.pairs]
      exact List.mem_map_of_mem hmem
    exact (pairUp_pad_players hlen).mpr hfit _ hpair
  · -- The players of a later round are the winners of the round before.
    obtain ⟨r, hr⟩ : ∃ r, m.round = r + 1 := ⟨m.round - 1, by omega⟩
    rw [hr] at hmem
    obtain ⟨hdone, -, hround⟩ := h.step (r := r) (by omega) (by omega)
    have hpair : m.pair ∈ pairUp ((nthRound rs r).map MatchRow.winner) := by
      rw [← hround.pairs]
      exact List.mem_map_of_mem hmem
    have heven := h.even_winners hk (r := r) (by omega) (by omega)
    obtain ⟨w, hw, hwinner⟩ := List.mem_map.mp (mem_pairUp (by rwa [List.length_map]) hpair).1
    obtain ⟨u, -, hu⟩ := (h.ok (mem_flatten_of_mem_nthRound hw)).winner (hdone w hw)
    rw [MatchRow.players, playersOfPair_ne_nil, ← hwinner, hu]
    exact Or.inl rfl

/-- With more than one slot too many the first round has a match that nobody can play. -/
theorem Rounds.blank (h : Rounds t (pad (players.map some)) (ms :: rs)) (hlen : 2 ≤ players.length)
    (hfit : ¬ nextPow2 players.length ≤ players.length + 1) :
    rs = [] ∧ ∃ m ∈ ms, m.status = .pending ∧ m.players = [] := by
  rw [← pairUp_pad_players hlen] at hfit
  push Not at hfit
  obtain ⟨pair, hpair, hnone⟩ := hfit
  rw [← h.nthRound_one.pairs] at hpair
  obtain ⟨m, hm, rfl⟩ := List.mem_map.mp hpair
  have hpending : m.status = .pending := by
    by_contra hdone
    obtain ⟨w, hw, -⟩ := (h.ok (mem_flatten_of_mem_nthRound hm)).winner hdone
    rw [MatchRow.players, hnone] at hw
    cases hw
  cases rs with
  | nil =>
    rw [nthRound, List.length_nil, if_pos rfl] at hm
    exact ⟨rfl, m, hm, hpending, hnone⟩
  | cons last rs =>
    have hdone := (h.step le_rfl (by rw [List.length_cons, List.length_cons]; omega)).1 m hm
    exact absurd hpending hdone

/-- The players of every round are entrants. -/
theorem Rounds.players_mem (h : Rounds t (pad (players.map some)) rs) (hlen : 2 ≤ players.length)
    {m : MatchRow} (hm : m ∈ rs.flatten) {u : Nat} (hu : u ∈ m.players) : u ∈ players := by
  obtain ⟨k, hk⟩ := length_seeds hlen
  obtain ⟨hmem, hpos, hle⟩ := h.mem_nthRound hm
  have hfirst : u ∈ roundPlayers (nthRound rs 1) :=
    (h.players_sublist hk le_rfl hpos hle).subset (List.mem_flatMap.mpr ⟨m, hmem, hu⟩)
  rwa [h.nthRound_one.players (by rw [hk, pow_succ]; omega), reduceOption_pad] at hfirst

/-- A started tournament is running or over. -/
theorem RowOk.started (h : RowOk d t row) (hne : row.status ≠ .open_) : ∃ ms rs, Drawn d t (ms :: rs) ∧
    ((row.status = .inProgress ∧ row.winnerId = none ∧ ∃ m ∈ ms, m.status = .pending) ∨
      (row.status = .finished ∧ ∀ m ∈ ms, m.status ≠ .pending)) := by
  cases h.stage with
  | open_ hopen => exact absurd hopen hne
  | @running ms rs m hactive hwinner hdrawn hm hpending =>
    exact ⟨ms, rs, hdrawn, Or.inl ⟨hactive, hwinner, m, hm, hpending⟩⟩
  | @«over» m rs hfin hdrawn hdone _ =>
    refine ⟨[m], rs, hdrawn, Or.inr ⟨hfin, fun m' hm' ↦ ?_⟩⟩
    rw [List.mem_singleton.mp hm']
    exact hdone

/-- A blank match is never resolved, so the tournament never finishes. -/
theorem not_finishes (hok : DbOk d) (hrow : d.tournament? t = some row) (hne : row.status ≠ .open_)
    (hfit : ¬ nextPow2 (d.entrants t).length ≤ (d.entrants t).length + 1) : ¬ Finishes t d := by
  intro hfin
  induction hfin generalizing row with
  | @«over» d row' hrow' hover =>
    obtain rfl := Option.some.inj (hrow.symm.trans hrow')
    obtain ⟨ms, rs, ⟨players, hperm, hlen, hrounds, -⟩, ⟨hactive, -⟩ | ⟨-, hdone⟩⟩ :=
      (hok.rows t row hrow).started hne
    · rw [hover] at hactive
      cases hactive
    · have hcount : players.length = (d.entrants t).length := by
        rw [hperm.length_eq, List.length_map]
      rw [← hcount] at hfit
      obtain ⟨-, m, hm, hpending, -⟩ := hrounds.blank hlen hfit
      exact hdone m hm hpending
  | @play d hnext _ ih =>
    obtain ⟨d', hd'⟩ := hnext
    obtain ⟨matchId, reporterId, winnerId, ids, m, -, -, hrun⟩ := id hd'
    obtain ⟨hok', hon⟩ := keep_reportResult hok hrun
    obtain ⟨row', hrow', -, hstill, -⟩ := hon.rows t row hrow
    obtain ⟨hne', hentrants⟩ := hstill hne
    exact ih d' hd' hok' hrow' hne' (hentrants ▸ hfit)

end Bracket

/-! ### A report that is accepted -/

section Accept

variable {d d' : Db} {t : Nat} {row : TournamentRow} {ms : List MatchRow}
  {rs : List (List MatchRow)}

/-- The sequence of match ids has not run out. -/
def Bounded (d : Db) : Prop := ∃ n, ∀ id, n ≤ id → d.match? id = none

private theorem Bounded.apply (h : Bounded d) (c : Change) : Bounded (d.apply c) := by
  obtain ⟨n, hn⟩ := h
  cases c with
  | putTournament id row => exact ⟨n, hn⟩
  | addEntrant t e => exact ⟨n, hn⟩
  | addMatch row =>
    refine ⟨max n (row.id + 1), fun id hid ↦ ?_⟩
    rw [Db.match?_addMatch, if_neg (by omega), hn id (by omega)]
  | resolve id w =>
    refine ⟨n, fun id' hid' ↦ ?_⟩
    rw [Db.match?_resolve]
    split
    · next heq => rw [← heq, hn id' hid', Option.map_none]
    · exact hn id' hid'

private theorem Bounded.applyAll (h : Bounded d) (cs : List Change) : Bounded
    (backend.applyAll d cs) := by
  induction cs generalizing d with
  | nil => exact h
  | cons c cs ih => exact ih (h.apply c)

private theorem Bounded.run {Value : Type} {tx : TournamentTx Value} {value : Value} (h : Bounded d)
    (hrun : backend.run tx d = some (value, d')) : Bounded d' := by
  induction tx generalizing d with
  | ret v =>
    obtain ⟨-, rfl⟩ := Prod.mk.inj (Option.some.inj hrun)
    exact h
  | throw => cases hrun
  | query stmt next ih =>
    rw [Database.run_query, Option.bind_eq_some_iff] at hrun
    obtain ⟨⟨cs, a⟩, -, hrest⟩ := hrun
    exact ih a (h.applyAll cs) hrest

/-- An insert of the loop of `advanceRound` with a new id does not fail. -/
theorem insertNext_total {r q : Nat} {ids : Nat → Nat} {pair : Option Nat × Option Nat}
    (hrow : (d.tournament? t).isSome) (husers : ∀ u ∈ playersOfPair pair, u ∈ d.users)
    (hfresh : d.match? (ids q) = none) :
    ∃ n d₁, backend.run (insertNext (nextMatch t r ids q pair)) d = some (n, d₁) ∧
      (d₁ = d ∨ d₁ = d.apply (.addMatch (nextMatch t r ids q pair))) := by
  have hrun : backend.run (insertNext (nextMatch t r ids q pair)) d =
      (exec (.insertNext (nextMatch t r ids q pair)) d).map fun x ↦
        (x.2, backend.applyAll d x.1) := Database.run_stmt _ d
  have hrefers : d.refers (nextMatch t r ids q pair) = true := by
    unfold Db.refers
    rw [Bool.and_eq_true, List.all_eq_true]
    refine ⟨hrow, fun u hu ↦ List.contains_iff_mem.mpr (husers u ?_)⟩
    rw [List.reduceOption_mem_iff] at hu
    rw [playersOfPair, List.reduceOption_mem_iff]
    simpa [nextMatch] using hu
  simp only [exec] at hrun
  split at hrun
  · exact ⟨_, _, hrun, Or.inl rfl⟩
  · rw [if_neg (by rw [show (nextMatch t r ids q pair).id = ids q from rfl, hfresh]; exact
      Bool.false_ne_true)] at hrun
    exact ⟨_, _, hrun, Or.inr rfl⟩

private theorem insertNextRound_total {r p : Nat} {ids : Nat → Nat}
    {pairs : List (Option Nat × Option Nat)}
    (hrow : (d.tournament? t).isSome) (husers : ∀ pair ∈ pairs, ∀ u ∈ playersOfPair pair, u ∈ d.users)
    (hids : ids.Injective) (hfresh : ∀ q, p ≤ q → d.match? (ids q) = none) :
    ∃ d', backend.run (insertNextRound t r ids pairs p) d = some ((), d') := by
  induction pairs generalizing d p with
  | nil => exact ⟨d, rfl⟩
  | cons pair rest ih =>
    obtain ⟨n, d₁, hfirst, hd₁⟩ := insertNext_total (r := r) hrow (husers pair List.mem_cons_self)
      (hfresh p le_rfl)
    have hrest : ∀ pair' ∈ rest, ∀ u ∈ playersOfPair pair', u ∈ d.users :=
      fun pair' hpair' ↦ husers pair' (List.mem_cons_of_mem _ hpair')
    obtain ⟨d', hd'⟩ : ∃ d', backend.run (insertNextRound t r ids rest (p + 1)) d₁ = some ((), d') := by
      rcases hd₁ with rfl | rfl
      · exact ih hrow hrest fun q hq ↦ hfresh q (by omega)
      · refine ih hrow hrest fun q hq ↦ ?_
        rw [Db.match?_addMatch, if_neg, hfresh q (by omega)]
        intro heq
        have hsame := hids heq
        omega
    refine ⟨d', ?_⟩
    rw [insertNextRound, Database.run_bind, hfirst]
    exact hd'

/-- A call of `advanceRound` with new ids does not fail. -/
theorem advanceRound_total {r : Nat} {ids : Nat → Nat} (hids : ids.Injective)
    (hfresh : ∀ q, d.match? (ids q) = none)
    (husers : ∀ m ∈ d.roundOf t r, ∀ u, m.winner = some u → u ∈ d.users) :
    ∃ d', backend.run (advanceRound t r ids) d = some ((), d') := by
  rw [advanceRound, Database.run_bind, run_lockTournament, Option.bind_some]
  dsimp only
  split
  · exact ⟨d, rfl⟩
  · next row hrow =>
    split
    · exact ⟨d, rfl⟩
    · next hactive =>
      rw [Database.run_bind, run_lockRound, Option.bind_some]
      dsimp only
      split
      · exact ⟨d, rfl⟩
      · split
        · next winner hwinner =>
          obtain ⟨m, hm, rfl⟩ := List.map_eq_singleton_iff.mp hwinner
          have hknown : m.winner.all d.users.contains = true := by
            rw [Option.all_eq_true]
            intro u hu
            exact List.contains_iff_mem.mpr (husers m (by rw [hm]; exact List.mem_singleton_self m) u hu)
          have hfinish : backend.run (finishTournament t m.winner) d = some ((1 : Nat),
              d.apply (.putTournament t { row with status := .finished, winnerId := m.winner })) := by
            rw [show backend.run (finishTournament t m.winner) d =
              (exec (.finishTournament t m.winner) d).map fun x ↦ (x.2, backend.applyAll d x.1) from
              Database.run_stmt _ d]
            simp only [exec, updateTournament, hrow, not_not.mp hactive, if_pos, hknown, Bool.or_true]
            rfl
          rw [Database.run_bind, hfinish]
          exact ⟨_, rfl⟩
        · refine insertNextRound_total (by rw [hrow]; rfl) ?_ hids fun q _ ↦ hfresh q
          intro pair hpair u hu
          obtain ⟨m, hm, hwinner⟩ := List.mem_map.mp (some_mem_of_mem_pairUp hpair hu)
          exact husers m hm u hwinner

/-- A pending match with two players can be reported. -/
theorem exists_accepted {m : MatchRow} {u : Nat} (hbound : Bounded d)
    (hrun : Running d t row ms rs) (hm : m ∈ ms) (hpending : m.status = .pending)
    (hu : u ∈ m.players) (hok : RowOk d t row) : ∃ d', Accepted t d d' := by
  obtain ⟨players, hperm, hlen, hrounds, hholds⟩ := id hrun.drawn
  obtain ⟨pairs, hround⟩ := hrounds.latest
  have hmem : m ∈ (ms :: rs).flatten := by
    rw [List.flatten_cons]
    exact List.mem_append_left _ hm
  have hfound := hholds.rows m hmem
  have hknown : ∀ v ∈ players, v ∈ d.users := by
    intro v hv
    obtain ⟨e, he, rfl⟩ := List.mem_map.mp (hperm.mem_iff.mp hv)
    exact hok.exist e he
  obtain ⟨n, hn⟩ := hbound
  -- The result of the match, in favour of the reporter.
  have hdrawn := hrun.drawn.resolve hm hpending hu
  obtain ⟨players', hperm', hlen', hrounds', hholds'⟩ := hdrawn
  have hknown' : ∀ v ∈ players', v ∈ d.users := by
    intro v hv
    obtain ⟨e, he, rfl⟩ := List.mem_map.mp (hperm'.mem_iff.mp hv)
    exact hok.exist e he
  obtain ⟨d', hd'⟩ := @advanceRound_total (d.apply (.resolve m.id u)) m.tournamentId m.round
    (n + ·) (fun _ _ ↦ Nat.add_left_cancel) (fun q ↦ by
      rw [Db.match?_resolve, if_neg, hn _ (Nat.le_add_right n q)]
      intro heq
      rw [← heq, hn _ (Nat.le_add_right n q)] at hfound
      cases hfound) (by
      rw [hround.tournament m hm, hholds'.roundOf hrounds']
      intro m' hm' v hv
      have hm'' := Rounds.mem_flatten_of_mem_nthRound hm'
      have hok' := hrounds'.ok hm''
      have hne : m'.status ≠ .pending := by
        intro hp
        rw [hok'.pending hp] at hv
        cases hv
      obtain ⟨w, hw, hwinner⟩ := hok'.winner hne
      obtain rfl := Option.some.inj (hv.symm.trans hwinner)
      exact hknown' v (hrounds'.players_mem hlen' hm'' hw))
  refine ⟨d', m.id, u, u, (n + ·), m, hfound, hround.tournament m hm, ?_⟩
  have hset : backend.run (setResult m.id u) d =
      some ((1 : Nat), d.apply (.resolve m.id u)) := by
    rw [show backend.run (setResult m.id u) d = (exec (.setResult m.id u) d).map fun x ↦
      (x.2, backend.applyAll d x.1) from Database.run_stmt _ d]
    simp only [exec, hfound, hpending, if_pos,
      List.contains_iff_mem.mpr (hknown u (hrounds.players_mem hlen hmem hu))]
    rfl
  have hone : ([m.player1, m.player2].reduceOption.any fun id ↦ (id : Int) == (u : Int)) = true :=
    List.any_eq_true.mpr ⟨u, hu, beq_self_eq_true _⟩
  have hplays : [m.player1, m.player2].reduceOption.contains u = true :=
    List.contains_iff_mem.mpr hu
  rw [reportResult, Database.run_bind, run_lockMatch, Option.bind_some]
  dsimp only
  rw [hfound]
  dsimp only
  rw [if_neg (not_not.mpr hpending), if_neg (by rw [hone]; decide), if_neg (by rw [hplays]; decide),
    Int.toNat_natCast, Database.run_bind, hset, Option.bind_some]
  dsimp only
  rw [if_neg (by decide), Database.run_bind, hd']
  rfl

end Accept

/-! ### Reports come to an end -/

section Termination

variable {d d' : Db} {t : Nat} {row : TournamentRow} {ms : List MatchRow}
  {rs : List (List MatchRow)}

/-- What is left to play in a bracket whose latest round is this: it falls with every report, since
the next round has half as many matches. -/
def remaining (ms : List MatchRow) : Nat := 2 * ms.length + ms.countP (·.status == .pending)

private theorem remaining_resolve {m : MatchRow} {w : Nat} (hm : m ∈ ms)
    (hpending : m.status = .pending) :
    remaining (ms.map fun m' ↦ if m'.id = m.id then m'.resolved w else m') < remaining ms := by
  have hfewer : ∀ l : List MatchRow, (l.map fun m' ↦ if m'.id = m.id then m'.resolved w else m').countP
      (·.status == .pending) ≤ l.countP (·.status == .pending) := by
    intro l
    rw [List.countP_map]
    refine List.countP_mono_left fun m' _ hp ↦ ?_
    dsimp only [Function.comp_apply] at hp
    split at hp
    · cases hp
    · exact hp
  obtain ⟨before, after, rfl⟩ := List.append_of_mem hm
  have hbefore := hfewer before
  have hafter := hfewer after
  unfold remaining
  rw [List.map_append, List.map_cons, List.countP_append, List.countP_append,
    if_pos rfl, List.countP_cons_of_neg (by exact nofun), List.countP_cons_of_pos
      (by exact beq_iff_eq.mpr hpending)]
  simp only [List.length_append, List.length_map, List.length_cons]
  omega

/-- The tables determine the latest round. -/
theorem Drawn.latest_le {ms' : List MatchRow} {rs' : List (List MatchRow)}
    (h : Drawn d t (ms :: rs)) (h' : Drawn d t (ms' :: rs')) : rs'.length ≤ rs.length := by
  obtain ⟨players, -, -, hrounds, hholds⟩ := h
  obtain ⟨players', -, hlen', hrounds', hholds'⟩ := h'
  obtain ⟨k, hk⟩ := length_seeds hlen'
  obtain ⟨j, hj⟩ := hrounds'.pow_length hk
  by_contra hlt
  have hround := (hholds.roundOf hrounds (rs'.length + 1)).symm.trans
    (hholds'.roundOf hrounds' (rs'.length + 1))
  rw [Rounds.nthRound_of_length_lt (by rw [List.length_cons]; omega), nthRound, if_pos rfl] at hround
  rw [← hround] at hj
  exact absurd hj (Nat.two_pow_pos j).ne

private theorem Drawn.latest_unique {ms' : List MatchRow} {rs' : List (List MatchRow)}
    (h : Drawn d t (ms :: rs)) (h' : Drawn d t (ms' :: rs')) : ms' = ms := by
  have hcount : rs'.length = rs.length := le_antisymm (h.latest_le h') (h'.latest_le h)
  obtain ⟨players, -, -, hrounds, hholds⟩ := h
  obtain ⟨players', -, -, hrounds', hholds'⟩ := h'
  have hround := (hholds'.roundOf hrounds' (rs'.length + 1)).symm.trans
    (hholds.roundOf hrounds (rs'.length + 1))
  rwa [nthRound, if_pos rfl, nthRound, if_pos (by rw [hcount])] at hround

/-- After `advanceRound` the tournament is finished, or runs with no more to play. -/
theorem Advanced.remaining_le (h : Advanced t row ms rs d d') (hrun : Running d t row ms rs) :
    (∃ row', d'.tournament? t = some row' ∧ row'.status = .finished) ∨
      ∃ ms' rs', Running d' t row ms' rs' ∧ remaining ms' ≤ remaining ms := by
  cases h with
  | same heq =>
    subst heq
    exact Or.inr ⟨ms, rs, hrun, le_rfl⟩
  | finished _ _ heq =>
    subst heq
    refine Or.inl ⟨_, Function.update_self .., rfl⟩
  | @next new hdone htwo hround _ _ hadds =>
    obtain ⟨players, hperm, hlen, hrounds, hholds⟩ := hrun.drawn
    refine Or.inr ⟨new, ms :: rs, ⟨(hadds.tournament? t).trans hrun.found, hrun.active,
      hrun.undecided, players, ?_, hlen, .next hrounds hdone htwo hround,
      hholds.adds hadds hround.tournament⟩, ?_⟩
    · rw [hadds.entrants t]
      exact hperm
    · have hhalf := length_pairUp (ms.map MatchRow.winner)
      have hcount := List.countP_le_length (p := fun m : MatchRow ↦ m.status == .pending) (l := new)
      rw [← hround.length, List.length_map] at hhalf
      unfold remaining
      omega

/-- After an accepted report the tournament is finished, or runs with less to play. -/
theorem Reported.remaining_lt {matchId reporterId w : Nat} {m : MatchRow}
    (h : Reported matchId reporterId w m row ms rs d d') (hok : DbOk d) :
    (∃ row', d'.tournament? m.tournamentId = some row' ∧ row'.status = .finished) ∨
      ∃ ms' rs', Running d' m.tournamentId row ms' rs' ∧ remaining ms' < remaining ms := by
  obtain ⟨hid, -⟩ := hok.matches_ matchId m h.found
  subst hid
  obtain hover | ⟨ms', rs', hrun', hle⟩ := h.advanced.remaining_le ⟨h.running.found,
    h.running.active, h.running.undecided, h.running.drawn.resolve h.latest h.pending h.winner⟩
  · exact Or.inl hover
  · exact Or.inr ⟨ms', rs', hrun', lt_of_le_of_lt hle (remaining_resolve h.latest h.pending)⟩

/-- Every sequence of reports comes to an end. -/
theorem finishes_of_running {n : Nat} (hok : DbOk d) (hbound : Bounded d)
    (hrun : Running d t row ms rs) (hcount : (d.entrants t).length = n)
    (hfit : nextPow2 n ≤ n + 1) : Finishes t d := by
  induction hleft : remaining ms using Nat.strong_induction_on generalizing d row ms rs with
  | _ left ih =>
    have hrow := hok.rows t row hrun.found
    have hne : row.status ≠ .open_ := by
      rw [hrun.active]
      decide
    refine .play ?_ fun d' hd' ↦ ?_
    · obtain ⟨ms₀, rs₀, hdrawn, ⟨-, -, m, hm, hpending⟩ | ⟨hfin, -⟩⟩ := hrow.started hne
      · obtain ⟨players, hperm, hlen, hrounds, -⟩ := id hdrawn
        rw [← hcount, ← List.length_map Entrant.userId, ← hperm.length_eq] at hfit
        have hmem : m ∈ (ms₀ :: rs₀).flatten := by
          rw [List.flatten_cons]
          exact List.mem_append_left _ hm
        obtain ⟨u, hu⟩ := List.exists_mem_of_ne_nil _ (hrounds.filled hlen hfit m hmem)
        exact exists_accepted hbound ⟨hrun.found, hrun.active, hrun.undecided, hdrawn⟩ hm hpending hu
          hrow
      · rw [hrun.active] at hfin
        cases hfin
    · obtain ⟨matchId, reporterId, winnerId, ids, m, hm, rfl, hreport⟩ := hd'
      have hbound' := hbound.run hreport
      obtain ⟨⟨message, hmessage⟩, -⟩ | ⟨-, w, -, m', row', ms₁, rs₁, hr⟩ :=
        reportResult_run hok hreport
      · cases hmessage
      · obtain rfl := Option.some.inj (hm.symm.trans hr.found)
        obtain ⟨row₂, -, -, hstill, -⟩ := hr.onward.rows _ row hrun.found
        obtain rfl := hrun.drawn.latest_unique hr.running.drawn
        obtain ⟨row'', hrow'', hfin⟩ | ⟨ms', rs', hrun', hlt⟩ := hr.remaining_lt hok
        · exact .over hrow'' hfin
        · refine ih _ ?_ (hr.ok hok) hbound' hrun' ?_ rfl
          · rwa [← hleft]
          · rw [(hstill hne).2, hcount]

end Termination

/-- The sequence of match ids never runs out. -/
theorem bounded_of_trace {allowed : Call → Db → Prop} {log : Log} {d : Db}
    (h : tournamentProtocol.Trace server allowed log d) : Bounded d :=
  h.rule (J := fun _ d ↦ Bounded d) (fun _ (hd : Fresh _) ↦ ⟨0, fun id _ ↦ hd.matches_ id⟩)
    (fun _ _ _ _ _ _ hbound _ _ _ hrun ↦ hbound.run hrun) fun _ _ _ hbound ↦ hbound

section Playable

variable {d : Db} {t : Nat} {row : TournamentRow}

private theorem finishes_iff (hok : DbOk d) (hbound : Bounded d) (hrow : d.tournament? t = some row)
    (hne : row.status ≠ .open_) :
    Finishes t d ↔ nextPow2 (d.entrants t).length ≤ (d.entrants t).length + 1 := by
  constructor
  · intro hfin
    by_contra hfit
    exact not_finishes hok hrow hne hfit hfin
  · intro hfit
    obtain ⟨ms, rs, hdrawn, ⟨hactive, hwinner, -⟩ | ⟨hfin, -⟩⟩ := (hok.rows t row hrow).started hne
    · exact finishes_of_running hok hbound ⟨hrow, hactive, hwinner, hdrawn⟩ rfl hfit
    · exact .over hrow hfin

private theorem playable_of_fit (hok : DbOk d) (hbound : Bounded d)
    (hrow : d.tournament? t = some row)
    (hne : row.status ≠ .open_)
    (hfit : nextPow2 (d.entrants t).length ≤ (d.entrants t).length + 1) : Playable d t row := by
  obtain ⟨ms, rs, ⟨players, hperm, hlen, hrounds, hholds⟩, hstage⟩ :=
    (hok.rows t row hrow).started hne
  have hcount : players.length = (d.entrants t).length := by
    rw [hperm.length_eq, List.length_map]
  have hmem : ∀ m, m ∈ d.matchesOf t ↔ m ∈ (ms :: rs).flatten := by
    intro m
    rw [hholds.matchesOf, mem_reverse_flatten]
  have hfilled := hrounds.filled hlen (hcount ▸ hfit)
  refine ⟨?_, ?_, ?_, (finishes_iff hok hbound hrow hne).mpr hfit⟩
  · intro m hm
    exact hfilled m ((hmem m).mp hm)
  · intro m hm u hu
    exact (hrounds.ok ((hmem m).mp hm)).single hu
  · intro hactive
    obtain ⟨-, -, m, hm, hpending⟩ | ⟨hfin, -⟩ := hstage
    · have hall : m ∈ (ms :: rs).flatten := by
        rw [List.flatten_cons]
        exact List.mem_append_left _ hm
      exact ⟨m, (hmem m).mpr hall, hpending, (hrounds.ok hall).two hpending (hfilled m hall)⟩
    · rw [hactive] at hfin
      cases hfin

end Playable

/-- A started tournament can be played to its end exactly when the padding adds at most one slot;
otherwise it has a match without players, and no sequence of reports finishes it. -/
theorem playable_iff {s : System.SessionState Db Change Key Stmt Ans Call Result}
    (hs : (server.sessions always).Reachable s) {t : Nat} {row : TournamentRow}
    (hrow : s.db.tournament? t = some row) (hstarted : row.status ≠ .open_) :
    (Playable s.db t row ↔ nextPow2 (s.db.entrants t).length ≤ (s.db.entrants t).length + 1) ∧
      (Finishes t s.db ↔ nextPow2 (s.db.entrants t).length ≤ (s.db.entrants t).length + 1) := by
  have hkept := System.Protocol.kept tournamentProtocol_sound backend_lawful hs
  have hbound := bounded_of_trace hkept.trace
  have hfinishes := finishes_iff hkept.inv hbound hrow hstarted
  refine ⟨⟨fun h ↦ hfinishes.mp h.finishes, ?_⟩, hfinishes⟩
  exact playable_of_fit hkept.inv hbound hrow hstarted

/-- A tournament of three is playable. -/
theorem playable_iff_threePlayers :
    ∃ s : System.SessionState Db Change Key Stmt Ans Call Result, ∃ row,
      s.db.tournament? 1 = some row ∧ row.status = .inProgress ∧ (s.db.entrants 1).length = 3 ∧
      Playable s.db 1 row := by
  have hrun : (serve noTournament (startedWith 3)).any (fun s ↦ (s.db.entrants 1).length == 3 &&
      (s.db.tournament? 1).any fun row ↦ row.status == .inProgress) = true := by
    decide +kernel
  obtain ⟨s, hserve, hfacts⟩ := Option.any_eq_true _ _ |>.mp hrun
  rw [Bool.and_eq_true, beq_iff_eq] at hfacts
  obtain ⟨hcount, hfacts⟩ := hfacts
  obtain ⟨row, hrow, hactive⟩ := Option.any_eq_true _ _ |>.mp hfacts
  rw [beq_iff_eq] at hactive
  have h := playable_iff (serve_reachable fresh_noTournament hserve) hrow (by rw [hactive]; decide)
  refine ⟨_, row, hrow, hactive, hcount, h.1.mpr ?_⟩
  rw [show (s.resting Change Key Stmt Ans).db.entrants 1 = s.db.entrants 1 from rfl, hcount]
  decide

/-- Five entrants are padded to eight slots, of which the last two make a match without players. -/
theorem not_playable_fivePlayers :
    ∃ s : System.SessionState Db Change Key Stmt Ans Call Result, ∃ row m,
      (server.sessions always).Reachable s ∧ s.db.tournament? 1 = some row ∧
      row.status = .inProgress ∧ (s.db.entrants 1).length = 5 ∧ m ∈ s.db.matchesOf 1 ∧
      m.status = .pending ∧ m.player1 = none ∧ m.player2 = none ∧ ¬ Playable s.db 1 row := by
  have hrun : (serve noTournament (startedWith 5)).any (fun s ↦ (s.db.entrants 1).length == 5 &&
      (s.db.tournament? 1).any (fun row ↦ row.status == .inProgress) &&
      (s.db.matchesOf 1).any fun m ↦ m.status == .pending && m.player1 == none &&
        m.player2 == none) = true := by
    decide +kernel
  obtain ⟨s, hserve, hfacts⟩ := Option.any_eq_true _ _ |>.mp hrun
  rw [Bool.and_eq_true, Bool.and_eq_true, beq_iff_eq] at hfacts
  obtain ⟨⟨hcount, hrow⟩, hmatch⟩ := hfacts
  obtain ⟨row, hrow, hactive⟩ := Option.any_eq_true _ _ |>.mp hrow
  obtain ⟨m, hm, hblank⟩ := List.any_eq_true.mp hmatch
  simp only [Bool.and_eq_true, beq_iff_eq] at hactive hblank
  obtain ⟨⟨hpending, hfirst⟩, hsecond⟩ := hblank
  refine ⟨_, row, m, serve_reachable fresh_noTournament hserve, hrow, hactive, hcount, hm, hpending,
    hfirst, hsecond, fun h ↦ h.player m hm ?_⟩
  rw [MatchRow.players, show m.pair = (none, none) from Prod.ext hfirst hsecond]
  rfl

end ChessStack.Tournament
