import ChessStack.Library.Serial
import ChessStack.Tournament.Effects

/-!
# Single elimination

Library `Tournament`. In every committed state of every interleaving of the transactions of
`Chess-Backend/src/models/Tournament.js` each tournament is a correct single elimination: its
entrants, its rounds, its results and its winner.
-/

namespace ChessStack.Tournament

open ChessStack.Library

/-- The matches of a tournament. -/
def Db.matchesOf (d : Db) (t : Nat) : List MatchRow := (d.index t).filterMap fun e ↦ d.match? e.id

/-- A correct single elimination. `roundOf` is what the statement that locks a round reads. -/
structure SingleElimination (d : Db) (t : Nat) (row : TournamentRow) : Prop where
  capacity : (d.entrants t).length ≤ row.maxPlayers
  once : ((d.entrants t).map Entrant.userId).Nodup
  undrawn : row.status = .open_ → d.matchesOf t = []
  drawn : row.status ≠ .open_ →
    (roundPlayers (d.roundOf t 1)).Perm ((d.entrants t).map Entrant.userId)
  /-- The matches are those of the rounds, one at each position. -/
  rounds : ∀ m ∈ d.matchesOf t, m.tournamentId = t ∧ 1 ≤ m.round ∧ m ∈ d.roundOf t m.round
  positions : ∀ r, (d.roundOf t r).map MatchRow.position = List.range (d.roundOf t r).length
  resolved : ∀ m ∈ d.matchesOf t, m.status ≠ .pending → ∃ w ∈ m.players, m.winner = some w
  /-- A round exists only after every match of the round before is resolved. -/
  after : ∀ r, 1 ≤ r → d.roundOf t (r + 1) ≠ [] → ∀ m ∈ d.roundOf t r, m.status ≠ .pending
  /-- Match `p` of a round pairs the winners of the matches `2p` and `2p + 1` of the round before. -/
  pairing : ∀ r, 1 ≤ r → ∀ p m, (d.roundOf t (r + 1))[p]? = some m →
    ∃ m₁ m₂, (d.roundOf t r)[2 * p]? = some m₁ ∧ (d.roundOf t r)[2 * p + 1]? = some m₂ ∧
      m.player1 = m₁.winner ∧ m.player2 = m₂.winner
  /-- A resolved round of two or more matches is followed by a round of half as many. -/
  next : ∀ r, 2 ≤ (d.roundOf t r).length → (∀ m ∈ d.roundOf t r, m.status ≠ .pending) →
    (d.roundOf t (r + 1)).length = (d.roundOf t r).length / 2
  losers : ∀ m ∈ d.matchesOf t, ∀ m' ∈ d.matchesOf t, m.status ≠ .pending → m.round < m'.round →
    ∀ u ∈ m.players, m.winner ≠ some u → u ∉ m'.players
  champion : ∀ w, row.winnerId = some w ↔
    ∃ r m, d.roundOf t r = [m] ∧ m.status ≠ .pending ∧ m.winner = some w

section Single

variable {d : Db} {t : Nat} {row : TournamentRow} {rs : List (List MatchRow)}

/-- The matches of a tournament are those of its rounds. -/
theorem Holds.matchesOf (h : Holds d t rs) : d.matchesOf t = rs.reverse.flatten := by
  unfold Db.matchesOf
  rw [h.index, List.filterMap_map]
  have hrows : ∀ m ∈ rs.reverse.flatten, ((fun e : Entry ↦ d.match? e.id) ∘ MatchRow.entry) m =
      some m := fun m hm ↦ h.rows m (mem_reverse_flatten.mp hm)
  rw [List.filterMap_congr hrows, List.filterMap_some]

private theorem roundOf_empty (h : d.index t = []) (r : Nat) : d.roundOf t r = [] := by
  unfold Db.roundOf Db.roundEntries
  rw [h]
  rfl

/-- The players of the seeds are the players who were shuffled. -/
theorem reduceOption_pad (players : List Nat) :
    (pad (players.map some)).reduceOption = players := by
  rw [pad_eq, List.reduceOption_append, List.reduceOption_replicate_none, List.append_nil]
  induction players with
  | nil => rfl
  | cons u players ih => rw [List.map_cons, List.reduceOption_cons_of_some, ih]

/-- An open tournament has nothing to be wrong about. -/
theorem single_open (hok : RowOk d t row) (hopen : row.status = .open_) (hempty : d.index t = [])
    (hwinner : row.winnerId = none) : SingleElimination d t row := by
  have hmatches : d.matchesOf t = [] := by
    unfold Db.matchesOf
    rw [hempty]
    rfl
  refine ⟨hok.capacity, hok.once, fun _ ↦ hmatches, fun hne ↦ absurd hopen hne, ?_, ?_, ?_, ?_, ?_,
    ?_, ?_, ?_⟩
  · rw [hmatches]
    exact nofun
  · intro r
    rw [roundOf_empty hempty]
    rfl
  · rw [hmatches]
    exact nofun
  · intro r _ hne
    exact absurd (roundOf_empty hempty _) hne
  · intro r _ p m hm
    rw [roundOf_empty hempty] at hm
    cases hm
  · intro r hlen
    rw [roundOf_empty hempty] at hlen
    exact absurd hlen (by decide)
  · rw [hmatches]
    exact nofun
  · intro w
    rw [hwinner]
    constructor
    · exact nofun
    · rintro ⟨r, m, hround, -⟩
      rw [roundOf_empty hempty] at hround
      cases hround

/-- A drawn bracket is a single elimination, once its champion is accounted for. -/
theorem single_drawn {ms : List MatchRow} (hok : RowOk d t row) (hdrawn : Drawn d t (ms :: rs))
    (hne : row.status ≠ .open_) (hlatest : (∀ m ∈ ms, m.status ≠ .pending) → ms.length < 2)
    (hchampion : ∀ w, row.winnerId = some w ↔
      ∃ m, ms = [m] ∧ m.status ≠ .pending ∧ m.winner = some w) : SingleElimination d t row := by
  obtain ⟨players, hperm, hlen, hrounds, hholds⟩ := hdrawn
  obtain ⟨k, hk⟩ := length_seeds hlen
  have hround : ∀ r, d.roundOf t r = nthRound (ms :: rs) r := hholds.roundOf hrounds
  have hmem : ∀ m, m ∈ d.matchesOf t ↔ m ∈ (ms :: rs).flatten := by
    intro m
    rw [hholds.matchesOf, mem_reverse_flatten]
  have hinside : ∀ r, nthRound (ms :: rs) r ≠ [] → 1 ≤ r ∧ r ≤ (ms :: rs).length := by
    intro r hr
    obtain ⟨m, hm⟩ := List.exists_mem_of_ne_nil _ hr
    obtain ⟨-, hpos, hle⟩ := hrounds.mem_nthRound (Rounds.mem_flatten_of_mem_nthRound hm)
    rw [← hrounds.filter_round r, List.mem_filter, beq_iff_eq] at hm
    omega
  have hok' : ∀ m ∈ (ms :: rs).flatten, MatchOk m := by
    intro m hm
    obtain ⟨hmem', hpos, hle⟩ := hrounds.mem_nthRound hm
    obtain ⟨pairs, hr⟩ := hrounds.isRound_nthRound hpos hle
    exact hr.ok m hmem'
  have hnodup : (pad (players.map some)).reduceOption.Nodup := by
    rw [reduceOption_pad]
    exact hperm.nodup_iff.mpr hok.once
  refine ⟨hok.capacity, hok.once, fun hopen ↦ absurd hopen hne, fun _ ↦ ?_, ?_, ?_, ?_, ?_, ?_, ?_,
    ?_, ?_⟩
  · rw [hround, hrounds.nthRound_one.players, reduceOption_pad]
    · exact hperm
    · rw [hk, pow_succ]
      omega
  · intro m hm
    rw [hmem] at hm
    obtain ⟨hmem', hpos, hle⟩ := hrounds.mem_nthRound hm
    obtain ⟨pairs, hr⟩ := hrounds.isRound_nthRound hpos hle
    rw [hround]
    exact ⟨hr.tournament m hmem', hpos, hmem'⟩
  · intro r
    rw [hround]
    by_cases hr : nthRound (ms :: rs) r = []
    · rw [hr]
      rfl
    · obtain ⟨hpos, hle⟩ := hinside r hr
      obtain ⟨pairs, hr⟩ := hrounds.isRound_nthRound hpos hle
      exact hr.positions
  · intro m hm hdone
    exact (hok' m ((hmem m).mp hm)).winner hdone
  · intro r hpos hr m hm
    rw [hround] at hr hm
    have hle := (hinside _ hr).2
    exact (hrounds.step hpos (by omega)).1 m hm
  · intro r hpos p m hm
    rw [hround] at hm
    have hr : nthRound (ms :: rs) (r + 1) ≠ [] := by
      intro hnil
      rw [hnil] at hm
      cases hm
    have hle := (hinside _ hr).2
    have hstep := (hrounds.step hpos (by omega)).2.2
    have hpair : ((nthRound (ms :: rs) (r + 1)).map MatchRow.pair)[p]? = some m.pair := by
      rw [List.getElem?_map, hm]
      rfl
    have heven := hrounds.even_winners hk hpos (show r < (ms :: rs).length by omega)
    rw [hstep.pairs, getElem?_pairUp _ (by rw [List.length_map]; exact heven),
      Option.bind_eq_some_iff] at hpair
    obtain ⟨w₁, hw₁, hpair⟩ := hpair
    obtain ⟨w₂, hw₂, hpair⟩ := Option.map_eq_some_iff.mp hpair
    rw [List.getElem?_map, Option.map_eq_some_iff] at hw₁ hw₂
    obtain ⟨m₁, hm₁, rfl⟩ := hw₁
    obtain ⟨m₂, hm₂, rfl⟩ := hw₂
    obtain ⟨hfirst, hsecond⟩ := Prod.mk.inj hpair
    rw [hround]
    exact ⟨m₁, m₂, hm₁, hm₂, hfirst.symm, hsecond.symm⟩
  · intro r hlen hdone
    rw [hround] at hlen hdone
    rw [hround, hround]
    obtain ⟨hpos, hle⟩ := hinside r fun hnil ↦ by
      rw [hnil] at hlen
      exact absurd hlen (by decide)
    -- the latest round is not resolved, or it is the final
    rcases Nat.eq_or_lt_of_le hle with heq | hlt
    · rw [heq, List.length_cons, nthRound, if_pos rfl] at hlen hdone
      exact absurd (hlatest hdone) (Nat.not_lt.mpr hlen)
    · have hpairs := congrArg List.length (hrounds.step hpos hlt).2.2.pairs
      have hwinners := length_pairUp ((nthRound (ms :: rs) r).map MatchRow.winner)
      have heven := hrounds.even_winners hk hpos hlt
      rw [List.length_map] at hpairs hwinners
      omega
  · intro m hm m' hm' _ hlt u hu hlost
    exact hrounds.loser_out hk hnodup ((hmem m).mp hm) ((hmem m').mp hm') hlt hu hlost
  · intro w
    rw [hchampion]
    constructor
    · rintro ⟨m, rfl, hdone, hw⟩
      refine ⟨rs.length + 1, m, ?_, hdone, hw⟩
      rw [hround, nthRound, if_pos rfl]
    · rintro ⟨r, m, hone, hdone, hw⟩
      rw [hround] at hone
      obtain ⟨hpos, hle⟩ := hinside r (by rw [hone]; exact List.cons_ne_nil _ _)
      rcases Nat.eq_or_lt_of_le hle with heq | hlt
      · rw [heq, List.length_cons, nthRound, if_pos rfl] at hone
        exact ⟨m, hone, hdone, hw⟩
      · have htwo := (hrounds.step hpos hlt).2.1
        rw [hone, List.length_singleton] at htwo
        omega

private theorem RowOk.single (hok : RowOk d t row) : SingleElimination d t row := by
  cases hok.stage with
  | open_ hopen hempty hwinner => exact single_open hok hopen hempty hwinner
  | running hactive hwinner hdrawn hm hpending =>
    refine single_drawn hok hdrawn (by rw [hactive]; decide) (fun hdone ↦ absurd hpending (hdone _ hm))
      fun w ↦ ?_
    rw [hwinner]
    constructor
    · exact nofun
    · rintro ⟨m', rfl, hdone, -⟩
      exact absurd (List.mem_singleton.mp hm ▸ hpending) hdone
  | @«over» m rs hfin hdrawn hdone hwinner =>
    refine single_drawn hok hdrawn (by rw [hfin]; decide) (fun _ ↦ Nat.one_lt_two) fun w ↦ ?_
    rw [hwinner]
    constructor
    · intro hw
      exact ⟨m, rfl, hdone, hw⟩
    · rintro ⟨m', hm', -, hw⟩
      obtain rfl := (List.cons.inj hm').1
      exact hw

end Single

/-! ### Runs -/

/-- The protocol of the tournament tables; its calls assume nothing. -/
def tournamentProtocol : System.Protocol Db Call where
  inv := DbOk
  rely := Onward
  pre _ _ := True

private theorem Fresh.ok {d : Db} (h : Fresh d) : DbOk d where
  rows t row hrow := by
    rw [h.tournaments] at hrow
    cases hrow
  orphans t _ := ⟨h.entrants t, h.index t⟩
  matches_ id m hm := by
    rw [h.matches_] at hm
    cases hm

/-- Every transaction keeps the protocol. -/
theorem keep_call {d d' : Db} {c : Call} {value : Result c} (hok : DbOk d)
    (h : backend.run (prog c) d = some (value, d')) : DbOk d' ∧ Onward d d' := by
  cases c with
  | create id creatorId name maxPlayers now => exact keep_create hok h
  | join t userId now => exact keep_join hok h
  | start t requesterId draws ids ids' => exact keep_start hok h
  | reportResult matchId reporterId winnerId ids => exact keep_reportResult hok h
  | maybeAdvanceRound t round ids =>
    obtain rfl := maybeAdvanceRound_run hok h
    exact ⟨hok, .refl _⟩

/-- Every call keeps the tables in order and takes them onward. -/
theorem tournamentProtocol_sound : tournamentProtocol.Sound server where
  start _ h := h.ok
  refl := Onward.refl
  trans _ _ _ h h' := h.trans h'
  stable _ _ _ _ _ := trivial
  commit _ _ _ _ hok _ hrun := keep_call hok hrun
  spawn t ht d _ := by
    obtain ⟨c, rfl⟩ := ht
    exact ⟨trivial, fun _ _ _ _ _ _ _ ↦ trivial⟩

/-! ### Who resolved a match -/

/-- The reporter and the winner of an outcome that resolved a match. -/
def resolutionOf (matchId : Nat) : Outcome Db Call Result → List (Nat × Int)
  | .committed (.reportResult id reporterId winnerId _) .reported _ _ _ =>
    if id = matchId then [(reporterId, winnerId)] else []
  | _ => []

/-- The reports of a run that resolved a match. -/
def resolutions (log : Log) (matchId : Nat) : List (Nat × Int) := log.flatMap (resolutionOf matchId)

/-- A match was resolved by one report of one of its players in favour of one of them, or by none. -/
structure ResolvedOnce (log : Log) (m : MatchRow) : Prop where
  unplayed : m.status ≠ .done → resolutions log m.id = []
  played : m.status = .done → ∃ reporter ∈ m.players, ∃ w ∈ m.players,
    resolutions log m.id = [(reporter, (w : Int))] ∧ m.winner = some w

section Resolutions

variable {d d' : Db}

/-- What the log says of the matches in the tables. -/
structure Account (log : Log) (d : Db) : Prop where
  found : ∀ id m, d.match? id = some m → ResolvedOnce log m
  missing : ∀ id, d.match? id = none → resolutions log id = []

/-- No match of the tables was resolved, and new ones are unplayed. -/
def Unplayed (d d' : Db) : Prop :=
  ∀ id m, d'.match? id = some m → d.match? id = some m ∨ (d.match? id = none ∧ m.status ≠ .done)

private theorem Unplayed.refl (d : Db) : Unplayed d d := fun _ _ hm ↦ Or.inl hm

private theorem Unplayed.trans {d'' : Db} (h : Unplayed d d') (h' : Unplayed d' d'')
    (hon : Onward d d') :
    Unplayed d d'' := by
  intro id m hm
  obtain hold | ⟨hnone, hne⟩ := h' id m hm
  · exact h id m hold
  · refine Or.inr ⟨?_, hne⟩
    cases hold : d.match? id with
    | none => rfl
    | some m₀ =>
      obtain ⟨m₁, hm₁, -⟩ := hon.matches_ id m₀ hold
      rw [hnone] at hm₁
      cases hm₁

private theorem Adds.unplayed {new : List MatchRow} (h : Adds d new d')
    (hnew : ∀ m ∈ new, m.status ≠ .done) :
    Unplayed d d' := by
  intro id m hm
  obtain ⟨hmem, rfl⟩ | hold := h.cases_match? hm
  · exact Or.inr ⟨(h.fresh hmem).1, hnew m hmem⟩
  · exact Or.inl hold

private theorem Advanced.unplayed {t : Nat} {row : TournamentRow} {ms : List MatchRow}
    {rs : List (List MatchRow)} (h : Advanced t row ms rs d d') : Unplayed d d' := by
  cases h with
  | same heq => exact heq ▸ .refl d
  | finished _ _ heq =>
    subst heq
    exact fun _ _ hm ↦ Or.inl hm
  | next _ _ _ hpending _ hadds =>
    refine hadds.unplayed fun m hm ↦ ?_
    rw [hpending m hm]
    decide

/-- The log grows by an outcome that resolved nothing. -/
theorem Account.unplayed {log : Log} {out : Outcome Db Call Result} (h : Account log d)
    (hok' : DbOk d') (hnew : Unplayed d d') (hon : Onward d d')
    (hout : ∀ id, resolutionOf id out = []) : Account (log ++ [out]) d' := by
  have hsame : ∀ id, resolutions (log ++ [out]) id = resolutions log id := by
    intro id
    unfold resolutions
    rw [List.flatMap_append, List.flatMap_singleton, hout, List.append_nil]
  constructor
  · intro id m hm
    obtain hold | ⟨hnone, hne⟩ := hnew id m hm
    · obtain ⟨hunplayed, hplayed⟩ := h.found id m hold
      exact ⟨fun hne ↦ (hsame _).trans (hunplayed hne), fun hdone ↦ by rw [hsame]; exact hplayed hdone⟩
    · obtain ⟨rfl, -⟩ := hok'.matches_ id m hm
      exact ⟨fun _ ↦ (hsame _).trans (h.missing _ hnone), fun hdone ↦ absurd hdone hne⟩
  · intro id hnone
    rw [hsame]
    apply h.missing
    cases hold : d.match? id with
    | none => rfl
    | some m =>
      obtain ⟨m', hm', -⟩ := hon.matches_ id m hold
      rw [hnone] at hm'
      cases hm'

/-- An accepted report is the one that resolved its match. -/
theorem Account.reported {log : Log} {matchId reporterId w : Nat} {m : MatchRow}
    {row : TournamentRow} {ms : List MatchRow} {rs : List (List MatchRow)} {ids : Nat → Nat}
    {answered : Bool} (h : Account log d) (hok : DbOk d) (hok' : DbOk d')
    (hr : Reported matchId reporterId w m row ms rs d d') :
    Account (log ++ [.committed (.reportResult matchId reporterId w ids) .reported d d' answered])
      d' := by
  obtain ⟨hid, -⟩ := hok.matches_ matchId m hr.found
  subst hid
  have hlog : ∀ id, resolutions (log ++ [.committed (.reportResult m.id reporterId w ids) .reported d d'
      answered]) id = resolutions log id ++ if m.id = id then [(reporterId, (w : Int))] else [] := by
    intro id
    unfold resolutions
    rw [List.flatMap_append, List.flatMap_singleton]
    rfl
  have hnow : d'.match? m.id = some (m.resolved w) := by
    obtain ⟨m', hm', -, hsame⟩ := (hr.advanced.onward hr.running.found hr.running.active).matches_ m.id
      (m.resolved w) (by rw [Db.match?_resolve, if_pos rfl, hr.found]; rfl)
    rw [hm', hsame nofun]
  constructor
  · intro id m' hm'
    by_cases hid : id = m.id
    · subst hid
      obtain rfl := Option.some.inj (hnow.symm.trans hm')
      refine ⟨fun hne ↦ absurd rfl hne, fun _ ↦ ⟨reporterId, hr.reporter, w, hr.winner, ?_, rfl⟩⟩
      rw [hlog]
      have hnone := (h.found m.id m hr.found).unplayed (by rw [hr.pending]; decide)
      change resolutions log m.id ++ (if m.id = m.id then _ else _) = _
      rw [hnone, if_pos rfl, List.nil_append]
    · obtain ⟨hid', -⟩ := hok'.matches_ id m' hm'
      have hsame : resolutions (log ++ [.committed (.reportResult m.id reporterId w ids) .reported d d'
          answered]) m'.id = resolutions log m'.id := by
        rw [hlog, hid', if_neg (Ne.symm hid), List.append_nil]
      obtain hold | ⟨hnone, hne⟩ := hr.advanced.unplayed id m' hm'
      · rw [Db.match?_resolve, if_neg hid] at hold
        obtain ⟨hunplayed, hplayed⟩ := h.found id m' hold
        exact ⟨fun hne ↦ hsame.trans (hunplayed hne),
          fun hdone ↦ by rw [hsame]; exact hplayed hdone⟩
      · rw [Db.match?_resolve, if_neg hid] at hnone
        exact ⟨fun _ ↦ hsame.trans (hid' ▸ h.missing id hnone), fun hdone ↦ absurd hdone hne⟩
  · intro id hnone
    have hold : d.match? id = none := by
      cases hold : d.match? id with
      | none => rfl
      | some m₀ =>
        obtain ⟨m', hm', -⟩ := hr.onward.matches_ id m₀ hold
        rw [hnone] at hm'
        cases hm'
    rw [hlog, h.missing id hold, if_neg, List.nil_append]
    rintro rfl
    rw [hr.found] at hold
    cases hold

private theorem account_commit {log : Log} {c : Call} {value : Result c} {answered : Bool}
    (h : Account log d) (hok : DbOk d) (hrun : backend.run (prog c) d = some (value, d')) :
    Account (log ++ [.committed c value d d' answered]) d' := by
  obtain ⟨hok', hon⟩ := keep_call hok hrun
  cases c with
  | create id creatorId name maxPlayers now =>
    obtain ⟨-, -, -, -, -, rfl⟩ := create_run hrun
    exact h.unplayed hok' (fun _ _ hm ↦ Or.inl hm) hon fun _ ↦ rfl
  | join t userId now =>
    refine h.unplayed hok' ?_ hon fun _ ↦ rfl
    obtain ⟨-, rfl⟩ | ⟨-, row, -, -, -, -, -, rfl⟩ := join_run hrun <;> exact fun _ _ hm ↦ Or.inl hm
  | start t requesterId draws ids ids' =>
    refine h.unplayed hok' ?_ hon fun _ ↦ rfl
    obtain ⟨-, rfl⟩ | ⟨-, row, new, d₂, hs⟩ := start_run hok hrun
    · exact .refl _
    · obtain ⟨d₁, hadds, rfl⟩ := hs.added
      have hnew : ∀ m ∈ new, m.tournamentId = t := by
        obtain ⟨players, -, -, hrounds, -⟩ := hs.drawn
        cases hrounds with
        | first hround => exact hround.tournament
      exact Unplayed.trans (hadds.unplayed hs.unplayed) hs.advanced.unplayed (hadds.onward hnew)
  | reportResult matchId reporterId winnerId ids =>
    obtain ⟨⟨message, rfl⟩, rfl⟩ | ⟨rfl, w, rfl, m, row, ms, rs, hr⟩ := reportResult_run hok hrun
    · exact h.unplayed hok' (.refl _) hon fun _ ↦ rfl
    · exact h.reported hok hok' hr
  | maybeAdvanceRound t round ids =>
    obtain rfl := maybeAdvanceRound_run hok hrun
    exact h.unplayed hok' (.refl _) hon fun _ ↦ rfl

private theorem account_of_trace {allowed : Call → Db → Prop} {log : Log}
    (h : tournamentProtocol.Trace server allowed log d) : Account log d := by
  refine h.rule (J := Account) ?_ ?_ ?_
  · intro d hd
    refine ⟨fun id m hm ↦ ?_, fun _ _ ↦ rfl⟩
    rw [hd.matches_] at hm
    cases hm
  · intro log d c value d' answered ih hok _ _ hrun
    exact account_commit ih hok hrun
  · intro log d c ih
    have hsame : ∀ id, resolutions (log ++ [.failed c]) id = resolutions log id := by
      intro id
      unfold resolutions
      rw [List.flatMap_append]
      exact List.append_nil _
    constructor
    · intro id m hm
      obtain ⟨hunplayed, hplayed⟩ := ih.found id m hm
      exact ⟨fun hne ↦ (hsame _).trans (hunplayed hne), fun hdone ↦ by rw [hsame]; exact hplayed hdone⟩
    · intro id hnone
      exact (hsame id).trans (ih.missing id hnone)

end Resolutions

/-- In every committed state, under every interleaving, each tournament is a correct single
elimination, each of its matches was resolved at most once and by its players, and from there on
entrants, matches and results stay. -/
theorem single_elimination
    {s : System.SessionState Db Change Key Stmt Ans Call Result}
    (hs : (server.sessions always).Reachable s) {t : Nat} {row : TournamentRow}
    (hrow : s.db.tournament? t = some row) :
    SingleElimination s.db t row ∧ (∀ m ∈ s.db.matchesOf t, ResolvedOnce s.log m) ∧
      ∀ s', (server.sessions always).Steps s s' → Onward s.db s'.db := by
  have hkept := System.Protocol.kept tournamentProtocol_sound backend_lawful hs
  refine ⟨(hkept.inv.rows t row hrow).single, ?_, ?_⟩
  · intro m hm
    obtain ⟨e, -, he⟩ := List.mem_filterMap.mp hm
    exact (account_of_trace hkept.trace).found e.id m he
  · intro s' hsteps
    exact System.Protocol.rely_of_steps tournamentProtocol_sound backend_lawful hs hsteps

/-! ### Scripted runs -/

/-- Requests served one after the other, each as a task of its own. -/
def serve (d : Db) (calls : List Call) : Option (System.AtomicState Db Call Result) :=
  server.performAll ⟨d, fun _ ↦ .done, []⟩
    (calls.flatMap fun c ↦ [.spawn 0 (.call c fun _ ↦ .done), .go 0])

/-- Calls served one after the other are a run. -/
theorem serve_reachable {d : Db} (hd : Fresh d) {calls : List Call}
    {s : System.AtomicState Db Call Result} (h : serve d calls = some s) :
    (server.sessions always).Reachable (s.resting Change Key Stmt Ans) := by
  apply System.reachable_resting
  have hinit : (server.atomic always).init ⟨d, fun _ ↦ .done, []⟩ := ⟨hd, rfl, fun _ ↦ rfl⟩
  refine System.performAll_reachable (fun _ _ ↦ trivial) (.init hinit) ?_ h
  intro action haction
  obtain ⟨c, -, hc⟩ := List.mem_flatMap.mp haction
  simp only [List.mem_cons, List.not_mem_nil, or_false] at hc
  rcases hc with rfl | rfl
  · exact ⟨c, rfl⟩
  · trivial

/-- No tournament yet, and eight accounts. -/
def noTournament : Db := ⟨fun _ ↦ none, fun _ ↦ [], fun _ ↦ [], fun _ ↦ none, List.range' 1 8⟩

/-- There is no tournament yet. -/
theorem fresh_noTournament : Fresh noTournament := ⟨fun _ ↦ rfl, fun _ ↦ rfl, fun _ ↦ rfl, fun _ ↦ rfl⟩

/-- User 1 creates tournament 1 and starts it with `n` entrants, in the order of their ids. -/
def startedWith (n : Nat) : List Call :=
  Call.create 1 1 "Cup" 8 0 :: (List.range' 2 (n - 1)).map (fun u ↦ Call.join 1 u u) ++
    [Call.start 1 1 (fun i ↦ Fin.last i) (· + 10) (· + 20)]

/-- Two rounds of four players: user 1 beats 2 and user 3 beats 4, then user 3 wins the final. -/
theorem single_elimination_twoRounds :
    ∃ s : System.SessionState Db Change Key Stmt Ans Call Result, ∃ row,
      s.db.tournament? 1 = some row ∧ row.status = .finished ∧ row.winnerId = some 3 ∧
      (s.db.roundOf 1 1).length = 2 ∧ (s.db.roundOf 1 2).length = 1 ∧
      SingleElimination s.db 1 row ∧ ∀ m ∈ s.db.matchesOf 1, ResolvedOnce s.log m := by
  have hrun : (serve noTournament (startedWith 4 ++ [Call.reportResult 10 1 1 (· + 20),
      .reportResult 11 3 3 (· + 20), .reportResult 20 3 3 (· + 30)])).any (fun s ↦
      (s.db.tournament? 1).any fun row ↦ row.status == .finished && row.winnerId == some 3 &&
        (s.db.roundOf 1 1).length == 2 && (s.db.roundOf 1 1).all (·.status != .pending)) = true := by
    decide +kernel
  obtain ⟨s, hserve, hfacts⟩ := Option.any_eq_true _ _ |>.mp hrun
  obtain ⟨row, hrow, hfacts⟩ := Option.any_eq_true _ _ |>.mp hfacts
  simp only [Bool.and_eq_true, beq_iff_eq, List.all_eq_true, bne_iff_ne] at hfacts
  obtain ⟨⟨⟨hfinished, hwinner⟩, htwo⟩, hdone⟩ := hfacts
  have h := single_elimination (serve_reachable fresh_noTournament hserve) hrow
  have hnext := h.1.next 1 (Nat.le_of_eq htwo.symm) hdone
  exact ⟨_, row, hrow, hfinished, hwinner, htwo, hnext.trans (congrArg (· / 2) htwo), h.1, h.2.1⟩

end ChessStack.Tournament
