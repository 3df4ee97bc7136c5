import ChessStack.Tournament.Invariant

/-!
# What the tournament transactions do

Library `Tournament`. For each transaction of `Chess-Backend/src/models/Tournament.js` everything
a committed run can have done, how the tables move on, and that the invariant is kept.
-/

namespace ChessStack.Tournament

open ChessStack.Library

variable {d d' : Db} {t : Nat}

/-! ### How the tables move on -/

/-- The rows of a match that no update changes. -/
def MatchRow.slot (m : MatchRow) : Nat × Nat × Nat × Nat × Option Nat × Option Nat :=
  (m.id, m.tournamentId, m.round, m.position, m.player1, m.player2)

/-- How the tables can change: a drawn bracket keeps its entrants and its matches, and what is
resolved or finished stays. -/
structure Onward (d d' : Db) : Prop where
  rows : ∀ t row, d.tournament? t = some row → ∃ row', d'.tournament? t = some row' ∧
    row'.maxPlayers = row.maxPlayers ∧
    (row.status ≠ .open_ → row'.status ≠ .open_ ∧ d'.entrants t = d.entrants t) ∧
    (row.status = .finished → row' = row)
  index : ∀ t, ∃ more, d'.index t = d.index t ++ more
  matches_ : ∀ id m, d.match? id = some m → ∃ m', d'.match? id = some m' ∧ m'.slot = m.slot ∧
    (m.status ≠ .pending → m' = m)

/-- Tables are onward from themselves. -/
theorem Onward.refl (d : Db) : Onward d d where
  rows _ row hrow := ⟨row, hrow, rfl, fun h ↦ ⟨h, rfl⟩, fun _ ↦ rfl⟩
  index _ := ⟨[], (List.append_nil _).symm⟩
  matches_ _ m hm := ⟨m, hm, rfl, fun _ ↦ rfl⟩

/-- Onward from onward. -/
theorem Onward.trans {d'' : Db} (h : Onward d d') (h' : Onward d' d'') : Onward d d'' where
  rows t row hrow := by
    obtain ⟨row₁, hrow₁, hmax₁, hdrawn₁, hfin₁⟩ := h.rows t row hrow
    obtain ⟨row₂, hrow₂, hmax₂, hdrawn₂, hfin₂⟩ := h'.rows t row₁ hrow₁
    refine ⟨row₂, hrow₂, hmax₂.trans hmax₁, fun hne ↦ ?_, fun hfin ↦ ?_⟩
    · obtain ⟨hne₁, hentrants₁⟩ := hdrawn₁ hne
      obtain ⟨hne₂, hentrants₂⟩ := hdrawn₂ hne₁
      exact ⟨hne₂, hentrants₂.trans hentrants₁⟩
    · have heq := hfin₁ hfin
      exact (hfin₂ (heq ▸ hfin)).trans heq
  index t := by
    obtain ⟨more, hmore⟩ := h.index t
    obtain ⟨more', hmore'⟩ := h'.index t
    exact ⟨more ++ more', by rw [hmore', hmore, List.append_assoc]⟩
  matches_ id m hm := by
    obtain ⟨m₁, hm₁, hslot₁, hdone₁⟩ := h.matches_ id m hm
    obtain ⟨m₂, hm₂, hslot₂, hdone₂⟩ := h'.matches_ id m₁ hm₁
    refine ⟨m₂, hm₂, hslot₂.trans hslot₁, fun hne ↦ ?_⟩
    have heq := hdone₁ hne
    exact (hdone₂ (heq ▸ hne)).trans heq

private theorem onward_addEntrant {e : Entrant} (hopen : ∀ row, d.tournament? t = some row →
    row.status = .open_) : Onward d (d.apply (.addEntrant t e)) where
  rows u row hrow := by
    refine ⟨row, hrow, rfl, fun hne ↦ ⟨hne, ?_⟩, fun _ ↦ rfl⟩
    rw [Db.entrants_addEntrant, if_neg]
    rintro rfl
    exact hne (hopen row hrow)
  index _ := ⟨[], (List.append_nil _).symm⟩
  matches_ _ m hm := ⟨m, hm, rfl, fun _ ↦ rfl⟩

private theorem onward_putTournament {row : TournamentRow}
    (hrow : ∀ old, d.tournament? t = some old → row.maxPlayers = old.maxPlayers ∧
      (old.status ≠ .open_ → row.status ≠ .open_) ∧ old.status ≠ .finished) :
    Onward d (d.apply (.putTournament t row)) where
  rows u old hold := by
    by_cases hu : u = t
    · subst hu
      obtain ⟨hmax, hdrawn, hfin⟩ := hrow old hold
      refine ⟨row, ?_, hmax, fun hne ↦ ⟨hdrawn hne, rfl⟩, fun h ↦ absurd h hfin⟩
      rw [Db.tournament?_putTournament, if_pos rfl]
    · refine ⟨old, ?_, rfl, fun hne ↦ ⟨hne, rfl⟩, fun _ ↦ rfl⟩
      rw [Db.tournament?_putTournament, if_neg hu, hold]
  index _ := ⟨[], (List.append_nil _).symm⟩
  matches_ _ m hm := ⟨m, hm, rfl, fun _ ↦ rfl⟩

/-- New matches take the tables onward. -/
theorem Adds.onward {new : List MatchRow} (h : Adds d new d') (hnew : ∀ m ∈ new, m.tournamentId = t) :
    Onward d d' where
  rows u row hrow :=
    ⟨row, (h.tournament? u).trans hrow, rfl, fun hne ↦ ⟨hne, h.entrants u⟩, fun _ ↦ rfl⟩
  index u := by
    by_cases hu : u = t
    · subst hu
      exact ⟨_, h.index hnew⟩
    · exact ⟨[], by rw [h.index_of_ne hnew hu, List.append_nil]⟩
  matches_ _ m hm := ⟨m, h.match?_of_some hm, rfl, fun _ ↦ rfl⟩

private theorem onward_resolve {id w : Nat} {m : MatchRow} (hm : d.match? id = some m)
    (hpending : m.status = .pending) : Onward d (d.apply (.resolve id w)) where
  rows _ row hrow := ⟨row, hrow, rfl, fun hne ↦ ⟨hne, rfl⟩, fun _ ↦ rfl⟩
  index _ := ⟨[], (List.append_nil _).symm⟩
  matches_ id' m' hm' := by
    rw [Db.match?_resolve]
    by_cases hid : id' = id
    · subst hid
      obtain rfl := Option.some.inj (hm.symm.trans hm')
      rw [if_pos rfl, hm]
      exact ⟨m.resolved w, rfl, rfl, fun hne ↦ absurd hpending hne⟩
    · rw [if_neg hid]
      exact ⟨m', hm', rfl, fun _ ↦ rfl⟩

/-- The next round takes the tables onward. -/
theorem Advanced.onward {row : TournamentRow} {ms : List MatchRow} {rs : List (List MatchRow)}
    (h : Advanced t row ms rs d d') (hrow : d.tournament? t = some row)
    (hactive : row.status = .inProgress) : Onward d d' := by
  cases h with
  | same heq =>
    subst heq
    exact .refl d'
  | finished _ _ heq =>
    subst heq
    apply onward_putTournament
    intro old hold
    obtain rfl := Option.some.inj (hrow.symm.trans hold)
    refine ⟨rfl, fun _ ↦ nofun, ?_⟩
    rw [hactive]
    decide
  | next _ _ hround _ _ hadds => exact hadds.onward hround.tournament

/-! ### create and join -/

/-- A created tournament is open, and its creator has entered it. -/
theorem create_run {id creatorId maxPlayers now : Nat} {name : String} {value : TournamentRow}
    (h : backend.run (create id creatorId name maxPlayers now) d = some (value, d')) :
    d.tournament? id = none ∧ value = ⟨id, name, creatorId, maxPlayers, .open_, none⟩ ∧
      (d.entrants id).length < maxPlayers ∧ (∀ e ∈ d.entrants id, e.userId ≠ creatorId) ∧
      creatorId ∈ d.users ∧
      d' = (d.apply (.putTournament id value)).apply (.addEntrant id ⟨creatorId, now⟩) := by
  rw [create, Database.run_bind, Option.bind_eq_some_iff] at h
  obtain ⟨⟨created, d₁⟩, hinsert, h⟩ := h
  obtain ⟨cs, hexec, rfl⟩ := exec_of_run_sql hinsert
  simp only [exec] at hexec
  split at hexec
  · next hok =>
    obtain ⟨rfl, rfl⟩ := Prod.mk.inj (Option.some.inj hexec)
    rw [Bool.and_eq_true, Option.isNone_iff_eq_none] at hok
    rw [Database.run_bind, Option.bind_eq_some_iff] at h
    obtain ⟨⟨joined, d₂⟩, hjoin, h⟩ := h
    obtain ⟨row, hrow, -, hroom, hnew, huser, rfl, rfl⟩ := run_insertEntrant hjoin
    obtain ⟨rfl, rfl⟩ := Prod.mk.inj (Option.some.inj h)
    have hrow' : (d.apply (.putTournament id ⟨id, name, creatorId, maxPlayers, .open_, none⟩)).tournament?
        id = some row := hrow
    rw [Db.tournament?_putTournament, if_pos rfl, Option.some.injEq] at hrow'
    subst hrow'
    exact ⟨hok.2, rfl, hroom, hnew, huser, rfl⟩
  · cases hexec

/-- A join that changed anything was the user's first, in time and with room left. -/
theorem join_run {u now : Nat} {value : Reply}
    (h : backend.run (join t u now) d = some (value, d')) :
    (value ≠ .joined ∧ d' = d) ∨ (value = .joined ∧ ∃ row, d.tournament? t = some row ∧
      row.status = .open_ ∧ (d.entrants t).length < row.maxPlayers ∧
      (∀ e ∈ d.entrants t, e.userId ≠ u) ∧ u ∈ d.users ∧ d' = d.apply (.addEntrant t ⟨u, now⟩)) := by
  rw [join, Database.run_bind, run_lockTournament, Option.bind_some] at h
  dsimp only at h
  split at h
  · obtain ⟨rfl, rfl⟩ := Prod.mk.inj (Option.some.inj h)
    exact Or.inl ⟨nofun, rfl⟩
  · split at h
    · obtain ⟨rfl, rfl⟩ := Prod.mk.inj (Option.some.inj h)
      exact Or.inl ⟨nofun, rfl⟩
    · rw [Database.run_bind, run_findEntrant, Option.bind_some] at h
      split at h
      · obtain ⟨rfl, rfl⟩ := Prod.mk.inj (Option.some.inj h)
        exact Or.inl ⟨nofun, rfl⟩
      · rw [Database.run_bind, run_countEntrants, Option.bind_some] at h
        split at h
        · obtain ⟨rfl, rfl⟩ := Prod.mk.inj (Option.some.inj h)
          exact Or.inl ⟨nofun, rfl⟩
        · rw [Database.run_bind, Option.bind_eq_some_iff] at h
          obtain ⟨⟨inserted, d₁⟩, hinsert, h⟩ := h
          obtain ⟨row, hrow, hopen, hroom, hnew, huser, rfl, rfl⟩ := run_insertEntrant hinsert
          obtain ⟨rfl, rfl⟩ := Prod.mk.inj (Option.some.inj h)
          exact Or.inr ⟨rfl, row, hrow, hopen, hroom, hnew, huser, rfl⟩

/-- A new entrant of an open tournament with room keeps its row in order. -/
theorem RowOk.addEntrant {row : TournamentRow} {u now : Nat} (h : RowOk d t row)
    (hopen : row.status = .open_) (hroom : (d.entrants t).length < row.maxPlayers)
    (hnew : ∀ e ∈ d.entrants t, e.userId ≠ u) (huser : u ∈ d.users) :
    RowOk (d.apply (.addEntrant t ⟨u, now⟩)) t row := by
  have hentrants : (d.apply (.addEntrant t ⟨u, now⟩)).entrants t = d.entrants t ++ [⟨u, now⟩] := by
    rw [Db.entrants_addEntrant, if_pos rfl]
  constructor
  · rw [hentrants, List.length_append, List.length_singleton]
    exact hroom
  · rw [hentrants, List.map_append, List.nodup_append]
    refine ⟨h.once, List.nodup_singleton _, ?_⟩
    intro id hid id' hid' heq
    obtain ⟨e, he, rfl⟩ := List.mem_map.mp hid
    rw [List.map_singleton, List.mem_singleton] at hid'
    exact hnew e he (heq.trans hid')
  · intro e he
    rw [hentrants, List.mem_append, List.mem_singleton] at he
    rcases he with he | rfl
    · exact h.exist e he
    · exact huser
  · cases h.stage with
    | open_ _ hempty hwinner => exact .open_ hopen hempty hwinner
    | running hactive => rw [hopen] at hactive; cases hactive
    | «over» hfin => rw [hopen] at hfin; cases hfin

/-- `create` keeps the tables in order. -/
theorem keep_create {id creatorId maxPlayers now : Nat} {name : String} {value : TournamentRow}
    (hok : DbOk d)
    (h : backend.run (create id creatorId name maxPlayers now) d = some (value, d')) :
    DbOk d' ∧ Onward d d' := by
  obtain ⟨hnone, hvalue, hroom, hnew, huser, rfl⟩ := create_run h
  obtain ⟨hentrants, hindex⟩ := hok.orphans id hnone
  have hrow : (d.apply (.putTournament id value)).tournament? id = some value := by
    rw [Db.tournament?_putTournament, if_pos rfl]
  have hopen : value.status = .open_ := by rw [hvalue]
  have hempty : RowOk (d.apply (.putTournament id value)) id value := by
    refine ⟨?_, ?_, ?_, .open_ hopen hindex (by rw [hvalue])⟩ <;>
      rw [show (d.apply (.putTournament id value)).entrants id = [] from hentrants]
    · exact Nat.zero_le _
    · exact List.nodup_nil
    · exact nofun
  have hmid : DbOk (d.apply (.putTournament id value)) :=
    hok.touch (touches_putTournament hok) ⟨value, hrow, hempty⟩
  constructor
  · refine hmid.touch (touches_addEntrant hmid _) ⟨value, hrow, hempty.addEntrant hopen ?_ hnew huser⟩
    rw [hvalue]
    exact hroom
  · refine (onward_putTournament fun old hold ↦ ?_).trans (onward_addEntrant fun row hrow' ↦ ?_)
    · rw [hnone] at hold
      cases hold
    · obtain rfl := Option.some.inj (hrow.symm.trans hrow')
      exact hopen

/-- `join` keeps the tables in order. -/
theorem keep_join {u now : Nat} {value : Reply} (hok : DbOk d)
    (h : backend.run (join t u now) d = some (value, d')) : DbOk d' ∧ Onward d d' := by
  obtain ⟨-, rfl⟩ | ⟨-, row, hrow, hopen, hroom, hnew, huser, rfl⟩ := join_run h
  · exact ⟨hok, .refl _⟩
  · refine ⟨hok.touch (touches_addEntrant hok _)
      ⟨row, hrow, (hok.rows t row hrow).addEntrant hopen hroom hnew huser⟩,
      onward_addEntrant fun row' hrow' ↦ ?_⟩
    obtain rfl := Option.some.inj (hrow.symm.trans hrow')
    exact hopen

/-! ### start -/

/-- What a start that went through did: it drew the first round from a shuffle of the entrants,
and tried to advance it. -/
structure Started (t requesterId : Nat) (row : TournamentRow) (new : List MatchRow) (d d₂ d' : Db) :
    Prop where
  found : d.tournament? t = some row
  creator : row.creatorId = requesterId
  opened : row.status = .open_
  drawn : Drawn d₂ t [new]
  unplayed : ∀ m ∈ new, m.status ≠ .done
  added : ∃ d₁, Adds d new d₁ ∧ d₂ = d₁.apply (.putTournament t { row with status := .inProgress })
  advanced : Advanced t { row with status := .inProgress } new [] d₂ d'
  moved : (∀ m ∈ new, m.status ≠ .pending) → d' ≠ d₂

/-- The players `start` reads are the entrants. -/
theorem playersOf_perm {row : TournamentRow} (h : RowOk d t row) :
    ((((d.entrants t).insertionSort fun e e' ↦ e.joinedAt ≤ e'.joinedAt).map
      Entrant.userId).filter d.users.contains).Perm ((d.entrants t).map Entrant.userId) := by
  have hperm : (((d.entrants t).insertionSort fun e e' ↦ e.joinedAt ≤ e'.joinedAt).map
      Entrant.userId).Perm ((d.entrants t).map Entrant.userId) :=
    (List.perm_insertionSort _ _).map _
  rw [List.filter_eq_self.mpr]
  · exact hperm
  · intro id hid
    obtain ⟨e, he, rfl⟩ := List.mem_map.mp (hperm.mem_iff.mp hid)
    exact List.contains_iff_mem.mpr (h.exist e he)

/-- What `start` has done when it commits. -/
theorem start_run {requesterId : Nat} {draws : (i : Nat) → Fin (i + 1)} {ids ids' : Nat → Nat}
    {value : Reply} (hok : DbOk d)
    (h : backend.run (start t requesterId draws ids ids') d = some (value, d')) :
    ((∃ message, value = .error message) ∧ d' = d) ∨
      (value = .started ∧ ∃ row new d₂, Started t requesterId row new d d₂ d') := by
  rw [start, Database.run_bind, run_lockTournament, Option.bind_some] at h
  dsimp only at h
  split at h
  · obtain ⟨rfl, rfl⟩ := Prod.mk.inj (Option.some.inj h)
    exact Or.inl ⟨⟨_, rfl⟩, rfl⟩
  · next row hrow =>
    split at h
    · obtain ⟨rfl, rfl⟩ := Prod.mk.inj (Option.some.inj h)
      exact Or.inl ⟨⟨_, rfl⟩, rfl⟩
    · next hcreator =>
      split at h
      · obtain ⟨rfl, rfl⟩ := Prod.mk.inj (Option.some.inj h)
        exact Or.inl ⟨⟨_, rfl⟩, rfl⟩
      · next hopen =>
        rw [not_not] at hcreator hopen
        rw [Database.run_bind, run_playersOf, Option.bind_some] at h
        dsimp only at h
        have hperm := playersOf_perm (hok.rows t row hrow)
        generalize (((d.entrants t).insertionSort fun e e' ↦ e.joinedAt ≤ e'.joinedAt).map
          Entrant.userId).filter d.users.contains = players at h hperm
        split at h
        · obtain ⟨rfl, rfl⟩ := Prod.mk.inj (Option.some.inj h)
          exact Or.inl ⟨⟨_, rfl⟩, rfl⟩
        · next hmany =>
          rw [Database.run_bind, Option.bind_eq_some_iff] at h
          obtain ⟨⟨⟨⟩, d₁⟩, hbracket, h⟩ := h
          rw [Database.run_bind, Option.bind_eq_some_iff] at h
          obtain ⟨⟨updated, d₂⟩, hstart, h⟩ := h
          split at h
          · cases h
          · next hone =>
            obtain rfl := not_not.mp hone
            rw [Database.run_bind, Option.bind_eq_some_iff] at h
            obtain ⟨⟨⟨⟩, d₃⟩, hadvance, h⟩ := h
            obtain ⟨rfl, rfl⟩ := Prod.mk.inj (Option.some.inj h)
            obtain ⟨row', hrow', -, rfl⟩ := run_startTournament hstart
            have hadds := insertBracket_run hbracket
            rw [hadds.tournament? t, hrow, Option.some.injEq] at hrow'
            subst hrow'
            have hround := @isRound_first t ids (pairUp (pad ((shuffle draws players).map some)))
            have hempty : d.index t = [] := by
              cases (hok.rows t row hrow).stage with
              | open_ _ hempty _ => exact hempty
              | running hactive => rw [hopen] at hactive; cases hactive
              | «over» hfin => rw [hopen] at hfin; cases hfin
            have hlen : 2 ≤ (shuffle draws players).length := by
              rw [(shuffle_perm draws players).length_eq]
              omega
            obtain ⟨k, hk⟩ := length_seeds hlen
            have hnil : Holds d t [] := ⟨by rw [hempty]; rfl, nofun, List.nodup_nil⟩
            have hholds : Holds (d₁.apply (.putTournament t { row with status := .inProgress })) t
                [rowsFrom (firstMatch t ids) (pairUp (pad ((shuffle draws players).map some))) 0] :=
              (hnil.adds hadds hround.tournament).congr rfl fun _ _ ↦ rfl
            obtain ⟨hadvanced, hmoved⟩ := advanceRound_run (by
              rw [Db.tournament?_putTournament, if_pos rfl]) rfl (.first hround) hk hholds hadvance
            refine Or.inr ⟨rfl, row, _, _, hrow, hcreator, hopen,
              ⟨_, ?_, hlen, .first hround, hholds⟩, ?_, ⟨d₁, hadds, rfl⟩, hadvanced,
              fun hdone ↦ hmoved rfl hdone⟩
            · rw [Db.entrants_putTournament, hadds.entrants t]
              exact (shuffle_perm draws players).trans hperm
            · intro m hm
              obtain ⟨q, pair, -, rfl⟩ := mem_rowsFrom hm
              change (if (byeWinner pair).isSome then MatchStatus.bye else .pending) ≠ .done
              split <;> decide

/-- `start` keeps the tables in order. -/
theorem keep_start {requesterId : Nat} {draws : (i : Nat) → Fin (i + 1)} {ids ids' : Nat → Nat}
    {value : Reply} (hok : DbOk d)
    (h : backend.run (start t requesterId draws ids ids') d = some (value, d')) :
    DbOk d' ∧ Onward d d' := by
  obtain ⟨-, rfl⟩ | ⟨-, row, new, d₂, hs⟩ := start_run hok h
  · exact ⟨hok, .refl _⟩
  · obtain ⟨d₁, hadds, rfl⟩ := hs.added
    have hrowok := hok.rows t row hs.found
    have hwinner : row.winnerId = none := by
      cases hrowok.stage with
      | open_ _ _ hwinner => exact hwinner
      | running _ hwinner => exact hwinner
      | «over» hfin => rw [hs.opened] at hfin; cases hfin
    have hnew : ∀ m ∈ new, m.tournamentId = t := by
      obtain ⟨players, -, -, hrounds, -⟩ := hs.drawn
      cases hrounds with
      | first hround => exact hround.tournament
    have hmid := hadds.touches hok.matches_ hnew
    have hput : Touches t d (d₁.apply (.putTournament t { row with status := .inProgress })) := by
      refine hmid.trans ⟨?_, fun _ _ ↦ rfl, fun _ _ ↦ rfl, rfl, fun _ _ _ hm ↦ hm, hmid.found⟩
      intro u hu
      rw [Db.tournament?_putTournament, if_neg hu]
    have hrow₂ : (d₁.apply (.putTournament t { row with status := .inProgress })).tournament? t =
        some { row with status := .inProgress } := by
      rw [Db.tournament?_putTournament, if_pos rfl]
    obtain ⟨htouch, hentrants, row', hrow', hmax, hstage⟩ :=
      hs.advanced.ok hs.moved hrow₂ rfl hwinner hs.drawn hput.found
    constructor
    · refine hok.touch (hput.trans htouch) ⟨row', hrow', hrowok.restage hmax ?_ ?_ hstage⟩
      · rw [hentrants]
        exact hadds.entrants t
      · exact (hput.trans htouch).users
    · refine ((hadds.onward hnew).trans (onward_putTournament fun old hold ↦ ?_)).trans
        (hs.advanced.onward hrow₂ rfl)
      rw [hadds.tournament? t, hs.found, Option.some.injEq] at hold
      subst hold
      refine ⟨rfl, fun _ ↦ nofun, ?_⟩
      rw [hs.opened]
      decide

/-! ### reportResult and maybeAdvanceRound -/

/-- A running tournament, as the invariant has it. -/
structure Running (d : Db) (t : Nat) (row : TournamentRow) (ms : List MatchRow)
    (rs : List (List MatchRow)) : Prop where
  found : d.tournament? t = some row
  active : row.status = .inProgress
  undecided : row.winnerId = none
  drawn : Drawn d t (ms :: rs)

/-- What an accepted report did: it resolved a pending match of the latest round in favour of one
of its players, and tried to advance the round. -/
structure Reported (matchId reporterId w : Nat) (m : MatchRow) (row : TournamentRow)
    (ms : List MatchRow) (rs : List (List MatchRow)) (d d' : Db) : Prop where
  running : Running d m.tournamentId row ms rs
  found : d.match? matchId = some m
  latest : m ∈ ms
  pending : m.status = .pending
  winner : w ∈ m.players
  reporter : reporterId ∈ m.players
  advanced : Advanced m.tournamentId row
    (ms.map fun m' ↦ if m'.id = m.id then m'.resolved w else m') rs
    (d.apply (.resolve matchId w)) d'
  moved : (∀ m' ∈ ms.map fun m' ↦ if m'.id = m.id then m'.resolved w else m',
    m'.status ≠ .pending) → d' ≠ d.apply (.resolve matchId w)

/-- A pending match is in the latest round of a running tournament. -/
theorem running_of_pending (hok : DbOk d) {id : Nat} {m : MatchRow} (hm : d.match? id = some m)
    (hpending : m.status = .pending) :
    ∃ row ms rs, Running d m.tournamentId row ms rs ∧ m ∈ ms ∧ m.id = id := by
  obtain ⟨hid, hentry⟩ := hok.matches_ id m hm
  subst hid
  cases hrow : d.tournament? m.tournamentId with
  | none =>
    rw [(hok.orphans _ hrow).2] at hentry
    cases hentry
  | some row =>
    have hdone : ∀ {ms rs}, Drawn d m.tournamentId (ms :: rs) → m ∈ ms := by
      rintro ms rs ⟨players, -, -, hrounds, hholds⟩
      have hmem := hholds.mem hm hentry
      obtain ⟨hround, hpos, hle⟩ := hrounds.mem_nthRound hmem
      by_cases hlast : m.round = rs.length + 1
      · rw [nthRound, if_pos hlast] at hround
        exact hround
      · rw [List.length_cons] at hle
        exact absurd hpending ((hrounds.step hpos (by rw [List.length_cons]; omega)).1 m hround)
    cases (hok.rows _ row hrow).stage with
    | open_ _ hempty _ =>
      rw [hempty] at hentry
      cases hentry
    | @running ms rs _ hactive hwinner hdrawn _ _ =>
      exact ⟨row, ms, rs, ⟨hrow, hactive, hwinner, hdrawn⟩, hdone hdrawn, rfl⟩
    | @«over» m' rs _ hdrawn hdone' _ =>
      have hmem := hdone hdrawn
      rw [List.mem_singleton] at hmem
      exact absurd (hmem ▸ hpending) hdone'

/-- What `reportResult` has done when it commits. -/
theorem reportResult_run {matchId reporterId : Nat} {winnerId : Int} {ids : Nat → Nat} {value : Reply}
    (hok : DbOk d)
    (h : backend.run (reportResult matchId reporterId winnerId ids) d = some (value, d')) :
    ((∃ message, value = .error message) ∧ d' = d) ∨ (value = .reported ∧
      ∃ w : Nat, (w : Int) = winnerId ∧ ∃ m row ms rs, Reported matchId reporterId w m row ms rs d d') := by
  rw [reportResult, Database.run_bind, run_lockMatch, Option.bind_some] at h
  dsimp only at h
  split at h
  · obtain ⟨rfl, rfl⟩ := Prod.mk.inj (Option.some.inj h)
    exact Or.inl ⟨⟨_, rfl⟩, rfl⟩
  · next m hm =>
    split at h
    · obtain ⟨rfl, rfl⟩ := Prod.mk.inj (Option.some.inj h)
      exact Or.inl ⟨⟨_, rfl⟩, rfl⟩
    · next hpending =>
      rw [not_not] at hpending
      split at h
      · obtain ⟨rfl, rfl⟩ := Prod.mk.inj (Option.some.inj h)
        exact Or.inl ⟨⟨_, rfl⟩, rfl⟩
      · next hwinner =>
        split at h
        · obtain ⟨rfl, rfl⟩ := Prod.mk.inj (Option.some.inj h)
          exact Or.inl ⟨⟨_, rfl⟩, rfl⟩
        · next hreporter =>
          rw [Bool.not_eq_true', Bool.not_eq_false, List.any_eq_true] at hwinner
          obtain ⟨w, hw, heq⟩ := hwinner
          obtain rfl := beq_iff_eq.mp heq
          rw [Bool.not_eq_true', Bool.not_eq_false, List.contains_iff_mem] at hreporter
          rw [Database.run_bind, Option.bind_eq_some_iff] at h
          obtain ⟨⟨updated, d₁⟩, hset, h⟩ := h
          split at h
          · cases h
          · next hone =>
            obtain rfl := not_not.mp hone
            obtain ⟨-, -, -, rfl⟩ := run_setResult hset
            rw [Database.run_bind, Option.bind_eq_some_iff] at h
            obtain ⟨⟨⟨⟩, d₂⟩, hadvance, h⟩ := h
            obtain ⟨rfl, rfl⟩ := Prod.mk.inj (Option.some.inj h)
            rw [Int.toNat_natCast] at hadvance
            dsimp only at hadvance
            obtain ⟨row, ms, rs, hrun, hmem, rfl⟩ := running_of_pending hok hm hpending
            have hdrawn' := hrun.drawn.resolve hmem hpending hw
            obtain ⟨players, hperm, hlen, hrounds, hholds⟩ := hdrawn'
            obtain ⟨k, hk⟩ := length_seeds hlen
            have hrow : (d.apply (.resolve m.id w)).tournament? m.tournamentId = some row := hrun.found
            obtain ⟨hadvanced, hmoved⟩ :=
              advanceRound_run hrow hrun.active hrounds hk hholds hadvance
            have hround : m.round = rs.length + 1 := by
              obtain ⟨players₀, -, -, hrounds₀, -⟩ := hrun.drawn
              obtain ⟨pairs, hround⟩ := hrounds₀.latest
              exact hround.round m hmem
            exact Or.inr ⟨rfl, w, rfl, m, row, ms, rs, hrun, hm, hmem, hpending, hw, hreporter,
              hadvanced, hmoved hround⟩

/-- A report takes the tables onward. -/
theorem Reported.onward {matchId reporterId w : Nat} {m : MatchRow} {row : TournamentRow}
    {ms : List MatchRow} {rs : List (List MatchRow)}
    (h : Reported matchId reporterId w m row ms rs d d') : Onward d d' :=
  (onward_resolve h.found h.pending).trans (h.advanced.onward h.running.found h.running.active)

/-- A report keeps the tables in order. -/
theorem Reported.ok {matchId reporterId w : Nat} {m : MatchRow} {row : TournamentRow}
    {ms : List MatchRow} {rs : List (List MatchRow)} (hok : DbOk d)
    (h : Reported matchId reporterId w m row ms rs d d') : DbOk d' := by
  obtain ⟨hid, -⟩ := hok.matches_ matchId m h.found
  subst hid
  have htouch := touches_resolve (w := w) h.found rfl hok.matches_
  obtain ⟨htouch', hentrants, row', hrow', hmax, hstage⟩ :=
    h.advanced.ok h.moved h.running.found h.running.active h.running.undecided
      (h.running.drawn.resolve h.latest h.pending h.winner) htouch.found
  exact hok.touch (htouch.trans htouch')
    ⟨row', hrow', (hok.rows _ row h.running.found).restage hmax hentrants
      (htouch.trans htouch').users hstage⟩

/-- `reportResult` keeps the tables in order. -/
theorem keep_reportResult {matchId reporterId : Nat} {winnerId : Int} {ids : Nat → Nat}
    {value : Reply} (hok : DbOk d)
    (h : backend.run (reportResult matchId reporterId winnerId ids) d = some (value, d')) :
    DbOk d' ∧ Onward d d' := by
  obtain ⟨-, rfl⟩ | ⟨-, w, -, m, row, ms, rs, hr⟩ := reportResult_run hok h
  · exact ⟨hok, .refl _⟩
  · exact ⟨hr.ok hok, hr.onward⟩

/-- On committed tables there is nothing left to advance. -/
theorem maybeAdvanceRound_run {round : Nat} {ids : Nat → Nat} (hok : DbOk d)
    (h : backend.run (advanceRound t round ids) d = some ((), d')) : d' = d := by
  have hrun := h
  rw [advanceRound, Database.run_bind, run_lockTournament, Option.bind_some] at h
  dsimp only at h
  split at h
  · exact (Prod.mk.inj (Option.some.inj h)).2.symm
  · next row hrow =>
    split at h
    · exact (Prod.mk.inj (Option.some.inj h)).2.symm
    · next hactive =>
      rw [not_not] at hactive
      cases (hok.rows t row hrow).stage with
      | open_ hopen => rw [hactive] at hopen; cases hopen
      | «over» hfin => rw [hactive] at hfin; cases hfin
      | running _ _ hdrawn hm hpending =>
        obtain ⟨players, -, hlen, hrounds, hholds⟩ := hdrawn
        obtain ⟨k, hk⟩ := length_seeds hlen
        cases (advanceRound_run hrow hactive hrounds hk hholds hrun).1 with
        | same heq => exact heq
        | finished hms hdone _ =>
          rw [hms, List.mem_singleton] at hm
          exact absurd (hm ▸ hpending) hdone
        | next hdone => exact absurd hpending (hdone _ hm)

end ChessStack.Tournament
