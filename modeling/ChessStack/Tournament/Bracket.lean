import ChessStack.Tournament.Transactions
import Mathlib.Data.List.Pairwise
import Mathlib.Data.List.ReduceOption

/-!
# Rounds of a bracket

Library `Tournament`. What a correct bracket is, said of lists of matches: the first round pairs
the seeds, every later round pairs the winners of a round in which every match is resolved.
-/

namespace ChessStack.Tournament

/-- The two sides of a match. -/
def MatchRow.pair (m : MatchRow) : Option Nat × Option Nat := (m.player1, m.player2)

/-- The players of a pair. -/
def playersOfPair (pair : Option Nat × Option Nat) : List Nat := [pair.1, pair.2].reduceOption

/-- The players of a match. -/
def MatchRow.players (m : MatchRow) : List Nat := playersOfPair m.pair

/-- The result of a match fits its players. -/
structure MatchOk (m : MatchRow) : Prop where
  pending : m.status = .pending → m.winner = none
  done : m.status = .done → ∃ w ∈ m.players, m.winner = some w
  bye : m.status = .bye → m.winner = byeWinner m.pair
  bye_iff : m.status = .bye ↔ (byeWinner m.pair).isSome

/-- The matches are the round `r` of tournament `t` with these pairs, in order. -/
structure IsRound (t r : Nat) (pairs : List (Option Nat × Option Nat)) (ms : List MatchRow) :
    Prop where
  pairs : ms.map MatchRow.pair = pairs
  positions : ms.map MatchRow.position = List.range ms.length
  round : ∀ m ∈ ms, m.round = r
  tournament : ∀ m ∈ ms, m.tournamentId = t
  ok : ∀ m ∈ ms, MatchOk m

/-- The rounds of a bracket so far, the latest first. -/
inductive Rounds (t : Nat) (seeds : List (Option Nat)) : List (List MatchRow) → Prop
  | first {ms : List MatchRow} : IsRound t 1 (pairUp seeds) ms → Rounds t seeds [ms]
  | next {ms last : List MatchRow} {rs : List (List MatchRow)} : Rounds t seeds (last :: rs) →
      (∀ m ∈ last, m.status ≠ .pending) → 2 ≤ last.length →
      IsRound t (rs.length + 2) (pairUp (last.map MatchRow.winner)) ms →
      Rounds t seeds (ms :: last :: rs)

/-- The round of number `r`, when the rounds so far come latest first. -/
def nthRound : List (List MatchRow) → Nat → List MatchRow
  | [], _ => []
  | ms :: rs, r => if r = rs.length + 1 then ms else nthRound rs r

section Matches

variable {m : MatchRow} {pair : Option Nat × Option Nat}

/-- The players of a pair. -/
theorem mem_playersOfPair {u : Nat} :
    u ∈ playersOfPair pair ↔ pair.1 = some u ∨ pair.2 = some u := by
  obtain ⟨a, b⟩ := pair
  unfold playersOfPair
  rw [List.reduceOption_mem_iff]
  simp [eq_comm]

private theorem byeWinner_mem {w : Nat} (h : byeWinner pair = some w) :
    playersOfPair pair = [w] := by
  obtain ⟨a, b⟩ := pair
  cases a <;> cases b <;> simp_all [byeWinner, playersOfPair, List.reduceOption]

/-- A resolved match has a winner, one of its players. -/
theorem MatchOk.winner (h : MatchOk m) (hdone : m.status ≠ .pending) :
    ∃ w ∈ m.players, m.winner = some w := by
  cases hs : m.status with
  | pending => exact absurd hs hdone
  | bye =>
    obtain ⟨w, hw⟩ := Option.isSome_iff_exists.mp (h.bye_iff.mp hs)
    refine ⟨w, ?_, (h.bye hs).trans hw⟩
    rw [MatchRow.players, byeWinner_mem hw]
    exact List.mem_singleton_self w
  | done => exact h.done hs

/-- A pending match has both players or none. -/
theorem MatchOk.pending_pair (h : MatchOk m) (hpending : m.status = .pending) :
    byeWinner m.pair = none := by
  cases hb : byeWinner m.pair with
  | none => rfl
  | some w =>
    have hbye := h.bye_iff.mpr (by rw [hb]; rfl)
    rw [hpending] at hbye
    cases hbye

/-- A report in favour of a player keeps the match in order. -/
theorem MatchOk.resolved (h : MatchOk m) (hpending : m.status = .pending) {w : Nat}
    (hw : w ∈ m.players) : MatchOk (m.resolved w) where
  pending := nofun
  done _ := ⟨w, hw, rfl⟩
  bye := nofun
  bye_iff := by
    have hpair := h.pending_pair hpending
    constructor
    · intro hbye
      cases hbye
    · intro hsome
      rw [show (m.resolved w).pair = m.pair from rfl, hpair] at hsome
      cases hsome

end Matches

namespace IsRound

variable {t r : Nat} {pairs : List (Option Nat × Option Nat)} {ms : List MatchRow}

/-- A round has a match for every pair. -/
theorem length (h : IsRound t r pairs ms) : ms.length = pairs.length := by
  rw [← h.pairs, List.length_map]

/-- A report on a pending match of the round keeps it a round with the same pairs. -/
theorem resolve (h : IsRound t r pairs ms) {id w : Nat}
    (hid : ∀ m ∈ ms, m.id = id → m.status = .pending ∧ w ∈ m.players) :
    IsRound t r pairs (ms.map fun m ↦ if m.id = id then m.resolved w else m) := by
  have hfield : ∀ {β : Type} (f : MatchRow → β), (∀ m w, f (m.resolved w) = f m) →
      (ms.map fun m ↦ if m.id = id then m.resolved w else m).map f = ms.map f := by
    intro β f hf
    rw [List.map_map]
    apply List.map_congr_left
    intro m _
    dsimp only [Function.comp_apply]
    split
    · exact hf m w
    · rfl
  have hmem : ∀ m' ∈ ms.map (fun m ↦ if m.id = id then m.resolved w else m), ∃ m ∈ ms,
      m'.round = m.round ∧ m'.tournamentId = m.tournamentId ∧ (MatchOk m → MatchOk m') := by
    intro m' hm'
    obtain ⟨m, hm, rfl⟩ := List.mem_map.mp hm'
    refine ⟨m, hm, ?_⟩
    split
    · next heq =>
      obtain ⟨hpending, hw⟩ := hid m hm heq
      exact ⟨rfl, rfl, fun hok ↦ hok.resolved hpending hw⟩
    · exact ⟨rfl, rfl, fun hok ↦ hok⟩
  constructor
  · rw [hfield MatchRow.pair fun _ _ ↦ rfl, h.pairs]
  · rw [hfield MatchRow.position fun _ _ ↦ rfl, h.positions, List.length_map]
  · intro m' hm'
    obtain ⟨m, hm, hround, -⟩ := hmem m' hm'
    exact hround.trans (h.round m hm)
  · intro m' hm'
    obtain ⟨m, hm, -, ht, -⟩ := hmem m' hm'
    exact ht.trans (h.tournament m hm)
  · intro m' hm'
    obtain ⟨m, hm, -, -, hok⟩ := hmem m' hm'
    exact hok (h.ok m hm)

end IsRound

namespace Rounds

variable {t : Nat} {seeds : List (Option Nat)} {ms : List MatchRow} {rs : List (List MatchRow)}

/-- The latest round is a round, with the number of rounds so far. -/
theorem latest (h : Rounds t seeds (ms :: rs)) : ∃ pairs, IsRound t (rs.length + 1) pairs ms := by
  cases h with
  | first h => exact ⟨_, h⟩
  | next _ _ _ h => exact ⟨_, h⟩

/-- Only the latest round can still change. -/
theorem resolve (h : Rounds t seeds (ms :: rs)) {id w : Nat}
    (hid : ∀ m ∈ ms, m.id = id → m.status = .pending ∧ w ∈ m.players) :
    Rounds t seeds ((ms.map fun m ↦ if m.id = id then m.resolved w else m) :: rs) := by
  cases h with
  | first h => exact .first (h.resolve hid)
  | next hrs hdone hlen h => exact .next hrs hdone hlen (h.resolve hid)

/-- With a power of two of seeds every round has a power of two of matches. -/
theorem pow_length (h : Rounds t seeds (ms :: rs)) {k : Nat} (hseeds : seeds.length = 2 ^ (k + 1)) :
    ∃ j, ms.length = 2 ^ j := by
  generalize hl : ms :: rs = l at h
  induction h generalizing ms rs with
  | first h =>
    obtain ⟨rfl, rfl⟩ := List.cons.inj hl
    have hpair := length_pairUp seeds
    rw [hseeds, ← h.length, pow_succ] at hpair
    exact ⟨k, by omega⟩
  | @next ms' last rs' _ _ hlen h ih =>
    obtain ⟨rfl, rfl⟩ := List.cons.inj hl
    obtain ⟨j, hj⟩ := ih rfl
    have hpair := length_pairUp (last.map MatchRow.winner)
    rw [← h.length, List.length_map, hj] at hpair
    cases j with
    | zero =>
      rw [hj] at hlen
      omega
    | succ j =>
      rw [pow_succ] at hpair
      exact ⟨j, by omega⟩

/-- There is no round after the last. -/
theorem nthRound_of_length_lt {rs : List (List MatchRow)} {r : Nat} (h : rs.length < r) :
    nthRound rs r = [] := by
  induction rs with
  | nil => rfl
  | cons ms rs ih =>
    rw [List.length_cons] at h
    rw [nthRound, if_neg (by omega), ih (by omega)]

/-- The matches of round `r` among all in order of their creation. -/
theorem filter_round (h : Rounds t seeds rs) (r : Nat) :
    rs.reverse.flatten.filter (·.round == r) = nthRound rs r := by
  have hfilter : ∀ {ms : List MatchRow} {n : Nat}, (∀ m ∈ ms, m.round = n) →
      ms.filter (·.round == r) = if r = n then ms else [] := by
    intro ms n hround
    split
    · next hr => exact List.filter_eq_self.mpr fun m hm ↦ beq_iff_eq.mpr ((hround m hm).trans hr.symm)
    · next hr =>
      rw [List.filter_eq_nil_iff]
      intro m hm
      rw [hround m hm, beq_iff_eq]
      exact Ne.symm hr
  induction h with
  | first h =>
    rw [List.reverse_singleton, List.flatten_singleton, hfilter h.round]
    rfl
  | @next ms last rs _ _ _ h ih =>
    rw [List.reverse_cons, List.flatten_append, List.filter_append, ih, List.flatten_singleton,
      hfilter h.round, nthRound.eq_2 _ ms, List.length_cons]
    by_cases hr : r = rs.length + 2
    · rw [if_pos hr, if_pos hr, nthRound_of_length_lt (by rw [List.length_cons]; omega),
        List.nil_append]
    · rw [if_neg hr, if_neg hr, List.append_nil]

/-- A round that is not the latest is resolved, and the next pairs its winners. -/
theorem step (h : Rounds t seeds rs) {r : Nat} (hpos : 1 ≤ r) (hr : r < rs.length) :
    (∀ m ∈ nthRound rs r, m.status ≠ .pending) ∧ 2 ≤ (nthRound rs r).length ∧
      IsRound t (r + 1) (pairUp ((nthRound rs r).map MatchRow.winner)) (nthRound rs (r + 1)) := by
  induction h with
  | first _ =>
    rw [List.length_singleton] at hr
    omega
  | @next ms last rs _ hdone hlen h ih =>
    rw [List.length_cons, List.length_cons] at hr
    by_cases hlast : r = rs.length + 1
    · subst hlast
      have hr₁ : nthRound (ms :: last :: rs) (rs.length + 1) = last := by
        rw [nthRound, if_neg (by rw [List.length_cons]; omega), nthRound, if_pos rfl]
      have hr₂ : nthRound (ms :: last :: rs) (rs.length + 2) = ms := by
        rw [nthRound, if_pos (by rw [List.length_cons])]
      rw [hr₁, hr₂]
      exact ⟨hdone, hlen, h⟩
    · have hlt : r < (last :: rs).length := by
        rw [List.length_cons]
        omega
      have hr₁ : nthRound (ms :: last :: rs) r = nthRound (last :: rs) r := by
        rw [nthRound, if_neg (by rw [List.length_cons]; omega)]
      have hr₂ : nthRound (ms :: last :: rs) (r + 1) = nthRound (last :: rs) (r + 1) := by
        rw [nthRound, if_neg (by rw [List.length_cons]; omega)]
      rw [hr₁, hr₂]
      exact ih hlt

/-- The first round pairs up the seeds. -/
theorem nthRound_one (h : Rounds t seeds rs) : IsRound t 1 (pairUp seeds) (nthRound rs 1) := by
  induction h with
  | first h => exact h
  | @next ms last rs _ _ _ _ ih =>
    rw [nthRound, if_neg (by rw [List.length_cons]; omega)]
    exact ih

/-- The matches of a round are among all matches. -/
theorem mem_flatten_of_mem_nthRound {rs : List (List MatchRow)} {r : Nat} {m : MatchRow}
    (h : m ∈ nthRound rs r) : m ∈ rs.flatten := by
  induction rs with
  | nil => exact h
  | cons ms rs ih =>
    rw [nthRound] at h
    rw [List.flatten_cons, List.mem_append]
    split at h
    · exact Or.inl h
    · exact Or.inr (ih h)

/-- Every match so far is in the round of its number. -/
theorem mem_nthRound (h : Rounds t seeds rs) {m : MatchRow} (hm : m ∈ rs.flatten) :
    m ∈ nthRound rs m.round ∧ 1 ≤ m.round ∧ m.round ≤ rs.length := by
  induction h with
  | @first ms h =>
    rw [List.flatten_singleton] at hm
    rw [h.round m hm]
    exact ⟨hm, le_rfl, le_rfl⟩
  | @next ms last rs _ _ _ h ih =>
    rw [List.flatten_cons, List.mem_append] at hm
    rcases hm with hm | hm
    · rw [h.round m hm, nthRound, if_pos (by rw [List.length_cons])]
      exact ⟨hm, by omega, le_rfl⟩
    · obtain ⟨hmem, hpos, hle⟩ := ih hm
      rw [List.length_cons] at hle
      rw [nthRound, if_neg (by rw [List.length_cons]; omega), List.length_cons]
      exact ⟨hmem, hpos, by rw [List.length_cons]; omega⟩

/-- Every round is one. -/
theorem isRound_nthRound (h : Rounds t seeds rs) {r : Nat} (hpos : 1 ≤ r) (hr : r ≤ rs.length) :
    ∃ pairs, IsRound t r pairs (nthRound rs r) := by
  rcases Nat.eq_or_lt_of_le hpos with rfl | hlt
  · exact ⟨_, h.nthRound_one⟩
  · obtain ⟨r, rfl⟩ := Nat.exists_eq_add_of_lt hlt
    have hstep := (h.step (r := 1 + r) (by omega) (by omega)).2.2
    exact ⟨_, hstep⟩

end Rounds

/-! ### Players -/

/-- The players of a round. -/
def roundPlayers (ms : List MatchRow) : List Nat := ms.flatMap MatchRow.players

private theorem flatMap_playersOfPair (pairs : List (Option Nat × Option Nat)) :
    pairs.flatMap playersOfPair = (pairs.flatMap fun pair ↦ [pair.1, pair.2]).reduceOption := by
  induction pairs with
  | nil => rfl
  | cons pair pairs ih =>
    rw [List.flatMap_cons, List.flatMap_cons, ih, List.reduceOption_append]
    rfl

/-- The players of a round that pairs a list are those on the list. -/
theorem IsRound.players {t r : Nat} {l : List (Option Nat)} {ms : List MatchRow}
    (h : IsRound t r (pairUp l) ms) (heven : l.length % 2 = 0) :
    roundPlayers ms = l.reduceOption := by
  have hpairs : roundPlayers ms = (ms.map MatchRow.pair).flatMap playersOfPair := by
    rw [List.flatMap_map]
    rfl
  rw [hpairs, h.pairs, flatMap_playersOfPair, flatMap_pairUp l heven]

/-- The winners of a round are among its players, in order. -/
theorem winners_sublist {ms : List MatchRow} (h : ∀ m ∈ ms, MatchOk m) :
    (ms.map MatchRow.winner).reduceOption.Sublist (roundPlayers ms) := by
  induction ms with
  | nil => exact .slnil
  | cons m ms ih =>
    have hrest := ih fun m' hm' ↦ h m' (List.mem_cons_of_mem _ hm')
    rw [List.map_cons, roundPlayers, List.flatMap_cons]
    by_cases hpending : m.status = .pending
    · rw [(h m List.mem_cons_self).pending hpending, List.reduceOption_cons_of_none]
      exact hrest.trans (List.sublist_append_right _ _)
    · obtain ⟨w, hw, hwinner⟩ := (h m List.mem_cons_self).winner hpending
      rw [hwinner, List.reduceOption_cons_of_some, ← List.singleton_append]
      exact (List.singleton_sublist.mpr hw).append hrest

namespace Rounds

variable {t : Nat} {seeds : List (Option Nat)} {rs : List (List MatchRow)}

/-- The matches of a round that is not the last are even in number. -/
theorem even_winners (h : Rounds t seeds rs) {k : Nat} (hseeds : seeds.length = 2 ^ (k + 1)) {r : Nat}
    (hpos : 1 ≤ r) (hr : r < rs.length) : (nthRound rs r).length % 2 = 0 := by
  induction h with
  | first _ =>
    rw [List.length_singleton] at hr
    omega
  | @next ms last rs hrs _ hlen _ ih =>
    rw [List.length_cons, List.length_cons] at hr
    rw [nthRound, if_neg (by rw [List.length_cons]; omega)]
    by_cases hlast : r = rs.length + 1
    · rw [nthRound, if_pos hlast]
      obtain ⟨j, hj⟩ := hrs.pow_length hseeds
      cases j with
      | zero =>
        rw [hj] at hlen
        omega
      | succ j =>
        rw [hj, pow_succ]
        omega
    · exact ih (by rw [List.length_cons]; omega)

/-- The players of a round are the winners of the round before. -/
theorem players_succ (h : Rounds t seeds rs) {k : Nat} (hseeds : seeds.length = 2 ^ (k + 1)) {r : Nat}
    (hpos : 1 ≤ r) (hr : r < rs.length) : roundPlayers (nthRound rs (r + 1)) =
      ((nthRound rs r).map MatchRow.winner).reduceOption := by
  refine (h.step hpos hr).2.2.players ?_
  rw [List.length_map]
  exact h.even_winners hseeds hpos hr

/-- Who plays a round has played those before it. -/
theorem players_sublist (h : Rounds t seeds rs) {k : Nat} (hseeds : seeds.length = 2 ^ (k + 1))
    {r r' : Nat} (hpos : 1 ≤ r) (hle : r ≤ r') (hr : r' ≤ rs.length) :
    (roundPlayers (nthRound rs r')).Sublist (roundPlayers (nthRound rs r)) := by
  induction r', hle using Nat.le_induction with
  | base => exact .refl _
  | succ r' hle ih =>
    rw [h.players_succ hseeds (by omega) (by omega)]
    obtain ⟨pairs, hround⟩ := h.isRound_nthRound (r := r') (by omega) (by omega)
    exact (winners_sublist hround.ok).trans (ih (by omega))

/-- With distinct seeds nobody plays twice in a round. -/
theorem players_nodup (h : Rounds t seeds rs) {k : Nat} (hseeds : seeds.length = 2 ^ (k + 1))
    (hnodup : seeds.reduceOption.Nodup) {r : Nat} (hpos : 1 ≤ r) (hr : r ≤ rs.length) :
    (roundPlayers (nthRound rs r)).Nodup := by
  have hfirst : roundPlayers (nthRound rs 1) = seeds.reduceOption := by
    refine h.nthRound_one.players ?_
    rw [hseeds, pow_succ]
    omega
  exact (hfirst ▸ hnodup).sublist (h.players_sublist hseeds le_rfl hpos hr)

/-- Who lost a match is in no later round. -/
theorem loser_out (h : Rounds t seeds rs) {k : Nat} (hseeds : seeds.length = 2 ^ (k + 1))
    (hnodup : seeds.reduceOption.Nodup) {m m' : MatchRow} (hm : m ∈ rs.flatten)
    (hm' : m' ∈ rs.flatten) (hlt : m.round < m'.round) {u : Nat} (hu : u ∈ m.players)
    (hlost : m.winner ≠ some u) : u ∉ m'.players := by
  intro hu'
  obtain ⟨hmem, hpos, hle⟩ := h.mem_nthRound hm
  obtain ⟨hmem', -, hle'⟩ := h.mem_nthRound hm'
  have hlater : u ∈ roundPlayers (nthRound rs m'.round) := List.mem_flatMap.mpr ⟨m', hmem', hu'⟩
  have hnext := (h.players_sublist hseeds (r := m.round + 1) (by omega) hlt hle').subset hlater
  rw [h.players_succ hseeds hpos (by omega), List.reduceOption_mem_iff, List.mem_map] at hnext
  obtain ⟨w, hw, hwinner⟩ := hnext
  obtain ⟨pairs, hround⟩ := h.isRound_nthRound hpos hle
  have hdone := (h.step hpos (by omega)).1 w hw
  obtain ⟨u', hu', heq⟩ := (hround.ok w hw).winner hdone
  rw [hwinner, Option.some.injEq] at heq
  subst heq
  have hnd := h.players_nodup hseeds hnodup hpos hle
  have hsame : w = m := by
    by_contra hne
    have hsymm : Std.Symm (Function.onFun List.Disjoint MatchRow.players) :=
      ⟨fun _ _ hd _ hu hu' ↦ hd hu' hu⟩
    exact (List.nodup_flatMap.mp hnd).2.forall hw hmem hne hu' hu
  rw [hsame] at hwinner
  exact hlost hwinner

end Rounds

end ChessStack.Tournament
