import Mathlib.Data.List.Basic
import Mathlib.Data.List.Nodup
import Mathlib.Tactic.Ring
import Mathlib.Algebra.Order.Ring.Nat

/-!
# Drawing a bracket

Library `Tournament`. The helpers of `Chess-Backend/src/models/Tournament.js` that need no
database: `nextPow2`, `shuffle`, the padding of the player list and its reading in pairs.
-/

namespace ChessStack.Tournament

/-! ### nextPow2 -/

/-- The loop of `nextPow2`, `Tournament.js:3`, with a bound on its rounds. -/
def nextPow2From : Nat → Nat → Nat → Nat
  | 0, p, _ => p
  | fuel + 1, p, n => if p < n then nextPow2From fuel (p * 2) n else p

/-- `nextPow2`, `Tournament.js:3`. -/
def nextPow2 (n : Nat) : Nat := nextPow2From n 1 n

private theorem nextPow2From_spec (fuel k n : Nat) (hfuel : n ≤ k + fuel)
    (hbefore : ∀ j < k, 2 ^ j < n) :
    ∃ j, nextPow2From fuel (2 ^ k) n = 2 ^ j ∧ n ≤ 2 ^ j ∧ ∀ i < j, 2 ^ i < n := by
  induction fuel generalizing k with
  | zero =>
    exact ⟨k, rfl, le_trans hfuel (le_of_lt Nat.lt_two_pow_self), hbefore⟩
  | succ fuel ih =>
    rw [nextPow2From]
    by_cases h : 2 ^ k < n
    · rw [if_pos h, ← pow_succ]
      refine ih (k + 1) (by omega) ?_
      intro j hj
      rcases Nat.lt_succ_iff_lt_or_eq.mp hj with hj | rfl
      · exact hbefore j hj
      · exact h
    · rw [if_neg h]
      exact ⟨k, rfl, Nat.le_of_not_lt h, hbefore⟩

/-- The least power of two from `n` on. -/
theorem nextPow2_spec (n : Nat) :
    ∃ k, nextPow2 n = 2 ^ k ∧ n ≤ 2 ^ k ∧ ∀ i < k, 2 ^ i < n :=
  nextPow2From_spec n 0 n (by omega) nofun

private theorem le_nextPow2 (n : Nat) : n ≤ nextPow2 n := by
  obtain ⟨k, hk, hle, -⟩ := nextPow2_spec n
  omega

/-- Between a number and its power of two the power is the same. -/
theorem nextPow2_eq_of_le {n m : Nat} (hn : n ≤ m) (hm : m ≤ nextPow2 n) :
    nextPow2 m = nextPow2 n := by
  obtain ⟨k, hk, hle, hmin⟩ := nextPow2_spec n
  obtain ⟨j, hj, hle', hmin'⟩ := nextPow2_spec m
  rcases Nat.lt_trichotomy j k with h | rfl | h
  · exact absurd (hmin j h) (by omega)
  · rw [hj, hk]
  · exact absurd (hmin' k h) (by omega)

/-- The padding is shorter than the list it pads. -/
theorem nextPow2_lt_two_mul {n : Nat} (hn : 0 < n) : nextPow2 n < 2 * n := by
  obtain ⟨k, hk, -, hmin⟩ := nextPow2_spec n
  rw [hk]
  cases k with
  | zero => omega
  | succ k =>
    have h := hmin k (by omega)
    rw [pow_succ]
    omega

/-! ### shuffle -/

section Shuffle

variable {α : Type}

/-- `[result[i], result[j]] = [result[j], result[i]]`. -/
def swap (l : List α) (i j : Nat) : List α :=
  match l[i]?, l[j]? with
  | some a, some b => (l.set i b).set j a
  | _, _ => l

/-- The loop of `shuffle` from index `i` down; `draws i` is `Math.floor(Math.random() * (i + 1))`. -/
def shuffleFrom (draws : (i : Nat) → Fin (i + 1)) : Nat → List α → List α
  | 0, l => l
  | i + 1, l => shuffleFrom draws i (swap l (i + 1) (draws (i + 1)))

/-- `shuffle`, `Tournament.js:4–11`. -/
def shuffle (draws : (i : Nat) → Fin (i + 1)) (values : List α) : List α :=
  shuffleFrom draws (values.length - 1) values

private theorem swap_perm (l : List α) (i j : Nat) : (swap l i j).Perm l := by
  unfold swap
  split
  · next a b ha hb =>
    obtain ⟨hi, rfl⟩ := List.getElem?_eq_some_iff.mp ha
    obtain ⟨hj, rfl⟩ := List.getElem?_eq_some_iff.mp hb
    exact List.set_set_perm hi hj
  · rfl

private theorem shuffleFrom_perm (draws : (i : Nat) → Fin (i + 1)) (i : Nat) (l : List α) :
    (shuffleFrom draws i l).Perm l := by
  induction i generalizing l with
  | zero => rfl
  | succ i ih => exact (ih _).trans (swap_perm l _ _)

/-- Shuffling loses and invents nobody. -/
theorem shuffle_perm (draws : (i : Nat) → Fin (i + 1)) (l : List α) :
    (shuffle draws l).Perm l := shuffleFrom_perm draws _ l

end Shuffle

/-! ### Padding and pairs -/

section Pairs

variable {α : Type}

/-- `while (players.length < nextPow2(players.length)) players.push(null)`, with a bound on its
rounds. -/
def padFrom : Nat → List (Option α) → List (Option α)
  | 0, players => players
  | fuel + 1, players =>
    if players.length < nextPow2 players.length then padFrom fuel (players ++ [none]) else players

/-- The padded player list, `Tournament.js:125`. -/
def pad (players : List (Option α)) : List (Option α) := padFrom (players.length + 1) players

private theorem padFrom_eq (fuel : Nat) (players : List (Option α))
    (hfuel : nextPow2 players.length ≤ players.length + fuel) :
    padFrom fuel players =
      players ++ List.replicate (nextPow2 players.length - players.length) none := by
  induction fuel generalizing players with
  | zero =>
    rw [padFrom, show nextPow2 players.length - players.length = 0 by omega, List.replicate_zero,
      List.append_nil]
  | succ fuel ih =>
    rw [padFrom]
    by_cases h : players.length < nextPow2 players.length
    · have hlen : (players ++ [none]).length = players.length + 1 := by simp
      have hpow : nextPow2 (players ++ [none]).length = nextPow2 players.length := by
        rw [hlen]
        exact nextPow2_eq_of_le (by omega) (by omega)
      rw [if_pos h, ih _ (by rw [hpow, hlen]; omega), hpow, hlen, List.append_assoc,
        List.singleton_append, ← List.replicate_succ]
      congr 2
      omega
    · rw [if_neg h, show nextPow2 players.length - players.length = 0 by omega,
        List.replicate_zero, List.append_nil]

/-- Padding adds empty slots up to the next power of two. -/
theorem pad_eq (players : List (Option α)) :
    pad players = players ++ List.replicate (nextPow2 players.length - players.length) none := by
  apply padFrom_eq
  rcases Nat.eq_zero_or_pos players.length with h | h
  · rw [h]
    decide
  · have hlt := nextPow2_lt_two_mul h
    omega

/-- The seeds are filled up to a power of two. -/
theorem length_pad (players : List (Option α)) :
    (pad players).length = nextPow2 players.length := by
  have hle := le_nextPow2 players.length
  rw [pad_eq, List.length_append, List.length_replicate]
  omega

/-- The slots `2p` and `2p + 1` for each `p`; a missing last one reads as `undefined`. -/
def pairUp : List (Option α) → List (Option α × Option α)
  | [] => []
  | [a] => [(a, none)]
  | a :: b :: rest => (a, b) :: pairUp rest

/-- Half as many pairs as seeds. -/
theorem length_pairUp (l : List (Option α)) : 2 * (pairUp l).length = l.length + l.length % 2 := by
  induction l using pairUp.induct with
  | case1 => rfl
  | case2 a => rfl
  | case3 a b rest ih =>
    simp only [pairUp, List.length_cons]
    omega

/-- What is paired is what was in the list. -/
theorem flatMap_pairUp (l : List (Option α)) (h : l.length % 2 = 0) :
    (pairUp l).flatMap (fun pair ↦ [pair.1, pair.2]) = l := by
  induction l using pairUp.induct with
  | case1 => rfl
  | case2 a => cases h
  | case3 a b rest ih =>
    simp only [pairUp, List.flatMap_cons]
    rw [ih (by simp only [List.length_cons] at h; omega)]
    rfl

/-- A pair holds two neighbours. -/
theorem getElem?_pairUp (l : List (Option α)) (h : l.length % 2 = 0) (p : Nat) :
    (pairUp l)[p]? = (l[2 * p]?).bind fun a ↦ (l[2 * p + 1]?).map fun b ↦ (a, b) := by
  induction l using pairUp.induct generalizing p with
  | case1 => rfl
  | case2 a => cases h
  | case3 a b rest ih =>
    cases p with
    | zero => rfl
    | succ p =>
      rw [pairUp, List.getElem?_cons_succ, ih (by simp only [List.length_cons] at h; omega)]
      rfl

end Pairs

end ChessStack.Tournament
