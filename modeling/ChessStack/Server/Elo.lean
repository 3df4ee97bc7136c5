import ChessStack.Server.Transactions
import Mathlib.Analysis.SpecialFunctions.Pow.Real

/-!
# Ratings

Library `Server`. `Chess-Backend/src/utils/elo.js` in exact real arithmetic. Both ratings are
rounded by themselves, a half always up, so points are conserved only because the change of a
rating is never half an integer.
-/

namespace ChessStack.Server

noncomputable section

/-! ### The computation -/

/-- `expectedScore`, `elo.js:6`. -/
def expectedScore (ratingA ratingB : ℝ) : ℝ := 1 / (1 + 10 ^ ((ratingB - ratingA) / 400))

/-- `Math.round`: the nearest integer, the greater of two. -/
def mathRound (x : ℝ) : ℤ := ⌊x + 1 / 2⌋

/-- The number a score stands for. -/
def Score.value : Score → ℝ
  | .win => 1
  | .loss => 0
  | .draw => 1 / 2

/-- `computeNewRatings`, `elo.js:9–16`. -/
def computeNewRatings (ratingA ratingB : ℤ) (scoreA : Score) : ℤ × ℤ :=
  let expA := expectedScore ratingA ratingB
  let expB := 1 - expA
  let scoreB := 1 - scoreA.value
  (mathRound (ratingA + 32 * (scoreA.value - expA)), mathRound (ratingB + 32 * (scoreB - expB)))

/-- The score of the other player. -/
def Score.other : Score → Score
  | .win => .loss
  | .loss => .win
  | .draw => .draw

/-! ### Rounding -/

private theorem mathRound_int_add (n : ℤ) (x : ℝ) : mathRound (n + x) = n + mathRound x := by
  unfold mathRound
  rw [add_assoc, Int.floor_intCast_add]

/-- The nearest integers of opposite numbers are opposite, halves apart. -/
theorem mathRound_neg {x : ℝ} (h : ∀ m : ℤ, x + 1 / 2 ≠ m) : mathRound (-x) = -mathRound x := by
  unfold mathRound
  have hlt : (⌊x + 1 / 2⌋ : ℝ) < x + 1 / 2 :=
    lt_of_le_of_ne (Int.floor_le _) fun heq ↦ h _ heq.symm
  have hle := Int.lt_floor_add_one (x + 1 / 2)
  rw [Int.floor_eq_iff]
  push_cast
  constructor <;> linarith

private theorem mathRound_nonneg {x : ℝ} (h : 0 ≤ x) : 0 ≤ mathRound x := by
  unfold mathRound
  rw [Int.floor_nonneg]
  linarith

private theorem mathRound_nonpos {x : ℝ} (h : x ≤ 0) : mathRound x ≤ 0 := by
  unfold mathRound
  rw [← Int.lt_add_one_iff, Int.floor_lt]
  push_cast
  linarith

private theorem abs_mathRound_le {x : ℝ} {n : ℤ} (h : |x| ≤ n) : |mathRound x| ≤ n := by
  obtain ⟨hlower, hupper⟩ := abs_le.mp h
  rw [abs_le]
  unfold mathRound
  constructor
  · rw [Int.le_floor]
    push_cast
    linarith
  · rw [← Int.lt_add_one_iff, Int.floor_lt]
    push_cast
    linarith

/-! ### The expected score -/

section Expected

variable (a b : ℝ)

private theorem odds_pos : 0 < (10 : ℝ) ^ ((b - a) / 400) := Real.rpow_pos_of_pos (by norm_num) _

private theorem expectedScore_pos : 0 < expectedScore a b := by
  have hodds := odds_pos a b
  unfold expectedScore
  positivity

private theorem expectedScore_lt_one : expectedScore a b < 1 := by
  have hodds := odds_pos a b
  unfold expectedScore
  rw [div_lt_one (by positivity)]
  linarith

/-- The expected scores of the two players make one point. -/
theorem expectedScore_swap : expectedScore b a = 1 - expectedScore a b := by
  have hodds := odds_pos a b
  have hinv : (10 : ℝ) ^ ((a - b) / 400) = ((10 : ℝ) ^ ((b - a) / 400))⁻¹ := by
    rw [← Real.rpow_neg (by norm_num)]
    congr 1
    ring
  unfold expectedScore
  rw [hinv]
  field_simp
  ring

private theorem half_le_expectedScore {a b : ℝ} (h : b ≤ a) : 1 / 2 ≤ expectedScore a b := by
  have hodds := odds_pos a b
  have hle : (10 : ℝ) ^ ((b - a) / 400) ≤ 1 := by
    apply Real.rpow_le_one_of_one_le_of_nonpos (by norm_num)
    linarith
  unfold expectedScore
  rw [div_le_div_iff₀ (by norm_num) (by linarith)]
  linarith

end Expected

/-- The odds of two integer ratings, to the power 400, are a power of ten. -/
theorem odds_pow (a b : ℤ) : ((10 : ℝ) ^ (((b : ℝ) - a) / 400)) ^ 400 = (10 : ℝ) ^ (b - a) := by
  rw [← Real.rpow_natCast, ← Real.rpow_mul (by norm_num), ← Real.rpow_intCast]
  congr 1
  push_cast
  ring

/-- An odd power times a power of ten is even, unless the power of ten is one. -/
theorem odd_pow_mul_ten {m n : ℤ} {k : ℕ} (hm : Odd m)
    (h : n ^ 400 * 10 ^ k = m ^ 400) : k = 0 := by
  by_contra hk
  have heven : Even (n ^ 400 * 10 ^ k) := by
    apply Even.mul_left
    exact (show Even (10 : ℤ) from ⟨5, rfl⟩).pow_of_ne_zero hk
  rw [h] at heven
  exact (Int.not_even_iff_odd.mpr hm.pow) heven

/-- The expected score of integer ratings is no odd multiple of a sixty-fourth. -/
theorem expectedScore_ne (a b n : ℤ) (hn : Odd n) : 64 * expectedScore a b ≠ n := by
  intro h
  have hodds := odds_pos a b
  have hpow := odds_pow a b
  set t := (10 : ℝ) ^ (((b : ℝ) - a) / 400) with ht
  have hratio : (n : ℝ) * t = 64 - n := by
    rw [expectedScore, ← ht] at h
    field_simp at h
    linarith only [h]
  have hother : Odd (64 - n) := by
    apply Even.sub_odd _ hn
    exact ⟨32, rfl⟩
  have hpower : (n : ℝ) ^ 400 * 10 ^ (b - a) = (64 - n) ^ 400 := by
    rw [← hpow, ← mul_pow, hratio]
  have hsame : b - a = 0 := by
    obtain ⟨k, hk | hk⟩ := Int.eq_nat_or_neg (b - a)
    · rw [hk, zpow_natCast] at hpower
      have hzero := odd_pow_mul_ten hother (by exact_mod_cast hpower)
      rw [hk, hzero, Nat.cast_zero]
    · rw [hk, zpow_neg, zpow_natCast, mul_inv_eq_iff_eq_mul₀ (by positivity)] at hpower
      have hzero := odd_pow_mul_ten hn (by exact_mod_cast hpower.symm)
      rw [hk, hzero, Nat.cast_zero, neg_zero]
  have hone : t = 1 := by
    have hdiff : (b : ℝ) - a = 0 := by exact_mod_cast hsame
    rw [ht, hdiff, zero_div, Real.rpow_zero]
  rw [hone] at hratio
  have heven : n = 32 := by
    have htwice : (2 : ℝ) * n = 64 := by linarith only [hratio]
    have htwice : 2 * n = 64 := by exact_mod_cast htwice
    omega
  rw [heven] at hn
  exact absurd hn (by decide)

/-! ### The change of a rating -/

/-- What White's rating changes by, before it is rounded. -/
def change (a b : ℤ) (s : Score) : ℝ := 32 * (s.value - expectedScore a b)

/-- No change is half an integer. -/
theorem change_ne (a b : ℤ) (s : Score) (m : ℤ) : change a b s + 1 / 2 ≠ m := by
  intro h
  obtain ⟨n, hn⟩ : ∃ n : ℤ, 64 * s.value = 2 * n := by
    cases s with
    | win => exact ⟨32, by norm_num [Score.value]⟩
    | loss => exact ⟨0, by norm_num [Score.value]⟩
    | draw => exact ⟨16, by norm_num [Score.value]⟩
  apply expectedScore_ne a b (2 * (n - m) + 1) ⟨_, rfl⟩
  unfold change at h
  push_cast
  linarith

/-- Each rating moves by the rounded change, in opposite directions. -/
theorem computeNewRatings_eq (a b : ℤ) (s : Score) : computeNewRatings a b s =
    (a + mathRound (change a b s), b - mathRound (change a b s)) := by
  have hblack : 32 * (1 - s.value - (1 - expectedScore a b)) = -change a b s := by
    unfold change
    ring
  unfold computeNewRatings
  dsimp only
  rw [mathRound_int_add, mathRound_int_add, hblack, mathRound_neg (change_ne a b s)]
  rfl

private theorem change_swap (a b : ℤ) (s : Score) : change b a s.other = -change a b s := by
  have hvalue : s.other.value = 1 - s.value := by
    cases s with
    | win => norm_num [Score.other, Score.value]
    | loss => norm_num [Score.other, Score.value]
    | draw => norm_num [Score.other, Score.value]
  unfold change
  rw [hvalue, expectedScore_swap]
  ring

private theorem abs_change_le (a b : ℤ) (s : Score) : |change a b s| ≤ (32 : ℤ) := by
  have hpos := expectedScore_pos a b
  have hlt := expectedScore_lt_one a b
  have hvalue : 0 ≤ s.value ∧ s.value ≤ 1 := by
    cases s with
    | win => norm_num [Score.value]
    | loss => norm_num [Score.value]
    | draw => norm_num [Score.value]
  unfold change
  rw [abs_le]
  push_cast
  constructor <;> linarith

/-- What a game does to two ratings. -/
theorem ratings_conserved (a b : ℤ) (s : Score) :
    (computeNewRatings a b s).1 + (computeNewRatings a b s).2 = a + b ∧
      |(computeNewRatings a b s).1 - a| ≤ 32 ∧
      (s = .win → a ≤ (computeNewRatings a b s).1 ∧ (computeNewRatings a b s).2 ≤ b) ∧
      (s = .loss → (computeNewRatings a b s).1 ≤ a ∧ b ≤ (computeNewRatings a b s).2) ∧
      (s = .draw → (b ≤ a → (computeNewRatings a b s).1 ≤ a) ∧
        (a ≤ b → (computeNewRatings a b s).2 ≤ b)) ∧
      computeNewRatings b a s.other =
        ((computeNewRatings a b s).2, (computeNewRatings a b s).1) := by
  have hpos := expectedScore_pos a b
  have hlt := expectedScore_lt_one a b
  rw [computeNewRatings_eq, computeNewRatings_eq b a, change_swap, mathRound_neg (change_ne a b s)]
  refine ⟨by ring, ?_, ?_, ?_, ?_, ?_⟩
  · rw [add_sub_cancel_left]
    exact abs_mathRound_le (abs_change_le a b s)
  · rintro rfl
    have hround : 0 ≤ mathRound (change a b .win) := by
      apply mathRound_nonneg
      unfold change Score.value
      linarith
    constructor <;> linarith
  · rintro rfl
    have hround : mathRound (change a b .loss) ≤ 0 := by
      apply mathRound_nonpos
      unfold change Score.value
      linarith
    constructor <;> linarith
  · rintro rfl
    constructor
    · intro hle
      have hhalf : 1 / 2 ≤ expectedScore a b := half_le_expectedScore (by exact_mod_cast hle)
      have hround : mathRound (change a b .draw) ≤ 0 := by
        apply mathRound_nonpos
        unfold change Score.value
        linarith
      linarith
    · intro hle
      have hhalf : 1 / 2 ≤ expectedScore b a := half_le_expectedScore (by exact_mod_cast hle)
      have hround : 0 ≤ mathRound (change a b .draw) := by
        apply mathRound_nonneg
        rw [expectedScore_swap] at hhalf
        unfold change Score.value
        linarith
      linarith
  · rw [sub_neg_eq_add, ← sub_eq_add_neg]

end

end ChessStack.Server
