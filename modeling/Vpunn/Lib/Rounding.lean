import Mathlib.Algebra.Order.Field.Power
import Mathlib.Data.Int.Log
import Mathlib.Data.Rat.Floor
import Mathlib.Tactic.Linarith
import Mathlib.Tactic.NormNum
import Mathlib.Tactic.Positivity
import Mathlib.Tactic.SplitIfs

/-! Binary floating point as rounding of rational numbers.

    A number is rounded to the nearest one with `p` significant bits, to the even one of two that are
    equally near. The range of exponents is not bounded, and only numbers that are not negative are
    considered. -/

namespace Rounding

/-- The nearest integer, the even one of two. -/
def roundEven (x : ℚ) : ℤ :=
  if x - ⌊x⌋ < 1 / 2 then ⌊x⌋
  else if 1 / 2 < x - ⌊x⌋ then ⌊x⌋ + 1
  else if ⌊x⌋ % 2 = 0 then ⌊x⌋ else ⌊x⌋ + 1

/-- The distance of neighbours with `p` bits in the binade of `x`. -/
def ulp (p : ℕ) (x : ℚ) : ℚ := 2 ^ (Int.log 2 x + 1 - p)

/-- The nearest number with `p` significant bits. -/
def round (p : ℕ) (x : ℚ) : ℚ := roundEven (x / ulp p x) * ulp p x

/-! ### Integers -/

theorem floor_le_roundEven (x : ℚ) : ⌊x⌋ ≤ roundEven x := by
  unfold roundEven; split_ifs <;> omega

theorem roundEven_le_floor_add_one (x : ℚ) : roundEven x ≤ ⌊x⌋ + 1 := by
  unfold roundEven; split_ifs <;> omega

@[simp] theorem roundEven_intCast (n : ℤ) : roundEven n = n := by
  unfold roundEven
  rw [Int.floor_intCast, if_pos (by norm_num)]

theorem roundEven_mono {x y : ℚ} (h : x ≤ y) : roundEven x ≤ roundEven y := by
  rcases (Int.floor_le_floor h).eq_or_lt with heq | hlt
  · -- In one unit interval the fractions decide.
    unfold roundEven
    rw [heq]
    split_ifs <;> first | omega | (exfalso; linarith)
  · exact (roundEven_le_floor_add_one x).trans (by have := floor_le_roundEven y; omega)

theorem le_roundEven {n : ℤ} {x : ℚ} (h : n ≤ x) : n ≤ roundEven x := by
  rw [← roundEven_intCast n]; exact roundEven_mono h

theorem roundEven_le {n : ℤ} {x : ℚ} (h : x ≤ n) : roundEven x ≤ n := by
  rw [← roundEven_intCast n]; exact roundEven_mono h

/-! ### Binades -/

variable {p : ℕ}

theorem ulp_pos (p : ℕ) (x : ℚ) : 0 < ulp p x := by unfold ulp; positivity

@[simp] theorem round_zero (p : ℕ) : round p 0 = 0 := by
  have h : roundEven 0 = 0 := roundEven_intCast 0
  rw [round, zero_div, h, Int.cast_zero, zero_mul]

theorem two_pow_mul_ulp (p : ℕ) (x : ℚ) : 2 ^ p * ulp p x = 2 ^ (Int.log 2 x + 1) := by
  rw [ulp, ← zpow_natCast, ← zpow_add₀ (by norm_num)]
  congr 1; ring

/-- Rounding stays within the binade, up to its upper end. -/
theorem round_le_two_zpow {x : ℚ} : round p x ≤ 2 ^ (Int.log 2 x + 1) := by
  have hlt : x < 2 ^ (Int.log 2 x + 1) := Int.lt_zpow_succ_log_self (by norm_num) x
  rw [← two_pow_mul_ulp p x] at hlt ⊢
  have hdiv : x / ulp p x ≤ ((2 ^ p : ℤ) : ℚ) := by
    rw [div_le_iff₀ (ulp_pos p x)]; push_cast; exact hlt.le
  have hround : (roundEven (x / ulp p x) : ℚ) ≤ ((2 ^ p : ℤ) : ℚ) :=
    Int.cast_le.mpr (roundEven_le hdiv)
  push_cast at hround
  exact mul_le_mul_of_nonneg_right hround (ulp_pos p x).le

theorem two_zpow_le_round (hp : 0 < p) {x : ℚ} (hx : 0 < x) : 2 ^ Int.log 2 x ≤ round p x := by
  have hle : (2 : ℚ) ^ Int.log 2 x ≤ x := Int.zpow_log_le_self (by norm_num) hx
  have heq : (2 : ℚ) ^ Int.log 2 x = ((2 ^ (p - 1) : ℤ) : ℚ) * ulp p x := by
    push_cast
    rw [ulp, ← zpow_natCast, ← zpow_add₀ (by norm_num)]
    congr 1; omega
  rw [heq] at hle ⊢
  have hdiv : ((2 ^ (p - 1) : ℤ) : ℚ) ≤ x / ulp p x := (le_div_iff₀ (ulp_pos p x)).mpr hle
  exact mul_le_mul_of_nonneg_right (Int.cast_le.mpr (le_roundEven hdiv)) (ulp_pos p x).le

theorem round_pos (hp : 0 < p) {x : ℚ} (hx : 0 < x) : 0 < round p x :=
  lt_of_lt_of_le (by positivity) (two_zpow_le_round hp hx)

theorem round_nonneg (hp : 0 < p) {x : ℚ} (hx : 0 ≤ x) : 0 ≤ round p x := by
  rcases hx.eq_or_lt with rfl | hpos
  · rw [round_zero]
  · exact (round_pos hp hpos).le

/-- In one binade the integers decide, and a binade ends where the next one begins. -/
theorem round_mono (hp : 0 < p) {x y : ℚ} (hx : 0 ≤ x) (h : x ≤ y) : round p x ≤ round p y := by
  rcases hx.eq_or_lt with rfl | hpos
  · rw [round_zero]; exact round_nonneg hp h
  rcases (Int.log_mono_right (b := 2) hpos h).eq_or_lt with heq | hlt
  · have hulp : ulp p x = ulp p y := by rw [ulp, ulp, heq]
    rw [round, round, hulp]
    have hdiv : x / ulp p y ≤ y / ulp p y := div_le_div_of_nonneg_right h (ulp_pos p y).le
    exact mul_le_mul_of_nonneg_right (Int.cast_le.mpr (roundEven_mono hdiv)) (ulp_pos p y).le
  · calc round p x ≤ 2 ^ (Int.log 2 x + 1) := round_le_two_zpow
      _ ≤ 2 ^ Int.log 2 y := zpow_le_zpow_right₀ (by norm_num) (by omega)
      _ ≤ round p y := two_zpow_le_round hp (hpos.trans_le h)

/-! ### Numbers that need no rounding -/

/-- A number with at most `p` significant bits. -/
def Representable (p : ℕ) (x : ℚ) : Prop := ∃ (m : ℕ) (k : ℤ), m ≤ 2 ^ p ∧ x = m * 2 ^ k

theorem round_of_lt {m : ℕ} {k : ℤ} (hm : m < 2 ^ p) : round p (m * 2 ^ k) = m * 2 ^ k := by
  rcases Nat.eq_zero_or_pos m with rfl | hpos
  · rw [Nat.cast_zero, zero_mul, round_zero]
  have hx : (0 : ℚ) < m * 2 ^ k := by positivity
  have hlt : (m : ℚ) * 2 ^ k < 2 ^ (p + k : ℤ) := by
    rw [zpow_add₀ (by norm_num), zpow_natCast]
    exact mul_lt_mul_of_pos_right (by exact_mod_cast hm) (by positivity)
  have hlog : Int.log 2 ((m : ℚ) * 2 ^ k) < p + k :=
    (Int.lt_zpow_iff_log_lt (by norm_num) hx).mp hlt
  obtain ⟨j, hj⟩ : ∃ j : ℕ, k - (Int.log 2 ((m : ℚ) * 2 ^ k) + 1 - p) = j :=
    ⟨_, (Int.toNat_of_nonneg (by omega)).symm⟩
  have hdiv : (m : ℚ) * 2 ^ k / ulp p (m * 2 ^ k) = ((m * 2 ^ j : ℤ) : ℚ) := by
    rw [ulp, mul_div_assoc, ← zpow_sub₀ (by norm_num), hj]
    push_cast; rw [zpow_natCast]
  rw [round, hdiv, roundEven_intCast, ← hdiv, div_mul_cancel₀ _ (ulp_pos p _).ne']

theorem Representable.round_eq (hp : 0 < p) {x : ℚ} (h : Representable p x) : round p x = x := by
  obtain ⟨m, k, hm, rfl⟩ := h
  rcases hm.eq_or_lt with rfl | hlt
  · -- The power of two has one bit only.
    have hpow : ((2 ^ p : ℕ) : ℚ) * 2 ^ k = ((1 : ℕ) : ℚ) * 2 ^ (p + k : ℤ) := by
      push_cast; rw [one_mul, zpow_add₀ (by norm_num), zpow_natCast]
    rw [hpow]
    exact round_of_lt (Nat.one_lt_two_pow hp.ne')
  · exact round_of_lt hlt

theorem representable_round {x : ℚ} (hx : 0 ≤ x) : Representable p (round p x) := by
  have hnonneg : 0 ≤ roundEven (x / ulp p x) :=
    le_roundEven (by rw [Int.cast_zero]; exact div_nonneg hx (ulp_pos p x).le)
  have hle : roundEven (x / ulp p x) ≤ 2 ^ p := by
    refine roundEven_le ?_
    rw [div_le_iff₀ (ulp_pos p x)]
    push_cast
    rw [two_pow_mul_ulp]
    exact (Int.lt_zpow_succ_log_self (by norm_num) x).le
  refine ⟨(roundEven (x / ulp p x)).toNat, Int.log 2 x + 1 - p, ?_, ?_⟩
  · zify; rw [Int.toNat_of_nonneg hnonneg]; exact hle
  · rw [round, ulp]
    congr 1
    exact_mod_cast (Int.toNat_of_nonneg hnonneg).symm

theorem round_round (hp : 0 < p) {x : ℚ} (hx : 0 ≤ x) : round p (round p x) = round p x :=
  (representable_round hx).round_eq hp

/-- From a power of two on, numbers are multiples of the distance of its binade. -/
theorem Representable.exists_mul {x : ℚ} (hp : 0 < p) (h : Representable p x) {j : ℤ}
    (hj : 2 ^ j ≤ x) : ∃ n : ℤ, x = n * 2 ^ (j + 1 - p) := by
  obtain ⟨m, k, hm, rfl⟩ := h
  rcases le_or_gt (j + 1 - p) k with hk | hk
  · obtain ⟨i, hi⟩ : ∃ i : ℕ, k - (j + 1 - p) = i := ⟨_, (Int.toNat_of_nonneg (by omega)).symm⟩
    refine ⟨m * 2 ^ i, ?_⟩
    push_cast
    rw [mul_assoc, ← zpow_natCast, ← zpow_add₀ (by norm_num)]
    congr 2; omega
  · -- All bits are below the binade, so it is the power of two itself.
    have hle : (m : ℚ) * 2 ^ k ≤ 2 ^ j := calc
      (m : ℚ) * 2 ^ k ≤ 2 ^ p * 2 ^ k :=
        mul_le_mul_of_nonneg_right (by exact_mod_cast hm) (by positivity)
      _ = 2 ^ (p + k : ℤ) := by rw [zpow_add₀ (by norm_num), zpow_natCast]
      _ ≤ 2 ^ j := zpow_le_zpow_right₀ (by norm_num) (by omega)
    refine ⟨2 ^ (p - 1), ?_⟩
    rw [le_antisymm hle hj]
    push_cast
    rw [← zpow_natCast, ← zpow_add₀ (by norm_num)]
    congr 1; omega

/-- Two different numbers of a binade are at least its distance apart. -/
theorem Representable.le_sub {x y : ℚ} (hp : 0 < p) (hx : Representable p x)
    (hy : Representable p y) {j : ℤ} (hj : 2 ^ j ≤ x) (hlt : x < y) :
    2 ^ (j + 1 - p) ≤ y - x := by
  obtain ⟨m, rfl⟩ := hx.exists_mul hp hj
  obtain ⟨n, rfl⟩ := hy.exists_mul hp (hj.trans hlt.le)
  have hpos : (0 : ℚ) < 2 ^ (j + 1 - p) := by positivity
  have hmn : m < n := by exact_mod_cast lt_of_mul_lt_mul_right hlt hpos.le
  have hsub : (1 : ℚ) ≤ n - m := by
    rw [le_sub_iff_add_le']; exact_mod_cast hmn
  rw [← sub_mul]
  exact le_mul_of_one_le_left hpos.le hsub

theorem representable_two_zpow (j : ℤ) : Representable p (2 ^ j) :=
  ⟨1, j, Nat.one_le_two_pow, by rw [Nat.cast_one, one_mul]⟩

/-- A quotient of different numbers keeps its distance from one. -/
theorem Representable.div_le {x y : ℚ} (hp : 0 < p) (hx : Representable p x)
    (hy : Representable p y) (h0 : 0 ≤ x) (hlt : x < y) : x / y ≤ 1 - 1 / 2 ^ p := by
  have hypos : 0 < y := h0.trans_lt hlt
  have hlow : (2 : ℚ) ^ Int.log 2 y ≤ y := Int.zpow_log_le_self (by norm_num) hypos
  have hhigh : y < 2 ^ (Int.log 2 y + 1) := Int.lt_zpow_succ_log_self (by norm_num) y
  generalize Int.log 2 y = j at hlow hhigh
  have hpow : (0 : ℚ) < 2 ^ j := by positivity
  have hshare : (2 : ℚ) ^ (j + 1 - p) = 2 ^ (j + 1) * (1 / 2 ^ p) := by
    rw [zpow_sub₀ (by norm_num), zpow_natCast]
    ring
  have hhalf : (2 : ℚ) ^ (j - 1) = 2 ^ j * (1 / 2) := by
    rw [zpow_sub₀ (by norm_num), zpow_one]
    ring
  have hp' : (1 : ℚ) / 2 ^ p ≤ 1 / 2 := by
    refine one_div_le_one_div_of_le (by norm_num) ?_
    calc (2 : ℚ) = 2 ^ 1 := (pow_one 2).symm
      _ ≤ 2 ^ p := pow_le_pow_right₀ (by norm_num) hp
  rw [div_le_iff₀ hypos]
  rcases le_or_gt ((2 : ℚ) ^ j) x with hj | hj
  · -- both in one binade
    have hsub := hx.le_sub hp hy hj hlt
    have : y * (1 / 2 ^ p) ≤ 2 ^ (j + 1) * (1 / 2 ^ p) :=
      mul_le_mul_of_nonneg_right hhigh.le (by positivity)
    linarith
  · have hle : x ≤ 2 ^ j * (1 - 1 / 2 ^ p) := by
      rcases le_or_gt ((2 : ℚ) ^ (j - 1)) x with hj' | hj'
      · have hsub := hx.le_sub hp (representable_two_zpow j) hj' hj
        have : (2 : ℚ) ^ (j - 1 + 1 - p) = 2 ^ j * (1 / 2 ^ p) := by
          rw [sub_add_cancel, zpow_sub₀ (by norm_num), zpow_natCast]
          ring
        linarith
      · nlinarith
    have : 2 ^ j * (1 - 1 / 2 ^ p) ≤ y * (1 - 1 / 2 ^ p) :=
      mul_le_mul_of_nonneg_right hlow (by linarith)
    linarith

/-- Rounding does not bring it up to one. -/
theorem Representable.round_div_lt_one {x y : ℚ} (hp : 0 < p) (hx : Representable p x)
    (hy : Representable p y) (h0 : 0 ≤ x) (hlt : x < y) : round p (x / y) < 1 := by
  have hbelow : Representable p (1 - 1 / 2 ^ p) := by
    refine ⟨2 ^ p - 1, -p, Nat.sub_le _ _, ?_⟩
    rw [Nat.cast_sub Nat.one_le_two_pow, zpow_neg, zpow_natCast]
    push_cast
    field_simp
  calc round p (x / y) ≤ round p (1 - 1 / 2 ^ p) :=
        round_mono hp (div_nonneg h0 (h0.trans hlt.le)) (hx.div_le hp hy h0 hlt)
    _ = 1 - 1 / 2 ^ p := hbelow.round_eq hp
    _ < 1 := sub_lt_self 1 (by positivity)

theorem round_natCast {n : ℕ} (hn : n ≤ 2 ^ p) (hp : 0 < p) : round p n = n :=
  Representable.round_eq hp ⟨n, 0, hn, by rw [zpow_zero, mul_one]⟩

/-! ### The rounding error -/

theorem abs_roundEven_sub_le (x : ℚ) : |roundEven x - x| ≤ 1 / 2 := by
  have hle := Int.floor_le x
  have hlt := Int.lt_floor_add_one x
  rw [abs_le]
  unfold roundEven
  split_ifs <;> push_cast <;> constructor <;> linarith

theorem abs_round_sub_le (p : ℕ) (x : ℚ) : |round p x - x| ≤ ulp p x / 2 := by
  have hpos := ulp_pos p x
  have heq : round p x - x = (roundEven (x / ulp p x) - x / ulp p x) * ulp p x := by
    rw [round, sub_mul, div_mul_cancel₀ _ hpos.ne']
  calc |round p x - x| = |roundEven (x / ulp p x) - x / ulp p x| * ulp p x := by
        rw [heq, abs_mul, abs_of_pos hpos]
    _ ≤ 1 / 2 * ulp p x := mul_le_mul_of_nonneg_right (abs_roundEven_sub_le _) hpos.le
    _ = ulp p x / 2 := by ring

theorem ulp_div_two (p : ℕ) (x : ℚ) : ulp p x / 2 = 2 ^ Int.log 2 x / 2 ^ p := by
  rw [ulp, zpow_sub₀ (by norm_num), zpow_add₀ (by norm_num), zpow_one, zpow_natCast]
  ring

/-- The error is within the share `2⁻ᵖ` of the number. -/
theorem abs_round_sub_le_div {x : ℚ} (hx : 0 < x) : |round p x - x| ≤ x / 2 ^ p := by
  refine (abs_round_sub_le p x).trans ?_
  rw [ulp_div_two]
  exact div_le_div_of_nonneg_right (Int.zpow_log_le_self (by norm_num) hx) (by positivity)

/-- It is below that share for a number that is not a power of two. -/
theorem abs_round_sub_lt {x : ℚ} (hx : 2 ^ Int.log 2 x < x) : |round p x - x| < x / 2 ^ p := by
  refine (abs_round_sub_le p x).trans_lt ?_
  rw [ulp_div_two]
  exact div_lt_div_of_pos_right hx (by positivity)

/-- A rounded number reduced by more than the rounding error stays at most the number. -/
theorem round_mul_round_le (hp : 0 < p) {x r : ℚ} (hx : 0 ≤ x) (h0 : 0 ≤ r)
    (h1 : r ≤ 1 - 1 / 2 ^ p) : round p (round p x * r) ≤ x := by
  have hround := round_nonneg hp hx
  have hpow : (0 : ℚ) < 1 / 2 ^ p := by positivity
  have hle : round p x * r ≤ round p x := mul_le_of_le_one_right hround (by linarith)
  by_contra! hlt
  -- above the number there is nothing below its rounded value
  have hge : round p x ≤ round p (round p x * r) := by
    have := round_mono hp hx hlt.le
    rwa [round_round hp (mul_nonneg hround h0)] at this
  rcases (mul_nonneg hround h0).eq_or_lt with hzero | hpos
  · rw [← hzero, round_zero] at hlt
    linarith
  · have herror := (abs_le.mp (abs_round_sub_le_div (p := p) hpos)).2
    have hfpos : 0 < round p x := hpos.trans_le hle
    have hgap : round p x * (1 / 2 ^ p) ≤ round p x - round p x * r := by nlinarith
    have hshare : round p x * r / 2 ^ p < round p x * (1 / 2 ^ p) := by
      rw [div_eq_mul_one_div]
      exact mul_lt_mul_of_pos_right (by nlinarith) hpow
    linarith

/-- The quotient of two numbers is rounded up to the same integer before and after it is rounded to
    `p` bits when the dividend has no more. -/
theorem ceil_round_div (hp : 0 < p) {a b : ℕ} (ha : a ≤ 2 ^ p) (hb : 0 < b) :
    ⌈round p (a / b)⌉ = ⌈(a / b : ℚ)⌉ := by
  rcases Nat.eq_zero_or_pos a with rfl | hpos
  · rw [Nat.cast_zero, zero_div, round_zero]
  have hbq : (0 : ℚ) < b := by exact_mod_cast hb
  have hq : (0 : ℚ) < a / b := div_pos (by exact_mod_cast hpos) hbq
  obtain ⟨n, hn⟩ : ∃ n : ℕ, ⌈(a / b : ℚ)⌉ = n :=
    ⟨_, (Int.toNat_of_nonneg (Int.ceil_nonneg hq.le)).symm⟩
  obtain ⟨hlo, hhi⟩ := Int.ceil_eq_iff.mp hn
  rw [Int.cast_natCast] at hlo hhi
  rw [hn, Int.ceil_eq_iff, Int.cast_natCast]
  constructor
  · rcases (Int.zpow_log_le_self (b := 2) (by norm_num) hq).eq_or_lt with hpow | hlt
    · -- a power of two needs no rounding
      have hrep : Representable p (a / b : ℚ) :=
        ⟨1, _, Nat.one_le_two_pow, by rw [Nat.cast_one, one_mul]; exact_mod_cast hpow.symm⟩
      rwa [hrep.round_eq hp]
    · have herror := (abs_lt.mp (abs_round_sub_lt (p := p) (by exact_mod_cast hlt))).1
      have hshare : (a / b : ℚ) / 2 ^ p ≤ 1 / b := by
        rw [div_div, div_le_div_iff₀ (by positivity) hbq, mul_comm (b : ℚ)]
        have : (a : ℚ) ≤ 2 ^ p := by exact_mod_cast ha
        nlinarith
      have hgap : (n - 1 : ℚ) ≤ a / b - 1 / b := by
        rw [lt_div_iff₀ hbq] at hlo
        have hint : ((n : ℤ) - 1) * b + 1 ≤ a := by exact_mod_cast hlo
        rw [← sub_div, le_div_iff₀ hbq]
        have : ((n : ℚ) - 1) * b + 1 ≤ a := by exact_mod_cast hint
        linarith
      linarith
  · have hle : (n : ℚ) ≤ 2 ^ p := by
      have hceil : ⌈(a / b : ℚ)⌉ ≤ (a : ℤ) := Int.ceil_le.mpr (by
        rw [Int.cast_natCast]
        exact div_le_self (Nat.cast_nonneg a) (by exact_mod_cast hb))
      rw [hn] at hceil
      have : n ≤ 2 ^ p := (by exact_mod_cast hceil : n ≤ a).trans ha
      exact_mod_cast this
    calc round p (a / b) ≤ round p n := round_mono hp hq.le hhi
      _ = n := round_natCast (by exact_mod_cast hle) hp

end Rounding
