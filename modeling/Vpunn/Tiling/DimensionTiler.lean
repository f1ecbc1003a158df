import Mathlib.Algebra.BigOperators.Ring.Finset
import Mathlib.Tactic.Push
import Vpunn.Lib.BalancedParts
import Vpunn.Ranges

/-! The balanced split of a dimension into sizes of a range (`dimension_tiler.cpp`). -/

namespace Vpunn
open MachineInt BalancedParts

/-- The range of allowed sizes. -/
structure SplitDimension where
  range : SmartRanges

/-- `ceil_division<int>` -/
def ceilDivisionInt (a b : ℤ) : ℤ := (i32 (a + b - 1)).tdiv b

namespace SplitDimension

/-- The result, and the bins accumulated so far. The number of bins is counted down to zero. -/
def divideBalanced (d : SplitDimension) (toSplit : ℤ) (binsDesired : ℕ)
    (binsAccumulated : List ℤ) : Bool × List ℤ :=
  match binsDesired with
  | 0 => (decide (toSplit ≤ 0), binsAccumulated)
  | bins + 1 =>
    if toSplit ≤ 0 then (false, binsAccumulated)
    else
      match d.range.roundToNextLarger (ceilDivisionInt toSplit (bins + 1 : ℕ)) with
      | none => (false, binsAccumulated)
      | some tentativeSlice =>
        if toSplit < tentativeSlice then (false, binsAccumulated)
        else divideBalanced d (i32 (toSplit - tentativeSlice)) bins
          (binsAccumulated ++ [tentativeSlice])

variable {d : SplitDimension}

/-- The positive sizes of the range. -/
def sizes (d : SplitDimension) : Set ℕ := {m | 0 < m ∧ d.range.isIn m = true}

/-- No `int` overflows during the split. -/
def Fits (d : SplitDimension) (toSplit bins : ℕ) : Prop :=
  toSplit + bins ≤ 2147483648 ∧ d.range.StepsFit toSplit

theorem Fits.step {toSplit bins rest : ℕ} (h : d.Fits toSplit (bins + 1)) (hrest : rest ≤ toSplit) :
    d.Fits rest bins := by
  obtain ⟨hbins, hdiv, hlcm⟩ := h
  exact ⟨by omega, by omega, fun s hs => by have := hlcm s hs; omega⟩

theorem ceilDivisionInt_le_iff {toSplit bins m : ℕ} (hbins : 0 < bins)
    (hfit : toSplit + bins ≤ 2147483648) :
    ceilDivisionInt toSplit bins ≤ m ↔ toSplit ≤ bins * m := by
  have hb : (0 : ℤ) < bins := by exact_mod_cast hbins
  rw [ceilDivisionInt, i32_of_bounds (by omega) (by omega),
    Int.tdiv_eq_ediv_of_nonneg (by omega), Int.ediv_le_iff_le_mul hb, mul_comm (m : ℤ),
    ← Nat.cast_mul]
  omega

theorem ceilDivisionInt_pos {toSplit bins : ℕ} (hpos : 0 < toSplit) (hbins : 0 < bins)
    (hfit : toSplit + bins ≤ 2147483648) : 0 < ceilDivisionInt toSplit bins := by
  by_contra hle
  have := (ceilDivisionInt_le_iff (m := 0) hbins hfit).mp (by exact_mod_cast not_lt.mp hle)
  omega

theorem stepsFit_mean {toSplit bins : ℕ} (hfit : d.Fits toSplit (bins + 1)) :
    d.range.StepsFit (ceilDivisionInt toSplit (bins + 1 : ℕ)) := by
  have hle : ceilDivisionInt toSplit (bins + 1 : ℕ) ≤ toSplit :=
    (ceilDivisionInt_le_iff bins.succ_pos hfit.1).mpr (Nat.le_mul_of_pos_left _ bins.succ_pos)
  exact ⟨by have := hfit.2.1; omega, fun s hs => by have := hfit.2.2 s hs; omega⟩

/-- What the range rounds the mean up to. -/
theorem roundToNextLarger_mean_iff {toSplit bins x : ℕ} (hpos : 0 < toSplit)
    (hfit : d.Fits toSplit (bins + 1)) :
    d.range.roundToNextLarger (ceilDivisionInt toSplit (bins + 1 : ℕ)) = some (x : ℤ) ↔
      (d.range.lowerBound : ℤ) ≤ ceilDivisionInt toSplit (bins + 1 : ℕ)
        ∧ IsLeast (fromMean d.sizes (bins + 1) toSplit) x := by
  have hmean : ∀ m : ℕ, ceilDivisionInt toSplit (bins + 1 : ℕ) ≤ m ↔ toSplit ≤ (bins + 1) * m :=
    fun m => ceilDivisionInt_le_iff bins.succ_pos hfit.1
  have hmean0 := ceilDivisionInt_pos hpos bins.succ_pos hfit.1
  set mean := ceilDivisionInt toSplit (bins + 1 : ℕ)
  rw [SmartRanges.roundToNextLarger_eq_some_iff (stepsFit_mean hfit), and_congr_right_iff]
  intro _
  constructor
  · rintro ⟨⟨hx, hle⟩, hleast⟩
    refine ⟨⟨⟨by omega, hx⟩, (hmean x).mp hle⟩, fun y hy => ?_⟩
    exact_mod_cast hleast (a := (y : ℤ)) ⟨hy.1.2, (hmean y).mpr hy.2⟩
  · rintro ⟨⟨⟨-, hx⟩, hle⟩, hleast⟩
    refine ⟨⟨hx, (hmean x).mpr hle⟩, fun y hy => ?_⟩
    obtain ⟨n, rfl⟩ := Int.eq_ofNat_of_zero_le (hmean0.le.trans hy.2)
    have hy0 := hmean0.trans_le hy.2
    exact_mod_cast hleast ⟨⟨by omega, hy.1⟩, (hmean n).mp hy.2⟩

/-- What can be divided has a mean from the lower bound on. -/
theorem lowerBound_le_mean {toSplit bins : ℕ} {parts : List ℕ} (hpos : 0 < toSplit)
    (hfit : d.Fits toSplit (bins + 1)) (h : Parts d.sizes (bins + 1) toSplit parts) :
    (d.range.lowerBound : ℤ) ≤ ceilDivisionInt toSplit (bins + 1 : ℕ) := by
  have hlower : ∀ x ∈ parts, d.range.lowerBound ≤ x := fun x hx => by
    exact_mod_cast (SmartRanges.isIn_iff.mp (h.mem x hx).2).1.1
  have htotal := List.card_nsmul_le_sum parts _ hlower
  rw [smul_eq_mul, h.length_eq, h.sum_eq] at htotal
  by_contra hlt
  have hmean : 0 < ceilDivisionInt toSplit (bins + 1 : ℕ) :=
    ceilDivisionInt_pos hpos bins.succ_pos hfit.1
  have hpred : ceilDivisionInt toSplit (bins + 1 : ℕ) ≤ (d.range.lowerBound - 1 : ℕ) := by omega
  have hle := (ceilDivisionInt_le_iff bins.succ_pos hfit.1).mp hpred
  have hlt' : (bins + 1) * (d.range.lowerBound - 1) < (bins + 1) * d.range.lowerBound :=
    Nat.mul_lt_mul_of_pos_left (by omega) bins.succ_pos
  exact absurd (hle.trans_lt hlt') (by omega)

/-- The function makes the greedy division, and succeeds whenever there is one. -/
theorem divideBalanced_iff {toSplit bins : ℕ} (hfit : d.Fits toSplit bins) (acc l : List ℤ) :
    d.divideBalanced toSplit bins acc = (true, l) ↔
      ∃ parts, Greedy d.sizes bins toSplit parts ∧ l = acc ++ parts.map Nat.cast := by
  induction bins generalizing toSplit acc with
  | zero =>
    rw [divideBalanced]
    constructor
    · intro h
      obtain ⟨hzero, rfl⟩ := Prod.mk.inj h
      have : toSplit = 0 := by simpa using hzero
      subst this
      exact ⟨[], .nil, by simp⟩
    · rintro ⟨parts, hparts, rfl⟩
      cases hparts
      simp
  | succ bins ih =>
    rw [divideBalanced]
    rcases Nat.eq_zero_or_pos toSplit with rfl | hpos
    · rw [if_pos (by simp)]
      refine iff_of_false (by simp) ?_
      rintro ⟨parts, hparts, -⟩
      cases hparts
      omega
    · rw [if_neg (by omega)]
      have hround := fun x => roundToNextLarger_mean_iff (x := x) hpos hfit
      constructor
      · intro h
        cases hx : d.range.roundToNextLarger (ceilDivisionInt toSplit (bins + 1 : ℕ)) with
        | none => simp only [hx, Prod.mk.injEq, Bool.false_eq_true, false_and] at h
        | some x =>
          have hx0 : 0 ≤ x := by
            have hsteps : d.range.StepsFit (ceilDivisionInt toSplit (bins + 1 : ℕ)) :=
              stepsFit_mean hfit
            have := ((SmartRanges.roundToNextLarger_eq_some_iff hsteps).mp hx).2.1.1
            exact SmartRanges.nonneg_of_isIn this
          obtain ⟨x, rfl⟩ := Int.eq_ofNat_of_zero_le hx0
          obtain ⟨-, hleast⟩ := (hround x).mp hx
          simp only [hx] at h
          split_ifs at h with hlt
          · simp only [Prod.mk.injEq, Bool.false_eq_true, false_and] at h
          · have hle : x ≤ toSplit := by omega
            rw [← Nat.cast_sub hle, i32_natCast (by have := hfit.1; omega),
              ih (hfit.step (Nat.sub_le ..))] at h
            obtain ⟨parts, hparts, rfl⟩ := h
            exact ⟨x :: parts, .cons hpos hleast hle hparts, by simp⟩
      · rintro ⟨_, hparts, rfl⟩
        have hlower := lowerBound_le_mean hpos hfit hparts.parts
        cases hparts with
        | @cons _ _ x parts _ hx hle hrest =>
          rw [(hround x).mpr ⟨hlower, hx⟩]
          simp only
          rw [if_neg (by omega), ← Nat.cast_sub hle, i32_natCast (by have := hfit.1; omega)]
          rw [ih (hfit.step (Nat.sub_le ..))]
          exact ⟨parts, hrest, by simp⟩

/-! ### Completeness -/

/-- All positive sizes, but at most the largest one, are multiples of one step in an interval: either
    none lies below the second divisor, or the range ends before the second multiple of both divisors,
    or it ends before the third one and the first divisor divides the second. -/
def OneLargerStep (d : SplitDimension) : Prop :=
  ∀ s ∈ d.range.secondDivisor, (∀ m ∈ d.sizes, s ≤ m)
    ∨ d.range.upperBound < 2 * Nat.lcm d.range.divisor s
    ∨ (d.range.divisor ∣ s ∧ d.range.upperBound < 3 * Nat.lcm d.range.divisor s)

theorem mem_sizes_iff {m : ℕ} : m ∈ d.sizes ↔ 0 < m ∧
    (d.range.lowerBound ≤ m ∧ m ≤ d.range.upperBound) ∧ d.range.divisor ∣ m ∧
      ∀ s ∈ d.range.secondDivisor, s ≤ m → s ∣ m := by
  change (0 < m ∧ d.range.isIn m = true) ↔ _
  rw [SmartRanges.isIn_iff]
  norm_cast

/-- The greedy division is complete for such ranges. -/
theorem OneLargerStep.exists_greedy (h : d.OneLargerStep) {bins toSplit : ℕ} {parts : List ℕ}
    (hparts : Parts d.sizes bins toSplit parts) :
    ∃ parts', Greedy d.sizes bins toSplit parts' := by
  cases hsecond : d.range.secondDivisor with
  | none =>
    refine exists_greedy_of_mem_iff d.range.lowerBound d.range.upperBound (T := ∅)
      d.range.divisor_pos Set.subsingleton_empty (by simp) (fun m => ?_) hparts
    rw [mem_sizes_iff, hsecond]
    simp only [reduceCtorEq, Option.mem_def, IsEmpty.forall_iff, implies_true, and_true,
      Set.mem_empty_iff_false, or_false]
    tauto
  | some s =>
    have hspos := d.range.secondDivisor_pos s hsecond
    have hmem : ∀ m, m ∈ d.sizes ↔ 0 < m ∧ (d.range.lowerBound ≤ m ∧ m ≤ d.range.upperBound)
        ∧ d.range.divisor ∣ m ∧ (s ≤ m → s ∣ m) := fun m => by
      rw [mem_sizes_iff, hsecond]
      simp
    have hleft : d.range.divisor ∣ Nat.lcm d.range.divisor s := Nat.dvd_lcm_left ..
    have hright : s ∣ Nat.lcm d.range.divisor s := Nat.dvd_lcm_right ..
    have hlpos := Nat.lcm_pos d.range.divisor_pos hspos
    have hsl := Nat.le_of_dvd hlpos hright
    rcases h s hsecond with hbelow | hupper | ⟨hdvd, hupper⟩
    · -- All sizes are multiples of both divisors.
      refine exists_greedy_of_mem_iff d.range.lowerBound d.range.upperBound (T := ∅) hlpos
        Set.subsingleton_empty (by simp) (fun m => ?_) hparts
      rw [Set.mem_empty_iff_false, or_false]
      constructor
      · intro hm
        obtain ⟨hpos, hbounds, hd, hs⟩ := (hmem m).mp hm
        exact ⟨hpos, Nat.lcm_dvd hd (hs (hbelow m hm)), hbounds⟩
      · rintro ⟨hpos, hl, hbounds⟩
        exact (hmem m).mpr ⟨hpos, hbounds, hleft.trans hl, fun _ => hright.trans hl⟩
    · -- The sizes below the second divisor, and the first multiple of both.
      refine exists_greedy_of_mem_iff d.range.lowerBound (min d.range.upperBound (s - 1))
        (T := {m | m = Nat.lcm d.range.divisor s ∧ d.range.lowerBound ≤ m ∧ m ≤ d.range.upperBound})
        d.range.divisor_pos (fun x hx y hy => hx.1.trans hy.1.symm) ?_ (fun m => ?_) hparts
      · rintro t ⟨rfl, hlo, -⟩
        exact ⟨hlo, by omega⟩
      · rw [hmem]
        constructor
        · rintro ⟨hpos, ⟨hlo, hhi⟩, hd, hs⟩
          refine ⟨hpos, hd, ?_⟩
          by_cases hsm : s ≤ m
          · refine .inr ⟨?_, hlo, hhi⟩
            exact Nat.eq_of_dvd_of_lt_two_mul hpos.ne' (Nat.lcm_dvd hd (hs hsm)) (by omega)
          · exact .inl ⟨hlo, by omega⟩
        · rintro ⟨hpos, hd, ⟨hlo, hhi⟩ | ⟨rfl, hbounds⟩⟩
          · exact ⟨hpos, ⟨hlo, by omega⟩, hd, fun _ => by omega⟩
          · exact ⟨hpos, hbounds, hd, fun _ => hright⟩
    · -- The sizes up to the second divisor, and twice that.
      rw [Nat.lcm_eq_right hdvd] at hupper
      refine exists_greedy_of_mem_iff d.range.lowerBound (min d.range.upperBound s)
        (T := {m | m = 2 * s ∧ d.range.lowerBound ≤ m ∧ m ≤ d.range.upperBound})
        d.range.divisor_pos (fun x hx y hy => hx.1.trans hy.1.symm) ?_ (fun m => ?_) hparts
      · rintro t ⟨rfl, hlo, -⟩
        exact ⟨hlo, by omega⟩
      · rw [hmem]
        constructor
        · rintro ⟨hpos, ⟨hlo, hhi⟩, hd, hs⟩
          refine ⟨hpos, hd, ?_⟩
          by_cases hsm : m ≤ s
          · exact .inl ⟨hlo, by omega⟩
          · refine .inr ⟨?_, hlo, hhi⟩
            have hsub : m - s = s := Nat.eq_of_dvd_of_lt_two_mul (by omega)
              (Nat.dvd_sub (hs (by omega)) (Nat.dvd_refl s)) (by omega)
            omega
        · rintro ⟨hpos, hd, ⟨hlo, hhi⟩ | ⟨rfl, hbounds⟩⟩
          · refine ⟨hpos, ⟨hlo, by omega⟩, hd, fun hsm => ?_⟩
            rw [le_antisymm hsm (by omega)]
          · exact ⟨hpos, hbounds, hd, fun _ => Dvd.intro_left 2 rfl⟩

/-- For every other range there is a dimension that could be split, but is not by the greedy
    division. -/
theorem exists_parts_not_greedy (h : ¬ d.OneLargerStep) :
    ∃ s ∈ d.range.secondDivisor, ∃ bins toSplit parts, bins ≤ 3 ∧ 0 < bins
      ∧ toSplit < 4 * Nat.lcm d.range.divisor s ∧ Parts d.sizes bins toSplit parts
      ∧ ¬ ∃ parts', Greedy d.sizes bins toSplit parts' := by
  unfold OneLargerStep at h
  push Not at h
  obtain ⟨s, hsecond, ⟨m, hm, hms⟩, hupper, hupper'⟩ := h
  refine ⟨s, hsecond, ?_⟩
  have hspos := d.range.secondDivisor_pos s hsecond
  have hmem : ∀ m, m ∈ d.sizes ↔ 0 < m ∧ (d.range.lowerBound ≤ m ∧ m ≤ d.range.upperBound)
      ∧ d.range.divisor ∣ m ∧ (s ≤ m → s ∣ m) := fun m => by
    rw [mem_sizes_iff, Option.mem_def.mp hsecond]
    simp
  set L := Nat.lcm d.range.divisor s with hL
  have hlpos : 0 < L := Nat.lcm_pos d.range.divisor_pos hspos
  have hsl : s ≤ L := Nat.le_of_dvd hlpos (Nat.dvd_lcm_right ..)
  have hlower := ((hmem m).mp hm).2.1.1
  -- The multiples of both divisors are sizes, and from the second divisor on nothing else is.
  have hmul : ∀ k, 0 < k → k * L ≤ d.range.upperBound → k * L ∈ d.sizes := by
    intro k hk hle
    have := Nat.le_mul_of_pos_left L hk
    exact (hmem _).mpr ⟨by omega, ⟨by omega, hle⟩,
      (Nat.dvd_lcm_left ..).trans (Nat.dvd_mul_left L k),
      fun _ => (Nat.dvd_lcm_right ..).trans (Nat.dvd_mul_left L k)⟩
  have hdvd : ∀ x ∈ d.sizes, s ≤ x → L ∣ x := fun x hx hsx =>
    let hx := ((hmem x).mp hx).2.2
    Nat.lcm_dvd hx.1 (hx.2 hsx)
  by_cases hds : d.range.divisor ∣ s
  · -- `3 * L + m` in two: the mean is above `L`, and what is left of `2 * L` is not a size.
    have hls : L = s := Nat.lcm_eq_right hds
    have hthree := hmul 3 (by omega) (hupper' hds)
    have htwo := hmul 2 (by omega) hupper
    refine ⟨2, 3 * L + m, [3 * L, m], by omega, by omega, by omega, ⟨?_, rfl, by simp⟩, ?_⟩
    · simp [hthree, hm]
    · rintro ⟨_, hgreedy⟩
      cases hgreedy with
      | @cons _ _ x _ _ hx hle hrest =>
        obtain ⟨⟨hxmem, hxmean⟩, hleast⟩ := hx
        have hx2 : x ≤ 2 * L := hleast ⟨htwo, by omega⟩
        have := Nat.le_of_dvd (by omega : 0 < x - L)
          (Nat.dvd_sub (hdvd x hxmem (by omega)) (Nat.dvd_refl L))
        obtain rfl : x = 2 * L := by omega
        cases hrest with
        | @cons _ _ y _ _ hy hle' hrest' =>
          obtain ⟨⟨hymem, hymean⟩, -⟩ := hy
          have hyeq : y = L + m := by omega
          have := hdvd y hymem (by omega)
          rw [hyeq, Nat.dvd_add_right (Nat.dvd_refl L)] at this
          have := Nat.le_of_dvd ((hmem m).mp hm).1 this
          omega
  · -- `2 * L + 2 * a` in three, where `a` is the largest size below the second divisor.
    classical
    obtain ⟨a, ha, has, hlargest⟩ : ∃ a ∈ d.sizes, a < s ∧ ∀ x ∈ d.sizes, x < s → x ≤ a := by
      let P : ℕ → Prop := fun x => x ∈ d.sizes
      have hle : Nat.findGreatest P (s - 1) ≤ s - 1 := Nat.findGreatest_le _
      exact ⟨Nat.findGreatest P (s - 1), Nat.findGreatest_spec (P := P) (by omega : m ≤ s - 1) hm,
        by omega, fun x hx hxs => Nat.le_findGreatest (P := P) (by omega) hx⟩
    have hapos := ((hmem a).mp ha).1
    have h2s : 2 * s ≤ L := by
      obtain ⟨k, hk⟩ := Nat.dvd_lcm_right d.range.divisor s
      rw [← hL] at hk
      rcases Nat.lt_or_ge k 2 with hk2 | hk2
      · obtain rfl | rfl : k = 0 ∨ k = 1 := by omega
        · omega
        · rw [Nat.mul_one] at hk
          exact absurd (hk ▸ Nat.dvd_lcm_left d.range.divisor s) hds
      · rw [hk, Nat.mul_comm]
        exact Nat.mul_le_mul_left s hk2
    have hone := hmul 1 (by omega) (by omega)
    have htwo := hmul 2 (by omega) hupper
    rw [Nat.one_mul] at hone
    -- A size above `a` is a multiple of `L`.
    have habove : ∀ x ∈ d.sizes, a < x → L ≤ x := fun x hx hax => by
      have hsx : s ≤ x := by
        by_contra hlt
        have := hlargest x hx (by omega)
        omega
      exact Nat.le_of_dvd (by omega) (hdvd x hx hsx)
    refine ⟨3, 2 * L + a + a, [2 * L, a, a], by omega, by omega, by omega, ⟨?_, rfl, ?_⟩, ?_⟩
    · simp [htwo, ha]
    · simp [Nat.add_assoc]
    · rintro ⟨_, hgreedy⟩
      cases hgreedy with
      | @cons _ _ x _ _ hx hle hrest =>
        obtain ⟨⟨hxmem, hxmean⟩, hleast⟩ := hx
        have hxl : x ≤ L := hleast ⟨hone, by omega⟩
        obtain rfl : x = L := le_antisymm hxl (habove x hxmem (by omega))
        cases hrest with
        | @cons _ _ y _ _ hy hle' hrest' =>
          obtain ⟨⟨hymem, hymean⟩, hleast'⟩ := hy
          have hyl : y ≤ L := hleast' ⟨hone, by omega⟩
          obtain rfl : y = L := le_antisymm hyl (habove y hymem (by omega))
          cases hrest' with
          | @cons _ _ z _ _ hz hle'' hrest'' =>
            obtain ⟨⟨hzmem, hzmean⟩, -⟩ := hz
            have := habove z hzmem (by omega)
            omega

/-! ### The split of a dimension -/

/-- A number of sizes of the range that add up to the dimension. -/
structure IsSplit (d : SplitDimension) (toSplit bins : ℕ) (l : List ℤ) : Prop where
  length_eq : l.length = bins
  mem : ∀ x ∈ l, d.range.isIn x = true
  sum_eq : l.sum = toSplit

theorem IsSplit.parts {toSplit bins : ℕ} {l : List ℤ} (h : d.IsSplit toSplit bins l)
    (hpos : ∀ x ∈ l, 0 < x) : ∃ parts, Parts d.sizes bins toSplit parts := by
  obtain ⟨parts, rfl⟩ : ∃ parts : List ℕ, l = parts.map Nat.cast :=
    ⟨l.map Int.toNat, by
      rw [List.map_map]
      refine (List.map_id l).symm.trans (List.map_congr_left fun x hx => ?_)
      exact (Int.toNat_of_nonneg (hpos x hx).le).symm⟩
  obtain ⟨hlength, hmem, hsum⟩ := h
  refine ⟨parts, fun x hx => ?_, by rwa [List.length_map] at hlength, ?_⟩
  · have hcast : (x : ℤ) ∈ parts.map Nat.cast := List.mem_map_of_mem hx
    exact ⟨by exact_mod_cast hpos _ hcast, hmem _ hcast⟩
  · rw [← Nat.cast_list_sum] at hsum
    exact_mod_cast hsum

/-- What the function returns with `true` is a split into positive sizes that never grow. It returns
    `true` whenever there is a split into positive sizes, for the ranges whose positive sizes, but at
    most the largest one, are multiples of one step in an interval; for every other range it misses
    some. -/
theorem divideBalanced_spec (d : SplitDimension) :
    (∀ toSplit bins l, d.Fits toSplit bins → d.divideBalanced toSplit bins [] = (true, l) →
      d.IsSplit toSplit bins l ∧ (∀ x ∈ l, 0 < x) ∧ l.Pairwise (· ≥ ·))
    ∧ (d.OneLargerStep → ∀ toSplit bins l, d.Fits toSplit bins → d.IsSplit toSplit bins l →
      (∀ x ∈ l, 0 < x) → (d.divideBalanced toSplit bins []).1 = true)
    ∧ (¬ d.OneLargerStep →
      (∀ s ∈ d.range.secondDivisor, 6 * Nat.lcm d.range.divisor s ≤ 2147483648) →
      ∃ toSplit bins l, 0 < toSplit ∧ 0 < bins ∧ d.Fits toSplit bins ∧ d.IsSplit toSplit bins l
        ∧ (∀ x ∈ l, 0 < x) ∧ (d.divideBalanced toSplit bins []).1 = false) := by
  have hcast : ∀ {toSplit bins parts}, Parts d.sizes bins toSplit parts →
      d.IsSplit toSplit bins (parts.map Nat.cast) ∧ ∀ x ∈ parts.map (Nat.cast : ℕ → ℤ), 0 < x := by
    intro toSplit bins parts h
    refine ⟨⟨by rw [List.length_map, h.length_eq], ?_, by rw [← Nat.cast_list_sum, h.sum_eq]⟩, ?_⟩
    · rw [List.forall_mem_map]
      exact fun x hx => (h.mem x hx).2
    · rw [List.forall_mem_map]
      exact fun x hx => by exact_mod_cast (h.mem x hx).1
  refine ⟨fun toSplit bins l hfit h => ?_, fun hstep toSplit bins l hfit h hpos => ?_,
    fun hstep hsmall => ?_⟩
  · obtain ⟨parts, hgreedy, rfl⟩ := (divideBalanced_iff hfit [] l).mp h
    rw [List.nil_append]
    refine ⟨(hcast hgreedy.parts).1, (hcast hgreedy.parts).2, ?_⟩
    rw [List.pairwise_map]
    exact hgreedy.pairwise_ge.imp fun hxy => by exact_mod_cast hxy
  · obtain ⟨parts, hparts⟩ := h.parts hpos
    obtain ⟨parts', hgreedy⟩ := hstep.exists_greedy hparts
    rw [(divideBalanced_iff hfit [] _).mpr ⟨parts', hgreedy, rfl⟩]
  · obtain ⟨s, hs, bins, toSplit, parts, hbins, hbins', hto, hparts, hnot⟩ :=
      exists_parts_not_greedy hstep
    have hspos := d.range.secondDivisor_pos s hs
    have hlpos := Nat.lcm_pos d.range.divisor_pos hspos
    have hdl := Nat.le_of_dvd hlpos (Nat.dvd_lcm_left d.range.divisor s)
    have hsix := hsmall s hs
    have hfit : d.Fits toSplit bins := by
      refine ⟨by omega, by omega, fun s' hs' => ?_⟩
      obtain rfl := Option.mem_unique hs hs'
      omega
    refine ⟨toSplit, bins, _, ?_, hbins', hfit, (hcast hparts).1, (hcast hparts).2, ?_⟩
    · obtain ⟨x, hx⟩ := List.exists_mem_of_length_pos (hparts.length_eq.symm ▸ hbins')
      have := List.single_le_sum (by simp) x hx
      have := (hparts.mem x hx).1
      have := hparts.sum_eq
      omega
    · rw [← Bool.not_eq_true]
      intro htrue
      obtain ⟨parts', hgreedy, -⟩ :=
        (divideBalanced_iff hfit [] (d.divideBalanced toSplit bins []).2).mp (Prod.ext htrue rfl)
      exact hnot ⟨parts', hgreedy⟩

/-- Of 16, 32 and 64, the sizes of a narrow range, 96 is `64 + 32`, as 48 is none of them. -/
theorem divideBalanced_spec_narrow :
    let d : SplitDimension := ⟨.make 16 64 16 (some 32)⟩
    (d.IsSplit 96 2 [64, 32] ∧ (∀ x ∈ [64, 32], (0 : ℤ) < x) ∧ List.Pairwise (· ≥ ·) [(64 : ℤ), 32])
      ∧ (d.divideBalanced 96 2 []).1 = true := by
  intro d
  have hfit : d.Fits 96 2 := ⟨by decide, by decide, by decide⟩
  have hstep : d.OneLargerStep := fun s hs => by
    obtain rfl : 32 = s := Option.some.inj hs
    exact .inr (.inr ⟨by decide, by decide⟩)
  have hsplit := (divideBalanced_spec d).1 96 2 [64, 32] hfit (by decide)
  exact ⟨hsplit, (divideBalanced_spec d).2.1 hstep 96 2 [64, 32] hfit hsplit.1 hsplit.2.1⟩

/-- 112 channels are `96 + 16`, but the mean 56 is rounded up to 64 and 48 is not a size. A bin of
    size 0 is never made, and where the mean overflows nothing is. -/
theorem divideBalanced_incomplete :
    (let d : SplitDimension := ⟨.make 16 256 16 (some 32)⟩;
      d.IsSplit 112 2 [96, 16] ∧ (d.divideBalanced 112 2 []).1 = false)
    ∧ (let d : SplitDimension := ⟨.make 0 64 16⟩;
      d.IsSplit 16 2 [16, 0] ∧ (d.divideBalanced 16 2 []).1 = false)
    ∧ (let d : SplitDimension := ⟨.make 1 2147483647⟩;
      d.IsSplit 2147483647 2 [1073741824, 1073741823]
        ∧ (d.divideBalanced 2147483647 2 []).1 = false) := by
  refine ⟨⟨⟨rfl, by decide, rfl⟩, by decide⟩, ⟨⟨rfl, by decide, rfl⟩, by decide⟩,
    ⟨⟨rfl, by decide, rfl⟩, by decide⟩⟩

end SplitDimension

end Vpunn
