import Mathlib.Data.Int.GCD
import Vpunn.Lib.MachineInt

/-! Ranges of valid values (`ranges.h`).

    A `SmartRanges` holds the values between two bounds that a divisor divides; values from a second
    divisor on have to be divisible by it as well. -/

namespace Vpunn
open MachineInt

/-- Bounds are never negative and divisors never zero, whatever a range is made from. -/
structure SmartRanges where
  lowerBound : ℕ
  upperBound : ℕ
  divisor : ℕ
  secondDivisor : Option ℕ
  divisor_pos : 0 < divisor
  secondDivisor_pos : ∀ d ∈ secondDivisor, 0 < d

namespace SmartRanges

/-- The largest `int`. -/
def maxLimit : ℤ := 2147483647

def normalizeDivisor (divisor : ℤ) : ℕ := if divisor = 0 then 1 else divisor.natAbs

theorem normalizeDivisor_pos (divisor : ℤ) : 0 < normalizeDivisor divisor := by
  unfold normalizeDivisor; split <;> omega

/-- The constructor: negative bounds become `0`, a divisor loses its sign, and `0` becomes `1`. -/
def make (lowerBound upperBound : ℤ) (divisor : ℤ := 1) (secondDiv : Option ℤ := none) :
    SmartRanges where
  lowerBound := lowerBound.toNat
  upperBound := upperBound.toNat
  divisor := normalizeDivisor divisor
  secondDivisor := secondDiv.map normalizeDivisor
  divisor_pos := normalizeDivisor_pos divisor
  secondDivisor_pos := by
    intro d hd
    obtain ⟨e, -, rfl⟩ := Option.mem_map.mp hd
    exact normalizeDivisor_pos e

/-- Each test is made only when the tests before it did not fail. -/
def isIn (r : SmartRanges) (value : ℤ) : Bool :=
  let belongs := decide (r.lowerBound ≤ value ∧ value ≤ r.upperBound)
  let divisible := if belongs then decide (value.tmod r.divisor = 0) else true
  let secondDivisibleOK :=
    match (if belongs && divisible then r.secondDivisor else none) with
    | some d => if d ≤ value then decide (value.tmod d = 0) else true
    | none => true
  belongs && divisible && secondDivisibleOK

def multiplyUpper (r : SmartRanges) (multiplier : ℤ) : SmartRanges :=
  make r.lowerBound (i32 (r.upperBound * multiplier)) r.divisor (r.secondDivisor.map Int.ofNat)

def multiplyLower (r : SmartRanges) (multiplier : ℤ) : SmartRanges :=
  make (i32 (r.lowerBound * multiplier)) r.upperBound r.divisor (r.secondDivisor.map Int.ofNat)

/-! ### Stepping through a range -/

/-- `std::lcm` of the divisors, which is only asked for when there is a second one. -/
def lcm (r : SmartRanges) (second : ℕ) : ℤ := i32 (Nat.lcm r.divisor second)

/-- `round_up<int>` -/
def roundUpInt (a b : ℤ) : ℤ := i32 ((i32 (a + b - 1)).tdiv b * b)

def getStepForDomain (r : SmartRanges) (value : ℤ) : ℤ :=
  match r.secondDivisor with
  | some s => if s ≤ value then r.lcm s else r.divisor
  | none => r.divisor

/-- Rounds up in the domain of the value, and once more where that crosses the second divisor. -/
def alignUnboundedToNextValid (r : SmartRanges) (anyValue : ℤ) : ℤ :=
  let candidate := roundUpInt anyValue (r.getStepForDomain anyValue)
  match r.secondDivisor with
  | some s => if anyValue < s ∧ s ≤ candidate then roundUpInt candidate (r.lcm s) else candidate
  | none => candidate

def betweenLimits (r : SmartRanges) (value : ℤ) : Bool :=
  decide (r.lowerBound ≤ value ∧ value ≤ r.upperBound)

def roundToNextLarger (r : SmartRanges) (value : ℤ) : Option ℤ :=
  if r.betweenLimits value then
    let candidate := r.alignUnboundedToNextValid value
    if candidate ≤ r.upperBound then some candidate else none
  else none

theorem isIn_iff {r : SmartRanges} {value : ℤ} : r.isIn value = true ↔
    (r.lowerBound ≤ value ∧ value ≤ r.upperBound) ∧ (r.divisor : ℤ) ∣ value ∧
      ∀ d ∈ r.secondDivisor, d ≤ value → (d : ℤ) ∣ value := by
  unfold isIn
  by_cases hbelongs : (r.lowerBound : ℤ) ≤ value ∧ value ≤ r.upperBound
  · by_cases hdvd : (r.divisor : ℤ) ∣ value
    · have hmod := Int.tmod_eq_zero_of_dvd hdvd
      cases hsecond : r.secondDivisor with
      | none => simp [hbelongs, hdvd, hmod]
      | some d =>
        simp only [hbelongs, and_self, decide_true, hmod, if_true, Bool.and_true,
          Option.mem_some_iff, forall_eq', hdvd, true_and, Bool.true_and]
        split <;> simp_all [Int.dvd_iff_tmod_eq_zero]
    · have hmod : value.tmod r.divisor ≠ 0 := fun h => hdvd (Int.dvd_of_tmod_eq_zero h)
      simp [hbelongs, hdvd, hmod]
  · simp [hbelongs]

theorem nonneg_of_isIn {r : SmartRanges} {value : ℤ} (h : r.isIn value = true) : 0 ≤ value := by
  have := (isIn_iff.mp h).1.1
  omega

/-- No `int` overflows while a value is rounded up. -/
def StepsFit (r : SmartRanges) (value : ℤ) : Prop :=
  value + r.divisor ≤ 2147483648 ∧
    ∀ s ∈ r.secondDivisor, value + r.divisor + Nat.lcm r.divisor s ≤ 2147483648

/-- The least multiple from a number on. -/
def nextMultiple (a b : ℤ) : ℤ := (a + b - 1) / b * b

theorem isLeast_nextMultiple (a : ℤ) {b : ℤ} (hb : 0 < b) :
    IsLeast {x | b ∣ x ∧ a ≤ x} (nextMultiple a b) := by
  have hlt : a + b - 1 < ((a + b - 1) / b + 1) * b := Int.lt_ediv_add_one_mul_self _ hb
  rw [Int.add_mul, Int.one_mul] at hlt
  unfold nextMultiple
  refine ⟨⟨Dvd.intro_left _ rfl, by omega⟩, ?_⟩
  rintro x ⟨⟨k, rfl⟩, hx⟩
  have hk : (a + b - 1) / b ≤ k := by
    rw [Int.ediv_le_iff_le_mul hb]
    rw [mul_comm b k] at hx
    omega
  rw [mul_comm b k]
  exact Int.mul_le_mul_of_nonneg_right hk hb.le

theorem nextMultiple_lt (a : ℤ) {b : ℤ} (hb : 0 < b) : nextMultiple a b < a + b := by
  have hle : (a + b - 1) / b * b ≤ a + b - 1 := Int.ediv_mul_le _ hb.ne'
  unfold nextMultiple
  omega

theorem roundUpInt_eq {a b : ℤ} (ha : 0 ≤ a) (hb : 0 < b) (hfit : a + b ≤ 2147483648) :
    roundUpInt a b = nextMultiple a b := by
  have hlt := nextMultiple_lt a hb
  have hle := (isLeast_nextMultiple a hb).1.2
  have hdiv : (i32 (a + b - 1)).tdiv b = (a + b - 1) / b := by
    rw [i32_of_bounds (by omega) (by omega), Int.tdiv_eq_ediv_of_nonneg (by omega)]
  unfold nextMultiple at hlt hle ⊢
  rw [roundUpInt, hdiv, i32_of_bounds (by omega) (by omega)]

/-- What a value has to be divisible by, whatever the bounds are. -/
def Aligned (r : SmartRanges) (value : ℤ) : Prop :=
  (r.divisor : ℤ) ∣ value ∧ ∀ s ∈ r.secondDivisor, s ≤ value → (s : ℤ) ∣ value

/-- The step at a value, without a bound on its size. -/
def stepAt (r : SmartRanges) (value : ℤ) : ℤ :=
  match r.secondDivisor with
  | some s => if s ≤ value then (Nat.lcm r.divisor s : ℕ) else r.divisor
  | none => r.divisor

/-- The next valid value, without a bound on its size. -/
def leastAligned (r : SmartRanges) (value : ℤ) : ℤ :=
  let candidate := nextMultiple value (r.stepAt value)
  match r.secondDivisor with
  | some s =>
    if value < s ∧ s ≤ candidate then nextMultiple candidate (Nat.lcm r.divisor s : ℕ)
    else candidate
  | none => candidate

theorem natCast_lcm_dvd_iff {m n : ℕ} {x : ℤ} :
    ((Nat.lcm m n : ℕ) : ℤ) ∣ x ↔ (m : ℤ) ∣ x ∧ (n : ℤ) ∣ x := by
  rw [Int.natCast_dvd, Int.natCast_dvd, Int.natCast_dvd, Nat.lcm_dvd_iff]

theorem stepAt_pos (r : SmartRanges) (value : ℤ) : 0 < r.stepAt value := by
  have hdpos := r.divisor_pos
  unfold stepAt
  cases hsecond : r.secondDivisor with
  | none => simpa using hdpos
  | some s =>
    have hlpos := Nat.lcm_pos hdpos (r.secondDivisor_pos s hsecond)
    simp only
    split <;> omega

/-- Rounding up, and once more where the second divisor is crossed, gives the least aligned value. -/
theorem isLeast_leastAligned (r : SmartRanges) (value : ℤ) :
    IsLeast {x | r.Aligned x ∧ value ≤ x} (r.leastAligned value) := by
  have hdpos : (0 : ℤ) < r.divisor := by exact_mod_cast r.divisor_pos
  unfold leastAligned stepAt Aligned
  cases hsecond : r.secondDivisor with
  | none => simpa using isLeast_nextMultiple value hdpos
  | some s =>
    have hlpos : (0 : ℤ) < (Nat.lcm r.divisor s : ℕ) := by
      exact_mod_cast Nat.lcm_pos r.divisor_pos (r.secondDivisor_pos s hsecond)
    simp only [Option.mem_some_iff, forall_eq']
    by_cases hs : (s : ℤ) ≤ value
    · -- From the second divisor on both divisors count.
      obtain ⟨⟨hc, hvc⟩, hleast⟩ := isLeast_nextMultiple value hlpos
      obtain ⟨hleft, hright⟩ := natCast_lcm_dvd_iff.mp hc
      rw [if_pos hs, if_neg (by omega)]
      refine ⟨⟨⟨hleft, fun _ => hright⟩, hvc⟩, fun y hy => ?_⟩
      exact hleast ⟨natCast_lcm_dvd_iff.mpr ⟨hy.1.1, hy.1.2 (hs.trans hy.2)⟩, hy.2⟩
    · obtain ⟨⟨hc, hvc⟩, hleast⟩ := isLeast_nextMultiple value hdpos
      rw [if_neg hs]
      split_ifs with hcross
      · -- The candidate has left the domain of the first divisor.
        obtain ⟨⟨hc', hvc'⟩, hleast'⟩ :=
          isLeast_nextMultiple (nextMultiple value r.divisor) hlpos
        obtain ⟨hleft, hright⟩ := natCast_lcm_dvd_iff.mp hc'
        refine ⟨⟨⟨hleft, fun _ => hright⟩, hvc.trans hvc'⟩, fun y hy => ?_⟩
        have hcy := hleast ⟨hy.1.1, hy.2⟩
        exact hleast' ⟨natCast_lcm_dvd_iff.mpr ⟨hy.1.1, hy.1.2 (hcross.2.trans hcy)⟩, hcy⟩
      · refine ⟨⟨⟨hc, fun hsc => absurd ⟨by omega, hsc⟩ hcross⟩, hvc⟩, fun y hy => ?_⟩
        exact hleast ⟨hy.1.1, hy.2⟩

theorem getStepForDomain_eq {r : SmartRanges} (value : ℤ)
    (hlcm : ∀ s ∈ r.secondDivisor, Nat.lcm r.divisor s ≤ 2147483647) :
    r.getStepForDomain value = r.stepAt value := by
  unfold getStepForDomain stepAt lcm
  cases hsecond : r.secondDivisor with
  | none => rfl
  | some s =>
    have := hlcm s hsecond
    simp only [i32_natCast (show Nat.lcm r.divisor s < 2147483648 by omega)]

theorem alignUnboundedToNextValid_eq {r : SmartRanges} {value : ℤ} (hvalue : 0 ≤ value)
    (hfit : r.StepsFit value) : r.alignUnboundedToNextValid value = r.leastAligned value := by
  have hdpos := r.divisor_pos
  have hlcm : ∀ s ∈ r.secondDivisor, Nat.lcm r.divisor s ≤ 2147483647 := fun s hs => by
    have := hfit.2 s hs
    omega
  have hstep := r.stepAt_pos value
  have hstepFit : value + r.stepAt value ≤ 2147483648 := by
    unfold stepAt
    cases hsecond : r.secondDivisor with
    | none => exact hfit.1
    | some s =>
      have := hfit.2 s hsecond
      simp only
      split <;> omega
  unfold alignUnboundedToNextValid leastAligned
  rw [getStepForDomain_eq value hlcm, roundUpInt_eq hvalue hstep hstepFit]
  cases hsecond : r.secondDivisor with
  | none => rfl
  | some s =>
    have hlcmFit := hlcm s hsecond
    have hlpos := Nat.lcm_pos hdpos (r.secondDivisor_pos s hsecond)
    have hfit' := hfit.2 s hsecond
    have hle := (isLeast_nextMultiple value hstep).1.2
    simp only [lcm, i32_natCast (show Nat.lcm r.divisor s < 2147483648 by omega)]
    split_ifs with hcross
    · have hvalueStep : r.stepAt value = r.divisor := by
        simp only [stepAt, hsecond]
        rw [if_neg (by omega)]
      have hlt := nextMultiple_lt value hstep
      rw [roundUpInt_eq (by omega) (by omega) (by omega)]
    · rfl

/-- The next valid value is the least that is aligned. -/
theorem isLeast_alignUnboundedToNextValid {r : SmartRanges} {value : ℤ} (hvalue : 0 ≤ value)
    (hfit : r.StepsFit value) :
    IsLeast {x | r.Aligned x ∧ value ≤ x} (r.alignUnboundedToNextValid value) := by
  rw [alignUnboundedToNextValid_eq hvalue hfit]
  exact r.isLeast_leastAligned value

/-- The least member from a value on, if the value is in the limits. -/
theorem roundToNextLarger_eq_some_iff {r : SmartRanges} {value x : ℤ} (hfit : r.StepsFit value) :
    r.roundToNextLarger value = some x ↔
      r.lowerBound ≤ value ∧ IsLeast {y | r.isIn y = true ∧ value ≤ y} x := by
  unfold roundToNextLarger betweenLimits
  by_cases hlimits : (r.lowerBound : ℤ) ≤ value ∧ value ≤ r.upperBound
  · have hvalue : 0 ≤ value := by omega
    obtain ⟨⟨haligned, hle⟩, hleast⟩ := isLeast_alignUnboundedToNextValid hvalue hfit
    simp only [hlimits, and_self, decide_true, if_true, true_and]
    constructor
    · intro h
      split_ifs at h with hupper
      obtain rfl := Option.some.inj h
      refine ⟨⟨isIn_iff.mpr ⟨⟨by omega, hupper⟩, haligned⟩, hle⟩, fun y hy => ?_⟩
      exact hleast ⟨(isIn_iff.mp hy.1).2, hy.2⟩
    · rintro ⟨⟨hx, hvx⟩, hxleast⟩
      obtain ⟨⟨-, hxupper⟩, hxaligned⟩ := isIn_iff.mp hx
      have hcx : r.alignUnboundedToNextValid value ≤ x := hleast ⟨hxaligned, hvx⟩
      have hxc := hxleast (a := r.alignUnboundedToNextValid value)
        ⟨isIn_iff.mpr ⟨⟨by omega, by omega⟩, haligned⟩, hle⟩
      rw [if_pos (by omega), le_antisymm hcx hxc]
  · simp only [hlimits, decide_false, Bool.false_eq_true, if_false, reduceCtorEq, false_iff,
      not_and]
    rintro hlower ⟨⟨hx, hvx⟩, -⟩
    have := (isIn_iff.mp hx).1.2
    exact hlimits ⟨hlower, by omega⟩

end SmartRanges

/-- A value has to be in one of several ranges. -/
structure MultiSmartRanges where
  ranges : List SmartRanges

namespace MultiSmartRanges

def isIn (m : MultiSmartRanges) (value : ℤ) : Bool := m.ranges.any (·.isIn value)

def multiplyUpper (m : MultiSmartRanges) (multiplier : ℤ) : MultiSmartRanges where
  ranges := m.ranges.map (·.multiplyUpper multiplier)

def multiplyLower (m : MultiSmartRanges) (multiplier : ℤ) : MultiSmartRanges where
  ranges := m.ranges.map (·.multiplyLower multiplier)

theorem nonneg_of_isIn {m : MultiSmartRanges} {value : ℤ} (h : m.isIn value = true) :
    0 ≤ value := by
  obtain ⟨r, -, hr⟩ := List.any_eq_true.mp h
  exact SmartRanges.nonneg_of_isIn hr

end MultiSmartRanges

end Vpunn
