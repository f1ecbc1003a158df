import Vpunn.Ranges

/-! Iterating over a range, and where its `int`s overflow (`ranges.h`).

    Every sum, product and quotient is checked here: a computation gives `none` where one of them does
    not fit an `int`. Where all fit, iterating gives the members in order and rounding the least
    member from a value on. -/

namespace Vpunn
open MachineInt

namespace SmartRanges

/-! ### The computations, checked -/

/-- The constructor: the absolute values of the divisors and their lcm are computed. -/
def construct (lowerBound upperBound divisor : ℤ) (secondDiv : Option ℤ) : Option SmartRanges :=
  let r := make lowerBound upperBound divisor secondDiv
  if InI32 r.divisor ∧ ∀ s ∈ r.secondDivisor, InI32 s ∧ InI32 (Nat.lcm r.divisor s : ℕ) then some r
  else none

/-- `round_up<int>` -/
def roundUpChecked (a b : ℤ) : Option ℤ := do
  let sum ← checkedI32 (a + b)
  let last ← checkedI32 (sum - 1)
  checkedI32 (last.tdiv b * b)

/-- The second divisor, where going from one value to the other crosses it. -/
def isAcrossSecondDivisorBorder (r : SmartRanges) (firstValue secondValue : ℤ) : Option ℕ :=
  r.secondDivisor.filter fun s => firstValue < s ∧ s ≤ secondValue

def alignUnboundedToNextValidChecked (r : SmartRanges) (anyValue : ℤ) : Option ℤ := do
  let candidate ← roundUpChecked anyValue (r.getStepForDomain anyValue)
  match r.isAcrossSecondDivisorBorder anyValue candidate with
  | some s => roundUpChecked candidate (r.lcm s)
  | none => some candidate

/-- The inner `none` is the `nullopt` of the code. -/
def roundToNextLargerChecked (r : SmartRanges) (value : ℤ) : Option (Option ℤ) :=
  if r.betweenLimits value then do
    let candidate ← r.alignUnboundedToNextValidChecked value
    some (if candidate ≤ r.upperBound then some candidate else none)
  else some none

def incrementAssumingIsValid (r : SmartRanges) (current : ℤ) : Option (Option ℤ) := do
  let next ← checkedI32 (current + r.getStepForDomain current)
  let next := ((r.isAcrossSecondDivisorBorder current next).map r.lcm).getD next
  some (if next ≤ r.upperBound then some next else none)

/-- The current value of `begin()`. -/
def beginChecked (r : SmartRanges) : Option (Option ℤ) :=
  if r.upperBound < r.lowerBound then some none else r.roundToNextLargerChecked r.lowerBound

/-- The values from a current one to `end()`, if the loop is through within the fuel. -/
def collect (r : SmartRanges) : ℕ → Option ℤ → Option (List ℤ)
  | _, none => some []
  | 0, some _ => none
  | fuel + 1, some value => do
    let next ← r.incrementAssumingIsValid value
    let values ← collect r fuel next
    some (value :: values)

def transformSmartRangetoVector (r : SmartRanges) (fuel : ℕ) : Option (List ℤ) := do
  let current ← r.beginChecked
  r.collect fuel current

def multiplyUpperChecked (r : SmartRanges) (multiplier : ℤ) : Option SmartRanges := do
  let upperBound ← checkedI32 (r.upperBound * multiplier)
  construct r.lowerBound upperBound r.divisor (r.secondDivisor.map Int.ofNat)

/-! ### Rounding -/

theorem roundUpChecked_eq_some_iff {a b c : ℤ} (ha : 0 ≤ a) (hb : 0 < b) :
    roundUpChecked a b = some c ↔ a + b ≤ 2147483647 ∧ c = nextMultiple a b := by
  have hlt := nextMultiple_lt a hb
  have hle := (isLeast_nextMultiple a hb).1.2
  unfold roundUpChecked
  simp only [Option.bind_eq_bind, Option.bind_eq_some_iff, checkedI32_eq_some_iff]
  constructor
  · rintro ⟨_, ⟨hsum, rfl⟩, _, ⟨hlast, rfl⟩, -, rfl⟩
    rw [Int.tdiv_eq_ediv_of_nonneg (by omega)]
    exact ⟨by unfold InI32 at hsum; omega, rfl⟩
  · rintro ⟨hfit, rfl⟩
    refine ⟨_, ⟨by unfold InI32; omega, rfl⟩, _, ⟨by unfold InI32; omega, rfl⟩, ?_⟩
    rw [Int.tdiv_eq_ediv_of_nonneg (by omega)]
    unfold nextMultiple at hlt hle ⊢
    exact ⟨by unfold InI32; omega, rfl⟩

/-- The lcm of the divisors is an `int`. -/
def LcmFits (r : SmartRanges) : Prop := ∀ s ∈ r.secondDivisor, Nat.lcm r.divisor s ≤ 2147483647

/-- Rounding a value up does not overflow: there is room for one step and, where the second divisor is
    crossed, for the lcm. -/
def RoundFits (r : SmartRanges) (value : ℤ) : Prop :=
  value + r.stepAt value ≤ 2147483647 ∧
    ∀ s ∈ r.secondDivisor, value < s → s ≤ nextMultiple value r.divisor →
      nextMultiple value r.divisor + Nat.lcm r.divisor s ≤ 2147483647

theorem stepAt_of_lt {r : SmartRanges} {value : ℤ} (h : ∀ s ∈ r.secondDivisor, value < s) :
    r.stepAt value = r.divisor := by
  unfold stepAt
  cases hsecond : r.secondDivisor with
  | none => rfl
  | some s => exact if_neg (not_le.mpr (h s hsecond))

theorem stepAt_of_le {r : SmartRanges} {value : ℤ} {s : ℕ} (hs : s ∈ r.secondDivisor)
    (h : s ≤ value) : r.stepAt value = (Nat.lcm r.divisor s : ℕ) := by
  unfold stepAt
  rw [Option.mem_def.mp hs]
  exact if_pos h

theorem alignUnboundedToNextValidChecked_eq_some_iff {r : SmartRanges} (hlcm : r.LcmFits)
    {value x : ℤ} (hvalue : 0 ≤ value) :
    r.alignUnboundedToNextValidChecked value = some x
      ↔ r.RoundFits value ∧ x = r.leastAligned value := by
  have hstep := r.stepAt_pos value
  have hle := (isLeast_nextMultiple value hstep).1.2
  unfold alignUnboundedToNextValidChecked leastAligned RoundFits isAcrossSecondDivisorBorder
  simp only [Option.bind_eq_bind, Option.bind_eq_some_iff, getStepForDomain_eq value hlcm,
    roundUpChecked_eq_some_iff hvalue hstep, and_assoc, exists_and_left, exists_eq_left]
  refine and_congr_right fun _ => ?_
  cases hsecond : r.secondDivisor with
  | none => simp [eq_comm]
  | some s =>
    have hlpos := Nat.lcm_pos r.divisor_pos (r.secondDivisor_pos s hsecond)
    have hl : r.lcm s = (Nat.lcm r.divisor s : ℕ) := i32_natCast (by have := hlcm s hsecond; omega)
    by_cases hcross : value < s ∧ s ≤ nextMultiple value (r.stepAt value)
    · have hd : r.stepAt value = r.divisor := stepAt_of_lt fun t ht => by
        rw [hsecond, Option.mem_some_iff] at ht
        omega
      rw [hd] at hcross hle ⊢
      simp only [Option.filter_some, hcross, and_self, decide_true, if_true, hl,
        roundUpChecked_eq_some_iff (show 0 ≤ nextMultiple value r.divisor by omega)
          (show (0 : ℤ) < (Nat.lcm r.divisor s : ℕ) by omega), Option.mem_some_iff, forall_eq',
        forall_const]
    · have hnot : value < s → ¬ s ≤ nextMultiple value r.divisor := fun hlt hs => hcross ⟨hlt, by
        rwa [stepAt_of_lt fun t ht => by
          rw [hsecond, Option.mem_some_iff] at ht
          omega]⟩
      simp only [Option.filter_some, hcross, decide_false, Bool.false_eq_true, if_false,
        Option.mem_some_iff, forall_eq', Option.some.injEq]
      constructor
      · rintro rfl
        exact ⟨fun hlt hs => absurd hs (hnot hlt), rfl⟩
      · rintro ⟨-, rfl⟩
        rfl

/-- What rounding a value has to give: the least member from it on, or nothing if there is none. -/
def IsNextMember (r : SmartRanges) (value : ℤ) : Option ℤ → Prop
  | some x => IsLeast {y | r.isIn y = true ∧ value ≤ y} x
  | none => ∀ y, r.isIn y = true → y < value

theorem isNextMember_leastAligned {r : SmartRanges} {value : ℤ} (hvalue : r.lowerBound ≤ value) :
    r.IsNextMember value
      (if r.leastAligned value ≤ r.upperBound then some (r.leastAligned value) else none) := by
  obtain ⟨⟨haligned, hle⟩, hleast⟩ := r.isLeast_leastAligned value
  split_ifs with hupper
  · refine ⟨⟨isIn_iff.mpr ⟨⟨by omega, hupper⟩, haligned⟩, hle⟩, fun y hy => ?_⟩
    exact hleast ⟨(isIn_iff.mp hy.1).2, hy.2⟩
  · intro y hy
    by_contra hge
    obtain ⟨⟨-, hyupper⟩, hyaligned⟩ := isIn_iff.mp hy
    have := hleast (a := y) ⟨hyaligned, not_lt.mp hge⟩
    omega

theorem roundToNextLargerChecked_eq_some_iff {r : SmartRanges} (hlcm : r.LcmFits) {value : ℤ}
    (hlower : r.lowerBound ≤ value) (hupper : value ≤ r.upperBound) {res : Option ℤ} :
    r.roundToNextLargerChecked value = some res ↔ r.RoundFits value
      ∧ res = if r.leastAligned value ≤ r.upperBound then some (r.leastAligned value) else none := by
  have hlimits : r.betweenLimits value = true := decide_eq_true ⟨hlower, hupper⟩
  unfold roundToNextLargerChecked
  rw [if_pos hlimits]
  simp only [Option.bind_eq_bind, Option.bind_eq_some_iff,
    alignUnboundedToNextValidChecked_eq_some_iff hlcm (show 0 ≤ value by omega), and_assoc,
    exists_and_left, exists_eq_left, Option.some.injEq]
  exact and_congr_right fun _ => eq_comm

/-! ### Stepping -/

/-- The step keeps a member aligned. Where it crosses the second divisor, the lcm itself comes next. -/
def nextAligned (r : SmartRanges) (value : ℤ) : ℤ :=
  ((r.isAcrossSecondDivisorBorder value (value + r.stepAt value)).map
    fun s => ((Nat.lcm r.divisor s : ℕ) : ℤ)).getD (value + r.stepAt value)

section Border

variable {r : SmartRanges} {value next : ℤ}

theorem nextAligned_of_across {s : ℕ} (hs : s ∈ r.secondDivisor)
    (h : value < s ∧ s ≤ value + r.stepAt value) : r.nextAligned value = (Nat.lcm r.divisor s : ℕ) := by
  unfold nextAligned isAcrossSecondDivisorBorder
  rw [Option.mem_def.mp hs, Option.filter_some, if_pos (by simpa using h)]
  rfl

theorem nextAligned_of_not_across
    (h : ∀ s ∈ r.secondDivisor, value < s → value + r.stepAt value < s) :
    r.nextAligned value = value + r.stepAt value := by
  unfold nextAligned isAcrossSecondDivisorBorder
  cases hsecond : r.secondDivisor with
  | none => simp
  | some s =>
    have := h s hsecond
    rw [Option.filter_some, if_neg (by simpa using this)]
    rfl

end Border

theorem le_of_dvd_of_lt {d a x : ℤ} (ha : d ∣ a) (hx : d ∣ x) (hlt : a < x) : a + d ≤ x := by
  have := Int.le_of_dvd (by omega) (Int.dvd_sub hx ha)
  omega

theorem isLeast_nextAligned {r : SmartRanges} {value : ℤ} (hvalue : 0 ≤ value)
    (haligned : r.Aligned value) :
    IsLeast {x | r.Aligned x ∧ value < x} (r.nextAligned value) := by
  have hstep := r.stepAt_pos value
  have hdpos : (0 : ℤ) < r.divisor := by exact_mod_cast r.divisor_pos
  cases hsecond : r.secondDivisor with
  | none =>
    have hd : r.stepAt value = r.divisor := stepAt_of_lt (by simp [hsecond])
    have hnone : ∀ x, r.Aligned x ↔ (r.divisor : ℤ) ∣ x := fun x => by simp [Aligned, hsecond]
    rw [nextAligned_of_not_across (by simp [hsecond]), hd]
    refine ⟨⟨(hnone _).mpr (Int.dvd_add ((hnone _).mp haligned) (Int.dvd_refl _)), by omega⟩, ?_⟩
    exact fun x hx => le_of_dvd_of_lt ((hnone _).mp haligned) ((hnone _).mp hx.1) hx.2
  | some s =>
    have hlpos : (0 : ℤ) < (Nat.lcm r.divisor s : ℕ) := by
      exact_mod_cast Nat.lcm_pos r.divisor_pos (r.secondDivisor_pos s hsecond)
    have hiff : ∀ x, r.Aligned x ↔ (r.divisor : ℤ) ∣ x ∧ (s ≤ x → (s : ℤ) ∣ x) :=
      fun x => by simp [Aligned, hsecond]
    have hboth : ∀ x : ℤ, s ≤ x → (r.Aligned x ↔ ((Nat.lcm r.divisor s : ℕ) : ℤ) ∣ x) :=
      fun x hx => by simp [hiff, natCast_lcm_dvd_iff, hx]
    have hsecond' : ∀ {p : ℕ → Prop}, p s → ∀ t ∈ r.secondDivisor, p t := fun hp t ht => by
      rw [hsecond, Option.mem_some_iff] at ht
      exact ht ▸ hp
    obtain ⟨hdvd, hdvd'⟩ := (hiff value).mp haligned
    by_cases hs : (s : ℤ) ≤ value
    · -- both divisors count, before and after the step
      have hl := (hboth value hs).mp haligned
      rw [nextAligned_of_not_across (hsecond' fun h => absurd hs (not_le.mpr h)),
        stepAt_of_le hsecond hs]
      refine ⟨⟨(hboth _ (by omega)).mpr (Int.dvd_add hl (Int.dvd_refl _)), by omega⟩, ?_⟩
      exact fun x hx => le_of_dvd_of_lt hl ((hboth x (by have := hx.2; omega)).mp hx.1) hx.2
    · have hd : r.stepAt value = r.divisor :=
        stepAt_of_lt (hsecond' (p := fun t => value < t) (not_le.mp hs))
      by_cases hcross : (s : ℤ) ≤ value + r.divisor
      · -- a multiple of both from the second divisor on is at least the lcm, which is above it
        have hself : ((Nat.lcm r.divisor s : ℕ) : ℤ) ∣ (Nat.lcm r.divisor s : ℕ) := Int.dvd_refl _
        have hsl : (s : ℤ) ≤ (Nat.lcm r.divisor s : ℕ) :=
          Int.le_of_dvd hlpos (natCast_lcm_dvd_iff.mp hself).2
        rw [nextAligned_of_across hsecond ⟨not_le.mp hs, hd.symm ▸ hcross⟩]
        refine ⟨⟨(hboth _ hsl).mpr hself, by omega⟩, fun x hx => ?_⟩
        have hnext := le_of_dvd_of_lt hdvd ((hiff x).mp hx.1).1 hx.2
        exact Int.le_of_dvd (by omega) ((hboth x (by omega)).mp hx.1)
      · rw [nextAligned_of_not_across (hsecond' fun _ => hd.symm ▸ not_le.mp hcross), hd]
        refine ⟨⟨(hiff _).mpr ⟨Int.dvd_add hdvd (Int.dvd_refl _), fun h => absurd h hcross⟩,
          by omega⟩, ?_⟩
        exact fun x hx => le_of_dvd_of_lt hdvd ((hiff x).mp hx.1).1 hx.2

theorem incrementAssumingIsValid_eq_some_iff {r : SmartRanges} (hlcm : r.LcmFits) {value : ℤ}
    (hvalue : 0 ≤ value) {res : Option ℤ} :
    r.incrementAssumingIsValid value = some res ↔ value + r.stepAt value ≤ 2147483647
      ∧ res = if r.nextAligned value ≤ r.upperBound then some (r.nextAligned value) else none := by
  have hstep := r.stepAt_pos value
  have hmap : (r.isAcrossSecondDivisorBorder value (value + r.stepAt value)).map r.lcm
      = (r.isAcrossSecondDivisorBorder value (value + r.stepAt value)).map
        fun s => ((Nat.lcm r.divisor s : ℕ) : ℤ) := by
    refine Option.map_congr fun s hs => i32_natCast ?_
    have := hlcm s (Option.mem_filter_iff.mp hs).1
    omega
  unfold incrementAssumingIsValid
  rw [getStepForDomain_eq value hlcm]
  simp only [Option.bind_eq_bind, Option.bind_eq_some_iff, checkedI32_eq_some_iff, and_assoc,
    exists_and_left, exists_eq_left', hmap, Option.some.injEq]
  refine and_congr ⟨fun h => by unfold InI32 at h; omega, fun h => by unfold InI32; omega⟩ ?_
  exact eq_comm

/-! ### Iterating -/

/-- A step at the upper bound is as large as one before it. -/
theorem stepAt_mono (r : SmartRanges) {value value' : ℤ} (h : value ≤ value') :
    r.stepAt value ≤ r.stepAt value' := by
  unfold stepAt
  cases hsecond : r.secondDivisor with
  | none => exact le_refl _
  | some s =>
    have hle : r.divisor ≤ Nat.lcm r.divisor s :=
      Nat.le_of_dvd (Nat.lcm_pos r.divisor_pos (r.secondDivisor_pos s hsecond))
        (Nat.dvd_lcm_left ..)
    simp only
    split_ifs <;> omega

/-- From a member on the loop gives the members in order. The induction is on what is left below the
    upper bound. -/
theorem collect_spec {r : SmartRanges} (hlcm : r.LcmFits)
    (hfit : r.upperBound + r.stepAt r.upperBound ≤ 2147483647) :
    ∀ (n : ℕ) {value : ℤ}, r.isIn value = true → r.upperBound - value < n →
      ∃ values, r.collect n (some value) = some values ∧ values.Pairwise (· < ·)
        ∧ ∀ v, v ∈ values ↔ r.isIn v = true ∧ value ≤ v
  | 0, value, hin, hn => by
    have := (isIn_iff.mp hin).1.2
    omega
  | n + 1, value, hin, hn => by
    obtain ⟨⟨hlower, hupper⟩, haligned⟩ := isIn_iff.mp hin
    have hvalue : 0 ≤ value := by omega
    obtain ⟨⟨hnext, hlt⟩, hleast⟩ := isLeast_nextAligned hvalue haligned
    have hstep := r.stepAt_mono hupper
    have hincrement := (incrementAssumingIsValid_eq_some_iff hlcm hvalue).mpr ⟨by omega, rfl⟩
    -- a member is the value itself, or from the next one on
    have hmem : ∀ v, r.isIn v = true ∧ value ≤ v ↔ v = value ∨ r.isIn v = true
        ∧ r.nextAligned value ≤ v := by
      intro v
      constructor
      · rintro ⟨hv, hle⟩
        rcases hle.eq_or_lt with rfl | hvlt
        · exact .inl rfl
        · exact .inr ⟨hv, hleast ⟨(isIn_iff.mp hv).2, hvlt⟩⟩
      · rintro (rfl | ⟨hv, hle⟩)
        · exact ⟨hin, le_refl _⟩
        · exact ⟨hv, by omega⟩
    rw [collect, hincrement]
    split_ifs with hend
    · have hnextIn : r.isIn (r.nextAligned value) = true := isIn_iff.mpr ⟨⟨by omega, hend⟩, hnext⟩
      obtain ⟨values, hcollect, hsorted, hvalues⟩ := collect_spec hlcm hfit n hnextIn (by omega)
      refine ⟨value :: values, by simp [hcollect], List.pairwise_cons.mpr ⟨fun v hv => ?_, hsorted⟩,
        fun v => ?_⟩
      · have := ((hvalues v).mp hv).2
        omega
      · rw [List.mem_cons, hvalues, hmem]
    · refine ⟨[value], by simp [collect], List.pairwise_singleton _ _, fun v => ?_⟩
      rw [hmem, List.mem_singleton]
      refine ⟨.inl, fun h => h.resolve_right fun ⟨hv, hle⟩ => hend ?_⟩
      exact hle.trans (isIn_iff.mp hv).1.2

/-- The loop from `begin()` to `end()` comes to its end, and gives the members in order. -/
def Enumerates (r : SmartRanges) : Prop :=
  ∃ fuel values, r.transformSmartRangetoVector fuel = some values ∧ values.Pairwise (· < ·)
    ∧ ∀ v, v ∈ values ↔ r.isIn v = true

theorem enumerates_of_empty {r : SmartRanges} (h : r.upperBound < r.lowerBound) : r.Enumerates := by
  refine ⟨0, [], by simp [transformSmartRangetoVector, beginChecked, h, collect], by simp, ?_⟩
  intro v
  have : ¬ r.isIn v = true := fun hv => by
    have := (isIn_iff.mp hv).1
    omega
  simp [this]

theorem enumerates_of_fits {r : SmartRanges} (hlcm : r.LcmFits)
    (hfit : r.upperBound + r.stepAt r.upperBound ≤ 2147483647)
    (hle : r.lowerBound ≤ r.upperBound) (hround : r.RoundFits r.lowerBound) : r.Enumerates := by
  have hbegin := (roundToNextLargerChecked_eq_some_iff hlcm (le_refl (r.lowerBound : ℤ))
    (by omega)).mpr ⟨hround, rfl⟩
  have hnext := isNextMember_leastAligned (r := r) (le_refl (r.lowerBound : ℤ))
  have hbegin' : r.beginChecked = _ := (if_neg (by omega)).trans hbegin
  split_ifs at hbegin' hnext with hupper
  · obtain ⟨⟨hin, -⟩, hleast⟩ := hnext
    have hnonneg := (isIn_iff.mp hin).1.1
    obtain ⟨values, hcollect, hsorted, hvalues⟩ :=
      collect_spec hlcm hfit (r.upperBound + 1) hin (by omega)
    refine ⟨r.upperBound + 1, values, ?_, hsorted,
      fun v => (hvalues v).trans (and_iff_left_of_imp fun hv => ?_)⟩
    · rw [transformSmartRangetoVector, hbegin']
      exact hcollect
    · exact hleast ⟨hv, (isIn_iff.mp hv).1.1⟩
  · refine ⟨0, [], by rw [transformSmartRangetoVector, hbegin']; rfl, List.Pairwise.nil, fun v => ?_⟩
    refine iff_of_false (by simp) fun hv => ?_
    have := hnext v hv
    have := (isIn_iff.mp hv).1.1
    omega

/-! ### The whole range -/

/-- Nothing overflows for the range: its divisors and their lcm are `int`s and, if it has a value at
    all, there is room above the upper bound for one more step, and above the first multiple of the
    divisor beyond the second divisor for the lcm, where a value of the range is rounded up to it. -/
structure Fits (r : SmartRanges) : Prop where
  divisor : r.divisor ≤ 2147483647
  secondDivisor : ∀ s ∈ r.secondDivisor, s ≤ 2147483647
  lcm : r.LcmFits
  step : r.lowerBound ≤ r.upperBound → r.upperBound + r.stepAt r.upperBound ≤ 2147483647
  border : ∀ s ∈ r.secondDivisor, r.lowerBound ≤ min (r.upperBound : ℤ) (s - 1) →
    s ≤ nextMultiple (min (r.upperBound : ℤ) (s - 1)) r.divisor →
    nextMultiple (min (r.upperBound : ℤ) (s - 1)) r.divisor + Nat.lcm r.divisor s ≤ 2147483647

/-- The largest value below the second divisor stands for all that are rounded up across it. -/
theorem Fits.roundFits {r : SmartRanges} (h : r.Fits) {value : ℤ} (hlower : r.lowerBound ≤ value)
    (hupper : value ≤ r.upperBound) : r.RoundFits value := by
  have hdpos : (0 : ℤ) < r.divisor := by exact_mod_cast r.divisor_pos
  have hstep := h.step (by omega)
  have hmono := r.stepAt_mono hupper
  refine ⟨by omega, fun s hs hlt hcross => ?_⟩
  have hle : value ≤ min (r.upperBound : ℤ) (s - 1) := le_min hupper (by omega)
  obtain ⟨⟨hd, hv⟩, hleast⟩ := isLeast_nextMultiple value hdpos
  obtain ⟨⟨hd', hv'⟩, hleast'⟩ :=
    isLeast_nextMultiple (min (r.upperBound : ℤ) (s - 1)) hdpos
  have heq : nextMultiple (min (r.upperBound : ℤ) (s - 1)) r.divisor
      = nextMultiple value r.divisor :=
    le_antisymm (hleast' ⟨hd, by omega⟩) (hleast ⟨hd', hle.trans hv'⟩)
  have := h.border s hs (hlower.trans hle) (heq ▸ hcross)
  rwa [heq] at this

/-- What a range is for, of the arguments of its constructor: it can be constructed, iterated over,
    rounded up in, and its upper bound multiplied, all without an overflow. -/
def Works (lowerBound upperBound divisor : ℤ) (secondDiv : Option ℤ) : Prop :=
  ∃ r, construct lowerBound upperBound divisor secondDiv = some r ∧ r.Enumerates
    ∧ (∀ value : ℤ, r.lowerBound ≤ value → value ≤ r.upperBound →
        ∃ res, r.roundToNextLargerChecked value = some res ∧ r.IsNextMember value res)
    ∧ ∀ multiplier : ℤ, 0 < multiplier → InI32 (r.upperBound * multiplier) →
        ∃ r', r.multiplyUpperChecked multiplier = some r'
          ∧ (r'.upperBound : ℤ) = r.upperBound * multiplier
          ∧ r'.lowerBound = r.lowerBound ∧ r'.divisor = r.divisor
          ∧ r'.secondDivisor = r.secondDivisor

theorem construct_eq_some_iff {lowerBound upperBound divisor : ℤ} {secondDiv : Option ℤ}
    {r : SmartRanges} : construct lowerBound upperBound divisor secondDiv = some r
      ↔ r = make lowerBound upperBound divisor secondDiv ∧ r.divisor ≤ 2147483647
        ∧ (∀ s ∈ r.secondDivisor, s ≤ 2147483647) ∧ r.LcmFits := by
  have hnat : ∀ n : ℕ, InI32 n ↔ n ≤ 2147483647 := fun n => by unfold InI32; omega
  unfold construct LcmFits
  simp only [Option.ite_none_right_eq_some, Option.some.injEq, hnat]
  constructor
  · rintro ⟨⟨hd, hs⟩, rfl⟩
    exact ⟨rfl, hd, fun s h => (hs s h).1, fun s h => (hs s h).2⟩
  · rintro ⟨rfl, hd, hs, hlcm⟩
    exact ⟨⟨hd, fun s h => ⟨hs s h, hlcm s h⟩⟩, rfl⟩

theorem normalizeDivisor_natCast {n : ℕ} (h : 0 < n) : normalizeDivisor n = n := by
  unfold normalizeDivisor
  rw [if_neg (by omega), Int.natAbs_natCast]

/-- Building a range from the members of another one keeps its divisors. -/
theorem make_of_members (r : SmartRanges) (upperBound : ℤ) :
    make r.lowerBound upperBound r.divisor (r.secondDivisor.map Int.ofNat)
      = { r with upperBound := upperBound.toNat } := by
  have hsecond : (r.secondDivisor.map Int.ofNat).map normalizeDivisor = r.secondDivisor := by
    rw [Option.map_map]
    exact (Option.map_congr fun s hs => normalizeDivisor_natCast (r.secondDivisor_pos s hs)).trans
      (congrFun Option.map_id_fun' _)
  unfold make
  simp only [hsecond, normalizeDivisor_natCast r.divisor_pos, Int.toNat_natCast]

theorem multiplyUpperChecked_spec {r : SmartRanges} (h : r.Fits) {multiplier : ℤ}
    (hmul : InI32 (r.upperBound * multiplier)) (hpos : 0 < multiplier) :
    ∃ r', r.multiplyUpperChecked multiplier = some r'
      ∧ (r'.upperBound : ℤ) = r.upperBound * multiplier ∧ r'.lowerBound = r.lowerBound
      ∧ r'.divisor = r.divisor ∧ r'.secondDivisor = r.secondDivisor := by
  have hconstruct : construct r.lowerBound (r.upperBound * multiplier) r.divisor
      (r.secondDivisor.map Int.ofNat)
        = some { r with upperBound := (r.upperBound * multiplier).toNat } :=
    construct_eq_some_iff.mpr ⟨(r.make_of_members _).symm, h.divisor, h.secondDivisor, h.lcm⟩
  have hnonneg : 0 ≤ r.upperBound * multiplier := Int.mul_nonneg (Int.natCast_nonneg _) hpos.le
  refine ⟨{ r with upperBound := (r.upperBound * multiplier).toNat }, ?_,
    Int.toNat_of_nonneg hnonneg, rfl, rfl, rfl⟩
  unfold multiplyUpperChecked
  rw [checkedI32_eq_some_iff.mpr ⟨hmul, rfl⟩, Option.bind_eq_bind, Option.bind_some, hconstruct]

section Works

variable {lowerBound upperBound divisor : ℤ} {secondDiv : Option ℤ}

/-- Rounding the upper bound takes the room for a step, and rounding the largest value below the
    second divisor takes the room above the border. -/
theorem fits_of_works (h : Works lowerBound upperBound divisor secondDiv) :
    (make lowerBound upperBound divisor secondDiv).Fits := by
  obtain ⟨r, hr, -, hround, -⟩ := h
  obtain ⟨hmake, hd, hs, hlcm⟩ := construct_eq_some_iff.mp hr
  rw [← hmake]
  have hfits : ∀ value : ℤ, r.lowerBound ≤ value → value ≤ r.upperBound → r.RoundFits value :=
    fun value hlower hupper => by
      obtain ⟨res, hres, -⟩ := hround value hlower hupper
      exact ((roundToNextLargerChecked_eq_some_iff hlcm hlower hupper).mp hres).1
  refine ⟨hd, hs, hlcm, fun hle => (hfits _ (by exact_mod_cast hle) (le_refl _)).1, ?_⟩
  intro s hs hlower hcross
  have hlt := min_le_right (r.upperBound : ℤ) (s - 1)
  exact (hfits _ hlower (min_le_left ..)).2 s hs (by omega) hcross

theorem works_of_fits (h : (make lowerBound upperBound divisor secondDiv).Fits) :
    Works lowerBound upperBound divisor secondDiv := by
  unfold Works
  generalize hmake : make lowerBound upperBound divisor secondDiv = r at h
  have hconstruct : construct lowerBound upperBound divisor secondDiv = some r :=
    construct_eq_some_iff.mpr ⟨hmake.symm, h.divisor, h.secondDivisor, h.lcm⟩
  refine ⟨r, hconstruct, ?_, fun value hlower hupper => ⟨_, ?_, isNextMember_leastAligned hlower⟩,
    fun multiplier hpos hmul => multiplyUpperChecked_spec h hmul hpos⟩
  · rcases lt_or_ge r.upperBound r.lowerBound with hlt | hle
    · exact enumerates_of_empty hlt
    · exact enumerates_of_fits h.lcm (h.step hle) hle
        (h.roundFits (le_refl _) (by exact_mod_cast hle))
  · exact (roundToNextLargerChecked_eq_some_iff h.lcm hlower hupper).mpr
      ⟨h.roundFits hlower hupper, rfl⟩

end Works

/-- A range works exactly if nothing overflows for it. -/
theorem works_iff (lowerBound upperBound divisor : ℤ) (secondDiv : Option ℤ) :
    Works lowerBound upperBound divisor secondDiv
      ↔ (make lowerBound upperBound divisor secondDiv).Fits :=
  ⟨fits_of_works, works_of_fits⟩

/-- All positive `int`s: there is no room for a step above the largest one. -/
theorem not_works_allValues : ¬ Works 1 maxLimit 1 none := by
  intro h
  have hstep := (fits_of_works h).step (by decide)
  exact absurd hstep (by decide)

end SmartRanges

end Vpunn
