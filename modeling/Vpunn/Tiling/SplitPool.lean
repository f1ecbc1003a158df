import Mathlib.Data.Nat.Log
import Mathlib.Data.Finset.Interval
import Mathlib.Tactic.IntervalCases
import Vpunn.Lib.WrappingCounter
import Vpunn.Tiling.ZTiling

/-! The numbers of workloads that a layer may be split into (`generateSplitPool` of `ztiling.cpp` and
    `hwtiling.cpp`).

    Both loop over the multiples of the number of DPUs in an `unsigned int`. The loop does not end
    where the counter cannot leave the range: for no DPU at all, and next to `2^32`. -/

namespace Vpunn
open MachineInt WrappingCounter

namespace TilingPrimitives

def isNoSplitOperation (op : Operation) : Bool :=
  op = .convolution || op = .eltwise || op = .cmConvolution || op = .layerNorm || op = .eltwiseMul

/-- The range divided by a power of two, as often as it can be. The bound on the exponents is
    `log2(maxSplitRange)`. -/
def getSplitsFromRange (maxSplitRange maxLimit : ℕ) : List ℕ :=
  (List.range (Nat.clog 2 maxSplitRange)).filterMap fun idx =>
    if maxSplitRange % 2 ^ idx = 0 ∧ maxSplitRange / 2 ^ idx ≤ maxLimit then
      some (maxSplitRange / 2 ^ idx)
    else none

/-- `for (i = numDPU; i < bound; i += numDPU) splits.insert(i)`, from a value of `i` on. Nothing comes
    out of it before it ends. -/
def insertMultiples (numDPU bound : ℕ) : ℕ → ℕ → Finset ℕ → Option (Finset ℕ)
  | 0, _, _ => none
  | fuel + 1, i, splits =>
    if i < bound then insertMultiples numDPU bound fuel (u32 (i + numDPU)) (insert i splits)
    else some splits

end TilingPrimitives

open TilingPrimitives

namespace ZTiling

/-- The sizes of a tile: `2^4` to `2^7`, and each with 16 more. -/
def validZTiles : List ℕ := [4, 5, 6, 7].flatMap fun i => [2 ^ i, 2 ^ i + 16]

/-- The number of tiles for each of the sizes. The quotients are `double`s, which is exact here. -/
def maxSplitsInZ (layer : DPULayer) : List ℕ :=
  validZTiles.map fun zTile => (layer.outputs.channels + zTile - 1) / zTile

def generateSplitPool (layer : DPULayer) (maxWorkloads fuel numDPU : ℕ)
    (validExecutionMode : ExecutionMode) : Option (Finset ℕ) :=
  if numDPU = 1 ∧ isNoSplitOperation layer.op then some {1}
  else if layer.device = .vpu_2_0
      ∧ (validExecutionMode ≠ .vector ∧ layer.op ≠ .convolution) then some {1}
  else
    let maxZ := (maxSplitsInZ layer).foldl max 0
    let maxSplits := min maxWorkloads maxZ
    (insertMultiples numDPU (u32 (maxSplits + 1)) fuel numDPU ∅).map fun dpuMulSplits =>
      insert 1 (dpuMulSplits
        ∪ ((maxSplitsInZ layer).flatMap (getSplitsFromRange · maxSplits)).toFinset)

end ZTiling

namespace HWTiling

/-- The grid cells in a layer. The product is a `double`; `toUnsigned` is its conversion. -/
def maxSplitsInXY (toUnsigned : ℕ → ℕ) (layer : DPULayer) (validExecutionMode : ExecutionMode) : ℕ :=
  let grid := mpeModeToGrid validExecutionMode
  toUnsigned (layer.outputs.height / grid.x * (layer.outputs.width / grid.y))

def generateSplitPool (toUnsigned : ℕ → ℕ) (layer : DPULayer) (maxWorkloads fuel numDPU : ℕ)
    (validExecutionMode : ExecutionMode) : Option (Finset ℕ) :=
  if numDPU = 1 then some {1}
  else
    let maxXY := maxSplitsInXY toUnsigned layer validExecutionMode
    let maxSplits := min maxWorkloads maxXY
    (insertMultiples numDPU (u32 (maxSplits + 1)) fuel numDPU {1}).map fun dpuMulSplits =>
      dpuMulSplits ∪ (getSplitsFromRange maxXY maxSplits).toFinset

end HWTiling

/-! ### The loop -/

namespace TilingPrimitives

variable {numDPU bound : ℕ}

theorem u32_value_add (k : ℕ) :
    u32 (value numDPU 4294967296 k + numDPU) = value numDPU 4294967296 (k + 1) := by
  rw [value_succ]
  unfold u32
  omega

/-- The loop up to its first value that is not below the bound. -/
theorem insertMultiples_of_first {n : ℕ} : ∀ (k : ℕ) (splits : Finset ℕ),
    (∀ j < n, value numDPU 4294967296 (k + j) < bound) →
    bound ≤ value numDPU 4294967296 (k + n) →
    ∃ pool, insertMultiples numDPU bound (n + 1) (value numDPU 4294967296 k) splits = some pool
      ∧ ∀ x, x ∈ pool ↔ x ∈ splits ∨ ∃ j < n, x = value numDPU 4294967296 (k + j) := by
  induction n with
  | zero =>
    intro k splits _ hlast
    rw [insertMultiples, if_neg (by simpa using hlast)]
    exact ⟨splits, rfl, fun x => by simp⟩
  | succ n ih =>
    intro k splits hbelow hlast
    have hshift : ∀ j, k + 1 + j = k + (j + 1) := fun j => by omega
    obtain ⟨pool, hpool, hmem⟩ := ih (k + 1) _
      (fun j hj => (hshift j).symm ▸ hbelow (j + 1) (by omega)) ((hshift n).symm ▸ hlast)
    rw [insertMultiples, if_pos (by simpa using hbelow 0 (by omega)), u32_value_add]
    refine ⟨pool, hpool, fun x => (hmem x).trans ?_⟩
    rw [Finset.mem_insert, or_comm (a := x = _), or_assoc]
    refine or_congr_right ⟨?_, ?_⟩
    · rintro (rfl | ⟨j, hj, rfl⟩)
      · exact ⟨0, by omega, rfl⟩
      · exact ⟨j + 1, by omega, by rw [hshift]⟩
    · rintro ⟨j, hj, rfl⟩
      cases j with
      | zero => exact .inl rfl
      | succ j => exact .inr ⟨j, by omega, by rw [hshift]⟩

theorem insertMultiples_eq_none (h : ∀ k, value numDPU 4294967296 k < bound) :
    ∀ (fuel k : ℕ) (splits : Finset ℕ),
      insertMultiples numDPU bound fuel (value numDPU 4294967296 k) splits = none
  | 0, _, _ => rfl
  | fuel + 1, k, splits => by
    rw [insertMultiples, if_pos (h k), u32_value_add]
    exact insertMultiples_eq_none h fuel (k + 1) _

theorem value_zero_eq (hn : numDPU < 4294967296) : value numDPU 4294967296 0 = numDPU := by
  rw [value, Nat.zero_add, Nat.one_mul, Nat.mod_eq_of_lt hn]

/-- With room above the bound for the common divisor of `numDPU` and `2^32` the loop ends, and what
    it inserts is positive and below the bound. -/
theorem insertMultiples_ends (hn : numDPU < 4294967296)
    (hroom : bound + Nat.gcd numDPU 4294967296 ≤ 4294967296) (splits : Finset ℕ) :
    ∃ fuel pool, insertMultiples numDPU bound fuel numDPU splits = some pool
      ∧ splits ⊆ pool ∧ ∀ x ∈ pool, x ∈ splits ∨ 0 < x ∧ x < bound := by
  have hends := (exists_le_value_iff numDPU (by omega)).mpr hroom
  have hbelow : ∀ j < Nat.find hends, value numDPU 4294967296 j < bound :=
    fun j hj => not_le.mp (Nat.find_min hends hj)
  obtain ⟨pool, hpool, hmem⟩ := insertMultiples_of_first 0 splits
    (fun j hj => by simpa using hbelow j hj) (by simpa using Nat.find_spec hends)
  rw [value_zero_eq hn] at hpool
  refine ⟨_, pool, hpool, fun x hx => (hmem x).mpr (.inl hx),
    fun x hx => ((hmem x).mp hx).imp_right ?_⟩
  rintro ⟨j, hj, rfl⟩
  rw [Nat.zero_add]
  exact ⟨value_pos hends fun i hi => hbelow i (by omega), hbelow j hj⟩

/-- Without the room it never does. -/
theorem insertMultiples_never_ends (hn : numDPU < 4294967296)
    (hroom : 4294967296 < bound + Nat.gcd numDPU 4294967296) (fuel : ℕ) (splits : Finset ℕ) :
    insertMultiples numDPU bound fuel numDPU splits = none := by
  have hbelow : ∀ k, value numDPU 4294967296 k < bound := fun k => by
    have := value_add_gcd_le numDPU (show 0 < 4294967296 by omega) k
    omega
  have := insertMultiples_eq_none hbelow fuel 0 splits
  rwa [value_zero_eq hn] at this

/-- What divides the range is at least one and within the limit. -/
theorem mem_getSplitsFromRange {maxSplitRange maxLimit n : ℕ}
    (h : n ∈ getSplitsFromRange maxSplitRange maxLimit) : 0 < n ∧ n ≤ maxLimit := by
  obtain ⟨idx, hidx, hn⟩ := List.mem_filterMap.mp h
  split at hn
  · next hsplit =>
    obtain rfl := Option.some.inj hn
    have hlt : 2 ^ idx < maxSplitRange :=
      (Nat.lt_clog_iff_pow_lt (by omega)).mp (List.mem_range.mp hidx)
    exact ⟨Nat.div_pos hlt.le (by positivity), hsplit.2⟩
  · cases hn

end TilingPrimitives

/-! ### The pools -/

/-- What a caller may rely on: one workload is always tried, and there are between one and
    `maxWorkloads` of them. -/
structure IsSplitPool (maxWorkloads : ℕ) (pool : Finset ℕ) : Prop where
  one_mem : 1 ∈ pool
  bounds : ∀ n ∈ pool, 1 ≤ n ∧ n ≤ max 1 maxWorkloads

/-- The run ends with such a pool. -/
def Generates (maxWorkloads : ℕ) (run : ℕ → Option (Finset ℕ)) : Prop :=
  ∃ fuel pool, run fuel = some pool ∧ IsSplitPool maxWorkloads pool

theorem gcd_le_half {n : ℕ} (hpos : 0 < n) (hn : n < 4294967296) :
    Nat.gcd n 4294967296 ≤ 2147483648 := by
  obtain ⟨c, hc⟩ := Nat.gcd_dvd_right n 4294967296
  have hle := Nat.gcd_le_left 4294967296 hpos
  by_contra hgt
  have hc2 : c < 2 := by
    by_contra h
    have := Nat.mul_le_mul_left (Nat.gcd n 4294967296) (not_lt.mp h)
    omega
  interval_cases c <;> omega

theorem generates_one (maxWorkloads : ℕ) : Generates maxWorkloads fun _ => some {1} :=
  ⟨0, {1}, rfl, by simp, by simp⟩

section

variable {maxWorkloads maxSplits numDPU : ℕ}

/-- Both functions end in the loop, and then add divisors of a range. -/
theorem generates_insertMultiples_iff (hn : numDPU < 4294967296) (hmax : maxSplits ≤ maxWorkloads)
    {splits : Finset ℕ} {more : Finset ℕ → Finset ℕ}
    (hsplits : ∀ x ∈ splits, x = 1)
    (hone : ∀ pool, splits ⊆ pool → 1 ∈ more pool)
    (hmore : ∀ pool, ∀ x ∈ more pool, x = 1 ∨ x ∈ pool ∨ 0 < x ∧ x ≤ maxSplits) :
    Generates maxWorkloads (fun fuel =>
        (insertMultiples numDPU (u32 (maxSplits + 1)) fuel numDPU splits).map more)
      ↔ u32 (maxSplits + 1) + Nat.gcd numDPU 4294967296 ≤ 4294967296 := by
  have hbound : u32 (maxSplits + 1) ≤ maxSplits + 1 := by unfold u32; omega
  constructor
  · rintro ⟨fuel, pool, hpool, -⟩
    by_contra hroom
    have hnever := insertMultiples_never_ends hn (not_le.mp hroom) fuel splits
    simp only [hnever, Option.map_none] at hpool
    cases hpool
  · intro hroom
    obtain ⟨fuel, pool, hpool, hsub, hmem⟩ := insertMultiples_ends hn hroom splits
    refine ⟨fuel, more pool, by simp only [hpool, Option.map_some], hone pool hsub, fun x hx => ?_⟩
    rcases hmore pool x hx with rfl | hx | hx
    · omega
    · rcases hmem x hx with hx | hx
      · have := hsplits x hx
        omega
      · omega
    · omega

end

theorem ZTiling.maxZ_lt (layer : DPULayer) (hz : layer.outputs.channels < 4294967296) :
    (ZTiling.maxSplitsInZ layer).foldl max 0 < 268435457 := by
  refine List.foldlRecOn (motive := (· < 268435457)) _ max (by omega) fun maxZ hmaxZ splits hs => ?_
  obtain ⟨zTile, hzTile, rfl⟩ := List.mem_map.mp hs
  have hsize : 16 ≤ zTile := (show ∀ zTile ∈ ZTiling.validZTiles, 16 ≤ zTile by decide) zTile hzTile
  have hle : (layer.outputs.channels + zTile - 1) / zTile < 268435457 := by
    rw [Nat.div_lt_iff_lt_mul (by omega)]
    omega
  exact max_lt hmaxZ hle

/-- There are few channels against `2^32`, so their splits are generated for any number of DPUs but
    none. -/
theorem ZTiling.generates_iff (layer : DPULayer) (hz : layer.outputs.channels < 4294967296)
    (maxWorkloads : ℕ) {numDPU : ℕ} (hn : numDPU < 4294967296) (mode : ExecutionMode) :
    Generates maxWorkloads (ZTiling.generateSplitPool layer maxWorkloads · numDPU mode)
      ↔ numDPU ≠ 0 ∨ layer.device = .vpu_2_0 ∧ mode ≠ .vector ∧ layer.op ≠ .convolution := by
  unfold ZTiling.generateSplitPool
  by_cases hearly : numDPU = 1 ∧ isNoSplitOperation layer.op
  · simp only [if_pos hearly]
    exact iff_of_true (generates_one _) (.inl (by omega))
  simp only [if_neg hearly]
  by_cases hvpu : layer.device = .vpu_2_0 ∧ mode ≠ .vector ∧ layer.op ≠ .convolution
  · simp only [if_pos hvpu]
    exact iff_of_true (generates_one _) (.inr hvpu)
  simp only [if_neg hvpu]
  have hmaxZ := ZTiling.maxZ_lt layer hz
  rw [or_iff_left hvpu, generates_insertMultiples_iff hn (min_le_left ..) (by simp)
    (fun pool _ => Finset.mem_insert_self ..)]
  · have hbound : u32 ((min maxWorkloads ((ZTiling.maxSplitsInZ layer).foldl max 0) : ℕ) + 1)
        = min maxWorkloads ((ZTiling.maxSplitsInZ layer).foldl max 0) + 1 := by
      unfold u32
      omega
    rw [hbound]
    rcases Nat.eq_zero_or_pos numDPU with rfl | hpos
    · rw [Nat.gcd_zero_left]
      omega
    · have hgcd : Nat.gcd numDPU 4294967296 ≤ 2147483648 := gcd_le_half hpos hn
      omega
  · intro pool x hx
    rcases Finset.mem_insert.mp hx with rfl | hx
    · exact .inl rfl
    · rcases Finset.mem_union.mp hx with hx | hx
      · exact .inr (.inl hx)
      · obtain ⟨splits, -, hx⟩ := List.mem_flatMap.mp (List.mem_toFinset.mp hx)
        exact .inr (.inr (mem_getSplitsFromRange hx))

theorem HWTiling.generates_iff {toUnsigned : ℕ → ℕ} (layer : DPULayer) (maxWorkloads : ℕ)
    {numDPU : ℕ} (hn : numDPU < 4294967296) (mode : ExecutionMode) :
    Generates maxWorkloads (HWTiling.generateSplitPool toUnsigned layer maxWorkloads · numDPU mode)
      ↔ numDPU = 1 ∨ u32 (min maxWorkloads (HWTiling.maxSplitsInXY toUnsigned layer mode) + 1 : ℕ)
          + Nat.gcd numDPU 4294967296 ≤ 4294967296 := by
  unfold HWTiling.generateSplitPool
  by_cases hone : numDPU = 1
  · simp only [if_pos hone]
    exact iff_of_true (generates_one _) (.inl hone)
  simp only [if_neg hone]
  rw [generates_insertMultiples_iff hn (min_le_left ..) (by simp)
    (fun pool h => Finset.mem_union_left _ (h (by simp))), or_iff_right hone]
  · push_cast
    rfl
  · intro pool x hx
    rcases Finset.mem_union.mp hx with hx | hx
    · exact .inr (.inl hx)
    · exact .inr (.inr (mem_getSplitsFromRange (List.mem_toFinset.mp hx)))

/-- The pools end with what a caller may rely on exactly if the loop over the multiples of `numDPU`
    is not entered, or there is a DPU and, for the splits over height and width, the number of splits
    leaves room below `2^32` for the common divisor with `numDPU`. -/
theorem generateSplitPool_generates_iff (toUnsigned : ℕ → ℕ) (layer : DPULayer)
    (hz : layer.outputs.channels < 4294967296) (maxWorkloads : ℕ) {numDPU : ℕ}
    (hn : numDPU < 4294967296) (mode : ExecutionMode) :
    (Generates maxWorkloads (ZTiling.generateSplitPool layer maxWorkloads · numDPU mode)
        ↔ numDPU ≠ 0 ∨ layer.device = .vpu_2_0 ∧ mode ≠ .vector ∧ layer.op ≠ .convolution)
      ∧ (Generates maxWorkloads
          (HWTiling.generateSplitPool toUnsigned layer maxWorkloads · numDPU mode)
        ↔ u32 (min maxWorkloads (HWTiling.maxSplitsInXY toUnsigned layer mode) + 1 : ℕ)
            + Nat.gcd numDPU 4294967296 ≤ 4294967296) := by
  refine ⟨ZTiling.generates_iff layer hz maxWorkloads hn mode,
    (HWTiling.generates_iff layer maxWorkloads hn mode).trans (or_iff_right_of_imp ?_)⟩
  rintro rfl
  have := u32_lt (min maxWorkloads (HWTiling.maxSplitsInXY toUnsigned layer mode) + 1 : ℕ)
  rw [Nat.gcd_one_left]
  omega

theorem generateSplitPool_generates_two :
    Generates 128 (ZTiling.generateSplitPool ZTiling.exampleLayer 128 · 2 .cuboid16x16)
      ∧ Generates 128
          (HWTiling.generateSplitPool (· % 4294967296) ZTiling.exampleLayer 128 · 2 .cuboid16x16) :=
  have h := generateSplitPool_generates_iff (· % 4294967296) ZTiling.exampleLayer
    (by decide) 128 (show 2 < 4294967296 by decide) .cuboid16x16
  ⟨h.1.mpr (by decide), h.2.mpr (by decide)⟩

/-- For no DPU, which the options read as "detect it", neither ends. -/
theorem generateSplitPool_not_generates :
    ¬ Generates 128 (ZTiling.generateSplitPool ZTiling.exampleLayer 128 · 0 .cuboid16x16)
      ∧ ¬ Generates 128
          (HWTiling.generateSplitPool (· % 4294967296) ZTiling.exampleLayer 128 · 0 .cuboid16x16) :=
  ⟨(ZTiling.generates_iff _ (by decide) 128 (by decide) _).not.mpr (by decide),
    (HWTiling.generates_iff _ 128 (by decide) _).not.mpr (by decide)⟩

end Vpunn
