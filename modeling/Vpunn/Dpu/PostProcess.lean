import Vpunn.Floats
import Vpunn.Tensor

/-! What is done to the value that the neural network gives (`postprocessing_mocks.h`,
    `postprocessing_factory.h`, `post_process.h`).

    A value outside of an interval is no answer. A network that was trained for VPU2.7 is adapted to
    later devices by a factor for depthwise convolutions. A value that is an answer stays one, so that
    it can be rounded up to cycles that are no error code. -/

namespace Vpunn
open Cycles

inductive NNOutputVersions where
  | outLatest | outHwOverheadBounded | outCycles | outHwOverheadUnbounded | outCyclesNPU27
  | outCyclesNPU40Dev
  deriving DecidableEq, Repr

namespace PostProcess

def highThreshold : ℚ := 4000000000

def lowThreshold : ℚ := 0

/-- `is_NN_value_invalid` -/
def isNNValueInvalid (nnOutputCycles : ℚ) : Prop :=
  highThreshold < nnOutputCycles ∨ nnOutputCycles < lowThreshold

instance (x : ℚ) : Decidable (isNNValueInvalid x) := inferInstanceAs (Decidable (_ ∨ _))

/-- `set_output_version`: whether a model with this output can be used. -/
def isOutputSupported : NNOutputVersions → Bool
  | .outLatest | .outCycles | .outCyclesNPU27 | .outCyclesNPU40Dev => true
  | .outHwOverheadBounded | .outHwOverheadUnbounded => false

/-! ### From VPU2.7 to VPU4.0 -/

def channelsToIndex (ch : ℕ) : Option ℕ :=
  if ch = 16 then some 0 else if ch = 32 then some 1 else if ch = 64 then some 2 else none

/-- A kernel of width 3 is the optimized one. -/
def kToIndex0to2 (kw kh : ℕ) : ℕ :=
  if kw = 3 then 1 else if kw = 1 ∨ kh = 1 then 0 else 2

def contextToIndex (wl : DPUWorkload) : ℕ :=
  if wl.strides.w = 1 ∧ wl.strides.h = 1 then kToIndex0to2 wl.kernels.w wl.kernels.h
  else if wl.strides.w = 2 ∨ wl.strides.h = 2 then 3 else 4

/-- One row for each context, with a factor for 16, 32 and 64 channels. -/
def factorArray8Bit : List (List ℚ) :=
  [[1, 4/5, 3/4], [1/2, 11/25, 69/100], [81/100, 3/4, 3/4], [69/100, 17/25, 73/100],
    [3/5, 3/5, 13/20]]

def factorArray16Bit : List (List ℚ) :=
  [[1, 1, 1], [12/25, 47/100, 71/100], [19/25, 37/50, 77/100], [69/100, 69/100, 73/100],
    [3/5, 3/5, 13/20]]

def getTypeBasedFactorsArray (t : DataType) : List (List ℚ) :=
  if 1 < dtypeToBytes t then factorArray16Bit else factorArray8Bit

/-- The entries are `float` constants. -/
def getDWFactor (w : DPUWorkload) : ℚ :=
  match channelsToIndex w.inputs.channels with
  | some chIndex =>
    toFloat (((getTypeBasedFactorsArray w.inputs.dtype).getD (contextToIndex w) []).getD chIndex 1)
  | none => 1

/-- `AdaptFromNPU27to40::process` -/
def adaptFromNPU27to40 (w : DPUWorkload) (nnVal : ℚ) : ℚ :=
  if VPUDevice.vpu_4_0.toNat ≤ w.device.toNat then
    if w.op = .dwConvolution ∧ ¬ isNNValueInvalid nnVal then roundFloat (nnVal * getDWFactor w)
    else nnVal
  else nnVal

/-- The processing that the factory has for an output version. That of `AdaptFromNPU40to40` leaves
    every value as it is. -/
def process : NNOutputVersions → DPUWorkload → ℚ → ℚ
  | .outCyclesNPU27, w, nnVal => adaptFromNPU27to40 w nnVal
  | .outLatest, _, nnVal | .outHwOverheadBounded, _, nnVal | .outHwOverheadUnbounded, _, nnVal
  | .outCycles, _, nnVal | .outCyclesNPU40Dev, _, nnVal => nnVal

/-- The cycles of a value of the network: those of the processed value rounded up. There is no result
    where the conversion is undefined. -/
def toCycles (version : NNOutputVersions) (w : DPUWorkload) (rawValue : ℚ) : Option ℕ :=
  if isNNValueInvalid rawValue then some errorInvalidOutputRange
  else floatToU32 ⌈process version w rawValue⌉

/-! ### Answers stay answers -/

theorem not_isNNValueInvalid_iff {x : ℚ} : ¬ isNNValueInvalid x ↔ 0 ≤ x ∧ x ≤ 4000000000 := by
  rw [isNNValueInvalid, not_or, not_lt, not_lt, and_comm]
  rfl

/-- Every factor of the tables is one of a reduction. -/
theorem factor_mem {t : DataType} {row : List ℚ} {x : ℚ} (hrow : row ∈ getTypeBasedFactorsArray t)
    (hx : x ∈ row) : 0 ≤ x ∧ x ≤ 1 := by
  have h8 : ∀ row ∈ factorArray8Bit, ∀ x ∈ row, (0 : ℚ) ≤ x ∧ x ≤ 1 := by decide +kernel
  have h16 : ∀ row ∈ factorArray16Bit, ∀ x ∈ row, (0 : ℚ) ≤ x ∧ x ≤ 1 := by decide +kernel
  rw [getTypeBasedFactorsArray] at hrow
  split_ifs at hrow
  · exact h16 row hrow x hx
  · exact h8 row hrow x hx

theorem toFloat_one : toFloat 1 = 1 := by
  have h := Rounding.round_natCast (p := 24) (n := 1) (by norm_num) (by norm_num)
  simpa [toFloat] using h

theorem getDWFactor_bounds (w : DPUWorkload) : 0 ≤ getDWFactor w ∧ getDWFactor w ≤ 1 := by
  rw [getDWFactor]
  rcases channelsToIndex w.inputs.channels with _ | chIndex
  · exact ⟨zero_le_one, le_rfl⟩
  · suffices h : ∀ x : ℚ, 0 ≤ x ∧ x ≤ 1 → 0 ≤ toFloat x ∧ toFloat x ≤ 1 by
      refine h _ ?_
      rw [List.getD_eq_getElem?_getD, List.getD_eq_getElem?_getD]
      rcases hrow : (getTypeBasedFactorsArray w.inputs.dtype)[contextToIndex w]? with _ | row
      · simp
      · rcases hx : row[chIndex]? with _ | x
        · simp [hx]
        · simp only [Option.getD_some, hx]
          exact factor_mem (List.mem_of_getElem? hrow) (List.mem_of_getElem? hx)
    rintro x ⟨h0, h1⟩
    refine ⟨toFloat_nonneg h0, ?_⟩
    rw [← toFloat_one]
    exact toFloat_mono h0 h1

theorem toFloat_highThreshold : toFloat 4000000000 = 4000000000 := by decide +kernel

/-- What is processed stays in the interval. -/
theorem process_bounds (version : NNOutputVersions) (w : DPUWorkload) {x : ℚ}
    (h : ¬ isNNValueInvalid x) : ¬ isNNValueInvalid (process version w x) := by
  have hproduct : ¬ isNNValueInvalid (roundFloat (x * getDWFactor w)) := by
    obtain ⟨hx0, hx1⟩ := not_isNNValueInvalid_iff.mp h
    obtain ⟨h0, h1⟩ := getDWFactor_bounds w
    have hnonneg : 0 ≤ x * getDWFactor w := mul_nonneg hx0 h0
    have hle : x * getDWFactor w ≤ 4000000000 := (mul_le_of_le_one_right hx0 h1).trans hx1
    have hround := toFloat_mono hnonneg hle
    rw [toFloat_highThreshold] at hround
    rw [not_isNNValueInvalid_iff, roundFloat_of_nonneg hnonneg]
    exact ⟨toFloat_nonneg hnonneg, hround⟩
  cases version with
  | outCyclesNPU27 =>
    rw [process, adaptFromNPU27to40]
    split_ifs
    · exact hproduct
    · exact h
    · exact h
  | _ => rwa [process]

/-- The conversion to cycles is always defined, and its result is an error only for a value that is
    no answer. -/
theorem toCycles_spec (version : NNOutputVersions) (w : DPUWorkload) (rawValue : ℚ) :
    ∃ cycles, toCycles version w rawValue = some cycles
      ∧ (isErrorCode cycles ↔ isNNValueInvalid rawValue) := by
  rw [toCycles]
  by_cases h : isNNValueInvalid rawValue
  · exact ⟨errorInvalidOutputRange, if_pos h, iff_of_true (by decide) h⟩
  · obtain ⟨h0, h1⟩ := not_isNNValueInvalid_iff.mp (process_bounds version w h)
    have hnonneg : 0 ≤ ⌈process version w rawValue⌉ := Int.ceil_nonneg h0
    have hle : ⌈process version w rawValue⌉ ≤ 4000000000 := Int.ceil_le.mpr (by exact_mod_cast h1)
    generalize ⌈process version w rawValue⌉ = cycles at hnonneg hle ⊢
    refine ⟨cycles.toNat, ?_, iff_of_false ?_ h⟩
    · rw [if_neg h, floatToU32, Int.floor_intCast, if_pos ⟨hnonneg, by omega⟩]
    · unfold isErrorCode startErrorRange maxV
      omega

/-! ### Twice -/

end PostProcess

end Vpunn
