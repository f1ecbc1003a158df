import Vpunn.Dpu.Operation
import Vpunn.Ranges

/-! What values the members of a workload may take (`interface_valid_values.h`).

    The limits on kernels, strides, paddings and input sizes are the same for all devices. The rest
    is a table for each device, once for layers and once for what is left of them on a tile. -/

namespace Vpunn
open MachineInt

/-! ### The hardware limits -/

def inputSpatialDimMax : ℤ := 8192

def cmConvChannelsMax : ℤ := 16

def kernelMax : ℤ := 15

def strideMax : ℤ := 8

/-- `makeList(from, to)`: the integers of an interval. A list of negative length cannot be made, and
    no value is found in it. -/
def makeList (lo hi : ℤ) : List ℤ := (List.range (hi - lo + 1).toNat).map fun n : ℕ => lo + n

@[simp] theorem mem_makeList {lo hi x : ℤ} : x ∈ makeList lo hi ↔ lo ≤ x ∧ x ≤ hi := by
  simp only [makeList, List.mem_map, List.mem_range]
  constructor
  · rintro ⟨n, hn, rfl⟩; omega
  · rintro ⟨hlo, hhi⟩
    exact ⟨(x - lo).toNat, by omega, by omega⟩

def getMaximumKernelSize (op : Operation) : ℤ := if op = .eltwise then 1 else kernelMax

def getMaximumKernelStride (op : Operation) : ℤ := if op = .eltwise then 1 else strideMax

theorem getMaximumKernelSize_le (op : Operation) : getMaximumKernelSize op ≤ 15 := by
  unfold getMaximumKernelSize kernelMax; split <;> omega

theorem getMaximumKernelStride_le (op : Operation) : getMaximumKernelStride op ≤ 8 := by
  unfold getMaximumKernelStride strideMax; split <;> omega

def getPadMax (kernelDim : ℤ) : ℤ := kernelDim.tdiv 2

/-- The output extent for an input extent, and `0` if there is no stride. -/
def computeOutputDim (input pad padOpposite kernel kernelStride : ℤ) : ℤ :=
  if kernelStride = 0 then 0
  else i32 ((i32 (input + (pad + padOpposite) - (kernel - 1) - 1)).tdiv kernelStride + 1)

/-- The interval for an input extent: enough for one output row and `extra` rows more. -/
def inputInterval (kernel pad padOpposite extra : ℤ) : ℤ × ℤ :=
  let minOneRow := i32 (kernel - (pad + padOpposite))
  let minDim := i32 (minOneRow + extra)
  (if minDim < 1 then 1 else minDim, inputSpatialDimMax)

/-- The strides along one axis of a layer: none is longer than the padded input. -/
def paddedStridesRange (maxStrideOp input pad padOpposite : ℤ) : List ℤ :=
  makeList 1 (min maxStrideOp (i32 (input + pad + padOpposite)))

/-! ### The tables of a device -/

/-- `IDeviceValidValues`. A map that has no entry for an operation throws, which is `none` here. -/
structure DeviceValidValues where
  devices : List VPUDevice
  validOperations : List Operation
  validMpeEngines : List MPEEngine
  outputWriteTileOptions : List ℤ
  validLayouts : List Layout
  validSwizzlings : List Swizzling
  inputHeightWidthStartFactorSOHW : ℤ
  getISIStrategyRange : DPUOperation → List ISIStrategy
  getInputValidDatatypes : DPUOperation → Option (List DataType)
  getOutputValidDatatypes : DPUOperation → Option (List DataType)
  getWeightsValidDatatypes : DPUOperation → Option (List DataType)
  getInputChannelsRestriction : DPUOperation → Option MultiSmartRanges
  getOutputChannelsRestriction : DPUOperation → Option MultiSmartRanges
  getBatchRestrictions : MultiSmartRanges
  getValidExecutionOrder : DPUOperation → Option (List ExecutionMode)
  mustExecuteHWLowLevelChecks : DPUOperation → Bool
  hasAutopadChannelCoupling : Bool
  /-- There are one to eight tiles to write to. -/
  outputWriteTileOptions_mem : ∀ n ∈ outputWriteTileOptions, 1 ≤ n ∧ n ≤ 8
  /-- A split axis needs one output row on a tile, and two in a layer. -/
  startFactor_mem : inputHeightWidthStartFactorSOHW = 1 ∨ inputHeightWidthStartFactorSOHW = 2

namespace DeviceValidValues

variable (config : DeviceValidValues)

/-- How many input rows more than for one output row are asked for. -/
def extraOutRows (useExtraStart : Bool) : ℤ :=
  if useExtraStart then config.inputHeightWidthStartFactorSOHW - 1 else 1 - 1

def getInputHeightInterval (dpu : DPUOperation) (useExtraStart : Bool := false) : ℤ × ℤ :=
  inputInterval dpu.kernel.height dpu.kernel.padTop dpu.kernel.padBottom
    (config.extraOutRows useExtraStart)

def getInputWidthInterval (dpu : DPUOperation) (useExtraStart : Bool := false) : ℤ × ℤ :=
  inputInterval dpu.kernel.width dpu.kernel.padLeft dpu.kernel.padRight
    (config.extraOutRows useExtraStart)

theorem extraOutRows_mem (useExtraStart : Bool) :
    config.extraOutRows useExtraStart = 0 ∨ config.extraOutRows useExtraStart = 1 := by
  have := config.startFactor_mem
  unfold extraOutRows
  cases useExtraStart <;> simp
  omega

end DeviceValidValues

def getKernelRange (dpu : DPUOperation) : List ℤ := makeList 1 (getMaximumKernelSize dpu.operation)

def getPadHorzRange (dpu : DPUOperation) : List ℤ := makeList 0 (getPadMax dpu.kernel.width)

def getPadVertRange (dpu : DPUOperation) : List ℤ := makeList 0 (getPadMax dpu.kernel.height)

/-- The strides of a layer, for the width and the height. -/
def getStridesRange (dpu : DPUOperation) : List ℤ × List ℤ :=
  let maxStrideOp := getMaximumKernelStride dpu.operation
  (paddedStridesRange maxStrideOp dpu.input0.width dpu.kernel.padLeft dpu.kernel.padRight,
    paddedStridesRange maxStrideOp dpu.input0.height dpu.kernel.padTop dpu.kernel.padBottom)

/-- The strides of a split layer, for the width and the height. -/
def getDpuStridesRange (dpu : DPUOperation) : List ℤ × List ℤ :=
  let maxStrideOp := getMaximumKernelStride dpu.operation
  (makeList 1 maxStrideOp, makeList 1 maxStrideOp)

end Vpunn
