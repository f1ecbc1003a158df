import Vpunn.Layer.SplitAcrossTiles
import Vpunn.Validation.ValidValues

/-! The two validators (`vpu_layer_validator.h`, `dpu_operations_validator.h`,
    `dpu_operations_valid_behaviours.h`).

    A layer is checked before it is split, with limits that grow with the number of tiles, and what
    the split makes of it is checked again as a workload. All checks are made, and all have to hold.
    The checks are kept with the member that they are about. -/

namespace Vpunn
open MachineInt

/-! ### Checks -/

/-- What is checked, and whether it is found valid. -/
abbrev Check := String × Bool

/-- `Checker::is_clean` after all checks. -/
def isClean (checks : List Check) : Bool := checks.all (·.2)

def checkIsInList {α : Type} [DecidableEq α] (item : α) (container : List α) (what : String) :
    Check :=
  (what, decide (item ∈ container))

/-- A lookup that throws ends the checks with a finding. -/
def checkIsInListAt {α : Type} [DecidableEq α] (item : α) (container : Option (List α))
    (what : String) : Check :=
  (what, decide (∃ c ∈ container, item ∈ c))

def checkIsInInterval (item : ℤ) (interval : ℤ × ℤ) (what : String) : Check :=
  (what, decide (interval.1 ≤ item ∧ item ≤ interval.2))

def checkIsInRequirements (item : ℤ) (range : Option MultiSmartRanges) (what : String) : Check :=
  (what, range.any (·.isIn item))

@[simp] theorem isClean_nil : isClean [] = true := rfl

@[simp] theorem isClean_cons (c : Check) (cs : List Check) :
    isClean (c :: cs) = (c.2 && isClean cs) := rfl

@[simp] theorem isClean_append (cs ds : List Check) :
    isClean (cs ++ ds) = (isClean cs && isClean ds) := List.all_append

/-! ### Rules of the operations -/

/-- No operation changes the kernel of a workload. -/
def normalizeKernelDimension (_strategy : ISIStrategy) (_kernel : KernelInfo) : Bool := false

/-- Operations without sparse inputs. -/
def sparsityIsOff (dpu : DPUOperation) : Bool :=
  !dpu.input0.sparsityEnabled && dpu.input0.sparsity == 0
    && !dpu.input1.sparsityEnabled && dpu.input1.sparsity == 0

/-- Sparsity that is not enabled is zero. -/
def sparsityIsOffUnlessEnabled (dpu : DPUOperation) : Bool :=
  (dpu.input0.sparsityEnabled || dpu.input0.sparsity == 0)
    && (dpu.input1.sparsityEnabled || dpu.input1.sparsity == 0)

def checkSparsityRules (dpu : DPUOperation) : Bool :=
  match dpu.operation with
  | .convolution | .layerNorm =>
    sparsityIsOffUnlessEnabled dpu && (dpu.mpeEngine != .dcim || sparsityIsOff dpu)
  | .eltwise | .eltwiseMul => sparsityIsOffUnlessEnabled dpu
  | _ => sparsityIsOff dpu

def dwChannelAlign (channels : ℕ) : ℕ := if channels ≤ 16 then 16 else roundUp channels 32

def eltwiseChannelAlign (channels : ℕ) : ℕ := roundUp channels 16

/-- With output autopad only, the input channels follow from the output channels. -/
def checkAutopadChannelCoupling (align : ℕ → ℕ) (dpu : DPUOperation) : Bool :=
  decide (dpu.output0.channels ≤ dpu.input0.channels)
    && dpu.input0.channels == align (u32 dpu.output0.channels)

/-- As many output channels as input channels, up to autopad. -/
def checkSameChannels (align : ℕ → ℕ) (config : DeviceValidValues) (dpu : DPUOperation) : Bool :=
  if !dpu.outputAutopad || (dpu.outputAutopad && dpu.inputAutopad) then
    dpu.output0.channels == dpu.input0.channels
  else if config.hasAutopadChannelCoupling then checkAutopadChannelCoupling align dpu
  else true

def checkInputOutputTensorCorelation (config : DeviceValidValues) (dpu : DPUOperation) : Bool :=
  match dpu.operation with
  | .dwConvolution | .maxpool | .avepool => checkSameChannels dwChannelAlign config dpu
  | .eltwise | .eltwiseMul => checkSameChannels eltwiseChannelAlign config dpu
  | .reduceMs | .reduceSumsquares =>
    dpu.output0.width == dpu.input0.width && dpu.output0.height == dpu.input0.height
      && dpu.output0.channels == 1 && dpu.output0.batch == dpu.input0.batch
  | _ => true

/-! ### Checks of both validators -/

section Checks

variable (config : DeviceValidValues) (w : DPUOperation)

def selectionChecks : List Check :=
  [checkIsInList w.device config.devices "Device",
    checkIsInList w.operation config.validOperations "Operation",
    checkIsInList w.mpeEngine config.validMpeEngines "MPEEngine",
    checkIsInList w.outputWriteTiles config.outputWriteTileOptions "output_write_tiles",
    checkIsInList w.isiStrategy (config.getISIStrategyRange w) "ISI_strategy"]

def kernelChecks : List Check :=
  [checkIsInList w.kernel.width (getKernelRange w) "kernel.width",
    checkIsInList w.kernel.height (getKernelRange w) "kernel.height",
    ("Kernel dimension are not normalized properly!(maybe not equal?)",
      !normalizeKernelDimension w.isiStrategy w.kernel)]

def paddingChecks : List Check :=
  [checkIsInList w.kernel.padLeft (getPadHorzRange w) "kernel.pad_left",
    checkIsInList w.kernel.padTop (getPadVertRange w) "kernel.pad_top",
    checkIsInList w.kernel.padRight (getPadHorzRange w) "kernel.pad_right",
    checkIsInList w.kernel.padBottom (getPadVertRange w) "kernel.pad_bottom"]

def strideChecks (strideOptions : List ℤ × List ℤ) : List Check :=
  [checkIsInList w.kernel.strideWidth strideOptions.1 "kernel.stride_width",
    checkIsInList w.kernel.strideHeight strideOptions.2 "kernel.stride_height"]

/-- The batches and the properties of the tensors that are not sizes. -/
def tensorChecks : List Check :=
  [checkIsInRequirements w.input0.batch config.getBatchRestrictions "input_0.batch",
    checkIsInListAt w.input0.datatype (config.getInputValidDatatypes w) "input_0.datatype",
    checkIsInList w.input0.layout config.validLayouts "input_0.layout",
    checkIsInList w.input0.swizzling config.validSwizzlings "input_0.swizzling",
    ("Output.batch different than input_0.batch!", w.output0.batch == w.input0.batch),
    checkIsInRequirements w.output0.batch config.getBatchRestrictions "output_0.batch",
    checkIsInListAt w.output0.datatype (config.getOutputValidDatatypes w) "output_0.datatype",
    checkIsInList w.output0.layout config.validLayouts "output_0.layout",
    checkIsInList w.output0.swizzling config.validSwizzlings "output_0.swizzling",
    checkIsInListAt w.input1.datatype (config.getWeightsValidDatatypes w) "input_1.datatype"]

/-- The `float` next to one hundredth. -/
def sparsityEnabledMin : ℚ := 10737418 / 1073741824

def sparsityChecks : List Check :=
  [("input_0.sparsity not in interval [0.0, 1.0] !",
      decide (0 ≤ w.input0.sparsity ∧ w.input0.sparsity ≤ 1)),
    ("input_0.sparsity is enabled but too low, almost zero!",
      !(w.input0.sparsityEnabled && decide (w.input0.sparsity < sparsityEnabledMin))),
    ("output_1.sparsity not in interval [0.0, 1.0] !",
      decide (0 ≤ w.input1.sparsity ∧ w.input1.sparsity ≤ 1)),
    ("sparsity rules", checkSparsityRules w)]

def correlationChecks : List Check :=
  [("correlation of input and output", checkInputOutputTensorCorelation config w)]

def expectedOutWidth : ℤ :=
  computeOutputDim w.input0.width w.kernel.padLeft w.kernel.padRight w.kernel.width
    w.kernel.strideWidth

def expectedOutHeight (inputHeight : ℤ) : ℤ :=
  computeOutputDim inputHeight w.kernel.padTop w.kernel.padBottom w.kernel.height
    w.kernel.strideHeight

end Checks

/-! ### Layers -/

namespace VPUTilingStrategy

/-- The strategies that cut the vertical dimension. -/
def isVerticalTiling : VPUTilingStrategy → Bool
  | .sohw | .sohk | .sohHaloRead | .sohoKSwitch | .sohOverlapped => true
  | _ => false

/-- The strategies that cut the horizontal dimension. -/
def isHorizontalTiling : VPUTilingStrategy → Bool
  | .sohw | .sow => true
  | _ => false

/-- By how much the upper limits of width, height and channels are multiplied. -/
def borderCoeff (nTiles : ℕ) : VPUTilingStrategy → Shape
  | .sohOverlapped | .sohHaloRead | .sohoKSwitch | .sohKSwitch => ⟨1, nTiles, 1, 1⟩
  | .sok | .sokNoBroadcast | .sokHSwitch | .sokWSwitch => ⟨1, 1, nTiles, 1⟩
  | .sow => ⟨nTiles, 1, 1, 1⟩
  | .sohw => ⟨nTiles, nTiles, 1, 1⟩
  | .sohk => ⟨1, nTiles, nTiles, 1⟩
  | .none | .unknown | .__size => ⟨1, 1, 1, 1⟩

end VPUTilingStrategy

/-- An interval whose upper limit is multiplied. -/
def extendUpper (interval : ℤ × ℤ) (coeff : ℕ) : ℤ × ℤ :=
  (interval.1, i32 (interval.2 * coeff))

section Layers

variable (config : DeviceValidValues) (w : DPUOperation) (nTiles : ℕ) (strategy : VPUTilingStrategy)

def layerInputChecks : List Check :=
  let extendedBorderCoeff := strategy.borderCoeff nTiles
  [checkIsInInterval w.input0.height
      (extendUpper (config.getInputHeightInterval w strategy.isVerticalTiling)
        extendedBorderCoeff.y) "input_0.height",
    checkIsInInterval w.input0.width
      (extendUpper (config.getInputWidthInterval w strategy.isHorizontalTiling)
        extendedBorderCoeff.x) "input_0.width",
    checkIsInRequirements w.input0.channels
      ((config.getInputChannelsRestriction w).map (·.multiplyUpper extendedBorderCoeff.z))
      "input_0.channels"]

def layerOutputChecks : List Check :=
  [checkIsInInterval w.output0.width (expectedOutWidth w, expectedOutWidth w) "output_0.width",
    checkIsInInterval w.output0.height
      (expectedOutHeight w w.input0.height, expectedOutHeight w w.input0.height)
      "output_0.height",
    checkIsInRequirements w.output0.channels
      ((config.getOutputChannelsRestriction w).map
        (·.multiplyUpper (strategy.borderCoeff nTiles).z)) "output_0.channels",
    ("can't do H split if output_0_.height is <= 1",
      !(strategy.isVerticalTiling && decide (w.output0.height ≤ 1))),
    ("can't do W split  if output_0_.width is <= 1",
      !(strategy.isHorizontalTiling && decide (w.output0.width ≤ 1)))]

/-- `VPU_LayerValidator::check_layer_consistency` -/
def checkLayerConsistency : Bool :=
  isClean (selectionChecks config w ++ kernelChecks w ++ paddingChecks w
    ++ layerInputChecks config w nTiles strategy ++ strideChecks w (getStridesRange w)
    ++ layerOutputChecks config w nTiles strategy ++ tensorChecks config w ++ sparsityChecks w
    ++ correlationChecks config w)

end Layers

/-- `check_completeLayer_consistency`: the tests before the checks repeat some of them, and only give
    other errors. -/
def checkCompleteLayerConsistency (config : DeviceValidValues) (layer : DPULayer)
    (presumedStrategy : ISIStrategy) (nTiles : ℕ) (strategy : VPUTilingStrategy) : Bool :=
  let w := (DPUOperation.ofDPUWorkload layer).setIntendedSplit presumedStrategy nTiles
  checkLayerConsistency config w nTiles strategy

/-! ### Workloads and split layers -/

def HaloInfoHWC.isAllPositive (h : HaloInfoHWC) : Bool :=
  !(decide (h.top < 0) || decide (h.bottom < 0) || decide (h.left < 0) || decide (h.right < 0)
    || decide (h.back < 0) || decide (h.front < 0))

/-- Input padding and halo are incompatible, and what is written to other tiles is not negative. -/
def haloChecks (kernel : KernelInfo) (halo : HaloWorkload) : List Check :=
  let inHalo := halo.input0Halo
  [("Incompatible: Padding top >0 and input halo.top >0 ",
      !decide (0 < kernel.padTop ∧ 0 < inHalo.top)),
    ("Incompatible: Padding bottom >0 and input halo.bottom >0 ",
      !decide (0 < kernel.padBottom ∧ 0 < inHalo.bottom)),
    ("Incompatible: Padding left >0 and input halo.left >0 ",
      !decide (0 < kernel.padLeft ∧ 0 < inHalo.left)),
    ("Incompatible: Padding right >0 and input halo.right >0 ",
      !decide (0 < kernel.padRight ∧ 0 < inHalo.right)),
    ("Incompatible: Halo values <0",
      halo.output0Halo.isAllPositive && halo.output0HaloBroadcastCnt.isAllPositive)]

def checkHalo (dpu : DPUOperation) : Bool := isClean (haloChecks dpu.kernel dpu.halo)

/-- Rows of other tiles that a workload may read in a split over the height. -/
def sohHInputHaloExtension (w : DPUOperation) : ℤ :=
  let haloMax := w.kernel.height
  if w.isiStrategy = .splitOverH then
    (if w.kernel.padTop = 0 then haloMax else 0) + (if w.kernel.padBottom = 0 then haloMax else 0)
  else 0

section Workloads

variable (config : DeviceValidValues) (w : DPUOperation)

def workloadInputChecks : List Check :=
  [checkIsInInterval w.input0.height (config.getInputHeightInterval w) "input_0.height",
    checkIsInInterval w.input0.width (config.getInputWidthInterval w) "input_0.width"]

def workloadOutputChecks : List Check :=
  [checkIsInInterval w.output0.width (expectedOutWidth w, expectedOutWidth w) "output_0.width",
    checkIsInInterval w.output0.height
      (expectedOutHeight w w.input0.height,
        expectedOutHeight w (i32 (w.input0.height + sohHInputHaloExtension w)))
      "output_0.height"]

def channelChecks : List Check :=
  [checkIsInRequirements w.input0.channels (config.getInputChannelsRestriction w)
      "input_0.channels",
    checkIsInRequirements w.output0.channels (config.getOutputChannelsRestriction w)
      "output_0.channels"]

def executionOrderChecks : List Check :=
  if config.mustExecuteHWLowLevelChecks w then
    [checkIsInListAt w.executionOrder (config.getValidExecutionOrder w) "Execution_Order"]
  else []

/-- The checks of a workload that look at kernel, padding, strides, width and height, and halo. -/
def geometryChecks : List Check :=
  kernelChecks w ++ paddingChecks w ++ workloadInputChecks config w
    ++ strideChecks w (getDpuStridesRange w) ++ workloadOutputChecks w
    ++ [("halo", checkHalo w)]

/-- `check_workload_consistency` -/
def checkWorkloadConsistency : Bool :=
  isClean (selectionChecks config w ++ geometryChecks config w ++ channelChecks config w
    ++ tensorChecks config w ++ sparsityChecks w ++ executionOrderChecks config w
    ++ correlationChecks config w)

end Workloads

end Vpunn
