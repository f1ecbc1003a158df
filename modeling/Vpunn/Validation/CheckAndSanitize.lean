import Vpunn.Dpu.WorkloadHash
import Vpunn.Floats
import Vpunn.Layer.Sanitize
import Vpunn.Validation.DeviceVPU4
import Vpunn.Validation.SufficientMemory
import Vpunn.Validation.Validators

/-! What a workload becomes before its cost is asked for (`dpu_operations_sanitizer.h`,
    `memory_calculator.h`).

    The tables of the device are looked up first. The types, layouts and swizzlings of the tensors
    are replaced by those that cost the same, and the result has to fit in the CMX memory and to be
    consistent. -/

namespace Vpunn
open MachineInt Cycles

/-! ### The tables of a device -/

/-- What the sanitizer asks about a device. Adapting a layout or a swizzling twice is adapting it
    once, and every device has the swizzling `KEY_0`. -/
structure SanitizerConfig where
  validValues : DeviceValidValues
  alignments : MemoryAlignments
  cmxKBSizes : VPUDevice → Option ℤ
  adaptDeviceCompatibleTensorLayout : Layout → Layout
  adaptDeviceCompatibleSwizzling : Swizzling → Swizzling
  adaptLayout_idem : ∀ l, adaptDeviceCompatibleTensorLayout (adaptDeviceCompatibleTensorLayout l)
    = adaptDeviceCompatibleTensorLayout l
  adaptSwizzling_idem : ∀ s, adaptDeviceCompatibleSwizzling (adaptDeviceCompatibleSwizzling s)
    = adaptDeviceCompatibleSwizzling s
  adaptSwizzling_key0 : adaptDeviceCompatibleSwizzling .key0 = .key0

namespace SanitizerConfig

/-- The samples that one filter is aligned to, on devices that do not align its bytes. -/
def legacyWeightsAlignmentSamples (config : SanitizerConfig) : ℤ :=
  if config.alignments.legacySamplesAlignmentWeights then config.alignments.weigthsAlignmentB else 1

/-- The safety factor is `1.0`, so only the conversion to `float` is left of it. -/
def getCmxSize (config : SanitizerConfig) (device : VPUDevice) : ℤ :=
  let retVal := match config.cmxKBSizes device with
    | some kB => i32 (kB * 1024)
    | none => 0
  ⌈roundFloat retVal⌉

/-- The layouts of VPU2.0 are those of later devices under other names. -/
def adaptTensorLayout : Layout → Layout
  | .zmajor => .zxy
  | .cmajor => .xyz
  | layout => layout

/-- The tables of `VPU4_0_WorkloadValidValues`. -/
def vpu4 : SanitizerConfig where
  validValues := VPU4.workloadValidValues
  alignments := .vpu4
  cmxKBSizes := fun device => if device = .vpu_4_0 then some ((512 + 1024) * 100 / 100) else none
  adaptDeviceCompatibleTensorLayout := adaptTensorLayout
  adaptDeviceCompatibleSwizzling := VPUDevice.adaptSwizzling .vpu_4_0
  adaptLayout_idem := by intro l; cases l <;> rfl
  adaptSwizzling_idem := by intro s; rfl
  adaptSwizzling_key0 := rfl

end SanitizerConfig

/-- The first tables that know a device (`get_config`). -/
def getConfig (configs : List SanitizerConfig) (device : VPUDevice) : Option SanitizerConfig :=
  configs.find? (fun config => device ∈ config.validValues.devices)

/-! ### The weights -/

section Weights

variable (config : SanitizerConfig) (dpu : DPUOperation)

/-- The samples that a filter is aligned to, if it is aligned by its samples. -/
def weightsMultiple : ℤ :=
  let multibyte := 1 < dtypeToBytes dpu.input1.datatype
  if config.alignments.legacySamplesAlignmentWeights then
    match dpu.operation with
    | .cmConvolution => if multibyte then 8 else 16
    | .convolution | .layerNorm =>
      if dpu.input1.sparsityEnabled ∨ multibyte then 16
      else config.legacyWeightsAlignmentSamples
    | _ => if multibyte then 16 else config.legacyWeightsAlignmentSamples
  else 1

/-- An array of filters, each of them of some samples. -/
def filters (samples : ℤ) : TensorInfo :=
  { dpu.input1 with
    layout := if config.alignments.legacySamplesAlignmentWeights then dpu.input0.layout else .zxy
    height := 1
    width := 1
    channels := alignTo samples (weightsMultiple config dpu)
    batch := dpu.output0.channels }

/-- `deduce_input_1_shape_and_layout`, which throws for an operation that is not known. -/
def deduceInput1ShapeAndLayout : Option TensorInfo :=
  match dpu.operation with
  | .convolution | .layerNorm | .cmConvolution =>
    some (filters config dpu (dpu.input0.channels * dpu.kernel.height * dpu.kernel.width))
  | .dwConvolution | .avepool => some (filters config dpu (dpu.kernel.height * dpu.kernel.width))
  | .eltwise | .eltwiseMul =>
    let in0 := dpu.input0
    -- older devices name the extents of the second operand in another order
    if config.validValues.devices.all (·.toNat < VPUDevice.npu_5_0.toNat) then
      some { dpu.input1 with
        layout := in0.layout, batch := in0.batch
        channels := in0.width, height := in0.channels, width := in0.height }
    else
      some { dpu.input1 with
        layout := in0.layout, batch := in0.batch
        channels := in0.channels, height := in0.height, width := in0.width }
  | .maxpool | .reduceMs | .reduceSumsquares =>
    some { dpu.input1 with layout := .invalid, batch := 0, channels := 0, height := 0, width := 0 }
  | .__size => none

end Weights

/-! ### The CMX memory -/

/-- The members of a `DPUOperation` that only the sum of the sizes reads. -/
structure CmxOperation extends MemoryOperation where
  weightlessOperation : Bool
  inPlaceOutputMemory : Bool
  deriving DecidableEq, Repr

namespace CmxOperation

/-- A workload with its weights. -/
def ofDPUWorkload (config : SanitizerConfig) (w : DPUWorkload) : Option CmxOperation :=
  let dpu := MemoryOperation.ofDPUWorkload w
  (deduceInput1ShapeAndLayout config dpu.toDPUOperation).map fun input1 =>
    { dpu with
      input1 := input1
      weightlessOperation := w.isWeightlessOperation
      inPlaceOutputMemory := w.isInplaceOutputMemory }

/-- `input_1_contiguous_size_bytes` of the behaviour of an operation. -/
def input1SizeBytes (config : MemoryAlignments) (dpu : CmxOperation) : ℤ :=
  match dpu.operation with
  | .convolution | .dwConvolution | .cmConvolution | .layerNorm =>
    dpu.input1ContiguousSizeBytes config
  | .eltwise | .eltwiseMul =>
    dpu.input1.getTensorInnermostDimB * dpu.input1.numberOfElementsExcludingInnermost
  | _ => 0

/-- `compute_memory`, without the overhead. -/
def computeMemory (config : MemoryAlignments) (dpu : CmxOperation) : ℤ :=
  let elementwise : Bool := dpu.operation = .eltwise ∨ dpu.operation = .eltwiseMul
  let in0AlignedSize := dpu.input0AlignedSizeBytes config
  let in1AlignedSize :=
    if elementwise && dpu.weightlessOperation then 0
    else alignTo (dpu.input1SizeBytes config) config.alignementSizeBytes
  let out0AlignedSize := dpu.output0AlignedSizeBytes config
  in0AlignedSize + in1AlignedSize
    + (if elementwise && dpu.inPlaceOutputMemory then 0 else out0AlignedSize)

end CmxOperation

/-! ### What is changed and checked -/

/-- One type stands for all that cost the same. -/
def restrictDatatype : DataType → DataType
  | .int8 => .uint8
  | .int4 => .uint4
  | .int2 => .uint2
  | .int1 => .uint1
  | .bfloat16 => .float16
  | .bf8 => .hf8
  | .int16 => .uint16
  | dtype => dtype

namespace VPUTensor

def changeDatatypeSuperficial (t : VPUTensor) (newDatatype : DataType) : VPUTensor :=
  if dtypeToBits newDatatype = dtypeToBits t.dtype then { t with dtype := newDatatype } else t

def setIfSameLayout (t : VPUTensor) (newLayout : Layout) : VPUTensor :=
  if layoutToOrder t.layout = layoutToOrder newLayout then { t with layout := newLayout } else t

end VPUTensor

namespace SanitizerConfig

variable (config : SanitizerConfig)

def sanitizeTensor (t : VPUTensor) : VPUTensor :=
  let t := t.changeDatatypeSuperficial (restrictDatatype t.dtype)
  t.setIfSameLayout (config.adaptDeviceCompatibleTensorLayout t.layout)

/-- What `check_and_sanitize` changes in a workload. -/
def sanitize (wl : DPUWorkload) : DPUWorkload :=
  { wl with
    inputs := config.sanitizeTensor wl.inputs
    outputs := config.sanitizeTensor wl.outputs
    inputSwizzling0 := config.adaptDeviceCompatibleSwizzling wl.inputSwizzling0
    inputSwizzling1 := config.adaptDeviceCompatibleSwizzling wl.inputSwizzling1
    outputSwizzling := config.adaptDeviceCompatibleSwizzling wl.outputSwizzling }

/-- The report on a workload whose operation and engine the device has. -/
def report (wl : DPUWorkload) : ℕ :=
  match CmxOperation.ofDPUWorkload config wl with
  | none => errorInvalidInputOperation
  | some w =>
    if config.getCmxSize wl.device < w.computeMemory config.alignments then errorInputTooBig
    else if checkWorkloadConsistency config.validValues w.toDPUOperation then 0
    else errorInvalidInputConfiguration

/-- `check_and_sanitize` with the tables of the device. -/
def checkAndSanitize (wl : DPUWorkload) : DPUWorkload × ℕ :=
  if wl.op ∉ config.validValues.validOperations then (wl, errorInvalidInputOperation)
  else if wl.mpeEngine ∉ config.validValues.validMpeEngines then
    (wl, errorInvalidInputConfiguration)
  else (config.sanitize wl, config.report (config.sanitize wl))

end SanitizerConfig

/-- `DPU_OperationSanitizer::check_and_sanitize` -/
def checkAndSanitize (configs : List SanitizerConfig) (wl : DPUWorkload) : DPUWorkload × ℕ :=
  match getConfig configs wl.device with
  | none => (wl, errorInvalidInputDevice)
  | some config => config.checkAndSanitize wl

/-! ### What stays the same -/

theorem dtypeToBits_restrictDatatype (dtype : DataType) :
    dtypeToBits (restrictDatatype dtype) = dtypeToBits dtype := by
  cases dtype <;> rfl

theorem restrictDatatype_idem (dtype : DataType) :
    restrictDatatype (restrictDatatype dtype) = restrictDatatype dtype := by
  cases dtype <;> rfl

namespace SanitizerConfig

variable (config : SanitizerConfig)

/-- Every type has as many bits as the one that stands for it, so all types are replaced. -/
theorem sanitizeTensor_eq (t : VPUTensor) :
    config.sanitizeTensor t = VPUTensor.setIfSameLayout { t with dtype := restrictDatatype t.dtype }
      (config.adaptDeviceCompatibleTensorLayout t.layout) := by
  rw [sanitizeTensor, VPUTensor.changeDatatypeSuperficial,
    if_pos (dtypeToBits_restrictDatatype t.dtype)]

theorem dtype_sanitizeTensor (t : VPUTensor) :
    (config.sanitizeTensor t).dtype = restrictDatatype t.dtype := by
  rw [sanitizeTensor_eq, VPUTensor.setIfSameLayout]
  split_ifs <;> rfl

@[simp] theorem shape_sanitizeTensor (t : VPUTensor) :
    (config.sanitizeTensor t).shape = t.shape := by
  rw [sanitizeTensor_eq, VPUTensor.setIfSameLayout]
  split_ifs <;> rfl

/-- A layout that was not adapted has another order than the adapted one, also the next time. -/
theorem sanitizeTensor_idem (t : VPUTensor) :
    config.sanitizeTensor (config.sanitizeTensor t) = config.sanitizeTensor t := by
  have hdtype := config.dtype_sanitizeTensor t
  rw [sanitizeTensor_eq config (config.sanitizeTensor t), hdtype, restrictDatatype_idem, ← hdtype]
  unfold VPUTensor.setIfSameLayout
  split_ifs with horder
  · rw [sanitizeTensor_eq, VPUTensor.setIfSameLayout] at horder ⊢
    split_ifs at horder ⊢ with hfirst
    · rw [config.adaptLayout_idem]
    · exact absurd horder hfirst
  · rfl

theorem sanitize_idem (wl : DPUWorkload) :
    config.sanitize (config.sanitize wl) = config.sanitize wl := by
  simp only [sanitize, sanitizeTensor_idem, config.adaptSwizzling_idem]

theorem checkAndSanitize_of_mem {wl : DPUWorkload}
    (hop : wl.op ∈ config.validValues.validOperations)
    (hengine : wl.mpeEngine ∈ config.validValues.validMpeEngines) :
    config.checkAndSanitize wl = (config.sanitize wl, config.report (config.sanitize wl)) := by
  rw [checkAndSanitize, if_neg (not_not.mpr hop), if_neg (not_not.mpr hengine)]

/-- A workload is refused as it is, or changed and reported on. -/
theorem checkAndSanitize_cases (wl : DPUWorkload) :
    (wl.op ∉ config.validValues.validOperations
        ∧ config.checkAndSanitize wl = (wl, errorInvalidInputOperation))
      ∨ (wl.mpeEngine ∉ config.validValues.validMpeEngines
        ∧ config.checkAndSanitize wl = (wl, errorInvalidInputConfiguration))
      ∨ wl.op ∈ config.validValues.validOperations
        ∧ wl.mpeEngine ∈ config.validValues.validMpeEngines
        ∧ config.checkAndSanitize wl
          = (config.sanitize wl, config.report (config.sanitize wl)) := by
  by_cases hop : wl.op ∈ config.validValues.validOperations
  · by_cases hengine : wl.mpeEngine ∈ config.validValues.validMpeEngines
    · exact .inr (.inr ⟨hop, hengine, config.checkAndSanitize_of_mem hop hengine⟩)
    · refine .inr (.inl ⟨hengine, ?_⟩)
      rw [checkAndSanitize, if_neg (not_not.mpr hop), if_pos hengine]
  · exact .inl ⟨hop, if_pos hop⟩

/-- The sanitized workload is sanitized already, and gets the same report. -/
theorem checkAndSanitize_idem (wl : DPUWorkload) :
    config.checkAndSanitize (config.checkAndSanitize wl).1 = config.checkAndSanitize wl := by
  obtain ⟨-, h⟩ | ⟨-, h⟩ | ⟨hop, hengine, h⟩ := config.checkAndSanitize_cases wl
  · simp only [h]
  · simp only [h]
  · have hagain : config.checkAndSanitize (config.sanitize wl) = _ :=
      config.checkAndSanitize_of_mem hop hengine
    rw [h, hagain, sanitize_idem]

end SanitizerConfig

/-- The changes of the device, or none. -/
theorem checkAndSanitize_fst (configs : List SanitizerConfig) (wl : DPUWorkload) :
    (checkAndSanitize configs wl).1 = wl
      ∨ ∃ config : SanitizerConfig, (checkAndSanitize configs wl).1 = config.sanitize wl := by
  unfold checkAndSanitize
  cases getConfig configs wl.device with
  | none => exact .inl rfl
  | some config =>
    obtain ⟨-, h⟩ | ⟨-, h⟩ | ⟨-, -, h⟩ := config.checkAndSanitize_cases wl
    · exact .inl (congrArg Prod.fst h)
    · exact .inl (congrArg Prod.fst h)
    · exact .inr ⟨config, congrArg Prod.fst h⟩

theorem device_checkAndSanitize (configs : List SanitizerConfig) (wl : DPUWorkload) :
    (checkAndSanitize configs wl).1.device = wl.device := by
  obtain h | ⟨config, h⟩ := checkAndSanitize_fst configs wl
  · rw [h]
  · rw [h]; rfl

theorem checkAndSanitize_idem (configs : List SanitizerConfig) (wl : DPUWorkload) :
    checkAndSanitize configs (checkAndSanitize configs wl).1 = checkAndSanitize configs wl := by
  rw [checkAndSanitize, device_checkAndSanitize]
  cases hconfig : getConfig configs wl.device with
  | none => simp only [checkAndSanitize, hconfig]
  | some config =>
    simp only [checkAndSanitize, hconfig]
    exact config.checkAndSanitize_idem wl

/-! ### What is accepted -/

/-- The device has the operation and the engine, and the workload fits and is consistent. -/
structure SanitizerConfig.Accepts (config : SanitizerConfig) (wl : DPUWorkload) (w : CmxOperation) :
    Prop where
  operation : wl.op ∈ config.validValues.validOperations
  engine : wl.mpeEngine ∈ config.validValues.validMpeEngines
  weights : CmxOperation.ofDPUWorkload config wl = some w
  fits : w.computeMemory config.alignments ≤ config.getCmxSize wl.device
  consistent : checkWorkloadConsistency config.validValues w.toDPUOperation

/-- A convolution keeps all three tensors in the memory. -/
theorem CmxOperation.computeMemory_of_hasWeights (config : MemoryAlignments) {w : CmxOperation}
    (h : w.hasWeights) :
    w.computeMemory config = w.input0AlignedSizeBytes config + w.input1AlignedSizeBytes config
      + w.output0AlignedSizeBytes config := by
  rcases h with hop | hop | hop | hop
  all_goals simp [computeMemory, input1SizeBytes, MemoryOperation.input1AlignedSizeBytes, hop]

/-- Where the sizes are sufficient, an accepted convolution finds room for what it stores. -/
theorem SanitizerConfig.Accepts.required_le {config : SanitizerConfig} {wl : DPUWorkload}
    {w : CmxOperation} (h : config.Accepts wl w) (hweights : w.hasWeights)
    (hs : MemoryOperation.SufficientSizes config.alignments w.toMemoryOperation) :
    w.requiredInput0 + w.requiredInput1 + w.requiredOutput0 ≤ config.getCmxSize wl.device := by
  have hfits := h.fits
  rw [w.computeMemory_of_hasWeights config.alignments hweights] at hfits
  have hinput0 := hs.input0.trans hs.input0_aligned.1.2
  have hinput1 := (hs.input1 hweights).trans hs.input1_aligned.1.2
  have houtput0 := hs.output0.trans hs.output0_aligned.1.2
  omega

/-- Some tables that know its device accept a workload. -/
def Accepted (configs : List SanitizerConfig) (wl : DPUWorkload) : Prop :=
  ∃ config w, getConfig configs wl.device = some config ∧ config.Accepts wl w

theorem SanitizerConfig.report_eq_zero_iff (config : SanitizerConfig) (wl : DPUWorkload) :
    config.report wl = 0 ↔ ∃ w, CmxOperation.ofDPUWorkload config wl = some w
      ∧ w.computeMemory config.alignments ≤ config.getCmxSize wl.device
      ∧ checkWorkloadConsistency config.validValues w.toDPUOperation := by
  unfold report
  cases CmxOperation.ofDPUWorkload config wl with
  | none => simp [errorInvalidInputOperation, maxV]
  | some w =>
    simp only [Option.some.injEq, exists_eq_left']
    split_ifs with hbig hclean
    · simp [errorInputTooBig, maxV, hbig]
    · exact ⟨fun _ => ⟨not_lt.mp hbig, hclean⟩, fun _ => rfl⟩
    · simp [errorInvalidInputConfiguration, maxV, hclean]

/-- Only accepted workloads are reported as usable. -/
theorem checkAndSanitize_snd_eq_zero_iff (configs : List SanitizerConfig) (wl : DPUWorkload) :
    (checkAndSanitize configs wl).2 = 0 ↔ Accepted configs (checkAndSanitize configs wl).1 := by
  unfold Accepted
  rw [device_checkAndSanitize, checkAndSanitize]
  cases getConfig configs wl.device with
  | none => simp [errorInvalidInputDevice, maxV]
  | some config =>
    simp only [Option.some.injEq, exists_and_left, exists_eq_left']
    obtain ⟨hop, h⟩ | ⟨hengine, h⟩ | ⟨hop, hengine, h⟩ := config.checkAndSanitize_cases wl
    · simp only [h]
      exact ⟨fun hzero => absurd hzero (by decide), fun ⟨_, hw⟩ => absurd hw.operation hop⟩
    · simp only [h]
      exact ⟨fun hzero => absurd hzero (by decide), fun ⟨_, hw⟩ => absurd hw.engine hengine⟩
    · simp only [h]
      rw [config.report_eq_zero_iff]
      constructor
      · rintro ⟨w, hw, hfits, hclean⟩
        exact ⟨w, hop, hengine, hw, hfits, hclean⟩
      · rintro ⟨w, hw⟩
        exact ⟨w, hw.weights, hw.fits, hw.consistent⟩

/-- A convolution of `VPU_4_0` whose types and layouts are replaced. -/
example : (checkAndSanitize [.vpu4]
    { device := .vpu_4_0, op := .convolution
      inputs := { shape := ⟨16, 16, 64, 1⟩, dtype := .int8, layout := .zmajor }
      outputs := { shape := ⟨16, 16, 64, 1⟩, dtype := .bfloat16, layout := .zmajor }
      kernels := ⟨3, 3⟩, strides := ⟨1, 1⟩, padding := ⟨1, 1, 1, 1⟩
      executionOrder := .cuboid16x16 }).2 = 0 := by decide +kernel

theorem SanitizerConfig.isErrorCode_report {config : SanitizerConfig} {wl : DPUWorkload}
    (h : config.report wl ≠ 0) : isErrorCode (config.report wl) := by
  revert h
  rw [report]
  rcases CmxOperation.ofDPUWorkload config wl with _ | w
  · intro _
    exact (by decide : isErrorCode errorInvalidInputOperation)
  · simp only
    split_ifs with hbig hclean
    · intro _
      exact (by decide : isErrorCode errorInputTooBig)
    · intro h
      exact absurd rfl h
    · intro _
      exact (by decide : isErrorCode errorInvalidInputConfiguration)

/-- Every problem is an error code. -/
theorem isErrorCode_checkAndSanitize {configs : List SanitizerConfig} {wl : DPUWorkload}
    (h : (checkAndSanitize configs wl).2 ≠ 0) : isErrorCode (checkAndSanitize configs wl).2 := by
  revert h
  unfold checkAndSanitize
  cases getConfig configs wl.device with
  | none => exact fun _ => (by decide : isErrorCode errorInvalidInputDevice)
  | some config =>
    obtain ⟨-, h⟩ | ⟨-, h⟩ | ⟨-, -, h⟩ := config.checkAndSanitize_cases wl
    · simp only [h]
      exact fun _ => by decide
    · simp only [h]
      exact fun _ => by decide
    · simp only [h]
      exact SanitizerConfig.isErrorCode_report

end Vpunn
