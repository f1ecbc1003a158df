import Vpunn.Cycles
import Vpunn.Validation.TensorSizes

/-! The CMX memory of a workload (`dpu_operations_valid_behaviours.h`, `data_dpu_operation.h`,
    `serializable_tensor.h`).

    A size is a `long long` and does not overflow for tensors with less than `2^31` bytes. -/

namespace Vpunn
open MachineInt

/-- The least multiple that is not smaller, for a number that is not negative (`align_to`). -/
def alignTo (x multiple : ℤ) : ℤ :=
  let rem := x.tmod multiple
  if rem = 0 then x else x + (multiple - rem)

/-! ### The operation -/

/-- `compute_dense_input_memory_tensor`: one extent, without what is read from other tiles. -/
def newDimension (crtDimension oneEndHalo otherEndHalo : ℤ) : ℤ :=
  let newDim := crtDimension + i32 (i32 (-oneEndHalo) + i32 (-otherEndHalo))
  if 0 < newDim then newDim else 0

/-- A negative halo cannot forget more than there is. -/
def limitForget (crtDimension halo : ℤ) : ℤ :=
  if halo < 0 ∧ crtDimension ≤ i32 (-halo) then i32 (-i32 crtDimension) else halo

/-- `compute_dense_output_memory_tensor`: one extent, with what the other tiles write here. -/
def newDimensionWithInbound (crtDimension oneEndHalo otherEndHalo : ℤ) : ℤ :=
  let oneEndHalo := limitForget crtDimension oneEndHalo
  let otherEndHalo := limitForget crtDimension otherEndHalo
  let ends : ℤ × ℤ :=
    if oneEndHalo < 0 ∧ otherEndHalo < 0
        ∧ crtDimension ≤ i32 (i32 (-oneEndHalo) + i32 (-otherEndHalo)) then
      (i32 (-i32 crtDimension), 0)
    else (oneEndHalo, otherEndHalo)
  let newDim := crtDimension + ends.1 + ends.2
  if 0 ≤ newDim then newDim else 0

def computeDenseInputMemoryTensor (computeT : TensorInfo) (halo : HaloWorkload) : TensorInfo :=
  let inHalo := halo.input0Halo
  { computeT with
    height := newDimension computeT.height inHalo.top inHalo.bottom
    width := newDimension computeT.width inHalo.left inHalo.right
    channels := newDimension computeT.channels inHalo.front inHalo.back }

def computeDenseOutputMemoryTensor (computeT : TensorInfo) (halo : HaloWorkload) : TensorInfo :=
  let inboundHalo := halo.output0InboundHalo
  { computeT with
    height := newDimensionWithInbound computeT.height inboundHalo.top inboundHalo.bottom
    width := newDimensionWithInbound computeT.width inboundHalo.left inboundHalo.right
    channels := newDimensionWithInbound computeT.channels inboundHalo.front inboundHalo.back }

/-- The members of a `DPUOperation` that only the sizes read. -/
structure MemoryOperation extends DPUOperation where
  input0MemoryDense : TensorInfo
  output0MemoryDense : TensorInfo
  sepActivators : SEPModeInfo := {}
  superdense : Bool := false
  deriving DecidableEq, Repr

/-- The alignments of a device, in bytes. -/
structure MemoryAlignments where
  alignementSizeBytes : ℤ
  outInnermostDimAlignmentB : ℤ
  weigthsAlignmentB : ℤ
  legacySamplesAlignmentWeights : Bool
  alignementSizeBytes_pos : 0 < alignementSizeBytes := by decide
  outInnermostDimAlignmentB_pos : 0 < outInnermostDimAlignmentB := by decide
  weigthsAlignmentB_pos : 0 < weigthsAlignmentB := by decide

namespace MemoryAlignments

def vpu2 : MemoryAlignments where
  alignementSizeBytes := 16384
  outInnermostDimAlignmentB := 1
  weigthsAlignmentB := 16
  legacySamplesAlignmentWeights := false

def vpu2_7 : MemoryAlignments where
  alignementSizeBytes := 16384
  outInnermostDimAlignmentB := 1
  weigthsAlignmentB := 16
  legacySamplesAlignmentWeights := true

def vpu4 : MemoryAlignments where
  alignementSizeBytes := 16384
  outInnermostDimAlignmentB := 1
  weigthsAlignmentB := 32
  legacySamplesAlignmentWeights := true

def vpu5 : MemoryAlignments where
  alignementSizeBytes := 32
  outInnermostDimAlignmentB := 16
  weigthsAlignmentB := 16
  legacySamplesAlignmentWeights := false

end MemoryAlignments

/-- The members that a workload gives; its weights have no shape yet. -/
def MemoryOperation.ofDPUWorkload (w : DPUWorkload) : MemoryOperation :=
  let dpu := DPUOperation.ofDPUWorkload w
  { dpu with
    input0MemoryDense := computeDenseInputMemoryTensor dpu.input0 w.halo
    output0MemoryDense := computeDenseOutputMemoryTensor dpu.output0 w.halo
    sepActivators := w.sepActivators
    superdense := w.superdenseMemory.getD false }

/-! ### The sizes -/

namespace MemoryOperation

/-- `input_0_volume` of the behaviour of an operation: a CM convolution has 4 or 16 channels. -/
def input0Volume (operation : Operation) (w : TensorInfo) : ℤ :=
  if operation = .cmConvolution then
    w.height * w.width * (if w.channels < 5 then 4 else 16) * w.batch
  else w.height * w.width * w.channels * w.batch

def pointerSize : ℤ := 4

/-- One bit for each sample, in whole groups of 16 bytes. -/
def sparsityMapBytes (samples : ℤ) : ℤ := alignTo (samples.tdiv 8) 16

/-- What is in the memory: with storage elements the actual activators. -/
def input0Tensor (dpu : MemoryOperation) : TensorInfo :=
  if dpu.sepActivators.isEnabled then
    { dpu.input0MemoryDense with
      width := dpu.sepActivators.actualActivatorsInput.x
      height := dpu.sepActivators.actualActivatorsInput.y
      channels := dpu.sepActivators.actualActivatorsInput.z
      batch := dpu.sepActivators.actualActivatorsInput.b }
  else dpu.input0MemoryDense

/-- The entries of the table of storage elements, if there is one. -/
def storageElementsTableSamples (dpu : MemoryOperation) : ℤ :=
  if dpu.sepActivators.isEnabled then
    let shape := dpu.sepActivators.storageElementsPointers
    u32 (shape.x * shape.y * shape.z * shape.b)
  else 0

def input0ContiguousSizeBytes (dpu : MemoryOperation) : ℤ :=
  let defaultComputeTensorSamples := input0Volume dpu.operation dpu.input0
  let t := dpu.input0Tensor
  let sepMapBytes :=
    if dpu.sepActivators.isEnabled && !dpu.sepActivators.noSparseMap then
      sparsityMapBytes defaultComputeTensorSamples
    else 0
  let mapBytes :=
    if dpu.input0.sparsityEnabled then sparsityMapBytes defaultComputeTensorSamples
    else sepMapBytes
  t.getTensorInnermostDimB * t.numberOfElementsExcludingInnermost + mapBytes
    + dpu.storageElementsTableSamples * pointerSize

def output0ContiguousSizeBytes (config : MemoryAlignments) (dpu : MemoryOperation) : ℤ :=
  let t := dpu.output0MemoryDense
  let innermostDimSizeB := t.getTensorInnermostDimB
  let alignedInnermostDimSizeB :=
    if dpu.superdense then innermostDimSizeB
    else alignTo innermostDimSizeB config.outInnermostDimAlignmentB
  let mapBytes :=
    if dpu.output0.sparsityEnabled then sparsityMapBytes t.numberOfElements else 0
  alignedInnermostDimSizeB * t.numberOfElementsExcludingInnermost + mapBytes

def getWeightTableSize (out0Channels : ℤ) : ℤ := out0Channels * 16

/-- The bytes of one filter: its innermost extent, aligned where the samples are not. -/
def alignedSizeBOfOneSingleMask (config : MemoryAlignments) (dpu : MemoryOperation) : ℤ :=
  let sizeBOfOneSingleMask := dpu.input1.getTensorInnermostDimB
  if config.legacySamplesAlignmentWeights then sizeBOfOneSingleMask
  else alignTo sizeBOfOneSingleMask config.weigthsAlignmentB

/-- The bytes that are not kept of `size` bytes: both the product and its factor are `float`s. -/
def sparseBytes (size : ℤ) (sparsity : ℚ) : ℤ := ⌊toFloat (toFloat size * sparsity)⌋

/-- For the convolutions: `GenericConvolution_Constraints::input_1_contiguous_size_bytes`. -/
def input1ContiguousSizeBytes (config : MemoryAlignments) (dpu : MemoryOperation) : ℤ :=
  let in1Size := alignedSizeBOfOneSingleMask config dpu * dpu.input1.batch
  let in1Size :=
    if dpu.input1.sparsityEnabled then
      in1Size - sparseBytes in1Size dpu.input1.sparsity
        + dpu.input1.batch * sparsityMapBytes dpu.input1.channels
    else in1Size
  in1Size + getWeightTableSize dpu.output0.channels

def input0AlignedSizeBytes (config : MemoryAlignments) (dpu : MemoryOperation) : ℤ :=
  alignTo dpu.input0ContiguousSizeBytes config.alignementSizeBytes

def input1AlignedSizeBytes (config : MemoryAlignments) (dpu : MemoryOperation) : ℤ :=
  alignTo (dpu.input1ContiguousSizeBytes config) config.alignementSizeBytes

def output0AlignedSizeBytes (config : MemoryAlignments) (dpu : MemoryOperation) : ℤ :=
  alignTo (dpu.output0ContiguousSizeBytes config) config.alignementSizeBytes

/-- The operations that have a `GenericConvolution_Constraints` with its weights. -/
def hasWeights (dpu : MemoryOperation) : Prop :=
  dpu.operation = .convolution ∨ dpu.operation = .dwConvolution ∨ dpu.operation = .cmConvolution
    ∨ dpu.operation = .layerNorm

instance (dpu : MemoryOperation) : Decidable dpu.hasWeights :=
  inferInstanceAs (Decidable (_ ∨ _))

end MemoryOperation

end Vpunn
