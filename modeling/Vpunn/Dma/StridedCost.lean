import Vpunn.Dma.Transformer

/-! The strided cost of a DMA transfer (`DMAStridedMathModel`).

    Both descriptions of a transfer go through the same template, which reads nothing but the size
    queries, the device and the direction. The floating-point steps of the model are its parameters. -/

namespace Vpunn
open MachineInt

/-- What the cost model asks a description of a transfer. -/
structure TransferQueries where
  device : VPUDevice
  direction : MemoryDirection
  readBytes : ℤ
  writtenBytes : ℤ
  contiguousBytesSrc : ℤ
  contiguousBytesDst : ℤ
  deriving DecidableEq, Repr

def VPUDMADescriptor.queries (desc : VPUDMADescriptor) : TransferQueries where
  device := desc.device
  direction := desc.getDirection
  readBytes := desc.getReadBytes
  writtenBytes := desc.getWrittenBytes
  contiguousBytesSrc := desc.getContiguousBytesSrc
  contiguousBytesDst := desc.getContiguousBytesDst

def DMANNWorkloadNPU4050.queries (wl : DMANNWorkloadNPU4050) : TransferQueries where
  device := wl.device
  direction := wl.getDirection
  readBytes := wl.getReadBytes
  writtenBytes := wl.getWrittenBytes
  contiguousBytesSrc := wl.getContiguousBytesSrc
  contiguousBytesDst := wl.getContiguousBytesDst

/-- The `unsigned long long` that an `int` converts to. -/
def u64 (x : ℤ) : ℕ := (x % 18446744073709551616).toNat

/-- `DMAStrideLUTFallback::threshold_bytes` -/
def fallbackThresholdBytes (direction : MemoryDirection) (isSource : Bool) : ℤ :=
  if isSource then if direction = .ddr2cmx ∨ direction = .ddr2ddr then 256 else 64
  else if direction = .cmx2ddr ∨ direction = .ddr2ddr then 256 else 64

/-- The thresholds for source and destination in `get_modeling_function_map`. -/
def modelingThresholds (device : VPUDevice) (direction : MemoryDirection) : Option (ℤ × ℤ) :=
  match device, direction with
  | .npu_5_0, .ddr2cmx | .npu_5_0_w, .ddr2cmx => some (256, 64)
  | .npu_5_0, .cmx2ddr | .npu_5_0_w, .cmx2ddr => some (64, 256)
  | .npu_5_0, .cmx2cmx | .npu_5_0_w, .cmx2cmx => some (64, 64)
  | .npu_5_0, .ddr2ddr | .npu_5_0_w, .ddr2ddr => some (256, 256)
  | _, _ => none

def getStrideThresholdBytes (device : VPUDevice) (direction : MemoryDirection) (isSource : Bool) :
    ℤ :=
  match modelingThresholds device direction with
  | none => fallbackThresholdBytes direction isSource
  | some thresholds => if isSource then thresholds.1 else thresholds.2

def isStridePenaltyEnabled (device : VPUDevice) : Bool :=
  device = .npu_5_0 || device = .npu_5_0_w

/-- The floating-point steps of the model, over a type of penalty factors. -/
structure DMAStridedMathModel (Factor : Type) where
  queryDmaCostBySize : ℕ → VPUDevice → MemoryDirection → ℕ
  noPenalty : Factor
  getPenaltyFactorForStrideDma : ℤ → ℤ → Factor
  applyPenaltyFactor : ℕ → Factor → ℕ
  toDpuCycles : VPUDevice → ℕ → ℕ

namespace DMAStridedMathModel

variable {Factor : Type} (model : DMAStridedMathModel Factor)

/-- A penalty is due where the device has one and the access is strided. -/
def computeCyclesWithStridePenalty (contiguousBytes totalBytes : ℤ) (device : VPUDevice)
    (direction : MemoryDirection) (isSource : Bool) : ℕ :=
  let thresholdBytes := getStrideThresholdBytes device direction isSource
  let penaltyFactor :=
    if isStridePenaltyEnabled device ∧ contiguousBytes < totalBytes then
      model.getPenaltyFactorForStrideDma contiguousBytes thresholdBytes
    else model.noPenalty
  model.applyPenaltyFactor (model.queryDmaCostBySize (u64 totalBytes) device direction)
    penaltyFactor

def computeSrcCycles (q : TransferQueries) : ℕ :=
  model.computeCyclesWithStridePenalty q.contiguousBytesSrc q.readBytes q.device q.direction true

def computeDstCycles (q : TransferQueries) : ℕ :=
  model.computeCyclesWithStridePenalty q.contiguousBytesDst q.writtenBytes q.device q.direction
    false

/-- The slower side determines the time. -/
def dmaStridedCycles (q : TransferQueries) : ℕ :=
  model.toDpuCycles q.device (max (model.computeSrcCycles q) (model.computeDstCycles q))

end DMAStridedMathModel

/-- Two descriptions of one transfer: no query tells them apart, so the cost does not either. -/
structure SameTransfer (desc : VPUDMADescriptor) (wl : DMANNWorkloadNPU4050) : Prop where
  readBytes : wl.getReadBytes = desc.getReadBytes
  writtenBytes : wl.getWrittenBytes = desc.getWrittenBytes
  contiguousBytesSrc : wl.getContiguousBytesSrc = desc.getContiguousBytesSrc
  contiguousBytesDst : wl.getContiguousBytesDst = desc.getContiguousBytesDst
  numContiguousChunksSrc : wl.getNumContiguousChunksSrc = desc.getNumContiguousChunksSrc
  numContiguousChunksDst : wl.getNumContiguousChunksDst = desc.getNumContiguousChunksDst
  direction : wl.getDirection = desc.getDirection
  cost : ∀ (Factor : Type) (model : DMAStridedMathModel Factor),
    model.dmaStridedCycles wl.queries = model.dmaStridedCycles desc.queries

/-- The byte counts, the device and the direction decide all queries. -/
theorem SameTransfer.of_bytes {desc : VPUDMADescriptor} {wl : DMANNWorkloadNPU4050}
    (hdevice : wl.device = desc.device) (hdirection : wl.getDirection = desc.getDirection)
    (hread : wl.getReadBytes = desc.getReadBytes)
    (hwritten : wl.getWrittenBytes = desc.getWrittenBytes)
    (hsrc : wl.getContiguousBytesSrc = desc.getContiguousBytesSrc)
    (hdst : wl.getContiguousBytesDst = desc.getContiguousBytesDst) : SameTransfer desc wl where
  readBytes := hread
  writtenBytes := hwritten
  contiguousBytesSrc := hsrc
  contiguousBytesDst := hdst
  numContiguousChunksSrc := congrArg₂ numContiguousChunks hread hsrc
  numContiguousChunksDst := congrArg₂ numContiguousChunks hwritten hdst
  direction := hdirection
  cost := by
    have hqueries : wl.queries = desc.queries := by
      unfold DMANNWorkloadNPU4050.queries VPUDMADescriptor.queries
      rw [hdevice, hdirection, hread, hwritten, hsrc, hdst]
    intro Factor model
    rw [hqueries]

end Vpunn
