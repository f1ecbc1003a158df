import Vpunn.Lib.Strided
import Vpunn.Tensor

/-! The descriptions of a DMA transfer (`dma_types.h`, `dma_descriptors.h`): by its two tensors
    (`DMAWorkload`), by shapes and byte strides (`VPUDMADescriptor`), and as the hardware takes it
    (`DMANNWorkload_NPU40_50`).

    The arrays of a description have a fixed length and a number of entries in use. They are modelled
    by the list of the entries in use, so that number is the length of the list. -/

namespace Vpunn
open MachineInt Strided

inductive MemoryLocation where
  | dram | cmx | csram | upa | __size
  deriving DecidableEq, Repr

inductive MemoryDirection where
  | ddr2cmx | cmx2cmx | cmx2ddr | ddr2ddr | __size
  deriving DecidableEq, Repr

inductive NumDMAEngine where
  | numEngine1 | numEngine2 | __size
  deriving DecidableEq, Repr

def MemoryLocation.toNat : MemoryLocation → ℕ
  | .dram => 0
  | .cmx => 1
  | .csram => 2
  | .upa => 3
  | .__size => 4

/-- `DataType_ToText`; the terminator has no text. -/
def DataType.toText : DataType → String
  | .uint8 => "UINT8" | .int8 => "INT8" | .float16 => "FLOAT16" | .bfloat16 => "BFLOAT16"
  | .bf8 => "BF8" | .hf8 => "HF8" | .uint4 => "UINT4" | .int4 => "INT4" | .uint2 => "UINT2"
  | .int2 => "INT2" | .uint1 => "UINT1" | .int1 => "INT1" | .int32 => "INT32"
  | .float32 => "FLOAT32" | .uint16 => "UINT16" | .int16 => "INT16" | .float4 => "FLOAT4"
  | .int64 => "INT64" | .uint64 => "UINT64" | .float64 => "FLOAT64" | .uint32 => "UINT32"
  | .__size => ""

/-- `VPU_DMA_MAX_DIMS` -/
def vpuDmaMaxDims : ℕ := 6

/-- Types of whole bytes. -/
def ByteAligned (dtype : DataType) : Prop :=
  0 < dtypeToBits dtype ∧ (dtypeToBits dtype).tmod 8 = 0

instance (dtype : DataType) : Decidable (ByteAligned dtype) := inferInstanceAs (Decidable (_ ∧ _))

/-- The product of two `int32_t`. -/
def mul32 (a b : ℤ) : ℤ := i32 (a * b)

/-! ### Transfers of tensors -/

structure DMAWorkload where
  device : VPUDevice
  input : VPUTensor
  output : VPUTensor
  inputLocation : MemoryLocation
  outputLocation : MemoryLocation
  outputWriteTiles : ℕ := 1
  deriving DecidableEq, Repr

/-! ### Strided descriptors -/

/-- One side of a transfer. A dimension has the `shape` and the `byte_strides` entry as count and
    stride, and the outermost dimension comes first. -/
structure VPUDMATensor where
  dtype : DataType := .uint8
  dims : List (Dim ℤ) := [⟨1, 1⟩]
  layout : Option Layout := none
  deriving DecidableEq, Repr

namespace VPUDMATensor

def numDims (t : VPUDMATensor) : ℕ := t.dims.length

/-- The dimensions in the order in which the queries walk them. -/
def innermostFirst (t : VPUDMATensor) : List (Dim ℤ) := t.dims.reverse

/-- `getAccessedBytes`: the bytes of the innermost dimension, times all other counts. -/
def getAccessedBytes (t : VPUDMATensor) : ℤ :=
  match t.innermostFirst with
  | [] => 0
  | d :: ds => total mul32 (computeSizeInBytes d.count t.dtype) ds

/-- The walk of `getContiguousBytes` from a number of contiguous bytes on. -/
def contiguousBytesFrom : ℤ → List (Dim ℤ) → ℤ
  | contiguousBytes, [] => contiguousBytes
  | contiguousBytes, d :: ds =>
    if d.count = 0 then 0
    else if d.count = 1 then contiguousBytesFrom contiguousBytes ds
    else if d.stride ≠ contiguousBytes then contiguousBytes
    else contiguousBytesFrom (mul32 contiguousBytes d.count) ds

def getContiguousBytes (t : VPUDMATensor) : ℤ :=
  if t.dims = [] then 0
  else if dtypeToBytes t.dtype ≤ 0 then 0
  else contiguousBytesFrom (dtypeToBytes t.dtype) t.innermostFirst

end VPUDMATensor

/-- The ceiling division of `getNumContiguousChunks`, `0` for chunks of no bytes. -/
def numContiguousChunks (totalBytes contiguousBytes : ℤ) : ℤ :=
  if contiguousBytes = 0 then 0
  else (i32 (totalBytes + contiguousBytes - 1)).tdiv contiguousBytes

def VPUDMATensor.getNumContiguousChunks (t : VPUDMATensor) : ℤ :=
  numContiguousChunks t.getAccessedBytes t.getContiguousBytes

structure VPUDMADescriptor where
  device : VPUDevice := .__size
  src : VPUDMATensor := {}
  dst : VPUDMATensor := {}
  srcLocation : MemoryLocation := .cmx
  dstLocation : MemoryLocation := .cmx
  deriving DecidableEq, Repr

namespace VPUDMADescriptor

def getDirection (desc : VPUDMADescriptor) : MemoryDirection :=
  match desc.srcLocation, desc.dstLocation with
  | .dram, .cmx => .ddr2cmx
  | .cmx, .dram => .cmx2ddr
  | .cmx, .cmx => .cmx2cmx
  | .dram, .dram => .ddr2ddr
  | _, _ => .__size

def getReadBytes (desc : VPUDMADescriptor) : ℤ := desc.src.getAccessedBytes

def getWrittenBytes (desc : VPUDMADescriptor) : ℤ := desc.dst.getAccessedBytes

def getContiguousBytesSrc (desc : VPUDMADescriptor) : ℤ := desc.src.getContiguousBytes

def getContiguousBytesDst (desc : VPUDMADescriptor) : ℤ := desc.dst.getContiguousBytes

def getNumContiguousChunksSrc (desc : VPUDMADescriptor) : ℤ := desc.src.getNumContiguousChunks

def getNumContiguousChunksDst (desc : VPUDMADescriptor) : ℤ := desc.dst.getNumContiguousChunks

/-- The data type of one side has to be a multiple of a byte. -/
def checkDtype (side : String) (t : VPUDMATensor) : Except String Unit :=
  let bits := dtypeToBits t.dtype
  if bits ≤ 0 ∨ bits.tmod 8 ≠ 0 then
    .error <| "VPUDMADescriptor: " ++ side ++ " data type '" ++ t.dtype.toText ++ "' has "
      ++ (if bits ≤ 0 then "an unknown" else toString bits)
      ++ " bit width, which is not a byte multiple."
      ++ " DMA strides are byte-granular; only byte-aligned types are supported."
  else .ok ()

/-- The number of dimensions of one side; a list has no negative one. -/
def checkNumDims (side : String) (t : VPUDMATensor) : Except String Unit :=
  if vpuDmaMaxDims < t.numDims then
    .error <| "VPUDMADescriptor: " ++ side ++ ".num_dims (" ++ toString t.numDims
      ++ ") is out of range [0, " ++ toString vpuDmaMaxDims
      ++ "]. Values outside this range cause out-of-bounds array accesses."
  else .ok ()

/-- The first negative shape of one side is an error. -/
def checkShapes (side : String) (t : VPUDMATensor) : Except String Unit :=
  match t.dims.findIdx? (·.count < 0) with
  | some d =>
    .error <| "VPUDMADescriptor: " ++ side ++ ".shape[" ++ toString d ++ "] = "
      ++ toString ((t.dims.map Dim.count).getD d 0)
      ++ " is negative. All active dimension shapes must be >= 0."
  | none => .ok ()

def checkDevice (desc : VPUDMADescriptor) : Except String Unit :=
  if VPUDevice.__size.toNat ≤ desc.device.toNat then
    .error <| "VPUDMADescriptor: device index (" ++ toString desc.device.toNat
      ++ ") is out of range [0, " ++ toString (VPUDevice.__size.toNat - 1)
      ++ "]. Use a valid VPUDevice enumerator, not VPUDevice::__size."
  else .ok ()

def checkDirection (desc : VPUDMADescriptor) : Except String Unit :=
  if desc.getDirection = .__size then
    .error <| "VPUDMADescriptor: the memory-location combination (src_location="
      ++ toString desc.srcLocation.toNat ++ ", dst_location=" ++ toString desc.dstLocation.toNat
      ++ ") does not map to a supported MemoryDirection."
      ++ " Supported combinations: DRAM->CMX, CMX->DRAM, CMX->CMX, DRAM->DRAM."
  else .ok ()

/-- Throws where the descriptor breaks a precondition. -/
def checkDescriptorSanity (desc : VPUDMADescriptor) : Except String Unit := do
  checkDtype "source" desc.src
  checkDtype "destination" desc.dst
  checkDevice desc
  checkNumDims "src" desc.src
  checkNumDims "dst" desc.dst
  checkShapes "src" desc.src
  checkShapes "dst" desc.dst
  checkDirection desc

/-- What one side of an accepted descriptor has. -/
structure SaneSide (t : VPUDMATensor) : Prop where
  byteAligned : ByteAligned t.dtype
  numDims_le : t.numDims ≤ vpuDmaMaxDims
  counts_nonneg : ∀ d ∈ t.dims, 0 ≤ d.count

theorem eq_ok_of_bind {ε α β : Type} {x : Except ε α} {f : α → Except ε β} {b : β}
    (h : x >>= f = .ok b) : ∃ a, x = .ok a ∧ f a = .ok b := by
  cases x with
  | error e => cases h
  | ok a => exact ⟨a, rfl, h⟩

theorem checkDtype_eq_ok_iff {side : String} {t : VPUDMATensor} :
    checkDtype side t = .ok () ↔ ByteAligned t.dtype := by
  simp only [checkDtype, ByteAligned]
  split
  · simp only [reduceCtorEq, false_iff]; omega
  · simp only [true_iff]; omega

theorem checkNumDims_eq_ok_iff {side : String} {t : VPUDMATensor} :
    checkNumDims side t = .ok () ↔ t.numDims ≤ vpuDmaMaxDims := by
  unfold checkNumDims
  split
  · simp only [reduceCtorEq, false_iff]; omega
  · simp only [true_iff]; omega

theorem checkShapes_eq_ok_iff {side : String} {t : VPUDMATensor} :
    checkShapes side t = .ok () ↔ ∀ d ∈ t.dims, 0 ≤ d.count := by
  have hnone : t.dims.findIdx? (·.count < 0) = none ↔ ∀ d ∈ t.dims, 0 ≤ d.count := by
    simp [List.findIdx?_eq_none_iff]
  rw [← hnone]
  unfold checkShapes
  split
  · next hsome => simp [hsome]
  · next hnone => simp [hnone]

theorem checkDirection_eq_ok {desc : VPUDMADescriptor} (h : desc.checkDirection = .ok ()) :
    desc.getDirection ≠ .__size := by
  unfold checkDirection at h
  split at h
  · cases h
  · assumption

/-- Acceptance says that both sides are sane and that the direction is supported. -/
theorem checkDescriptorSanity_eq_ok {desc : VPUDMADescriptor}
    (h : desc.checkDescriptorSanity = .ok ()) :
    SaneSide desc.src ∧ SaneSide desc.dst ∧ desc.getDirection ≠ .__size := by
  obtain ⟨_, hsrcDtype, h⟩ := eq_ok_of_bind h
  obtain ⟨_, hdstDtype, h⟩ := eq_ok_of_bind h
  obtain ⟨_, -, h⟩ := eq_ok_of_bind h
  obtain ⟨_, hsrcRank, h⟩ := eq_ok_of_bind h
  obtain ⟨_, hdstRank, h⟩ := eq_ok_of_bind h
  obtain ⟨_, hsrcShapes, h⟩ := eq_ok_of_bind h
  obtain ⟨_, hdstShapes, h⟩ := eq_ok_of_bind h
  refine ⟨⟨?_, ?_, ?_⟩, ⟨?_, ?_, ?_⟩, checkDirection_eq_ok h⟩
  · exact checkDtype_eq_ok_iff.mp hsrcDtype
  · exact checkNumDims_eq_ok_iff.mp hsrcRank
  · exact checkShapes_eq_ok_iff.mp hsrcShapes
  · exact checkDtype_eq_ok_iff.mp hdstDtype
  · exact checkNumDims_eq_ok_iff.mp hdstRank
  · exact checkShapes_eq_ok_iff.mp hdstShapes

end VPUDMADescriptor

/-! ### Hardware descriptors -/

/-- An extra dimension: distances in bytes, and how often it is repeated after the first time. -/
structure SizeStride where
  srcStride : ℤ := 0
  dstStride : ℤ := 0
  srcDimSize : ℤ := 0
  dstDimSize : ℤ := 0
  deriving DecidableEq, Repr

/-- One side of an extra dimension. -/
structure SideSlot where
  stride : ℤ
  dimSize : ℤ
  deriving DecidableEq, Repr

def SizeStride.src (e : SizeStride) : SideSlot := ⟨e.srcStride, e.srcDimSize⟩

def SizeStride.dst (e : SizeStride) : SideSlot := ⟨e.dstStride, e.dstDimSize⟩

/-- `DMANNWorkload_NPU40_50`: a block of bytes on each side, and the extra dimensions from the
    innermost one outward. -/
structure DMANNWorkloadNPU4050 where
  device : VPUDevice
  srcWidth : ℤ := 0
  dstWidth : ℤ := 0
  eDim : List SizeStride := []
  numEngine : NumDMAEngine := .numEngine1
  transferDirection : MemoryDirection := .cmx2cmx
  locName : String := ""
  profilingServiceBackendHint : ProfilingServiceBackend := .__size
  deriving DecidableEq, Repr

/-- `MaxExtraDimensions` -/
def maxExtraDimensions : ℕ := 5

/-- `getAccessedBytes`, `getWrittenBytes`: the bytes of one side. -/
def sideBytes (width : ℤ) (slots : List SideSlot) : ℤ :=
  slots.foldl (fun bytes e => i32 (bytes * (e.dimSize + 1))) width

/-- `getContiguousBytesSrc`, `getContiguousBytesDst`: the bytes of one side up to the first gap. -/
def sideContiguousBytes : ℤ → List SideSlot → ℤ
  | contiguousBytes, [] => contiguousBytes
  | contiguousBytes, e :: es =>
    if e.dimSize = 0 then sideContiguousBytes contiguousBytes es
    else if e.stride ≠ contiguousBytes then contiguousBytes
    else sideContiguousBytes (i32 (contiguousBytes * (e.dimSize + 1))) es

namespace DMANNWorkloadNPU4050

def getAccessedBytes (wl : DMANNWorkloadNPU4050) : ℤ :=
  sideBytes wl.srcWidth (wl.eDim.map SizeStride.src)

def getReadBytes (wl : DMANNWorkloadNPU4050) : ℤ := wl.getAccessedBytes

def getWrittenBytes (wl : DMANNWorkloadNPU4050) : ℤ :=
  sideBytes wl.dstWidth (wl.eDim.map SizeStride.dst)

def getContiguousBytesSrc (wl : DMANNWorkloadNPU4050) : ℤ :=
  sideContiguousBytes wl.srcWidth (wl.eDim.map SizeStride.src)

def getContiguousBytesDst (wl : DMANNWorkloadNPU4050) : ℤ :=
  sideContiguousBytes wl.dstWidth (wl.eDim.map SizeStride.dst)

def getNumContiguousChunksSrc (wl : DMANNWorkloadNPU4050) : ℤ :=
  numContiguousChunks wl.getAccessedBytes wl.getContiguousBytesSrc

def getNumContiguousChunksDst (wl : DMANNWorkloadNPU4050) : ℤ :=
  numContiguousChunks wl.getWrittenBytes wl.getContiguousBytesDst

def getDirection (wl : DMANNWorkloadNPU4050) : MemoryDirection := wl.transferDirection

end DMANNWorkloadNPU4050

end Vpunn
