import Mathlib.Data.Rat.Defs
import Mathlib.Data.Nat.Notation

/-! The data model of `dpu_types.h`, `vpu_tensor.h`, `dpu_halo.h`, `sep_mode.h`, `dpu_workload.h`.

    An `unsigned int` is a natural number and an `int` an integer; where the code computes with
    them the reduction modulo `2^32` is written out. A `float` is the rational number it denotes. -/

namespace Vpunn

/-! ### Enumerations -/

inductive VPUDevice where
  | vpu_2_0 | vpu_2_1 | vpu_2_7 | vpu_4_0 | npu_5_0 | npu_5_0_w | npu_reserved | npu_reserved_1
  | __size
  deriving DecidableEq, Repr

/-- The position of a device in the enumeration, which is what the comparisons of devices use. -/
def VPUDevice.toNat : VPUDevice → ℕ
  | .vpu_2_0 => 0
  | .vpu_2_1 => 1
  | .vpu_2_7 => 2
  | .vpu_4_0 => 3
  | .npu_5_0 => 4
  | .npu_5_0_w => 5
  | .npu_reserved => 6
  | .npu_reserved_1 => 7
  | .__size => 8

inductive DataType where
  | uint8 | int8 | float16 | bfloat16 | bf8 | hf8 | uint4 | int4 | uint2 | int2 | uint1 | int1
  | int32 | float32 | uint16 | int16 | float4 | int64 | uint64 | float64 | uint32 | __size
  deriving DecidableEq, Repr

inductive Operation where
  | convolution | dwConvolution | eltwise | maxpool | avepool | cmConvolution | layerNorm
  | eltwiseMul | reduceMs | reduceSumsquares | __size
  deriving DecidableEq, Repr

inductive ActivationFunction where
  | none | relu | lrelu | add | sub | mult | __size
  deriving DecidableEq, Repr

inductive Swizzling where
  | key0 | key1 | key2 | key3 | key4 | key5 | __size
  deriving DecidableEq, Repr

inductive ExecutionMode where
  | vector | matrix | vectorFp16 | cuboid16x16 | cuboid8x16 | cuboid4x16 | dCIM32x128 | dCIM64x128
  | __size
  deriving DecidableEq, Repr

/-- Memory layouts, named from the innermost to the outermost dimension. -/
inductive Layout where
  | zmajor | cmajor | xyz | xzy | yxz | yzx | zxy | zyx | invalid | __size
  deriving DecidableEq, Repr

inductive ISIStrategy where
  | clustering | splitOverH | splitOverK | splitOverKNxtHW | __size
  deriving DecidableEq, Repr

inductive CostSourceHint where
  | auto | nn | profilingService | theoretical | __size
  deriving DecidableEq, Repr

inductive ProfilingServiceBackend where
  | silicon | vpuem | __size
  deriving DecidableEq, Repr

inductive MPEEngine where
  | scl | dcim | __size
  deriving DecidableEq, Repr

/-! ### Tensors -/

/-- Four extents in the order X, Y, Z, B, which is width, height, channels, batches. -/
structure Shape where
  x : ℕ
  y : ℕ
  z : ℕ
  b : ℕ
  deriving DecidableEq, Repr

/-- One side of a workload; the default is the one of the constructor. -/
structure VPUTensor where
  shape : Shape := ⟨1, 1, 1, 1⟩
  dtype : DataType := .uint8
  layout : Layout := .zxy
  sparsity : Bool := false
  deriving DecidableEq, Repr

namespace VPUTensor

def width (t : VPUTensor) : ℕ := t.shape.x
def height (t : VPUTensor) : ℕ := t.shape.y
def channels (t : VPUTensor) : ℕ := t.shape.z
def batches (t : VPUTensor) : ℕ := t.shape.b

def setShape (t : VPUTensor) (s : Shape) : VPUTensor := { t with shape := s }

end VPUTensor

/-! ### Halos and storage elements -/

/-- Halo rows, columns and channels on the six ends of a tensor. -/
structure HaloInfoHWC where
  top : ℤ := 0
  bottom : ℤ := 0
  left : ℤ := 0
  right : ℤ := 0
  front : ℤ := 0
  back : ℤ := 0
  deriving DecidableEq, Repr

def HaloInfoHWC.setVerticalNoHalo (h : HaloInfoHWC) : HaloInfoHWC :=
  { h with top := 0, bottom := 0 }

def HaloInfoHWC.setHorizontalNoHalo (h : HaloInfoHWC) : HaloInfoHWC :=
  { h with left := 0, right := 0 }

structure HaloWorkload where
  input0Halo : HaloInfoHWC := {}
  output0Halo : HaloInfoHWC := {}
  output0HaloBroadcastCnt : HaloInfoHWC := {}
  output0InboundHalo : HaloInfoHWC := {}
  deriving DecidableEq, Repr

def HaloWorkload.setVerticalNoHalo (h : HaloWorkload) : HaloWorkload where
  input0Halo := h.input0Halo.setVerticalNoHalo
  output0Halo := h.output0Halo.setVerticalNoHalo
  output0HaloBroadcastCnt := h.output0HaloBroadcastCnt.setVerticalNoHalo
  output0InboundHalo := h.output0InboundHalo.setVerticalNoHalo

def HaloWorkload.setHorizontalNoHalo (h : HaloWorkload) : HaloWorkload where
  input0Halo := h.input0Halo.setHorizontalNoHalo
  output0Halo := h.output0Halo.setHorizontalNoHalo
  output0HaloBroadcastCnt := h.output0HaloBroadcastCnt.setHorizontalNoHalo
  output0InboundHalo := h.output0InboundHalo.setHorizontalNoHalo

/-- Storage-element pointers: the table's shape and the shape of the tensor behind it. -/
structure SEPModeInfo where
  sepActivators : Bool := false
  storageElementsPointers : Shape := ⟨0, 0, 0, 0⟩
  actualActivatorsInput : Shape := ⟨0, 0, 0, 0⟩
  noSparseMap : Bool := false
  deriving DecidableEq, Repr

def SEPModeInfo.isEnabled (s : SEPModeInfo) : Bool := s.sepActivators

/-! ### Workloads -/

/-- A value for the width and one for the height (`Dim::Grid`). -/
structure GridWH where
  w : ℕ
  h : ℕ
  deriving DecidableEq, Repr

/-- Padding rows and columns (`Dim::Padding`). -/
structure Padding where
  top : ℕ := 0
  bottom : ℕ := 0
  left : ℕ := 0
  right : ℕ := 0
  deriving DecidableEq, Repr

/-- `DPUWorkload`. The arrays `inputs` and `outputs` have one element each. -/
structure DPUWorkload where
  device : VPUDevice
  op : Operation
  inputs : VPUTensor
  outputs : VPUTensor
  kernels : GridWH
  strides : GridWH
  padding : Padding
  executionOrder : ExecutionMode
  activationFunction : ActivationFunction := .none
  actSparsity : ℚ := 0
  weightSparsity : ℚ := 0
  inputSwizzling0 : Swizzling := .key5
  inputSwizzling1 : Swizzling := .key5
  outputSwizzling : Swizzling := .key5
  outputWriteTiles : ℕ := 1
  offsets : Shape := ⟨0, 0, 0, 0⟩
  isiStrategy : ISIStrategy := .clustering
  weightSparsityEnabled : Bool := false
  halo : HaloWorkload := {}
  sepActivators : SEPModeInfo := {}
  weightType : Option DataType := none
  layerInfo : String := ""
  weightlessOperation : Option Bool := none
  inPlaceOutputMemory : Option Bool := none
  superdenseMemory : Option Bool := none
  inputAutopad : Option Bool := none
  outputAutopad : Option Bool := none
  costSourceHint : CostSourceHint := .auto
  profilingServiceBackendHint : ProfilingServiceBackend := .__size
  mpeEngine : MPEEngine := .scl
  reduceMinmaxOp : Bool := false
  deriving DecidableEq, Repr

/-- `DPULayer` adds methods to `DPUWorkload`, and only the name of a compiler pass as data. -/
abbrev DPULayer := DPUWorkload

namespace DPUWorkload

def isInputAutopad (w : DPUWorkload) : Bool := w.inputAutopad.getD false

def isOutputAutopad (w : DPUWorkload) : Bool := w.outputAutopad.getD false

end DPUWorkload

end Vpunn
