import Vpunn.Layer.Axis

/-! The workload as the validators see it (`data_dpu_operation.h`, `serializable_tensor.h`).

    Every extent of a workload is an `unsigned int`, and becomes an `int` here. Of a `DPUOperation`
    only the members are modelled that a check reads. -/

namespace Vpunn
open MachineInt Window

structure TensorInfo where
  height : ℤ := 0
  width : ℤ := 0
  channels : ℤ := 0
  batch : ℤ := 1
  datatype : DataType := .uint8
  layout : Layout := .zxy
  sparsity : ℚ := 0
  sparsityEnabled : Bool := false
  swizzling : Swizzling := .key5
  deriving DecidableEq, Repr

def TensorInfo.ofVPUTensor (t : VPUTensor) : TensorInfo where
  height := i32 t.height
  width := i32 t.width
  channels := i32 t.channels
  batch := i32 t.batches
  datatype := t.dtype
  layout := t.layout
  sparsityEnabled := t.sparsity

structure KernelInfo where
  height : ℤ := 1
  width : ℤ := 1
  padBottom : ℤ := 0
  padLeft : ℤ := 0
  padRight : ℤ := 0
  padTop : ℤ := 0
  strideHeight : ℤ := 1
  strideWidth : ℤ := 1
  deriving DecidableEq, Repr

def KernelInfo.ofDPUWorkload (w : DPUWorkload) : KernelInfo where
  height := i32 w.kernels.h
  width := i32 w.kernels.w
  padBottom := i32 w.padding.bottom
  padLeft := i32 w.padding.left
  padRight := i32 w.padding.right
  padTop := i32 w.padding.top
  strideHeight := i32 w.strides.h
  strideWidth := i32 w.strides.w

structure DPUOperation where
  device : VPUDevice
  operation : Operation
  input0 : TensorInfo
  input1 : TensorInfo
  output0 : TensorInfo
  executionOrder : ExecutionMode
  kernel : KernelInfo
  outputWriteTiles : ℤ := 1
  isiStrategy : ISIStrategy := .clustering
  halo : HaloWorkload := {}
  inputAutopad : Bool := false
  outputAutopad : Bool := false
  mpeEngine : MPEEngine := .scl
  deriving DecidableEq, Repr

namespace DPUOperation

/-- The weights tensor gets its type and sparsity; no check reads its shape. -/
def ofDPUWorkload (w : DPUWorkload) : DPUOperation where
  device := w.device
  operation := w.op
  input0 := { TensorInfo.ofVPUTensor w.inputs with
    swizzling := w.inputSwizzling0, sparsity := w.actSparsity }
  input1 :=
    { datatype := w.weightType.getD w.inputs.dtype
      swizzling := w.inputSwizzling1
      sparsityEnabled := w.weightSparsityEnabled
      sparsity := w.weightSparsity }
  output0 := { TensorInfo.ofVPUTensor w.outputs with swizzling := w.outputSwizzling }
  executionOrder := w.executionOrder
  kernel := .ofDPUWorkload w
  outputWriteTiles := i32 w.outputWriteTiles
  isiStrategy := w.isiStrategy
  halo := w.halo
  inputAutopad := w.isInputAutopad
  outputAutopad := w.isOutputAutopad
  mpeEngine := w.mpeEngine

def setIntendedSplit (w : DPUOperation) (strategy : ISIStrategy) (nTiles : ℕ) : DPUOperation :=
  { w with isiStrategy := strategy, outputWriteTiles := i32 nTiles }

section SetIntendedSplit

variable (w : DPUOperation) (strategy : ISIStrategy) (nTiles : ℕ)

@[simp] theorem input0_setIntendedSplit : (w.setIntendedSplit strategy nTiles).input0 = w.input0 := by
  cases w; rfl

@[simp] theorem output0_setIntendedSplit :
    (w.setIntendedSplit strategy nTiles).output0 = w.output0 := by
  cases w; rfl

@[simp] theorem kernel_setIntendedSplit : (w.setIntendedSplit strategy nTiles).kernel = w.kernel := by
  cases w; rfl

@[simp] theorem operation_setIntendedSplit :
    (w.setIntendedSplit strategy nTiles).operation = w.operation := by
  cases w; rfl

@[simp] theorem outputWriteTiles_setIntendedSplit :
    (w.setIntendedSplit strategy nTiles).outputWriteTiles = i32 nTiles := by
  cases w; rfl

end SetIntendedSplit

end DPUOperation

/-! ### The sizes along one axis -/

/-- The `int` sizes of an operation along one axis. -/
structure AxisInfo where
  inp : ℤ
  k : ℤ
  s : ℤ
  padBegin : ℤ
  padEnd : ℤ
  out : ℤ
  deriving DecidableEq, Repr

def AxisInfo.ofGeometry (g : Geometry) : AxisInfo where
  inp := i32 g.inp
  k := i32 g.k
  s := i32 g.s
  padBegin := i32 g.padBegin
  padEnd := i32 g.padEnd
  out := i32 g.out

def DPUOperation.axisInfo (w : DPUOperation) : Axis → AxisInfo
  | .h => ⟨w.input0.height, w.kernel.height, w.kernel.strideHeight, w.kernel.padTop,
      w.kernel.padBottom, w.output0.height⟩
  | .w => ⟨w.input0.width, w.kernel.width, w.kernel.strideWidth, w.kernel.padLeft,
      w.kernel.padRight, w.output0.width⟩

@[simp] theorem DPUOperation.axisInfo_ofDPUWorkload (w : DPUWorkload) (a : Axis) :
    (ofDPUWorkload w).axisInfo a = .ofGeometry (w.geometry a) := by
  cases a <;> rfl

@[simp] theorem DPUOperation.axisInfo_setIntendedSplit (w : DPUOperation) (strategy : ISIStrategy)
    (nTiles : ℕ) (a : Axis) : (w.setIntendedSplit strategy nTiles).axisInfo a = w.axisInfo a := by
  cases a <;> simp only [axisInfo, input0_setIntendedSplit, output0_setIntendedSplit,
    kernel_setIntendedSplit]

/-- Below `2^31` the conversion loses nothing. -/
theorem AxisInfo.ofGeometry_eq {g : Geometry} (hinp : g.inp < 2147483648) (hk : g.k < 2147483648)
    (hs : g.s < 2147483648) (hb : g.padBegin < 2147483648) (he : g.padEnd < 2147483648)
    (hout : g.out < 2147483648) :
    ofGeometry g = ⟨g.inp, g.k, g.s, g.padBegin, g.padEnd, g.out⟩ := by
  simp only [ofGeometry, i32_natCast, hinp, hk, hs, hb, he, hout]

end Vpunn
