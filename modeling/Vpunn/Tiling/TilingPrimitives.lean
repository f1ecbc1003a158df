import Vpunn.Layer.Axis

/-! What the tiling algorithms share (`tiling_primitives.cpp`, `tiler.cpp`, `dpu_types_info.h`). -/

namespace Vpunn
open MachineInt

/-- `mpe_mode_to_grid` -/
def mpeModeToGrid : ExecutionMode → Shape
  | .vector => ⟨16, 1, 16, 1⟩
  | .vectorFp16 => ⟨4, 1, 16, 1⟩
  | _ => ⟨4, 4, 16, 1⟩

@[simp] theorem mpeModeToGrid_z (mode : ExecutionMode) : (mpeModeToGrid mode).z = 16 := by
  cases mode <;> rfl

/-- A split of a layer: its workloads, and their cycles once they are known. -/
structure DPUWorkloadsWithCyclesSplit where
  cycles : List ℕ := []
  workloads : List DPUWorkload := []
  deriving DecidableEq, Repr

/-- Appends one workload, with `NO_ERROR` for its cycles. -/
def DPUWorkloadsWithCyclesSplit.emplaceBack (split : DPUWorkloadsWithCyclesSplit)
    (wl : DPUWorkload) : DPUWorkloadsWithCyclesSplit where
  cycles := split.cycles ++ [0]
  workloads := split.workloads ++ [wl]

/-- `is_dwconv_family_operation` -/
def Operation.isDwconvFamilyOperation (op : Operation) : Bool :=
  op = .dwConvolution || op = .avepool || op = .maxpool

/-! ### Parts of a workload that the algorithms set -/

namespace DPUWorkload

/-- Another input, and the halo that goes with it. -/
def setInput (wl : DPUWorkload) (input : VPUTensor) (input0Halo : HaloInfoHWC) : DPUWorkload :=
  { wl with inputs := input, halo := { wl.halo with input0Halo := input0Halo } }

def setExecutionOrder (wl : DPUWorkload) (mode : ExecutionMode) : DPUWorkload :=
  { wl with executionOrder := mode }

def setHalo (wl : DPUWorkload) (halo : HaloWorkload) : DPUWorkload := { wl with halo := halo }

section

variable (wl : DPUWorkload) (input : VPUTensor) (halo : HaloInfoHWC) (halo' : HaloWorkload)
  (mode : ExecutionMode)

@[simp] theorem inputs_setInput : (wl.setInput input halo).inputs = input := rfl

@[simp] theorem outputs_setInput : (wl.setInput input halo).outputs = wl.outputs := rfl

@[simp] theorem offsets_setInput : (wl.setInput input halo).offsets = wl.offsets := rfl

@[simp] theorem halo_setInput :
    (wl.setInput input halo).halo = { wl.halo with input0Halo := halo } := rfl

@[simp] theorem outputs_setExecutionOrder : (wl.setExecutionOrder mode).outputs = wl.outputs := rfl

@[simp] theorem offsets_setExecutionOrder : (wl.setExecutionOrder mode).offsets = wl.offsets := rfl

@[simp] theorem halo_setExecutionOrder : (wl.setExecutionOrder mode).halo = wl.halo := rfl

@[simp] theorem outputs_setHalo : (wl.setHalo halo').outputs = wl.outputs := rfl

@[simp] theorem offsets_setHalo : (wl.setHalo halo').offsets = wl.offsets := rfl

@[simp] theorem halo_setHalo : (wl.setHalo halo').halo = halo' := rfl

end

end DPUWorkload

namespace TilingPrimitives

/-- The layer with another output shape; its input does not fit yet. -/
def createIncompleteTile (layer : DPULayer) (newShape offsets : Shape) : DPUWorkload :=
  { layer with outputs := layer.outputs.setShape newShape, offsets := offsets }

def requireMaxZTile (layer : DPULayer) : Bool :=
  VPUDevice.vpu_2_7.toNat ≤ layer.device.toNat && layer.op.isDwconvFamilyOperation

/-- The sanitary limitation of one side of the input halo. -/
def limitHalo (halo : ℤ) (size : ℕ) : ℤ := if i32 size < halo then i32 size else halo

/-- The input halo, limited to the size of the input. -/
def limitInputHalo (halo : HaloInfoHWC) (input : Shape) : HaloInfoHWC where
  top := limitHalo halo.top input.y
  bottom := limitHalo halo.bottom input.y
  left := limitHalo halo.left input.x
  right := limitHalo halo.right input.x
  front := limitHalo halo.front input.z
  back := limitHalo halo.back input.z

/-- The shape of the input that the output of a workload needs. -/
def inputShape (wl : DPUWorkload) : Shape where
  x := helperInputDim wl.outputs.width wl.kernels.w (wl.padding.left + wl.padding.right)
    wl.strides.w
  y := helperInputDim wl.outputs.height wl.kernels.h (wl.padding.top + wl.padding.bottom)
    wl.strides.h
  z := if wl.op = .convolution ∨ wl.op = .cmConvolution ∨ wl.isOutputAutopad then
      wl.inputs.channels
    else wl.outputs.channels
  b := wl.outputs.batches

def inferInputTensorShape (wl : DPUWorkload) (originalLayer : DPULayer) : DPUWorkload :=
  wl.setInput (originalLayer.inputs.setShape (inputShape wl))
    (limitInputHalo wl.halo.input0Halo (inputShape wl))

/-- A tile of some channels. The channels of the other tiles of the layer are inbound halo for it. -/
def createTileZ (layer : DPULayer) (channels offsetChannels : ℕ) : DPUWorkload :=
  let wl := createIncompleteTile layer
    ⟨layer.outputs.width, layer.outputs.height, channels, 1⟩ ⟨0, 0, offsetChannels, 0⟩
  let inbound := layer.halo.output0InboundHalo
  let remaining := i32 (layer.outputs.channels - channels - offsetChannels)
  wl.setHalo { wl.halo with
    output0InboundHalo := { inbound with
      front := i32 (inbound.front + offsetChannels)
      back := i32 (inbound.back + remaining) } }

section

variable (wl : DPUWorkload) (layer : DPULayer)

@[simp] theorem outputs_inferInputTensorShape :
    (inferInputTensorShape wl layer).outputs = wl.outputs :=
  DPUWorkload.outputs_setInput ..

@[simp] theorem offsets_inferInputTensorShape :
    (inferInputTensorShape wl layer).offsets = wl.offsets :=
  DPUWorkload.offsets_setInput ..

@[simp] theorem halo_inferInputTensorShape : (inferInputTensorShape wl layer).halo
    = { wl.halo with input0Halo := limitInputHalo wl.halo.input0Halo (inputShape wl) } :=
  DPUWorkload.halo_setInput ..

end

section CreateTileZ

variable {layer : DPULayer} {channels offsetChannels : ℕ}

@[simp] theorem outputs_createTileZ : (createTileZ layer channels offsetChannels).outputs
    = layer.outputs.setShape ⟨layer.outputs.width, layer.outputs.height, channels, 1⟩ :=
  DPUWorkload.outputs_setHalo ..

@[simp] theorem offsets_createTileZ :
    (createTileZ layer channels offsetChannels).offsets = ⟨0, 0, offsetChannels, 0⟩ :=
  DPUWorkload.offsets_setHalo ..

theorem halo_createTileZ : (createTileZ layer channels offsetChannels).halo
    = { layer.halo with output0InboundHalo := { layer.halo.output0InboundHalo with
        front := i32 (layer.halo.output0InboundHalo.front + offsetChannels)
        back := i32 (layer.halo.output0InboundHalo.back
          + i32 (layer.outputs.channels - channels - offsetChannels)) } } :=
  DPUWorkload.halo_setHalo ..

end CreateTileZ

/-! ### Inbound halos of a tile -/

/-- What a tile does not produce itself is inbound halo for it: the total is the layer's, in the
    integers of the code. -/
theorem inboundHalo_modEq (begin finish total size offset : ℤ) :
    i32 (begin + offset) + size + i32 (finish + i32 (total - size - offset))
      ≡ begin + total + finish [ZMOD 4294967296] := by
  have hfinish := (i32_modEq (finish + i32 (total - size - offset))).trans
    ((i32_modEq (total - size - offset)).add_left finish)
  calc i32 (begin + offset) + size + i32 (finish + i32 (total - size - offset))
      ≡ (begin + offset) + size + (finish + (total - size - offset)) [ZMOD 4294967296] :=
        ((i32_modEq (begin + offset)).add_right size).add hfinish
    _ = begin + total + finish := by ring

/-- The total is exact where the halos of the layer leave room for its size. -/
theorem inboundHalo_eq {begin finish : ℤ} {total size offset : ℕ} (hle : offset + size ≤ total)
    (hbegin : InI32 begin) (hbegin' : InI32 (begin + total)) (hfinish : InI32 finish)
    (hfinish' : InI32 (finish + total)) :
    i32 (begin + offset) + size + i32 (finish + i32 (total - size - offset))
      = begin + total + finish := by
  unfold InI32 at hbegin hbegin' hfinish hfinish'
  have hb : i32 (begin + offset) = begin + offset := i32_of_bounds (by omega) (by omega)
  have hmod : i32 (finish + i32 (total - size - offset)) = i32 (finish + (total - size - offset)) :=
    i32_eq_iff.mpr ((i32_modEq _).add_left _)
  have hf : i32 (finish + (total - size - offset)) = finish + (total - size - offset) :=
    i32_of_bounds (by omega) (by omega)
  rw [hb, hmod, hf]
  ring

end TilingPrimitives

/-- `ITilerAlgorithm::setWorkloadsModeAndInfereInputShape` -/
def setWorkloadsModeAndInfereInputShape (split : DPUWorkloadsWithCyclesSplit)
    (mode : ExecutionMode) (originalLayer : DPULayer) : DPUWorkloadsWithCyclesSplit :=
  { split with
    workloads := split.workloads.map fun wl =>
      TilingPrimitives.inferInputTensorShape (wl.setExecutionOrder mode) originalLayer }

end Vpunn
