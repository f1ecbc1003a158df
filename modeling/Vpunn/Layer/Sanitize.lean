import Vpunn.Types

/-! The changes that are made to a layer before it is checked (`vpu_cost_model.cpp`,
    `LayersValidation::sanitize_preconditions`).

    Swizzlings that a device does not have are replaced, and so are operations that it runs as
    another one. What is changed depends on few members of a layer only, and nothing is left to
    change after the first time. -/

namespace Vpunn
namespace DPUWorkload

def setAllSwizzlings (w : DPUWorkload) (toSet : Swizzling) : DPUWorkload :=
  { w with inputSwizzling0 := toSet, inputSwizzling1 := toSet, outputSwizzling := toSet }

def swizzlingTurnOff (w : DPUWorkload) : DPUWorkload :=
  if VPUDevice.npu_5_0.toNat ≤ w.device.toNat then w.setAllSwizzlings .key0 else w

def avgpoolReplaceBy (w : DPUWorkload) : DPUWorkload :=
  if w.op = .avepool ∧ w.device.toNat < VPUDevice.npu_5_0.toNat then { w with op := .dwConvolution }
  else w

def compressConvReplaceByCmConvVpu27 (w : DPUWorkload) : DPUWorkload :=
  if VPUDevice.vpu_2_7.toNat ≤ w.device.toNat ∧ w.op = .convolution
      ∧ (1 ≤ w.inputs.channels ∧ w.inputs.channels < 16 ∧ ¬ w.isInputAutopad) then
    { w with op := .cmConvolution }
  else w

end DPUWorkload

/-- The devices that the configurations of the layer validator are for. -/
def VPUDevice.isSupported : VPUDevice → Bool
  | .vpu_2_0 | .vpu_2_1 | .vpu_2_7 | .vpu_4_0 | .npu_5_0 | .npu_5_0_w => true
  | _ => false

/-- `adapt_device_comaptible_swizzling`: the oldest devices have one swizzling only. -/
def VPUDevice.adaptSwizzling (device : VPUDevice) (swizz : Swizzling) : Swizzling :=
  match device with
  | .vpu_2_0 | .vpu_2_1 => .key0
  | _ => swizz

namespace DPUWorkload

def sanitizePreconditions (layer : DPULayer) : DPULayer :=
  if layer.device.isSupported then
    { layer with
      inputSwizzling0 := layer.device.adaptSwizzling layer.inputSwizzling0
      inputSwizzling1 := layer.device.adaptSwizzling layer.inputSwizzling1
      outputSwizzling := layer.device.adaptSwizzling layer.outputSwizzling }
  else layer

def operationSanitisation (layer : DPULayer) : DPULayer :=
  layer.avgpoolReplaceBy.compressConvReplaceByCmConvVpu27

/-- All changes, in the order in which they are made. -/
def sanitize (layer : DPULayer) : DPULayer :=
  layer.swizzlingTurnOff.operationSanitisation.sanitizePreconditions

/-! ### What the changes come to -/

/-- The swizzling that is left of one after all changes. -/
def sanitizedSwizzling (device : VPUDevice) (swizz : Swizzling) : Swizzling :=
  if VPUDevice.npu_5_0.toNat ≤ device.toNat then .key0 else device.adaptSwizzling swizz

/-- The operation after all changes. -/
def sanitizedOp (layer : DPULayer) : Operation :=
  layer.operationSanitisation.op

theorem operationSanitisation_eq (layer : DPULayer) :
    layer.operationSanitisation = { layer with op := layer.sanitizedOp } := by
  unfold sanitizedOp operationSanitisation compressConvReplaceByCmConvVpu27 avgpoolReplaceBy
  split_ifs <;> rfl

theorem swizzlingTurnOff_eq (layer : DPULayer) :
    layer.swizzlingTurnOff = { layer with
      inputSwizzling0 := layer.swizzlingTurnOff.inputSwizzling0
      inputSwizzling1 := layer.swizzlingTurnOff.inputSwizzling1
      outputSwizzling := layer.swizzlingTurnOff.outputSwizzling } := by
  unfold swizzlingTurnOff
  split_ifs <;> rfl

theorem sanitizedOp_swizzlingTurnOff (layer : DPULayer) :
    layer.swizzlingTurnOff.sanitizedOp = layer.sanitizedOp := by
  rw [swizzlingTurnOff_eq]
  unfold sanitizedOp operationSanitisation compressConvReplaceByCmConvVpu27 avgpoolReplaceBy
  split_ifs <;> simp_all [isInputAutopad]

theorem sanitize_eq (layer : DPULayer) :
    layer.sanitize = { layer with
      op := layer.sanitizedOp
      inputSwizzling0 := sanitizedSwizzling layer.device layer.inputSwizzling0
      inputSwizzling1 := sanitizedSwizzling layer.device layer.inputSwizzling1
      outputSwizzling := sanitizedSwizzling layer.device layer.outputSwizzling } := by
  rw [sanitize, operationSanitisation_eq, sanitizedOp_swizzlingTurnOff]
  unfold sanitizePreconditions swizzlingTurnOff sanitizedSwizzling
  cases hd : layer.device <;>
    simp [hd, VPUDevice.toNat, VPUDevice.isSupported, VPUDevice.adaptSwizzling, setAllSwizzlings]

theorem sanitizedSwizzling_idem (device : VPUDevice) (swizz : Swizzling) :
    sanitizedSwizzling device (sanitizedSwizzling device swizz)
      = sanitizedSwizzling device swizz := by
  cases device <;> rfl

/-- The members of a layer that the changes depend on. -/
structure SanitizesAlike (tile layer : DPULayer) : Prop where
  device : tile.device = layer.device
  op : tile.op = layer.op
  autopad : tile.inputAutopad = layer.inputAutopad
  channels : layer.op = .convolution → tile.inputs.channels = layer.inputs.channels
  inputSwizzling0 : tile.inputSwizzling0 = layer.inputSwizzling0
  inputSwizzling1 : tile.inputSwizzling1 = layer.inputSwizzling1
  outputSwizzling : tile.outputSwizzling = layer.outputSwizzling

theorem SanitizesAlike.sanitizedOp_eq {tile layer : DPULayer} (h : SanitizesAlike tile layer) :
    tile.sanitizedOp = layer.sanitizedOp := by
  obtain ⟨hdevice, hop, hautopad, hchannels, -, -, -⟩ := h
  unfold sanitizedOp operationSanitisation compressConvReplaceByCmConvVpu27 avgpoolReplaceBy
    isInputAutopad
  by_cases hconv : layer.op = .convolution
  · simp only [hdevice, hop, hautopad, hchannels hconv, hconv, reduceCtorEq, false_and, if_false,
      true_and]
    split_ifs
    · rfl
    · exact hop
  · split_ifs <;> simp_all

theorem sanitizedOp_sanitize (layer : DPULayer) :
    layer.sanitize.sanitizedOp = layer.sanitizedOp := by
  rw [sanitize_eq]
  unfold sanitizedOp operationSanitisation compressConvReplaceByCmConvVpu27 avgpoolReplaceBy
    isInputAutopad
  split_ifs <;> simp_all

/-- A second time there is nothing left to change. -/
theorem sanitize_sanitize (layer : DPULayer) : layer.sanitize.sanitize = layer.sanitize := by
  rw [sanitize_eq layer.sanitize, sanitizedOp_sanitize]
  simp only [sanitize_eq layer, sanitizedSwizzling_idem]

/-- Turning the swizzlings off is no more than the first of the changes. -/
theorem sanitize_swizzlingTurnOff (layer : DPULayer) :
    layer.swizzlingTurnOff.sanitize = layer.sanitize := by
  have hidem : layer.swizzlingTurnOff.swizzlingTurnOff = layer.swizzlingTurnOff := by
    unfold swizzlingTurnOff
    split_ifs with h h'
    · rfl
    · exact absurd h h'
    · rfl
  rw [sanitize, hidem, ← sanitize]

/-- Where there is nothing to change in a layer, there is nothing to change in what agrees with it
    on these members. -/
theorem SanitizesAlike.sanitize_eq_self {tile layer : DPULayer} (h : SanitizesAlike tile layer)
    (hlayer : layer.sanitize = layer) : tile.sanitize = tile := by
  rw [sanitize_eq] at hlayer
  have hop : tile.sanitizedOp = tile.op := by
    rw [h.sanitizedOp_eq, h.op]
    exact (congrArg DPUWorkload.op hlayer :)
  have h0 : sanitizedSwizzling tile.device tile.inputSwizzling0 = tile.inputSwizzling0 := by
    rw [h.device, h.inputSwizzling0]
    exact congrArg DPUWorkload.inputSwizzling0 hlayer
  have h1 : sanitizedSwizzling tile.device tile.inputSwizzling1 = tile.inputSwizzling1 := by
    rw [h.device, h.inputSwizzling1]
    exact congrArg DPUWorkload.inputSwizzling1 hlayer
  have hout : sanitizedSwizzling tile.device tile.outputSwizzling = tile.outputSwizzling := by
    rw [h.device, h.outputSwizzling]
    exact congrArg DPUWorkload.outputSwizzling hlayer
  rw [sanitize_eq, hop, h0, h1, hout]

end DPUWorkload

end Vpunn
