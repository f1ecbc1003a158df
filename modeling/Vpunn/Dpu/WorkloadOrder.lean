import Vpunn.Lib.FieldOrder
import Vpunn.Cycles
import Vpunn.Types

/-! Equality and order of DPU workloads (`dpu_workload.cpp`, `vpu_tensor.h`, `dpu_halo.h`,
    `sep_mode.h`).

    `operator==` and `operator<` are two lists of fields. They differ in the text of the layer, which
    only the first reads, in the layouts of the tensors, which the order asks for but then does not
    compare, and in the sparsities, which only the first compares with a tolerance. -/

namespace Vpunn
open FieldOrder

/-! ### Fields -/

/-- A field of an enumeration, which is ordered by position. -/
def enumField {α : Type*} (position : α → ℕ) : RecordField α := .ofKey position

/-- The key of an optional value: nothing comes before every value. -/
def optionalKey : Option ℕ → ℕ
  | none => 0
  | some n => n + 1

theorem optionalKey_inj {x y : Option ℕ} : optionalKey x = optionalKey y ↔ x = y := by
  cases x <;> cases y <;> simp [optionalKey]

/-- The fields of an array of four extents, from the first to the last. -/
def Shape.fields : List (RecordField Shape) :=
  [.ofKey Shape.x, .ofKey Shape.y, .ofKey Shape.z, .ofKey Shape.b]

def GridWH.fields : List (RecordField GridWH) := [.ofKey GridWH.w, .ofKey GridWH.h]

/-- The array of paddings is in the order TOP, BOTTOM, LEFT, RIGHT. -/
def Padding.fields : List (RecordField Padding) :=
  [.ofKey Padding.top, .ofKey Padding.bottom, .ofKey Padding.left, .ofKey Padding.right]

/-- The fields of the base `HaloInfoHW` come first. -/
def HaloInfoHWC.fields : List (RecordField HaloInfoHWC) :=
  [.ofKey HaloInfoHWC.top, .ofKey HaloInfoHWC.bottom, .ofKey HaloInfoHWC.left,
    .ofKey HaloInfoHWC.right, .ofKey HaloInfoHWC.front, .ofKey HaloInfoHWC.back]

def HaloWorkload.fields : List (RecordField HaloWorkload) :=
  [(RecordField.chain HaloInfoHWC.fields).on HaloWorkload.input0Halo,
    (RecordField.chain HaloInfoHWC.fields).on HaloWorkload.output0Halo,
    (RecordField.chain HaloInfoHWC.fields).on HaloWorkload.output0HaloBroadcastCnt,
    (RecordField.chain HaloInfoHWC.fields).on HaloWorkload.output0InboundHalo]

def SEPModeInfo.fields : List (RecordField SEPModeInfo) :=
  [.ofKey SEPModeInfo.sepActivators,
    (RecordField.chain Shape.fields).on SEPModeInfo.storageElementsPointers,
    (RecordField.chain Shape.fields).on SEPModeInfo.actualActivatorsInput,
    .ofKey SEPModeInfo.noSparseMap]

namespace VPUTensor

/-- What `operator<` of a tensor compares. -/
def fields : List (RecordField VPUTensor) :=
  [(RecordField.chain Shape.fields).on VPUTensor.shape,
    enumField fun t : VPUTensor => t.dtype.ctorIdx,
    .ofKey VPUTensor.sparsity]

/-- `operator<`, which asks for each field in both directions. -/
def operatorLt (lhs rhs : VPUTensor) : Bool :=
  if RecordField.firstDifference Shape.fields lhs.shape rhs.shape then true
  else if RecordField.firstDifference Shape.fields rhs.shape lhs.shape then false
  else if lhs.dtype.ctorIdx < rhs.dtype.ctorIdx then true
  else if rhs.dtype.ctorIdx < lhs.dtype.ctorIdx then false
  else if lhs.sparsity < rhs.sparsity then true
  else if rhs.sparsity < lhs.sparsity then false
  else false

/-- A tensor as a field of a workload: `operator==` compares the layout too. -/
def field : RecordField VPUTensor := ⟨fun a b => decide (a = b), operatorLt⟩

end VPUTensor

namespace DPUWorkload

/-- `EPSILON`, the `float` nearest to `0.00001` -/
def epsilon : ℚ := toFloat (1 / 100000)

/-- Two sparsities are equal up to `EPSILON`. -/
def isEqual (a b : ℚ) : Bool := toFloat |a - b| < epsilon

def operatorEq (a b : DPUWorkload) : Bool :=
  a.device = b.device && a.op = b.op && a.inputs = b.inputs && a.outputs = b.outputs
    && a.kernels = b.kernels && a.strides = b.strides && a.padding = b.padding
    && a.executionOrder = b.executionOrder && a.activationFunction = b.activationFunction
    && isEqual a.actSparsity b.actSparsity && isEqual a.weightSparsity b.weightSparsity
    && (a.inputSwizzling0 = b.inputSwizzling0 && a.inputSwizzling1 = b.inputSwizzling1)
    && a.outputSwizzling = b.outputSwizzling && a.outputWriteTiles = b.outputWriteTiles
    && a.isiStrategy = b.isiStrategy && a.weightSparsityEnabled = b.weightSparsityEnabled
    && a.halo = b.halo && a.sepActivators = b.sepActivators && a.weightType = b.weightType
    && a.layerInfo = b.layerInfo && a.weightlessOperation = b.weightlessOperation
    && a.inPlaceOutputMemory = b.inPlaceOutputMemory && a.superdenseMemory = b.superdenseMemory
    && a.inputAutopad = b.inputAutopad && a.outputAutopad = b.outputAutopad
    && a.mpeEngine = b.mpeEngine && a.reduceMinmaxOp = b.reduceMinmaxOp

/-- The fields that the order compares after the tensors. -/
def fieldsAfterTensors : List (RecordField DPUWorkload) :=
  [(RecordField.chain GridWH.fields).on DPUWorkload.kernels,
    (RecordField.chain GridWH.fields).on DPUWorkload.strides,
    (RecordField.chain Padding.fields).on DPUWorkload.padding,
    enumField fun w : DPUWorkload => w.executionOrder.ctorIdx,
    enumField fun w : DPUWorkload => w.activationFunction.ctorIdx,
    .ofKey DPUWorkload.actSparsity,
    .ofKey DPUWorkload.weightSparsity,
    .chain [enumField fun w : DPUWorkload => w.inputSwizzling0.ctorIdx,
      enumField fun w : DPUWorkload => w.inputSwizzling1.ctorIdx],
    enumField fun w : DPUWorkload => w.outputSwizzling.ctorIdx,
    .ofKey DPUWorkload.outputWriteTiles,
    enumField fun w : DPUWorkload => w.isiStrategy.ctorIdx,
    .ofKey DPUWorkload.weightSparsityEnabled,
    (RecordField.chain HaloWorkload.fields).on DPUWorkload.halo,
    (RecordField.chain SEPModeInfo.fields).on DPUWorkload.sepActivators,
    .ofKey fun w : DPUWorkload => optionalKey (w.weightType.map DataType.ctorIdx),
    .ofKey fun w : DPUWorkload => optionalKey (w.weightlessOperation.map Bool.toNat),
    .ofKey fun w : DPUWorkload => optionalKey (w.inPlaceOutputMemory.map Bool.toNat),
    .ofKey fun w : DPUWorkload => optionalKey (w.superdenseMemory.map Bool.toNat),
    .ofKey fun w : DPUWorkload => optionalKey (w.inputAutopad.map Bool.toNat),
    .ofKey fun w : DPUWorkload => optionalKey (w.outputAutopad.map Bool.toNat),
    enumField fun w : DPUWorkload => w.mpeEngine.ctorIdx,
    .ofKey DPUWorkload.reduceMinmaxOp]

/-- The fields in the order in which the first different one decides. -/
def fields : List (RecordField DPUWorkload) :=
  (enumField fun w : DPUWorkload => w.device.toNat)
    :: (enumField fun w : DPUWorkload => w.op.ctorIdx)
    :: VPUTensor.field.on DPUWorkload.inputs :: VPUTensor.field.on DPUWorkload.outputs
    :: fieldsAfterTensors

def operatorLt (a b : DPUWorkload) : Bool := RecordField.firstDifference fields a b

end DPUWorkload

/-! ### Each part is ordered lawfully -/

theorem VPUDevice.toNat_inj {a b : VPUDevice} : a.toNat = b.toNat ↔ a = b := by
  cases a <;> cases b <;> simp [VPUDevice.toNat]

/-! The position of an enumerator determines it. -/

theorem DataType.ctorIdx_inj {a b : DataType} : a.ctorIdx = b.ctorIdx ↔ a = b :=
  (Function.LeftInverse.injective DataType.ofNat_ctorIdx).eq_iff

theorem Operation.ctorIdx_inj {a b : Operation} : a.ctorIdx = b.ctorIdx ↔ a = b :=
  (Function.LeftInverse.injective Operation.ofNat_ctorIdx).eq_iff

theorem ActivationFunction.ctorIdx_inj {a b : ActivationFunction} :
    a.ctorIdx = b.ctorIdx ↔ a = b :=
  (Function.LeftInverse.injective ActivationFunction.ofNat_ctorIdx).eq_iff

theorem Swizzling.ctorIdx_inj {a b : Swizzling} : a.ctorIdx = b.ctorIdx ↔ a = b :=
  (Function.LeftInverse.injective Swizzling.ofNat_ctorIdx).eq_iff

theorem ExecutionMode.ctorIdx_inj {a b : ExecutionMode} : a.ctorIdx = b.ctorIdx ↔ a = b :=
  (Function.LeftInverse.injective ExecutionMode.ofNat_ctorIdx).eq_iff

theorem ISIStrategy.ctorIdx_inj {a b : ISIStrategy} : a.ctorIdx = b.ctorIdx ↔ a = b :=
  (Function.LeftInverse.injective ISIStrategy.ofNat_ctorIdx).eq_iff

theorem MPEEngine.ctorIdx_inj {a b : MPEEngine} : a.ctorIdx = b.ctorIdx ↔ a = b :=
  (Function.LeftInverse.injective MPEEngine.ofNat_ctorIdx).eq_iff

theorem map_position_inj {α : Type*} {position : α → ℕ} (h : Function.Injective position)
    {x y : Option α} : x.map position = y.map position ↔ x = y :=
  (Option.map_injective h).eq_iff

theorem lawful_enumField {α : Type*} (position : α → ℕ) : (enumField position).Lawful :=
  RecordField.lawful_ofKey position

theorem Shape.lawful_fields : ∀ f ∈ Shape.fields, f.Lawful := by
  simp [Shape.fields, RecordField.lawful_ofKey]

theorem GridWH.lawful_fields : ∀ f ∈ GridWH.fields, f.Lawful := by
  simp [GridWH.fields, RecordField.lawful_ofKey]

theorem Padding.lawful_fields : ∀ f ∈ Padding.fields, f.Lawful := by
  simp [Padding.fields, RecordField.lawful_ofKey]

theorem HaloInfoHWC.lawful_fields : ∀ f ∈ HaloInfoHWC.fields, f.Lawful := by
  simp [HaloInfoHWC.fields, RecordField.lawful_ofKey]

theorem HaloWorkload.lawful_fields : ∀ f ∈ HaloWorkload.fields, f.Lawful := by
  have h := RecordField.lawful_chain HaloInfoHWC.lawful_fields
  simp [HaloWorkload.fields, h.on]

theorem SEPModeInfo.lawful_fields : ∀ f ∈ SEPModeInfo.fields, f.Lawful := by
  have h := RecordField.lawful_chain Shape.lawful_fields
  simp [SEPModeInfo.fields, RecordField.lawful_ofKey, h.on]

theorem VPUTensor.lawful_fields : ∀ f ∈ VPUTensor.fields, f.Lawful := by
  have h := RecordField.lawful_chain Shape.lawful_fields
  simp [VPUTensor.fields, RecordField.lawful_ofKey, lawful_enumField, h.on]

theorem DPUWorkload.lawful_fieldsAfterTensors :
    ∀ f ∈ DPUWorkload.fieldsAfterTensors, f.Lawful := by
  have hgrid := RecordField.lawful_chain GridWH.lawful_fields
  have hpadding := RecordField.lawful_chain Padding.lawful_fields
  have hhalo := RecordField.lawful_chain HaloWorkload.lawful_fields
  have hsep := RecordField.lawful_chain SEPModeInfo.lawful_fields
  have hswizzling : (RecordField.chain [enumField fun w : DPUWorkload => w.inputSwizzling0.ctorIdx,
      enumField fun w : DPUWorkload => w.inputSwizzling1.ctorIdx]).Lawful :=
    RecordField.lawful_chain (by simp [lawful_enumField])
  simp [DPUWorkload.fieldsAfterTensors, RecordField.lawful_ofKey, lawful_enumField, hgrid.on,
    hpadding.on, hhalo.on, hsep.on, hswizzling]

/-! ### Equality of the fields is equality of the parts -/

theorem Shape.allEqual_fields {s t : Shape} :
    RecordField.allEqual Shape.fields s t = true ↔ s = t := by
  cases s; cases t
  simp [Shape.fields]

theorem GridWH.allEqual_fields {s t : GridWH} :
    RecordField.allEqual GridWH.fields s t = true ↔ s = t := by
  cases s; cases t
  simp [GridWH.fields]

theorem Padding.allEqual_fields {s t : Padding} :
    RecordField.allEqual Padding.fields s t = true ↔ s = t := by
  cases s; cases t
  simp [Padding.fields]

theorem HaloInfoHWC.allEqual_fields {s t : HaloInfoHWC} :
    RecordField.allEqual HaloInfoHWC.fields s t = true ↔ s = t := by
  cases s; cases t
  simp [HaloInfoHWC.fields]

theorem HaloWorkload.allEqual_fields {s t : HaloWorkload} :
    RecordField.allEqual HaloWorkload.fields s t = true ↔ s = t := by
  cases s; cases t
  simp [HaloWorkload.fields, HaloInfoHWC.allEqual_fields]

theorem SEPModeInfo.allEqual_fields {s t : SEPModeInfo} :
    RecordField.allEqual SEPModeInfo.fields s t = true ↔ s = t := by
  cases s; cases t
  simp [SEPModeInfo.fields, Shape.allEqual_fields]

/-- The order of tensors reads everything but the layout. -/
theorem VPUTensor.allEqual_fields {s t : VPUTensor} :
    RecordField.allEqual VPUTensor.fields s t = true ↔ s = { t with layout := s.layout } := by
  cases s; cases t
  simp [VPUTensor.fields, enumField, Shape.allEqual_fields, DataType.ctorIdx_inj]

namespace DPUWorkload

/-! ### Where the two comparisons differ -/

/-- Everything agrees that both comparisons read exactly. -/
def AgreeBeside (a b : DPUWorkload) : Prop :=
  { a with
    actSparsity := b.actSparsity
    weightSparsity := b.weightSparsity
    layerInfo := b.layerInfo
    offsets := b.offsets
    costSourceHint := b.costSourceHint
    profilingServiceBackendHint := b.profilingServiceBackendHint } = b

instance (a b : DPUWorkload) : Decidable (AgreeBeside a b) := inferInstanceAs (Decidable (_ = _))

/-- Two tensors differ, but only in the order of their dimensions in memory. -/
def DifferInLayout (s t : VPUTensor) : Prop :=
  s.layout ≠ t.layout ∧ s = { t with layout := s.layout }

/-- The first difference of two workloads is the layout of a tensor. -/
def LayoutDecides (a b : DPUWorkload) : Prop :=
  a.device = b.device ∧ a.op = b.op
    ∧ (DifferInLayout a.inputs b.inputs
      ∨ a.inputs = b.inputs ∧ DifferInLayout a.outputs b.outputs)

/-- The order takes two workloads for the same exactly when the equality does. -/
structure SameForBoth (a b : DPUWorkload) : Prop where
  noLayout : ¬ LayoutDecides a b
  noLayerInfo : AgreeBeside a b → a.actSparsity = b.actSparsity →
    a.weightSparsity = b.weightSparsity → a.layerInfo = b.layerInfo
  noTolerance : AgreeBeside a b → a.layerInfo = b.layerInfo →
    isEqual a.actSparsity b.actSparsity = true →
    isEqual a.weightSparsity b.weightSparsity = true →
    a.actSparsity = b.actSparsity ∧ a.weightSparsity = b.weightSparsity

theorem isEqual_self (a : ℚ) : isEqual a a = true := by
  have h : |a - a| = 0 := by rw [sub_self, abs_zero]
  rw [isEqual, h]
  decide +kernel

theorem operatorEq_iff (a b : DPUWorkload) :
    operatorEq a b = true ↔ AgreeBeside a b ∧ isEqual a.actSparsity b.actSparsity = true
      ∧ isEqual a.weightSparsity b.weightSparsity = true ∧ a.layerInfo = b.layerInfo := by
  cases a; cases b
  simp only [operatorEq, AgreeBeside, Bool.and_eq_true, decide_eq_true_eq, mk.injEq]
  tauto

/-- The fields of the order without the question for the layouts. -/
def fieldsNoLayout : List (RecordField DPUWorkload) :=
  (enumField fun w : DPUWorkload => w.device.toNat)
    :: (enumField fun w : DPUWorkload => w.op.ctorIdx)
    :: (RecordField.chain VPUTensor.fields).on DPUWorkload.inputs
    :: (RecordField.chain VPUTensor.fields).on DPUWorkload.outputs
    :: fieldsAfterTensors

theorem lawful_fieldsNoLayout : (RecordField.chain fieldsNoLayout).Lawful := by
  have htensor := RecordField.lawful_chain VPUTensor.lawful_fields
  refine RecordField.lawful_chain fun f hf => ?_
  simp only [fieldsNoLayout, List.mem_cons] at hf
  rcases hf with rfl | rfl | rfl | rfl | hf
  · exact lawful_enumField _
  · exact lawful_enumField _
  · exact htensor.on _
  · exact htensor.on _
  · exact lawful_fieldsAfterTensors f hf

/-- Besides the layouts, the order compares everything that `operator==` does but the text. -/
theorem allEqual_fieldsNoLayout {a b : DPUWorkload} :
    RecordField.allEqual fieldsNoLayout a b = true ↔
      a.device = b.device ∧ a.op = b.op
        ∧ a.inputs = { b.inputs with layout := a.inputs.layout }
        ∧ a.outputs = { b.outputs with layout := a.outputs.layout }
        ∧ a.actSparsity = b.actSparsity ∧ a.weightSparsity = b.weightSparsity
        ∧ AgreeBeside { a with inputs := b.inputs, outputs := b.outputs } b := by
  have hweight : Function.Injective DataType.ctorIdx := fun _ _ => DataType.ctorIdx_inj.mp
  have hbool : Function.Injective Bool.toNat := by decide
  cases a; cases b
  simp only [fieldsNoLayout, fieldsAfterTensors, RecordField.allEqual_cons,
    RecordField.allEqual_nil, enumField,
    RecordField.chain_eq, RecordField.on_eq, RecordField.ofKey_eq,
    VPUTensor.allEqual_fields, GridWH.allEqual_fields, Padding.allEqual_fields,
    HaloWorkload.allEqual_fields, SEPModeInfo.allEqual_fields, Bool.and_eq_true,
    decide_eq_true_eq, Bool.and_true, VPUDevice.toNat_inj, Operation.ctorIdx_inj,
    ExecutionMode.ctorIdx_inj, ActivationFunction.ctorIdx_inj, Swizzling.ctorIdx_inj,
    ISIStrategy.ctorIdx_inj, MPEEngine.ctorIdx_inj, optionalKey_inj, map_position_inj hweight,
    map_position_inj hbool, AgreeBeside, mk.injEq]
  tauto

end DPUWorkload

/-- Asking for each field in both directions is the order of the first different field. -/
theorem VPUTensor.operatorLt_eq (s t : VPUTensor) :
    s.operatorLt t = RecordField.firstDifference VPUTensor.fields s t := by
  have hshape := (RecordField.lawful_chain Shape.lawful_fields).ask_both s.shape t.shape
  have hdtype := (RecordField.lawful_ofKey DataType.ctorIdx).ask_both s.dtype t.dtype
  have hsparsity := (RecordField.lawful_ofKey VPUTensor.sparsity).ask_both s t
  simp only [RecordField.ofKey, decide_eq_true_eq] at hdtype hsparsity
  rw [operatorLt, hsparsity, hdtype]
  exact hshape _

/-- Tensors that differ in the layout alone are not ordered. -/
theorem VPUTensor.operatorLt_of_differInLayout {s t : VPUTensor}
    (h : DPUWorkload.DifferInLayout s t) : s.operatorLt t = false := by
  rw [operatorLt_eq]
  exact RecordField.firstDifference_of_allEqual (allEqual_fields.mpr h.2)

namespace DPUWorkload

theorem DifferInLayout.symm {s t : VPUTensor} (h : DifferInLayout s t) : DifferInLayout t s :=
  ⟨h.1.symm, by rw [h.2]⟩

theorem LayoutDecides.symm {a b : DPUWorkload} (h : LayoutDecides a b) : LayoutDecides b a := by
  obtain ⟨hdevice, hop, hin | ⟨hin, hout⟩⟩ := h
  · exact ⟨hdevice.symm, hop.symm, .inl hin.symm⟩
  · exact ⟨hdevice.symm, hop.symm, .inr ⟨hin.symm, hout.symm⟩⟩

/-- The layout is asked for, found different, and then not compared. -/
theorem operatorLt_of_layoutDecides {a b : DPUWorkload} (h : LayoutDecides a b) :
    operatorLt a b = false := by
  obtain ⟨hdevice, hop, hlayout⟩ := h
  rw [operatorLt, fields,
    RecordField.firstDifference_cons_of_eq _ (by simp [enumField, hdevice]),
    RecordField.firstDifference_cons_of_eq _ (by simp [enumField, hop])]
  rcases hlayout with hin | ⟨hin, hout⟩
  · have hne : a.inputs ≠ b.inputs := fun heq => hin.1 (by rw [heq])
    rw [RecordField.firstDifference_cons_of_ne _
      (by simp [VPUTensor.field, hne])]
    exact VPUTensor.operatorLt_of_differInLayout hin
  · have hne : a.outputs ≠ b.outputs := fun heq => hout.1 (by rw [heq])
    rw [RecordField.firstDifference_cons_of_eq _
        (by simp [VPUTensor.field, hin]),
      RecordField.firstDifference_cons_of_ne _
        (by simp [VPUTensor.field, hne])]
    exact VPUTensor.operatorLt_of_differInLayout hout

/-- One tensor of the chain, when its layout does not decide. -/
theorem firstDifference_tensor {get : DPUWorkload → VPUTensor}
    (fs gs : List (RecordField DPUWorkload)) {a b : DPUWorkload} (h : ¬ DifferInLayout (get a) (get b))
    (htail : get a = get b →
      RecordField.firstDifference fs a b = RecordField.firstDifference gs a b) :
    RecordField.firstDifference (VPUTensor.field.on get :: fs) a b
      = RecordField.firstDifference ((RecordField.chain VPUTensor.fields).on get :: gs) a b := by
  by_cases heq : get a = get b
  · rw [RecordField.firstDifference_cons_of_eq _ (by simp [VPUTensor.field, heq]),
      RecordField.firstDifference_cons_of_eq _
        (VPUTensor.allEqual_fields.mpr (by rw [heq])), htail heq]
  · have hne : RecordField.allEqual VPUTensor.fields (get a) (get b) = false := by
      rw [← Bool.not_eq_true, VPUTensor.allEqual_fields]
      refine fun hfields => h ⟨fun hlayout => heq ?_, hfields⟩
      rw [hfields, hlayout]
    rw [RecordField.firstDifference_cons_of_ne _ (by simp [VPUTensor.field, heq]),
      RecordField.firstDifference_cons_of_ne _ hne]
    exact VPUTensor.operatorLt_eq (get a) (get b)

theorem operatorLt_eq {a b : DPUWorkload} (h : ¬ LayoutDecides a b) :
    operatorLt a b = RecordField.firstDifference fieldsNoLayout a b := by
  refine RecordField.firstDifference_cons_congr fun hdevice => ?_
  refine RecordField.firstDifference_cons_congr fun hop => ?_
  have hdevice : a.device = b.device := VPUDevice.toNat_inj.mp (by simpa [enumField] using hdevice)
  have hop : a.op = b.op := Operation.ctorIdx_inj.mp (by simpa [enumField] using hop)
  refine firstDifference_tensor _ _ (fun hin => h ⟨hdevice, hop, .inl hin⟩) fun hin => ?_
  exact firstDifference_tensor _ _ (fun hout => h ⟨hdevice, hop, .inr ⟨hin, hout⟩⟩) fun _ => rfl

/-- When no layout decides, the pairs without an order are those that agree in all compared fields. -/
theorem incomparable_iff {a b : DPUWorkload} (h : ¬ LayoutDecides a b) :
    (¬ operatorLt a b = true ∧ ¬ operatorLt b a = true) ↔
      AgreeBeside a b ∧ a.actSparsity = b.actSparsity ∧ a.weightSparsity = b.weightSparsity := by
  rw [operatorLt_eq h, operatorLt_eq fun h' => h h'.symm, Bool.not_eq_true, Bool.not_eq_true]
  refine (lawful_fieldsNoLayout.eq_iff a b).symm.trans (allEqual_fieldsNoLayout.trans ?_)
  constructor
  · rintro ⟨hdevice, hop, hin, hout, hact, hweight, hagree⟩
    have hinputs : a.inputs = b.inputs := by
      by_contra hne
      refine h ⟨hdevice, hop, .inl ⟨fun hlayout => hne ?_, hin⟩⟩
      rw [hin, hlayout]
    have houtputs : a.outputs = b.outputs := by
      by_contra hne
      refine h ⟨hdevice, hop, .inr ⟨hinputs, fun hlayout => hne ?_, hout⟩⟩
      rw [hout, hlayout]
    refine ⟨?_, hact, hweight⟩
    rw [← hinputs, ← houtputs] at hagree
    exact hagree
  · rintro ⟨hagree, hact, hweight⟩
    cases a; cases b
    simp only [AgreeBeside, mk.injEq] at hagree hact hweight ⊢
    simp [hagree, hact, hweight]

/-- On a set of workloads, `operator<` is a strict weak order whose equivalence is `operator==`
    exactly when no two of them differ first in a layout, only in the text, or only in sparsities
    within the tolerance. -/
theorem operatorLt_keyOrder_iff (S : Set DPUWorkload) :
    (IsStrictWeakOrder S (fun a b => operatorLt a b = true)
      ∧ ∀ a b : S, (¬ operatorLt a b = true ∧ ¬ operatorLt b a = true) ↔ operatorEq a b = true)
    ↔ ∀ a ∈ S, ∀ b ∈ S, SameForBoth a b := by
  constructor
  · rintro ⟨-, hsame⟩ a ha b hb
    have hab := hsame ⟨a, ha⟩ ⟨b, hb⟩
    simp only at hab
    have hlayout : ¬ LayoutDecides a b := by
      intro h
      obtain ⟨hagree, -⟩ := (operatorEq_iff a b).mp
        (hab.mp ⟨by simp [operatorLt_of_layoutDecides h],
          by simp [operatorLt_of_layoutDecides h.symm]⟩)
      cases a; cases b
      simp only [AgreeBeside, mk.injEq] at hagree
      simp only [LayoutDecides, DifferInLayout] at h
      simp [hagree] at h
    rw [incomparable_iff hlayout, operatorEq_iff] at hab
    refine ⟨hlayout, fun hagree hact hweight => ?_, fun hagree hinfo hact hweight => ?_⟩
    · exact (hab.mp ⟨hagree, hact, hweight⟩).2.2.2
    · exact (hab.mpr ⟨hagree, hact, hweight, hinfo⟩).2
  · intro hsame
    have hlt : (fun a b : S => operatorLt a b = true)
        = fun a b : S => RecordField.firstDifference fieldsNoLayout (a : DPUWorkload) b = true := by
      funext a b
      rw [operatorLt_eq (hsame a a.2 b b.2).noLayout]
    refine ⟨hlt ▸ lawful_fieldsNoLayout.isStrictWeakOrder Subtype.val, fun a b => ?_⟩
    obtain ⟨hlayout, hinfo, htolerance⟩ := hsame a a.2 b b.2
    rw [incomparable_iff hlayout, operatorEq_iff]
    constructor
    · rintro ⟨hagree, hact, hweight⟩
      refine ⟨hagree, ?_, ?_, hinfo hagree hact hweight⟩
      · rw [hact]; exact isEqual_self _
      · rw [hweight]; exact isEqual_self _
    · rintro ⟨hagree, hact, hweight, hlayerInfo⟩
      exact ⟨hagree, htolerance hagree hlayerInfo hact hweight⟩

/-- Two workloads whose inputs differ in the layout alone are not ordered and not equal. -/
theorem operatorLt_not_keyOrder :
    ¬ (IsStrictWeakOrder DPUWorkload (fun a b => operatorLt a b = true)
      ∧ ∀ a b, (¬ operatorLt a b = true ∧ ¬ operatorLt b a = true) ↔ operatorEq a b = true) := by
  rintro ⟨-, h⟩
  have hpair := h
    { device := .vpu_2_7, op := .convolution, inputs := { layout := .zxy }, outputs := {},
      kernels := ⟨1, 1⟩, strides := ⟨1, 1⟩, padding := {}, executionOrder := .cuboid16x16 }
    { device := .vpu_2_7, op := .convolution, inputs := { layout := .xyz }, outputs := {},
      kernels := ⟨1, 1⟩, strides := ⟨1, 1⟩, padding := {}, executionOrder := .cuboid16x16 }
  exact absurd (hpair.mp ⟨by decide, by decide⟩) (by decide)

end DPUWorkload

end Vpunn
