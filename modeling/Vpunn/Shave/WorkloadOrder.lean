import Vpunn.Dpu.WorkloadOrder
import Vpunn.Shave.Workload
import Mathlib.Data.String.Basic

/-! The order of SHAVE workloads (`shave_workload.cpp`), which is the key order of their cache.

    It compares the name, the device, the tensors and the parameters of the call. The tensors are
    compared without their layouts, and the extra parameters not at all. -/

namespace Vpunn
open FieldOrder

/-- The position of the alternative in the variant. -/
def ShaveParam.index : ShaveParam → ℕ
  | .int _ => 0
  | .float _ => 1
  | .string _ => 2
  | .bool _ => 3

/-- Variants are ordered by alternative and then by value. -/
def ShaveParam.operatorLt : ShaveParam → ShaveParam → Bool
  | .int a, .int b => decide (a < b)
  | .float a, .float b => decide (a < b)
  | .string a, .string b => decide (a < b)
  | .bool a, .bool b => decide (a < b)
  | a, b => decide (a.index < b.index)

/-- A parameter as a field. -/
def ShaveParam.field : RecordField ShaveParam := ⟨fun a b => decide (a = b), ShaveParam.operatorLt⟩

/-- The tensor as a field whose equality is that of its order. -/
def VPUTensor.orderField : RecordField VPUTensor :=
  ⟨RecordField.allEqual VPUTensor.fields, VPUTensor.operatorLt⟩

namespace SHAVEWorkload

/-- `operator<`, which asks for each member in both directions. -/
def operatorLt (lhs rhs : SHAVEWorkload) : Bool :=
  if lhs.name < rhs.name then true
  else if rhs.name < lhs.name then false
  else if lhs.device.toNat < rhs.device.toNat then true
  else if rhs.device.toNat < lhs.device.toNat then false
  else if RecordField.listLt VPUTensor.orderField lhs.inputs rhs.inputs then true
  else if RecordField.listLt VPUTensor.orderField rhs.inputs lhs.inputs then false
  else if RecordField.listLt VPUTensor.orderField lhs.outputs rhs.outputs then true
  else if RecordField.listLt VPUTensor.orderField rhs.outputs lhs.outputs then false
  else if RecordField.listLt ShaveParam.field lhs.callParams rhs.callParams then true
  else if RecordField.listLt ShaveParam.field rhs.callParams lhs.callParams then false
  else false

/-- The members that the order compares. -/
def fields : List (RecordField SHAVEWorkload) :=
  [.ofKey SHAVEWorkload.name,
    enumField fun w : SHAVEWorkload => w.device.toNat,
    (RecordField.list VPUTensor.orderField).on SHAVEWorkload.inputs,
    (RecordField.list VPUTensor.orderField).on SHAVEWorkload.outputs,
    (RecordField.list ShaveParam.field).on SHAVEWorkload.callParams]

end SHAVEWorkload

/-! ### The order is lawful -/

/-- The variant as a record in which the other alternatives are empty. -/
def ShaveParam.fields : List (RecordField ShaveParam) :=
  [.ofKey ShaveParam.index,
    .ofKey fun p : ShaveParam => match p with | .int v => v | _ => 0,
    .ofKey fun p : ShaveParam => match p with | .float v => v | _ => 0,
    .ofKey fun p : ShaveParam => match p with | .string v => v | _ => "",
    .ofKey fun p : ShaveParam => match p with | .bool v => v | _ => false]

theorem ShaveParam.field_eq : ShaveParam.field = RecordField.chain ShaveParam.fields := by
  have heq : ∀ a b : ShaveParam, decide (a = b) = RecordField.allEqual ShaveParam.fields a b := by
    intro a b
    cases a <;> cases b <;> simp [ShaveParam.fields, ShaveParam.index]
  have hlt : ∀ a b : ShaveParam,
      ShaveParam.operatorLt a b = RecordField.firstDifference ShaveParam.fields a b := by
    intro a b
    cases a <;> cases b <;>
      simp [ShaveParam.fields, ShaveParam.index, ShaveParam.operatorLt,
        RecordField.firstDifference, -String.lt_iff_ltb]
    all_goals exact fun h => ne_of_lt h
  unfold ShaveParam.field RecordField.chain
  congr 1
  · exact funext fun a => funext fun b => heq a b
  · exact funext fun a => funext fun b => hlt a b

theorem ShaveParam.lawful_field : ShaveParam.field.Lawful := by
  rw [ShaveParam.field_eq]
  exact RecordField.lawful_chain (by simp [ShaveParam.fields, RecordField.lawful_ofKey])

theorem VPUTensor.lawful_orderField : VPUTensor.orderField.Lawful := by
  have heq : VPUTensor.orderField = RecordField.chain VPUTensor.fields := by
    unfold VPUTensor.orderField RecordField.chain
    congr 1
    exact funext fun s => funext fun t => VPUTensor.operatorLt_eq s t
  rw [heq]
  exact RecordField.lawful_chain VPUTensor.lawful_fields

namespace SHAVEWorkload

theorem lawful_fields : ∀ f ∈ fields, f.Lawful := by
  have htensors := VPUTensor.lawful_orderField.list
  have hparams := ShaveParam.lawful_field.list
  simp [fields, RecordField.lawful_ofKey, lawful_enumField, htensors.on, hparams.on]

/-- Each question in both directions is one field of the chain. -/
theorem operatorLt_eq (a b : SHAVEWorkload) :
    operatorLt a b = RecordField.firstDifference fields a b := by
  simp only [operatorLt, RecordField.ofKey_ask_both, VPUTensor.lawful_orderField.listLt_ask_both,
    ShaveParam.lawful_field.listLt_ask_both]
  rfl

/-- A workload with only what the order compares. -/
def orderKey (w : SHAVEWorkload) : SHAVEWorkload where
  name := w.name
  device := w.device
  inputs := w.inputs.map fun t => { t with layout := .invalid }
  outputs := w.outputs.map fun t => { t with layout := .invalid }
  callParams := w.callParams

theorem allEqual_fields {a b : SHAVEWorkload} :
    RecordField.allEqual fields a b = true ↔ orderKey a = orderKey b := by
  have htensor : ∀ s t : VPUTensor, VPUTensor.orderField.eq s t = true
      ↔ { s with layout := .invalid } = { t with layout := .invalid } := by
    intro s t
    rw [show VPUTensor.orderField.eq s t = RecordField.allEqual VPUTensor.fields s t from rfl,
      VPUTensor.allEqual_fields]
    cases s; cases t
    simp
  have hparam : ∀ p q : ShaveParam, ShaveParam.field.eq p q = true ↔ id p = id q := by
    simp [ShaveParam.field]
  simp only [fields, enumField, RecordField.allEqual_cons, RecordField.allEqual_nil,
    RecordField.on_eq, RecordField.ofKey_eq, RecordField.list_eq, Bool.and_eq_true,
    decide_eq_true_eq, Bool.and_true, RecordField.listEq_iff_map htensor,
    RecordField.listEq_iff_map hparam, VPUDevice.toNat_inj, orderKey, SHAVEWorkload.mk.injEq,
    List.map_id, and_true]

theorem isStrictWeakOrder : IsStrictWeakOrder SHAVEWorkload fun a b => operatorLt a b = true := by
  simp only [operatorLt_eq]
  exact (RecordField.lawful_chain lawful_fields).isStrictWeakOrder id

/-- Neither of two workloads comes before the other exactly if they agree in what is compared. -/
theorem incomparable_iff {a b : SHAVEWorkload} :
    (¬ operatorLt a b = true ∧ ¬ operatorLt b a = true) ↔ orderKey a = orderKey b := by
  rw [operatorLt_eq, operatorLt_eq, Bool.not_eq_true, Bool.not_eq_true, ← allEqual_fields]
  exact ((RecordField.lawful_chain lawful_fields).eq_iff a b).symm

end SHAVEWorkload

end Vpunn
