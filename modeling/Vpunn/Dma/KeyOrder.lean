import Vpunn.Dma.Types
import Vpunn.Lib.FieldOrder
import Vpunn.Lib.Fnv
import Vpunn.Dpu.WorkloadOrder
import Mathlib.Data.String.Basic

/-! Equality, order and hash of the transfers that are costed (`dma_workload.cpp`).

    Here a transfer has all five slots for extra dimensions, those that `num_dim` leaves unused
    included. `operator==` and `hash` read the slots in use; `operator<` reads all of them and the name
    of the location. -/

namespace Vpunn
open FieldOrder MachineInt

/-- `DMANNWorkload_NPU40_50` with all that it stores. -/
structure DMANNRecordNPU4050 where
  device : VPUDevice
  srcWidth : ℤ := 0
  dstWidth : ℤ := 0
  numDim : ℤ := 0
  eDim : Vector SizeStride 5 := Vector.replicate 5 ⟨0, 0, 0, 0⟩
  numEngine : NumDMAEngine := .numEngine1
  transferDirection : MemoryDirection := .cmx2cmx
  locName : String := ""
  profilingServiceBackendHint : ProfilingServiceBackend := .__size
  deriving DecidableEq, Repr

/-- `std::tie` of the members of a slot. -/
def SizeStride.fields : List (RecordField SizeStride) :=
  [.ofKey SizeStride.srcStride, .ofKey SizeStride.dstStride, .ofKey SizeStride.srcDimSize,
    .ofKey SizeStride.dstDimSize]

def SizeStride.hashWords (e : SizeStride) : List ℤ :=
  [e.srcStride, e.dstStride, e.srcDimSize, e.dstDimSize]

namespace DMANNRecordNPU4050

/-- The slots that are in use, which are the first `num_dim` ones. -/
def slotsInUse (w : DMANNRecordNPU4050) : List SizeStride := w.eDim.toList.take w.numDim.toNat

/-- The transfer that a record describes. -/
def toWorkload (w : DMANNRecordNPU4050) : DMANNWorkloadNPU4050 where
  device := w.device
  srcWidth := w.srcWidth
  dstWidth := w.dstWidth
  eDim := w.slotsInUse
  numEngine := w.numEngine
  transferDirection := w.transferDirection
  locName := w.locName
  profilingServiceBackendHint := w.profilingServiceBackendHint

/-- The loop over the slots from `i` on. A slot beyond the array has no value. -/
def slotsEqual (a b : DMANNRecordNPU4050) : ℕ → ℕ → Option Bool
  | 0, _ => some true
  | n + 1, i => do
    let x ← a.eDim[i]?
    let y ← b.eDim[i]?
    if x ≠ y then some false else slotsEqual a b n (i + 1)

def operatorEq (a b : DMANNRecordNPU4050) : Option Bool :=
  if a.device ≠ b.device ∨ a.srcWidth ≠ b.srcWidth ∨ a.dstWidth ≠ b.dstWidth ∨ a.numDim ≠ b.numDim
      ∨ a.numEngine ≠ b.numEngine ∨ a.transferDirection ≠ b.transferDirection then
    some false
  else slotsEqual a b a.numDim.toNat 0

/-- `std::tie` of the members; the array of the slots is compared slot by slot. -/
def fields : List (RecordField DMANNRecordNPU4050) :=
  [enumField fun w : DMANNRecordNPU4050 => w.device.toNat,
    .ofKey DMANNRecordNPU4050.srcWidth,
    .ofKey DMANNRecordNPU4050.dstWidth,
    .ofKey DMANNRecordNPU4050.numDim,
    (RecordField.chain SizeStride.fields).on fun w : DMANNRecordNPU4050 => w.eDim[0],
    (RecordField.chain SizeStride.fields).on fun w : DMANNRecordNPU4050 => w.eDim[1],
    (RecordField.chain SizeStride.fields).on fun w : DMANNRecordNPU4050 => w.eDim[2],
    (RecordField.chain SizeStride.fields).on fun w : DMANNRecordNPU4050 => w.eDim[3],
    (RecordField.chain SizeStride.fields).on fun w : DMANNRecordNPU4050 => w.eDim[4],
    enumField fun w : DMANNRecordNPU4050 => w.numEngine.ctorIdx,
    enumField fun w : DMANNRecordNPU4050 => w.transferDirection.ctorIdx,
    .ofKey DMANNRecordNPU4050.locName]

def operatorLt (a b : DMANNRecordNPU4050) : Bool := RecordField.firstDifference fields a b

/-- The words of the slots from `i` on. -/
def slotWords (w : DMANNRecordNPU4050) : ℕ → ℕ → Option (List ℤ)
  | 0, _ => some []
  | n + 1, i => do
    let e ← w.eDim[i]?
    let rest ← slotWords w n (i + 1)
    some (e.hashWords ++ rest)

def hash (w : DMANNRecordNPU4050) : Option ℕ := do
  let slots ← slotWords w w.numDim.toNat 0
  some (Fnv.words Fnv.offsetBasis
    (([(w.device.toNat : ℤ), w.srcWidth, w.dstWidth, w.numDim] ++ slots
      ++ [(w.numEngine.ctorIdx : ℤ), w.transferDirection.ctorIdx]).map u32))

end DMANNRecordNPU4050

/-! ### The order -/

theorem NumDMAEngine.ctorIdx_inj {a b : NumDMAEngine} : a.ctorIdx = b.ctorIdx ↔ a = b :=
  (Function.LeftInverse.injective NumDMAEngine.ofNat_ctorIdx).eq_iff

theorem MemoryDirection.ctorIdx_inj {a b : MemoryDirection} : a.ctorIdx = b.ctorIdx ↔ a = b :=
  (Function.LeftInverse.injective MemoryDirection.ofNat_ctorIdx).eq_iff

theorem SizeStride.lawful_fields : ∀ f ∈ SizeStride.fields, f.Lawful := by
  simp [SizeStride.fields, RecordField.lawful_ofKey]

theorem SizeStride.allEqual_fields {s t : SizeStride} :
    RecordField.allEqual SizeStride.fields s t = true ↔ s = t := by
  cases s; cases t
  simp [SizeStride.fields]

namespace DMANNRecordNPU4050

theorem lawful_fields : (RecordField.chain fields).Lawful := by
  have h := RecordField.lawful_chain SizeStride.lawful_fields
  refine RecordField.lawful_chain ?_
  simp [fields, RecordField.lawful_ofKey, lawful_enumField, h.on]

/-- All that is stored, besides the hint for the profiling service. -/
def SameStored (a b : DMANNRecordNPU4050) : Prop :=
  a.device = b.device ∧ a.srcWidth = b.srcWidth ∧ a.dstWidth = b.dstWidth ∧ a.numDim = b.numDim
    ∧ a.eDim = b.eDim ∧ a.numEngine = b.numEngine ∧ a.transferDirection = b.transferDirection
    ∧ a.locName = b.locName

instance (a b : DMANNRecordNPU4050) : Decidable (SameStored a b) :=
  inferInstanceAs (Decidable (_ ∧ _))

theorem eDim_eq_iff {x y : Vector SizeStride 5} :
    x = y ↔ x[0] = y[0] ∧ x[1] = y[1] ∧ x[2] = y[2] ∧ x[3] = y[3] ∧ x[4] = y[4] := by
  constructor
  · rintro rfl
    exact ⟨rfl, rfl, rfl, rfl, rfl⟩
  · rintro ⟨h0, h1, h2, h3, h4⟩
    ext1 i hi
    interval_cases i <;> assumption

theorem allEqual_fields {a b : DMANNRecordNPU4050} :
    RecordField.allEqual fields a b = true ↔ SameStored a b := by
  simp only [fields, enumField, RecordField.allEqual_cons, RecordField.allEqual_nil,
    RecordField.chain_eq, RecordField.on_eq, RecordField.ofKey_eq, SizeStride.allEqual_fields,
    Bool.and_eq_true, decide_eq_true_eq, Bool.and_true, VPUDevice.toNat_inj,
    NumDMAEngine.ctorIdx_inj, MemoryDirection.ctorIdx_inj, SameStored, eDim_eq_iff, and_assoc]

theorem incomparable_iff {a b : DMANNRecordNPU4050} :
    (¬ operatorLt a b = true ∧ ¬ operatorLt b a = true) ↔ SameStored a b := by
  rw [Bool.not_eq_true, Bool.not_eq_true, ← allEqual_fields]
  exact (lawful_fields.eq_iff a b).symm

/-! ### Equality and hash read the slots in use -/

/-- The members outside of the slots that the equality compares. -/
def SameHeader (a b : DMANNRecordNPU4050) : Prop :=
  a.device = b.device ∧ a.srcWidth = b.srcWidth ∧ a.dstWidth = b.dstWidth ∧ a.numDim = b.numDim
    ∧ a.numEngine = b.numEngine ∧ a.transferDirection = b.transferDirection

instance (a b : DMANNRecordNPU4050) : Decidable (SameHeader a b) :=
  inferInstanceAs (Decidable (_ ∧ _))

/-- Two records agree in all that describes the transfer. -/
def AgreeInUse (a b : DMANNRecordNPU4050) : Prop := SameHeader a b ∧ a.slotsInUse = b.slotsInUse

instance (a b : DMANNRecordNPU4050) : Decidable (AgreeInUse a b) :=
  inferInstanceAs (Decidable (_ ∧ _))

/-- Records agree in use when they describe the same transfer with as many extra dimensions. -/
theorem agreeInUse_iff {a b : DMANNRecordNPU4050} :
    AgreeInUse a b ↔ a.numDim = b.numDim ∧
      { a.toWorkload with
        locName := b.locName
        profilingServiceBackendHint := b.profilingServiceBackendHint } = b.toWorkload := by
  simp only [AgreeInUse, SameHeader, toWorkload, DMANNWorkloadNPU4050.mk.injEq]
  tauto

/-- The loop stops at the first difference or at the end of the array. -/
theorem slotsEqual_eq (a b : DMANNRecordNPU4050) (n i : ℕ) (hi : i ≤ 5) :
    slotsEqual a b n i = if (a.eDim.toList.drop i).take n = (b.eDim.toList.drop i).take n then
      (if i + n ≤ 5 then some true else none) else some false := by
  induction n generalizing i with
  | zero => simp [slotsEqual, hi]
  | succ n ih =>
    rw [slotsEqual]
    rcases Nat.lt_or_ge i 5 with hlt | hge
    · have ha : a.eDim.toList.drop i = a.eDim[i] :: a.eDim.toList.drop (i + 1) := by
        rw [List.drop_eq_getElem_cons (by simpa using hlt), Vector.getElem_toList]
      have hb : b.eDim.toList.drop i = b.eDim[i] :: b.eDim.toList.drop (i + 1) := by
        rw [List.drop_eq_getElem_cons (by simpa using hlt), Vector.getElem_toList]
      rw [ih (i + 1) hlt, ha, hb, Vector.getElem?_eq_getElem hlt, Vector.getElem?_eq_getElem hlt]
      by_cases heq : a.eDim[i] = b.eDim[i]
      · simp [heq, Nat.add_assoc, Nat.add_comm 1 n]
      · simp [heq]
    · obtain rfl : i = 5 := by omega
      rw [List.drop_eq_nil_of_le (by simp), List.drop_eq_nil_of_le (by simp)]
      simp

theorem slotWords_eq (w : DMANNRecordNPU4050) (n i : ℕ) (hi : i ≤ 5) :
    slotWords w n i = if i + n ≤ 5 then
      some (((w.eDim.toList.drop i).take n).flatMap SizeStride.hashWords) else none := by
  induction n generalizing i with
  | zero => simp [slotWords, hi]
  | succ n ih =>
    rw [slotWords]
    rcases Nat.lt_or_ge i 5 with hlt | hge
    · have hw : w.eDim.toList.drop i = w.eDim[i] :: w.eDim.toList.drop (i + 1) := by
        rw [List.drop_eq_getElem_cons (by simpa using hlt), Vector.getElem_toList]
      rw [ih (i + 1) hlt, hw, Vector.getElem?_eq_getElem hlt]
      by_cases hn : i + (n + 1) ≤ 5
      · rw [if_pos hn, if_pos (by omega)]; rfl
      · rw [if_neg hn, if_neg (by omega)]; rfl
    · obtain rfl : i = 5 := by omega
      simp

theorem operatorEq_eq (a b : DMANNRecordNPU4050) :
    operatorEq a b = if AgreeInUse a b then (if a.numDim ≤ 5 then some true else none)
      else some false := by
  rw [operatorEq]
  by_cases hheader : SameHeader a b
  · obtain ⟨h1, h2, h3, h4, h5, h6⟩ := hheader
    rw [if_neg (by simp [h1, h2, h3, h4, h5, h6]), slotsEqual_eq a b _ 0 (by norm_num)]
    have hslots : AgreeInUse a b ↔ (a.eDim.toList.drop 0).take a.numDim.toNat
        = (b.eDim.toList.drop 0).take a.numDim.toNat := by
      simp [AgreeInUse, SameHeader, slotsInUse, h1, h2, h3, h4, h5, h6]
    have hle : a.numDim ≤ 5 ↔ 0 + a.numDim.toNat ≤ 5 := by omega
    simp only [hslots, hle]
  · rw [if_pos (by unfold SameHeader at hheader; tauto), if_neg fun h => hheader h.1]

/-- Records that agree in use have the same hash. -/
theorem hash_eq_of_agreeInUse {a b : DMANNRecordNPU4050} (h : AgreeInUse a b)
    (hdim : a.numDim ≤ 5) : ∃ v, hash a = some v ∧ hash b = some v := by
  obtain ⟨⟨h1, h2, h3, h4, h5, h6⟩, hslots⟩ := h
  have ha : slotWords a a.numDim.toNat 0 = some (a.slotsInUse.flatMap SizeStride.hashWords) := by
    rw [slotWords_eq a _ 0 (by norm_num), if_pos (by omega)]; rfl
  have hb : slotWords b b.numDim.toNat 0 = some (a.slotsInUse.flatMap SizeStride.hashWords) := by
    rw [slotWords_eq b _ 0 (by norm_num), if_pos (by omega), hslots]; rfl
  rw [hash, hash, ha, hb, h1, h2, h3, h4, h5, h6]
  exact ⟨_, rfl, rfl⟩

/-- The equality answers what the order says, and equal records have equal hashes. -/
def KeyLaw (a b : DMANNRecordNPU4050) : Prop :=
  operatorEq a b = some (decide (¬ operatorLt a b = true ∧ ¬ operatorLt b a = true))
    ∧ (operatorEq a b = some true → ∃ v, hash a = some v ∧ hash b = some v)

theorem keyLaw_iff {a b : DMANNRecordNPU4050} :
    KeyLaw a b ↔ (AgreeInUse a b → a.numDim ≤ 5 ∧ a.eDim = b.eDim ∧ a.locName = b.locName) := by
  rw [KeyLaw, operatorEq_eq, decide_eq_decide.mpr (incomparable_iff (a := a) (b := b))]
  by_cases hagree : AgreeInUse a b
  · rw [if_pos hagree]
    by_cases hdim : a.numDim ≤ 5
    · have hstored : SameStored a b ↔ a.eDim = b.eDim ∧ a.locName = b.locName := by
        obtain ⟨⟨h1, h2, h3, h4, h5, h6⟩, -⟩ := hagree
        simp [SameStored, h1, h2, h3, h4, h5, h6]
      have hhash := hash_eq_of_agreeInUse hagree hdim
      simp only [hdim, if_true, hagree, true_imp_iff, true_and, hhash, imp_true_iff, and_true,
        Option.some.injEq, ← hstored]
      exact ⟨fun h => of_decide_eq_true h.symm, fun h => (decide_eq_true h).symm⟩
    · simp [hagree, hdim]
  · rw [if_neg hagree]
    have hstored : ¬ SameStored a b := by
      rintro ⟨h1, h2, h3, h4, h5, h6, h7, -⟩
      exact hagree ⟨⟨h1, h2, h3, h4, h6, h7⟩, by rw [slotsInUse, slotsInUse, h4, h5]⟩
    simp [hagree, hstored]

/-- `operator<` is a strict weak order. It goes with `operator==` and `hash` exactly for the pairs
    that do not agree in use, or agree in the unused slots and the name too and have at most five
    extra dimensions. -/
theorem operatorLt_keyLaw_iff (a b : DMANNRecordNPU4050) :
    IsStrictWeakOrder DMANNRecordNPU4050 (fun a b => operatorLt a b = true)
      ∧ (KeyLaw a b ↔
        (AgreeInUse a b → a.numDim ≤ 5 ∧ a.eDim = b.eDim ∧ a.locName = b.locName)) :=
  ⟨lawful_fields.isStrictWeakOrder id, keyLaw_iff⟩

/-- Two descriptions of one transfer that differ in the name of the location are equal, but ordered. -/
theorem operatorLt_not_keyLaw :
    ¬ (IsStrictWeakOrder DMANNRecordNPU4050 (fun a b => operatorLt a b = true)
      ∧ ∀ a b : DMANNRecordNPU4050, KeyLaw a b) := by
  rintro ⟨-, h⟩
  have hlaw := keyLaw_iff.mp (h { device := .vpu_4_0, locName := "a" }
    { device := .vpu_4_0, locName := "b" })
  exact absurd (hlaw (by decide)).2.2 (by decide)

end DMANNRecordNPU4050

end Vpunn
