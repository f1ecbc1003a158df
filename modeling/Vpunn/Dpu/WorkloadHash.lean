import Vpunn.Lib.Fnv
import Vpunn.Lib.MachineInt
import Vpunn.Dpu.WorkloadOrder
import Vpunn.Tensor

/-! The hash of DPU workloads (`dpu_workload.cpp`, `workload_hash.cpp`, `primitive_hash.h`) next to
    `operator==`.

    The hash folds the fields into one word each. A sparsity becomes the number of its hundredths, so
    sparsities that are equal within the tolerance have different words when a hundredth lies between
    them; and the tolerance is not transitive. -/

namespace Vpunn
open MachineInt

/-- The `uint32_t` that a `float` converts to. The fraction is dropped, and outside of the range the
    conversion is undefined. -/
def truncToU32 (x : ℚ) : Option ℕ := if -1 < x ∧ x < 4294967296 then some ⌊x⌋.toNat else none

/-- The product of a `float` by 100. -/
def timesHundred (c : ℚ) : ℚ := if 0 ≤ c then toFloat (c * 100) else -toFloat (-c * 100)

/-- The word of a `float` (`PrimitiveHash::hash_float`). -/
def hashFloatValue (c : ℚ) : Option ℕ :=
  if c < 1 ∧ -1 < c ∧ c ≠ 0 then truncToU32 (timesHundred c) else truncToU32 c

/-- The words of `WorkloadHash::hash_tensor`. -/
def VPUTensor.hashWords (t : VPUTensor) : List ℤ :=
  [t.shape.x, t.shape.y, t.shape.z, t.shape.b, t.dtype.ctorIdx, t.layout.ctorIdx,
    t.sparsity.toNat]

def HaloInfoHWC.hashWords (h : HaloInfoHWC) : List ℤ :=
  [h.top, h.bottom, h.left, h.right, h.front, h.back]

/-- The words of `WorkloadHash::hash_halo`. -/
def HaloWorkload.hashWords (h : HaloWorkload) : List ℤ :=
  h.input0Halo.hashWords ++ h.output0Halo.hashWords ++ h.output0HaloBroadcastCnt.hashWords
    ++ h.output0InboundHalo.hashWords

/-- The words of `WorkloadHash::hash_sep`. -/
def SEPModeInfo.hashWords (s : SEPModeInfo) : List ℤ :=
  [(s.sepActivators.toNat : ℤ), s.storageElementsPointers.x, s.storageElementsPointers.y,
    s.storageElementsPointers.z, s.storageElementsPointers.b, s.actualActivatorsInput.x,
    s.actualActivatorsInput.y, s.actualActivatorsInput.z, s.actualActivatorsInput.b,
    s.noSparseMap.toNat]

namespace DPUWorkload

/-! ### What the workload says about its operation -/

def isElementwiseLikeOperation (w : DPUWorkload) : Bool := w.op = .eltwise || w.op = .eltwiseMul

def isPreconditionsForInplaceOutput (w : DPUWorkload) : Bool :=
  w.inputs.layout = w.outputs.layout && dtypeToBits w.inputs.dtype = dtypeToBits w.outputs.dtype

def isSpecialNoWeightsSituation (w : DPUWorkload) : Bool :=
  w.inputs.layout ≠ w.outputs.layout || dtypeToBits w.inputs.dtype ≠ dtypeToBits w.outputs.dtype

def isInplaceOutputMemory (w : DPUWorkload) : Bool :=
  if w.isElementwiseLikeOperation then
    w.inPlaceOutputMemory.getD w.isPreconditionsForInplaceOutput
  else false

def isWeightlessOperation (w : DPUWorkload) : Bool :=
  if w.isElementwiseLikeOperation then
    w.weightlessOperation.getD w.isSpecialNoWeightsSituation
  else false

def isSuperdense (w : DPUWorkload) : Bool := w.superdenseMemory.getD false

def getWeightType (w : DPUWorkload) : DataType := w.weightType.getD w.inputs.dtype

/-! ### The hash -/

/-- The words up to the sparsities. -/
def hashWordsBefore (w : DPUWorkload) : List ℤ :=
  [(w.device.toNat : ℤ), w.op.ctorIdx] ++ w.inputs.hashWords ++ w.outputs.hashWords
    ++ [(w.kernels.w : ℤ), w.kernels.h, w.strides.w, w.strides.h,
      w.padding.top, w.padding.bottom, w.padding.left, w.padding.right,
      w.executionOrder.ctorIdx, w.activationFunction.ctorIdx]

/-- The words from the sparsities on. -/
def hashWordsAfter (w : DPUWorkload) : List ℤ :=
  [(w.inputSwizzling0.ctorIdx : ℤ), w.inputSwizzling1.ctorIdx, w.outputSwizzling.ctorIdx,
    w.outputWriteTiles, w.isiStrategy.ctorIdx, w.weightSparsityEnabled.toNat]
    ++ w.halo.hashWords ++ w.sepActivators.hashWords
    ++ [(w.getWeightType.ctorIdx : ℤ), w.isWeightlessOperation.toNat,
      w.isInplaceOutputMemory.toNat, w.isSuperdense.toNat, w.isInputAutopad.toNat,
      w.isOutputAutopad.toNat, w.mpeEngine.ctorIdx, w.reduceMinmaxOp.toNat]

/-- `DPUWorkload::hash`, without a value when a sparsity does not convert. -/
def hash (w : DPUWorkload) : Option ℕ := do
  let act ← hashFloatValue w.actSparsity
  let weight ← hashFloatValue w.weightSparsity
  some (Fnv.words Fnv.offsetBasis
    (w.hashWordsBefore.map u32 ++ act :: weight :: w.hashWordsAfter.map u32))

end DPUWorkload

/-! ### Sparsities that are equal within the tolerance -/

/-- The values of a `float`. -/
def IsFloat (x : ℚ) : Prop := Rounding.Representable 24 |x|

theorem hashFloatValue_lt {c : ℚ} (hc : c ≤ 128) {v : ℕ} (h : hashFloatValue c = some v) :
    v < 256 := by
  have hfloor : ∀ x : ℚ, x ≤ 128 → truncToU32 x = some v → v < 256 := by
    intro x hx hv
    rw [truncToU32] at hv
    split_ifs at hv
    have hle : ⌊x⌋ ≤ 128 := Int.floor_le_iff.mpr (by push_cast; linarith)
    have := Option.some.inj hv
    omega
  rw [hashFloatValue] at h
  split_ifs at h with hsmall
  · refine hfloor _ ?_ h
    rw [timesHundred]
    split_ifs with hneg
    · have hround : toFloat (c * 100) ≤ toFloat 100 := toFloat_mono (by linarith) (by linarith)
      have hhundred : toFloat 100 = 100 := by decide +kernel
      linarith
    · have := toFloat_nonneg (x := -c * 100) (by linarith)
      linarith
  · exact hfloor c hc h

/-- From 128 on, different `float`s are further apart than the tolerance. -/
theorem isEqual_iff_of_large {a b : ℚ} (ha : IsFloat a) (hb : IsFloat b) (hlt : a < b)
    (hlarge : 128 < b) : DPUWorkload.isEqual a b = false := by
  have hgap : 1 / 65536 ≤ |a - b| := by
    rw [abs_sub_comm, abs_of_pos (by linarith)]
    rw [IsFloat, abs_of_pos (by linarith)] at hb
    have h128 : Rounding.Representable 24 128 := ⟨128, 0, by norm_num, by norm_num⟩
    have hzpow : (2 : ℚ) ^ (7 + 1 - (24 : ℕ) : ℤ) = 1 / 65536 := by norm_num
    rcases le_or_gt 128 a with h | h
    · rw [IsFloat, abs_of_pos (by linarith)] at ha
      rw [← hzpow]
      exact ha.le_sub (by norm_num) hb (by norm_num; exact h) hlt
    · have := h128.le_sub (by norm_num) hb (j := 7) (by norm_num) hlarge
      rw [hzpow] at this
      linarith
  have hround : toFloat (1 / 65536) ≤ toFloat |a - b| := toFloat_mono (by norm_num) hgap
  have hepsilon : DPUWorkload.epsilon ≤ toFloat (1 / 65536) := by decide +kernel
  rw [DPUWorkload.isEqual, decide_eq_false_iff_not, not_lt]
  exact hepsilon.trans hround

/-- Words of equal sparsities that differ are single bytes. -/
theorem hashFloatValue_lt_of_ne {a b : ℚ} (ha : IsFloat a) (hb : IsFloat b)
    (heq : DPUWorkload.isEqual a b = true) {v w : ℕ} (hv : hashFloatValue a = some v)
    (hw : hashFloatValue b = some w) (hne : v ≠ w) : v < 256 ∧ w < 256 := by
  have hsymm : DPUWorkload.isEqual b a = true := by
    rw [DPUWorkload.isEqual, abs_sub_comm]; exact heq
  rcases lt_trichotomy a b with hlt | rfl | hgt
  · have hsmall : b ≤ 128 := by
      by_contra hlarge
      rw [isEqual_iff_of_large ha hb hlt (not_le.mp hlarge)] at heq
      exact Bool.noConfusion heq
    exact ⟨hashFloatValue_lt (hlt.le.trans hsmall) hv, hashFloatValue_lt hsmall hw⟩
  · exact absurd (Option.some.inj (hv.symm.trans hw)) hne
  · have hsmall : a ≤ 128 := by
      by_contra hlarge
      rw [isEqual_iff_of_large hb ha hgt (not_le.mp hlarge)] at hsymm
      exact Bool.noConfusion hsymm
    exact ⟨hashFloatValue_lt hsmall hv, hashFloatValue_lt (hgt.le.trans hsmall) hw⟩

theorem hashFloatValue_lt_u32 {c : ℚ} {v : ℕ} (h : hashFloatValue c = some v) : v < 2 ^ 32 := by
  have hrange : ∀ x : ℚ, truncToU32 x = some v → v < 2 ^ 32 := by
    intro x hx
    rw [truncToU32] at hx
    split_ifs at hx with hlt
    have hfloor : ⌊x⌋ < 4294967296 := Int.floor_lt.mpr (by push_cast; exact hlt.2)
    have := Option.some.inj hx
    omega
  rw [hashFloatValue] at h
  split_ifs at h <;> exact hrange _ h

namespace DPUWorkload

/-! ### The law of the hash -/

theorem hash_eq_some {w : DPUWorkload} {h : ℕ} :
    w.hash = some h ↔ ∃ act weight, hashFloatValue w.actSparsity = some act
      ∧ hashFloatValue w.weightSparsity = some weight
      ∧ Fnv.words Fnv.offsetBasis
        (w.hashWordsBefore.map u32 ++ act :: weight :: w.hashWordsAfter.map u32) = h := by
  simp only [hash, Option.bind_eq_bind, Option.bind_eq_some_iff, Option.some.injEq]
  constructor
  · rintro ⟨act, hact, weight, hweight, heq⟩
    exact ⟨act, weight, hact, hweight, heq⟩
  · rintro ⟨act, weight, hact, hweight, heq⟩
    exact ⟨act, hact, weight, hweight, heq⟩

/-- Workloads that agree beside the sparsities have the same words beside them. -/
theorem hashWords_eq_of_agreeBeside {a b : DPUWorkload} (h : AgreeBeside a b) :
    a.hashWordsBefore = b.hashWordsBefore ∧ a.hashWordsAfter = b.hashWordsAfter := by
  rw [← h]
  exact ⟨rfl, rfl⟩

/-- The sparsities of two workloads convert to the same words. -/
def SameHundredths (a b : DPUWorkload) : Prop :=
  ∃ act weight, hashFloatValue a.actSparsity = some act ∧ hashFloatValue b.actSparsity = some act
    ∧ hashFloatValue a.weightSparsity = some weight ∧ hashFloatValue b.weightSparsity = some weight

/-- The sparsities of a workload are values of a `float`. -/
def FloatSparsities (w : DPUWorkload) : Prop := IsFloat w.actSparsity ∧ IsFloat w.weightSparsity

/-- Different words do not cancel out in the hash of equal workloads. -/
theorem hash_eq_iff {a b : DPUWorkload} (ha : a.FloatSparsities) (hb : b.FloatSparsities)
    (heq : operatorEq a b = true) :
    (∃ h, a.hash = some h ∧ b.hash = some h) ↔ SameHundredths a b := by
  obtain ⟨hagree, hact, hweight, -⟩ := (operatorEq_iff a b).mp heq
  obtain ⟨hbefore, hafter⟩ := hashWords_eq_of_agreeBeside hagree
  simp only [hash_eq_some, hbefore, hafter]
  constructor
  · rintro ⟨h, ⟨p, q, hp, hq, hpq⟩, p', q', hp', hq', hpq'⟩
    have hsuffix : ∀ v ∈ b.hashWordsAfter.map u32, v < 2 ^ 32 := by
      intro v hv
      obtain ⟨x, -, rfl⟩ := List.mem_map.mp hv
      exact u32_lt x
    -- The equal words before and after the sparsities cancel.
    have hwords : Fnv.word (Fnv.word (Fnv.words Fnv.offsetBasis (b.hashWordsBefore.map u32)) p) q
        = Fnv.word (Fnv.word (Fnv.words Fnv.offsetBasis (b.hashWordsBefore.map u32)) p') q' := by
      refine Fnv.words_inj hsuffix (Fnv.word_lt _ _) (Fnv.word_lt _ _) ?_
      simpa only [Fnv.words_append, Fnv.words_cons] using hpq.trans hpq'.symm
    have hpp : p = p' := by
      by_contra hne
      obtain ⟨hp256, hp256'⟩ := hashFloatValue_lt_of_ne ha.1 hb.1 hact hp hp' hne
      rcases eq_or_ne q q' with rfl | hqne
      · have hword := Fnv.word_inj (Fnv.word_lt _ _) (Fnv.word_lt _ _)
          (hashFloatValue_lt_u32 hq) hwords
        exact hne (Fnv.word_byte_inj hp256 hp256' hword)
      · obtain ⟨hq256, hq256'⟩ := hashFloatValue_lt_of_ne ha.2 hb.2 hweight hq hq' hqne
        exact hne (Fnv.word_word_inj hp256 hq256 hp256' hq256' hwords).1
    have hqq : q = q' := by
      by_contra hne
      obtain ⟨hq256, hq256'⟩ := hashFloatValue_lt_of_ne ha.2 hb.2 hweight hq hq' hne
      rw [hpp] at hwords
      exact hne (Fnv.word_byte_inj hq256 hq256' hwords)
    subst hpp hqq
    exact ⟨p, q, hp, hp', hq, hq'⟩
  · rintro ⟨p, q, hp, hp', hq, hq'⟩
    exact ⟨_, ⟨p, q, hp, hq, rfl⟩, p, q, hp', hq', rfl⟩

/-- Everything but the sparsities is equal for `operator==`. -/
def Alike (a b : DPUWorkload) : Prop := AgreeBeside a b ∧ a.layerInfo = b.layerInfo

/-- Both sparsities are equal within the tolerance. -/
def CloseSparsities (a b : DPUWorkload) : Prop :=
  isEqual a.actSparsity b.actSparsity = true ∧ isEqual a.weightSparsity b.weightSparsity = true

theorem operatorEq_iff_alike (a b : DPUWorkload) :
    operatorEq a b = true ↔ Alike a b ∧ CloseSparsities a b := by
  rw [operatorEq_iff, Alike, CloseSparsities]
  constructor
  · rintro ⟨hagree, hact, hweight, hinfo⟩
    exact ⟨⟨hagree, hinfo⟩, hact, hweight⟩
  · rintro ⟨⟨hagree, hinfo⟩, hact, hweight⟩
    exact ⟨hagree, hact, hweight, hinfo⟩

theorem operatorEq_refl (a : DPUWorkload) : operatorEq a a = true :=
  (operatorEq_iff a a).mpr ⟨rfl, isEqual_self _, isEqual_self _, rfl⟩

theorem Alike.symm {a b : DPUWorkload} (h : Alike a b) : Alike b a := by
  refine ⟨?_, h.2.symm⟩
  cases a; cases b
  have h1 := h.1
  simp only [AgreeBeside, mk.injEq] at h1 ⊢
  simp [h1]

theorem Alike.trans {a b c : DPUWorkload} (hab : Alike a b) (hbc : Alike b c) : Alike a c := by
  refine ⟨?_, hab.2.trans hbc.2⟩
  cases a; cases b; cases c
  have h1 := hab.1
  have h2 := hbc.1
  simp only [AgreeBeside, mk.injEq] at h1 h2 ⊢
  simp [h1, h2]

theorem CloseSparsities.symm {a b : DPUWorkload} (h : CloseSparsities a b) :
    CloseSparsities b a := by
  simp only [CloseSparsities, isEqual, abs_sub_comm (b.actSparsity),
    abs_sub_comm (b.weightSparsity)]
  exact h

/-- On a set of workloads, `operator==` is an equivalence and equal workloads have equal hashes
    exactly when no chain of close sparsities leaves the tolerance and close sparsities convert to
    the same number of hundredths. -/
theorem operatorEq_hash_iff (S : Set DPUWorkload) (hfloat : ∀ w ∈ S, w.FloatSparsities) :
    (Equivalence (fun a b : S => operatorEq a b = true)
      ∧ ∀ a b : S, operatorEq a b = true → ∃ h, hash a = some h ∧ hash b = some h)
    ↔ (∀ a ∈ S, ∀ b ∈ S, ∀ c ∈ S, Alike a b → Alike b c → CloseSparsities a b →
        CloseSparsities b c → CloseSparsities a c)
      ∧ ∀ a ∈ S, ∀ b ∈ S, Alike a b → CloseSparsities a b → SameHundredths a b := by
  constructor
  · rintro ⟨hequiv, hhash⟩
    refine ⟨fun a ha b hb c hc hab hbc hcab hcbc => ?_, fun a ha b hb hab hclose => ?_⟩
    · have h1 : operatorEq a b = true := (operatorEq_iff_alike a b).mpr ⟨hab, hcab⟩
      have h2 : operatorEq b c = true := (operatorEq_iff_alike b c).mpr ⟨hbc, hcbc⟩
      have h3 : operatorEq a c = true :=
        hequiv.trans (x := ⟨a, ha⟩) (y := ⟨b, hb⟩) (z := ⟨c, hc⟩) h1 h2
      exact ((operatorEq_iff_alike a c).mp h3).2
    · have heq : operatorEq a b = true := (operatorEq_iff_alike a b).mpr ⟨hab, hclose⟩
      exact (hash_eq_iff (hfloat a ha) (hfloat b hb) heq).mp (hhash ⟨a, ha⟩ ⟨b, hb⟩ heq)
  · rintro ⟨hchain, hhundredths⟩
    refine ⟨⟨fun a => operatorEq_refl a, fun {a b} hab => ?_, fun {a b c} hab hbc => ?_⟩,
      fun a b hab => ?_⟩
    · obtain ⟨h, hclose⟩ := (operatorEq_iff_alike a.1 b.1).mp hab
      exact (operatorEq_iff_alike b.1 a.1).mpr ⟨h.symm, hclose.symm⟩
    · obtain ⟨h1, hclose1⟩ := (operatorEq_iff_alike a.1 b.1).mp hab
      obtain ⟨h2, hclose2⟩ := (operatorEq_iff_alike b.1 c.1).mp hbc
      exact (operatorEq_iff_alike a.1 c.1).mpr
        ⟨h1.trans h2, hchain a a.2 b b.2 c c.2 h1 h2 hclose1 hclose2⟩
    · obtain ⟨h, hclose⟩ := (operatorEq_iff_alike a.1 b.1).mp hab
      exact (hash_eq_iff (hfloat a a.2) (hfloat b b.2) hab).mpr
        (hhundredths a a.2 b b.2 h hclose)

theorem isFloat_of_eq {x : ℚ} (m : ℕ) (k : ℤ) (hm : m ≤ 2 ^ 24) (h : |x| = m * 2 ^ k) :
    IsFloat x := ⟨m, k, hm, h⟩

/-- A convolution some of whose activations are zero. -/
def sparseConvolution (actSparsity : ℚ) : DPUWorkload where
  device := .vpu_2_7
  op := .convolution
  inputs := { sparsity := true }
  outputs := {}
  kernels := ⟨1, 1⟩
  strides := ⟨1, 1⟩
  padding := {}
  executionOrder := .cuboid16x16
  actSparsity := actSparsity

theorem sparseConvolution_floatSparsities {x : ℚ} (h : IsFloat x) :
    (sparseConvolution x).FloatSparsities :=
  ⟨h, isFloat_of_eq 0 0 (by norm_num) (by norm_num [sparseConvolution])⟩

/-- A quarter and a half of the activations are zero. -/
theorem operatorEq_hash_iff_quarter_half :
    (fun S : Set DPUWorkload =>
      (Equivalence (fun a b : S => operatorEq a b = true)
        ∧ ∀ a b : S, operatorEq a b = true → ∃ h, hash a = some h ∧ hash b = some h)
      ↔ (∀ a ∈ S, ∀ b ∈ S, ∀ c ∈ S, Alike a b → Alike b c → CloseSparsities a b →
          CloseSparsities b c → CloseSparsities a c)
        ∧ ∀ a ∈ S, ∀ b ∈ S, Alike a b → CloseSparsities a b → SameHundredths a b)
      {sparseConvolution (1 / 4), sparseConvolution (1 / 2)} := by
  refine operatorEq_hash_iff _ fun w hw => ?_
  have hquarter : IsFloat (1 / 4) :=
    isFloat_of_eq 1 (-2) (by norm_num) (by norm_num [abs_of_pos])
  have hhalf : IsFloat (1 / 2) := isFloat_of_eq 1 (-1) (by norm_num) (by norm_num [abs_of_pos])
  rcases hw with rfl | rfl
  · exact sparseConvolution_floatSparsities hquarter
  · exact sparseConvolution_floatSparsities hhalf

/-- Half of the activations and the `float` just below are equal, but have 50 and 49 hundredths. -/
theorem operatorEq_not_hash :
    ¬ (Equivalence (fun a b : {w : DPUWorkload // w.FloatSparsities} => operatorEq a b = true)
      ∧ ∀ a b : {w : DPUWorkload // w.FloatSparsities}, operatorEq a b = true →
        ∃ h, hash a = some h ∧ hash b = some h) := by
  rintro ⟨-, h⟩
  have hhalf : IsFloat (1 / 2) := isFloat_of_eq 1 (-1) (by norm_num) (by norm_num [abs_of_pos])
  have hbelow : IsFloat (16777215 / 33554432) :=
    isFloat_of_eq 16777215 (-25) (by norm_num) (by norm_num [abs_of_pos])
  have heq : operatorEq (sparseConvolution (1 / 2))
      (sparseConvolution (16777215 / 33554432)) = true := by decide +kernel
  have hne : (sparseConvolution (1 / 2)).hash
      ≠ (sparseConvolution (16777215 / 33554432)).hash := by decide +kernel
  obtain ⟨v, ha, hb⟩ := h ⟨_, sparseConvolution_floatSparsities hhalf⟩
    ⟨_, sparseConvolution_floatSparsities hbelow⟩ heq
  exact hne (ha.trans hb.symm)

end DPUWorkload

end Vpunn
