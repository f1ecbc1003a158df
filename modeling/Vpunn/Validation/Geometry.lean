import Vpunn.Validation.Validators

/-! What the two validators say about the sizes along one axis.

    Both have the same limits on kernel and padding and compute the output from the input. They
    differ in the limits on input and stride. For sizes that fit the formula, a workload is valid as
    soon as its input is neither empty nor too large. -/

namespace Vpunn
open MachineInt Window

theorem Axis.forall_iff {P : Axis → Prop} : (∀ a, P a) ↔ P .w ∧ P .h :=
  ⟨fun h => ⟨h .w, h .h⟩, fun ⟨hw, hh⟩ a => by cases a <;> assumption⟩

namespace AxisInfo

/-- The output extent for another input extent. -/
def expectedOut (i : AxisInfo) (input : ℤ) : ℤ :=
  computeOutputDim input i.padBegin i.padEnd i.k i.s

/-- The smallest valid input. -/
def inpMin (i : AxisInfo) (extra : ℤ) : ℤ := (inputInterval i.k i.padBegin i.padEnd extra).1

structure KernelValid (i : AxisInfo) (maxKernel : ℤ) : Prop where
  k_ge : 1 ≤ i.k
  k_le : i.k ≤ maxKernel
  padBegin_ge : 0 ≤ i.padBegin
  padBegin_le : i.padBegin ≤ getPadMax i.k
  padEnd_ge : 0 ≤ i.padEnd
  padEnd_le : i.padEnd ≤ getPadMax i.k

/-- The sizes of a layer whose input may be `coeff` times the largest one. -/
structure LayerValid (i : AxisInfo) (maxKernel maxStride extra : ℤ) (coeff : ℕ) : Prop where
  kernel : i.KernelValid maxKernel
  inp_ge : i.inpMin extra ≤ i.inp
  inp_le : i.inp ≤ i32 (inputSpatialDimMax * coeff)
  s_ge : 1 ≤ i.s
  s_le : i.s ≤ min maxStride (i32 (i.inp + i.padBegin + i.padEnd))
  out_eq : i.out = i.expectedOut i.inp

/-- The sizes of a workload that may read rows of its neighbours, up to `inpMax` rows in all. -/
structure WorkloadValid (i : AxisInfo) (maxKernel maxStride inpMax : ℤ) : Prop where
  kernel : i.KernelValid maxKernel
  inp_ge : i.inpMin 0 ≤ i.inp
  inp_le : i.inp ≤ inputSpatialDimMax
  s_ge : 1 ≤ i.s
  s_le : i.s ≤ maxStride
  out_ge : i.expectedOut i.inp ≤ i.out
  out_le : i.out ≤ i.expectedOut inpMax

end AxisInfo

/-! ### The checks, axis by axis -/

section Checks

variable {config : DeviceValidValues} {w : DPUOperation} {nTiles : ℕ} {strategy : VPUTilingStrategy}

/-- Whether a strategy cuts an axis. -/
def VPUTilingStrategy.cuts (strategy : VPUTilingStrategy) : Axis → Bool
  | .h => strategy.isVerticalTiling
  | .w => strategy.isHorizontalTiling

/-- The largest input a workload is valid with: over the height the halo may add to it. -/
def DPUOperation.inpMax (w : DPUOperation) : Axis → ℤ
  | .h => i32 (w.input0.height + sohHInputHaloExtension w)
  | .w => w.input0.width

theorem isClean_kernelChecks_paddingChecks :
    isClean (kernelChecks w) = true ∧ isClean (paddingChecks w) = true ↔
      ∀ a, (w.axisInfo a).KernelValid (getMaximumKernelSize w.operation) := by
  simp only [kernelChecks, paddingChecks, checkIsInList, normalizeKernelDimension, getKernelRange,
    getPadHorzRange, getPadVertRange, isClean_cons, isClean_nil, Bool.and_eq_true,
    decide_eq_true_eq, mem_makeList, Bool.not_false, Axis.forall_iff]
  constructor
  · rintro ⟨⟨⟨hw, hw'⟩, ⟨hh, hh'⟩, -, -⟩, ⟨hl, hl'⟩, ⟨ht, ht'⟩, ⟨hr, hr'⟩, ⟨hb, hb'⟩, -⟩
    exact ⟨⟨hw, hw', hl, hl', hr, hr'⟩, ⟨hh, hh', ht, ht', hb, hb'⟩⟩
  · rintro ⟨⟨hw, hw', hl, hl', hr, hr'⟩, ⟨hh, hh', ht, ht', hb, hb'⟩⟩
    exact ⟨⟨⟨hw, hw'⟩, ⟨hh, hh'⟩, trivial, trivial⟩,
      ⟨hl, hl'⟩, ⟨ht, ht'⟩, ⟨hr, hr'⟩, ⟨hb, hb'⟩, trivial⟩

/-- What an accepted layer is known to be along both axes. -/
theorem layerValid_of_checkLayerConsistency
    (h : checkLayerConsistency config w nTiles strategy = true) (a : Axis) :
    (w.axisInfo a).LayerValid (getMaximumKernelSize w.operation)
      (getMaximumKernelStride w.operation) (config.extraOutRows (strategy.cuts a))
      (a.dim (strategy.borderCoeff nTiles)) := by
  simp only [checkLayerConsistency, isClean_append, Bool.and_eq_true] at h
  obtain ⟨⟨⟨⟨⟨⟨⟨⟨-, hkernel⟩, hpadding⟩, hinput⟩, hstride⟩, houtput⟩, -⟩, -⟩, -⟩ := h
  have hkernel := isClean_kernelChecks_paddingChecks.mp ⟨hkernel, hpadding⟩ a
  simp only [layerInputChecks, checkIsInInterval, isClean_cons, Bool.and_eq_true,
    decide_eq_true_eq] at hinput
  simp only [layerOutputChecks, checkIsInInterval, isClean_cons, Bool.and_eq_true,
    decide_eq_true_eq] at houtput
  simp only [strideChecks, checkIsInList, isClean_cons, Bool.and_eq_true, decide_eq_true_eq,
    getStridesRange, paddedStridesRange, mem_makeList] at hstride
  obtain ⟨⟨hh, hh'⟩, ⟨hw, hw'⟩, -⟩ := hinput
  obtain ⟨⟨hsw, hsw'⟩, ⟨hsh, hsh'⟩, -⟩ := hstride
  obtain ⟨⟨how, how'⟩, ⟨hoh, hoh'⟩, -⟩ := houtput
  cases a with
  | h => exact ⟨hkernel, hh, hh', hsh, hsh', le_antisymm hoh' hoh⟩
  | w => exact ⟨hkernel, hw, hw', hsw, hsw', le_antisymm how' how⟩

/-- The checks that look at the geometry of a workload, axis by axis. -/
theorem isClean_geometryChecks_iff : isClean (geometryChecks config w) = true ↔
    (∀ a, (w.axisInfo a).WorkloadValid (getMaximumKernelSize w.operation)
      (getMaximumKernelStride w.operation) (w.inpMax a)) ∧ checkHalo w = true := by
  have hextra : config.extraOutRows false = 0 := rfl
  simp only [geometryChecks, isClean_append, Bool.and_eq_true]
  simp only [workloadInputChecks, workloadOutputChecks, strideChecks, getDpuStridesRange,
    checkIsInInterval, checkIsInList, isClean_cons, isClean_nil, Bool.and_eq_true,
    decide_eq_true_eq, mem_makeList, Bool.and_true]
  constructor
  · rintro ⟨⟨⟨⟨hkernel, ⟨hh, hh'⟩, hw, hw'⟩, ⟨hsw, hsw'⟩, hsh, hsh'⟩, ⟨how, how'⟩, hoh, hoh'⟩, hhalo⟩
    have hkernel := isClean_kernelChecks_paddingChecks.mp hkernel
    refine ⟨fun a => ?_, hhalo⟩
    cases a with
    | h => exact ⟨hkernel .h, hh, hh', hsh, hsh', hoh, hoh'⟩
    | w => exact ⟨hkernel .w, hw, hw', hsw, hsw', how, how'⟩
  · rintro ⟨hvalid, hhalo⟩
    have hkernel := isClean_kernelChecks_paddingChecks.mpr fun a => (hvalid a).kernel
    obtain ⟨-, hh, hh', hsh, hsh', hoh, hoh'⟩ := hvalid .h
    obtain ⟨-, hw, hw', hsw, hsw', how, how'⟩ := hvalid .w
    exact ⟨⟨⟨⟨hkernel, ⟨hh, hh'⟩, hw, hw'⟩, ⟨hsw, hsw'⟩, hsh, hsh'⟩, ⟨how, how'⟩, hoh, hoh'⟩, hhalo⟩

theorem isClean_haloChecks_iff {kernel : KernelInfo} {halo : HaloWorkload} :
    isClean (haloChecks kernel halo) = true ↔
      (¬ (0 < kernel.padTop ∧ 0 < halo.input0Halo.top) ∧
        ¬ (0 < kernel.padBottom ∧ 0 < halo.input0Halo.bottom) ∧
        ¬ (0 < kernel.padLeft ∧ 0 < halo.input0Halo.left) ∧
        ¬ (0 < kernel.padRight ∧ 0 < halo.input0Halo.right)) ∧
      halo.output0Halo.isAllPositive = true ∧
      halo.output0HaloBroadcastCnt.isAllPositive = true := by
  simp only [haloChecks, isClean_cons, isClean_nil, Bool.and_true, Bool.and_eq_true,
    Bool.not_eq_true', decide_eq_false_iff_not, and_assoc]

/-- An accepted layer is meant for one to eight tiles, and its output channels are an `int`. -/
theorem outputWriteTiles_mem_of_checkLayerConsistency
    (h : checkLayerConsistency config w nTiles strategy = true) :
    (1 ≤ w.outputWriteTiles ∧ w.outputWriteTiles ≤ 8) ∧ 0 ≤ w.output0.channels := by
  simp only [checkLayerConsistency, isClean_append, Bool.and_eq_true] at h
  obtain ⟨⟨⟨⟨⟨⟨⟨⟨hselection, -⟩, -⟩, -⟩, -⟩, houtput⟩, -⟩, -⟩, -⟩ := h
  simp only [selectionChecks, checkIsInList, isClean_cons, Bool.and_eq_true,
    decide_eq_true_eq] at hselection
  simp only [layerOutputChecks, checkIsInRequirements, isClean_cons, Bool.and_eq_true] at houtput
  obtain ⟨-, -, -, htiles, -⟩ := hselection
  obtain ⟨-, -, hchannels, -⟩ := houtput
  obtain ⟨r, -, hr⟩ := (Option.any_eq_true ..).mp hchannels
  exact ⟨config.outputWriteTileOptions_mem _ htiles, MultiSmartRanges.nonneg_of_isIn hr⟩

end Checks

/-! ### The checks in terms of the sizes -/

/-- The sizes along one axis are `unsigned int`s. -/
structure UnsignedSizes (g : Geometry) : Prop where
  inp_lt : g.inp < 4294967296
  k_lt : g.k < 4294967296
  s_lt : g.s < 4294967296
  padBegin_lt : g.padBegin < 4294967296
  padEnd_lt : g.padEnd < 4294967296
  out_lt : g.out < 4294967296

instance (g : Geometry) : Decidable (UnsignedSizes g) :=
  decidable_of_iff (g.inp < 4294967296 ∧ g.k < 4294967296 ∧ g.s < 4294967296 ∧
      g.padBegin < 4294967296 ∧ g.padEnd < 4294967296 ∧ g.out < 4294967296)
    ⟨fun ⟨h1, h2, h3, h4, h5, h6⟩ => ⟨h1, h2, h3, h4, h5, h6⟩,
      fun ⟨h1, h2, h3, h4, h5, h6⟩ => ⟨h1, h2, h3, h4, h5, h6⟩⟩

/-- An `unsigned int` that is not negative as an `int` is that `int`. -/
theorem i32_eq_of_nonneg {n : ℕ} (hn : n < 4294967296) (h : 0 ≤ i32 n) : i32 n = n := by
  unfold i32 at h ⊢; omega

theorem getPadMax_natCast (k : ℕ) : getPadMax k = (k / 2 : ℕ) := by
  rw [getPadMax, Int.tdiv_eq_ediv_of_nonneg (by omega)]; rfl

/-- The output formula on sizes that are small and reach over the kernel. -/
theorem computeOutputDim_natCast {inp padBegin padEnd k s : ℕ} (hs : 0 < s)
    (hk : k ≤ inp + padBegin + padEnd) (hlt : inp + padBegin + padEnd < 2147483647) :
    computeOutputDim inp padBegin padEnd k s = ((inp + padBegin + padEnd - k) / s + 1 : ℕ) := by
  have hnum : i32 ((inp : ℤ) + (padBegin + padEnd) - (k - 1) - 1)
      = (inp + padBegin + padEnd - k : ℕ) := by
    rw [i32_of_bounds (by omega) (by omega)]; omega
  have hdiv : (inp + padBegin + padEnd - k) / s ≤ inp + padBegin + padEnd - k := Nat.div_le_self ..
  rw [computeOutputDim, if_neg (by omega), hnum, Int.tdiv_eq_ediv_of_nonneg (by omega),
    ← Int.natCast_ediv]
  generalize (inp + padBegin + padEnd - k) / s = steps at hdiv ⊢
  rw [i32_of_bounds] <;> omega

/-- The smallest input in terms of the sizes. -/
theorem inpMin_natCast {inp k s padBegin padEnd out : ℤ} {extra : ℤ} (hk : 1 ≤ k) (hk' : k ≤ 15)
    (hb : 0 ≤ padBegin) (hb' : padBegin ≤ 15) (he : 0 ≤ padEnd) (he' : padEnd ≤ 15)
    (hx : extra = 0 ∨ extra = 1) :
    (AxisInfo.mk inp k s padBegin padEnd out).inpMin extra
      = max 1 (k - padBegin - padEnd + extra) := by
  simp only [AxisInfo.inpMin, inputInterval]
  rw [i32_of_bounds (x := k - (padBegin + padEnd)) (by omega) (by omega),
    i32_of_bounds (by omega) (by omega)]
  split <;> omega

/-- The sizes of an accepted layer. -/
structure AcceptedSizes (g : Geometry) (maxKernel maxStride : ℤ) (coeff : ℕ) : Prop where
  consistent : g.Consistent
  k_le : (g.k : ℤ) ≤ maxKernel
  s_le : (g.s : ℤ) ≤ maxStride
  inp_le : g.inp ≤ 8192 * coeff

theorem one_le_inpMin (i : AxisInfo) (extra : ℤ) : 1 ≤ i.inpMin extra := by
  simp only [AxisInfo.inpMin, inputInterval]
  split <;> omega

theorem AxisInfo.LayerValid.acceptedSizes {g : Geometry} {maxKernel maxStride extra : ℤ} {coeff : ℕ}
    (h : (ofGeometry g).LayerValid maxKernel maxStride extra coeff) (hg : UnsignedSizes g)
    (hK : maxKernel ≤ 15) (hx : extra = 0 ∨ extra = 1) (hc : coeff ≤ 8) :
    AcceptedSizes g maxKernel maxStride coeff := by
  have hk : (1 : ℤ) ≤ i32 g.k := h.kernel.k_ge
  have hs : (1 : ℤ) ≤ i32 g.s := h.s_ge
  have hinp : (1 : ℤ) ≤ i32 g.inp := (one_le_inpMin _ extra).trans h.inp_ge
  have hform : ofGeometry g = ⟨g.inp, g.k, g.s, g.padBegin, g.padEnd, i32 g.out⟩ := by
    simp only [ofGeometry]
    rw [i32_eq_of_nonneg hg.k_lt (by omega), i32_eq_of_nonneg hg.s_lt (by omega),
      i32_eq_of_nonneg hg.inp_lt (by omega), i32_eq_of_nonneg hg.padBegin_lt h.kernel.padBegin_ge,
      i32_eq_of_nonneg hg.padEnd_lt h.kernel.padEnd_ge]
  rw [hform] at h
  clear hk hs hinp hform
  obtain ⟨⟨hk, hk', hb, hb', he, he'⟩, hinp, hinp', hs, hs', hout⟩ := h
  simp only [getPadMax_natCast] at hk hk' hb hb' he he' hinp' hs hs'
  rw [inpMin_natCast hk (by omega) hb (by omega) he (by omega) hx] at hinp
  simp only at hinp
  have hcoeff : i32 (inputSpatialDimMax * coeff) = (8192 * coeff : ℕ) := by
    have hmul : inputSpatialDimMax * (coeff : ℤ) = (8192 * coeff : ℕ) := by
      simp [inputSpatialDimMax]
    rw [hmul, i32_natCast (by omega)]
  rw [hcoeff] at hinp'
  have hs'' : (g.s : ℤ) ≤ maxStride := hs'.trans (min_le_left _ _)
  clear hs' hcoeff
  have hk_le : g.k ≤ g.inp + g.padBegin + g.padEnd := by omega
  rw [expectedOut, computeOutputDim_natCast (by omega) hk_le (by omega)] at hout
  have hnonneg := (Int.natCast_nonneg _).trans_eq hout.symm
  have hout_eq := (i32_eq_of_nonneg hg.out_lt hnonneg).symm.trans hout
  clear hout hnonneg
  exact ⟨⟨by omega, by omega, by omega, by omega, by omega, hk_le, Int.natCast_inj.mp hout_eq⟩,
    hk', hs'', by omega⟩

/-- Sizes with the kernel and stride of an accepted layer, that fit the output formula, are those of
    a valid workload exactly when the input is not empty and not too large. -/
theorem workloadValid_iff {g : Geometry} {maxKernel maxStride inpMax : ℤ} (hk : 1 ≤ g.k)
    (hk' : (g.k : ℤ) ≤ maxKernel) (hK : maxKernel ≤ 15) (hs : 1 ≤ g.s)
    (hs' : (g.s : ℤ) ≤ maxStride) (hS : maxStride ≤ 8) (hb : g.padBegin ≤ g.k / 2)
    (he : g.padEnd ≤ g.k / 2) (hreach : g.k ≤ g.inp + g.padBegin + g.padEnd)
    (hinp : g.inp ≤ 65536) (hout : g.out = (g.inp + g.padBegin + g.padEnd - g.k) / g.s + 1)
    {ext : ℕ} (hext : ext ≤ 65536) (hmax : inpMax = g.inp + ext) :
    (AxisInfo.ofGeometry g).WorkloadValid maxKernel maxStride inpMax ↔
      0 < g.inp ∧ g.inp ≤ 8192 := by
  have hdiv : (g.inp + g.padBegin + g.padEnd - g.k) / g.s ≤ g.inp + g.padBegin + g.padEnd - g.k :=
    Nat.div_le_self ..
  rw [AxisInfo.ofGeometry_eq (by omega) (by omega) (by omega) (by omega) (by omega) (by omega)]
  have hmin : (AxisInfo.mk g.inp g.k g.s g.padBegin g.padEnd g.out).inpMin 0
      = max 1 ((g.k : ℤ) - g.padBegin - g.padEnd + 0) :=
    inpMin_natCast (by omega) (by omega) (by omega) (by omega) (by omega) (by omega) (.inl rfl)
  constructor
  · rintro ⟨-, hge, hle, -, -, -, -⟩
    rw [hmin] at hge
    simp only [inputSpatialDimMax] at hge hle
    omega
  · rintro ⟨hpos, hle⟩
    have hpad := getPadMax_natCast g.k
    have hexpected : ∀ n : ℕ, g.inp ≤ n → n ≤ 131072 →
        computeOutputDim n g.padBegin g.padEnd g.k g.s
          = ((n + g.padBegin + g.padEnd - g.k) / g.s + 1 : ℕ) :=
      fun n hn hn' => computeOutputDim_natCast hs (by omega) (by omega)
    refine ⟨⟨by simpa using hk, hk', by simp, ?_, by simp, ?_⟩, ?_, ?_, by simpa using hs, hs', ?_, ?_⟩
    · simp only [hpad]; omega
    · simp only [hpad]; omega
    · rw [hmin]; simp only; omega
    · simp only [inputSpatialDimMax]; omega
    · simp only [AxisInfo.expectedOut]
      rw [hexpected g.inp le_rfl (by omega), hout]
    · simp only [AxisInfo.expectedOut]
      rw [hmax, ← Nat.cast_add, hexpected (g.inp + ext) (by omega) (by omega), hout]
      exact_mod_cast Nat.succ_le_succ (Nat.div_le_div_right (by omega))

end Vpunn
