import Vpunn.Floats
import Vpunn.Layer.Axis
import Vpunn.Lib.Taps

/-! The cycles of a DPU workload without a network (`dpu_theoretical_cost_provider.h`).

    The multiplications of a convolution are counted for every tap of every window, and those with a
    padding row or column are taken off again. That count goes from the edges inwards, for the rows,
    for the columns, and for what the corners have in common. -/

namespace Vpunn
open MachineInt Window

/-- The `unsigned long` that an exact result is stored as. -/
def ulong (x : ℤ) : ℕ := (x % 18446744073709551616).toNat

/-- What the model knows of a device (`IDeviceHWCharacteristics`). -/
structure HwInfo where
  nrMacs : ℕ
  fpRatio : ℕ
  nrPpe : ℕ
  inputChannelsMac : ℕ
  cmxWordSizeBytes : ℕ
  dpuCmxNumReadPorts : ℕ
  cmxFclk : ℕ
  dpuFclk : ℕ
  deriving DecidableEq, Repr

/-- `VPU4_0_HWCharacteristics_v0` -/
def HwInfo.vpu4_0 : HwInfo where
  nrMacs := 2048
  fpRatio := 2
  nrPpe := 64
  inputChannelsMac := 8
  cmxWordSizeBytes := 32
  dpuCmxNumReadPorts := 8
  cmxFclk := 971
  dpuFclk := 1700

namespace DPUTheoretical

/-! ### Padding -/

/-- The values of `i` in `for (int i = start; i > 0; i -= step)`. -/
def countdown (start : ℤ) (step : ℕ) : Option (List ℤ) :=
  Loop.visited (fun i => decide (0 < i)) (fun i => i32 (i - step)) start.toNat start

/-- The values of `i` and `j` in a loop that counts both down. -/
def countdown₂ (start start' : ℤ) (step step' : ℕ) : Option (List (ℤ × ℤ)) :=
  Loop.visited (fun p => decide (0 < p.1 ∧ 0 < p.2))
    (fun p => (i32 (p.1 - step), i32 (p.2 - step'))) start.toNat (start, start')

/-- `zeros += i` in each iteration. -/
def zeros (start : ℤ) (step : ℕ) : Option ℕ := do
  return (← countdown start step).foldl (fun zeros i => u32 (zeros + i)) 0

/-- What `cycles -= i * j` takes off in all iterations. -/
def doubleCounted (start start' : ℤ) (step step' : ℕ) : Option ℤ := do
  return ((← countdown₂ start start' step step').map fun p => p.1 * p.2).sum

/-- There is no result where a division by zero or a loop without an end is reached. -/
def paddingSkipCycles (wl : DPUWorkload) : Option ℕ := do
  let kw := wl.kernels.w
  let kh := wl.kernels.h
  let sw := wl.strides.w
  let sh := wl.strides.h
  if sw = 0 ∨ sh = 0 then none
  let pt := i32 wl.padding.top
  let pl := i32 wl.padding.left
  let ptZeros ← zeros pt sh
  let plZeros ← zeros pl sw
  let redge := wl.inputs.width % sw
  let bedge := wl.inputs.height % sh
  let pr := i32 (wl.padding.right - redge)
  let pb := i32 (wl.padding.bottom - bedge)
  let prZeros ← zeros pr sw
  let pbZeros ← zeros pb sh
  let ptCycles := (ptZeros * kw * ceilDivision wl.inputs.width sw : ℕ)
    - (← doubleCounted pt pl sh sw) - (← doubleCounted pt pr sh sw)
  let pbCycles := (pbZeros * kw * ceilDivision wl.inputs.width sw : ℕ)
    - (← doubleCounted pb pl sh sw) - (← doubleCounted pb pr sh sw)
  let plCycles := plZeros * kh * ceilDivision wl.inputs.height sh
  let prCycles := prZeros * kh * ceilDivision wl.inputs.height sh
  return ulong ((ptCycles + pbCycles + plCycles + prCycles) * wl.inputs.channels
    * wl.outputs.channels)

/-! ### Reads -/

/-- `mpe_mode_to_nthw_ntk_grid` -/
def mpeModeToNthwNtkGrid : ExecutionMode → Shape
  | .cuboid4x16 => ⟨8, 8, 256, 1⟩
  | .cuboid8x16 => ⟨16, 8, 128, 1⟩
  | .cuboid16x16 => ⟨16, 16, 64, 1⟩
  | .vector | .matrix | .vectorFp16 | .dCIM32x128 | .dCIM64x128 | .__size => ⟨1, 1, 1, 1⟩

/-- `compute_size_in_bytes<long>` of a size that fits. -/
def sizeInBytes (elementsCount : ℤ) (d : DataType) : ℤ :=
  if 0 < elementsCount ∧ 0 < dtypeToBytes d then
    if dtypeToBytes d = 1 then
      if 0 < typesPerByte d then
        let fullBytes := elementsCount.tdiv (typesPerByte d)
        if elementsCount.tmod (typesPerByte d) ≠ 0 then fullBytes + 1 else fullBytes
      else 0
    else elementsCount * dtypeToBytes d
  else 0

/-- Products of `double` values, from left to right. -/
def product (x : ℚ) (factors : List ℕ) : ℚ := factors.foldl (fun x n => roundDouble (x * n)) x

/-- `std::ceil((double)a / (double)b)` -/
def ceilQuotient (a b : ℕ) : ℚ := ⌈roundDouble ((a : ℚ) / b)⌉

def cmxReads (hw : HwInfo) (wl : DPUWorkload) : ℕ :=
  if wl.device = .vpu_2_0 ∨ wl.device = .vpu_2_1 then 0
  else
    let grid := mpeModeToNthwNtkGrid wl.executionOrder
    let numWtGrids := ceilQuotient wl.outputs.channels grid.z
    let numActGrids := roundDouble
      (ceilQuotient wl.outputs.height grid.y * ceilQuotient wl.outputs.width grid.x)
    let kernelArea := u32 (wl.kernels.w * wl.kernels.h)
    let elementsCountAct := ⌈product numWtGrids
      [wl.outputs.height, wl.outputs.width, wl.inputs.channels, kernelArea]⌉
    let elementsCountWt := ⌈product numActGrids
      [wl.outputs.channels, wl.inputs.channels, kernelArea]⌉
    let bytes := sizeInBytes elementsCountAct wl.inputs.dtype
      + sizeInBytes elementsCountWt wl.inputs.dtype
    let reads := roundDouble
      (roundDouble bytes / u32 (hw.cmxWordSizeBytes * hw.dpuCmxNumReadPorts))
    ⌈roundDouble (roundDouble (reads * hw.cmxFclk) / hw.dpuFclk)⌉.toNat

/-! ### Cycles -/

def isFp16familyDtype (d : DataType) : Bool := d = .float16 || d = .bfloat16

def nativeCompOnFp16 (wl : DPUWorkload) : Bool :=
  isFp16familyDtype wl.inputs.dtype || isFp16familyDtype (wl.weightType.getD wl.inputs.dtype)

/-- `multiply_vector` of a shape -/
def multiplyShape (s : Shape) : ℕ := u32 (s.x * s.y * s.z * s.b)

/-- Operations that multiply over the input channels. -/
def isConvolutionLike (op : Operation) : Prop :=
  op = .convolution ∨ op = .cmConvolution ∨ op = .reduceMs ∨ op = .reduceSumsquares

instance (op : Operation) : Decidable (isConvolutionLike op) := inferInstanceAs (Decidable (_ ∨ _))

/-- The multiplications, for an elementwise operation the cycles of the output unit. -/
def operations (hw : HwInfo) (wl : DPUWorkload) : Option ℕ :=
  if wl.op = .eltwise then
    let mt := if 1 < wl.outputWriteTiles then 2 else 1
    if hw.nrPpe / mt = 0 then none
    else some (ceilDivision (multiplyShape wl.inputs.shape) (hw.nrPpe / mt))
  else some (ulong (u32 (wl.kernels.w * wl.kernels.h) * multiplyShape wl.outputs.shape))

/-- `ceil_division<unsigned long>` -/
def ceilDivisionLong (a b : ℕ) : Option ℕ := if b = 0 then none else some (ulong (a + b - 1) / b)

/-- Without input channels in a multiplication the channels of a MAC are not used. -/
def macs (hw : HwInfo) (wl : DPUWorkload) : Option ℕ :=
  if isConvolutionLike wl.op then some hw.nrMacs
  else if hw.inputChannelsMac = 0 then none
  else some (hw.nrMacs / hw.inputChannelsMac)

def dpuTheoreticalCycles (hw : HwInfo) (wl : DPUWorkload) : Option ℕ := do
  let cycles ← operations hw wl
  let cycles ←
    if isConvolutionLike wl.op then
      (paddingSkipCycles wl).map fun skip =>
        ulong (ulong (cycles * wl.inputs.channels) - skip)
    else some cycles
  let cycles ← ceilDivisionLong cycles (← macs hw wl)
  let cycles := if nativeCompOnFp16 wl then ulong (cycles * hw.fpRatio) else cycles
  return max cycles (cmxReads hw wl)

/-! ### The loops -/

theorem ulong_natCast {n : ℕ} (h : n < 18446744073709551616) : ulong n = n := by
  rw [ulong]
  omega

theorem u32_u32_add (x y : ℤ) : u32 (u32 x + y) = u32 (x + y) := by
  rw [u32_eq_iff]
  unfold Int.ModEq u32
  omega

theorem sum_map_range (f : ℕ → ℤ) (n : ℕ) :
    ((List.range n).map f).sum = ∑ t ∈ Finset.range n, f t := by
  induction n with
  | zero => rfl
  | succ n ih =>
    rw [List.range_succ, List.map_append, List.sum_append, ih, Finset.sum_range_succ]
    simp

theorem foldl_u32 (l : List ℤ) {acc : ℕ} (h : acc < 4294967296) :
    l.foldl (fun zeros i => u32 (zeros + i)) acc = u32 (acc + l.sum) := by
  induction l generalizing acc with
  | nil => simp [u32_natCast h]
  | cons i l ih =>
    rw [List.foldl_cons, ih (u32_lt _), u32_u32_add, List.sum_cons, add_assoc]

/-- The steps that a loop counts down by. -/
structure Counts (start : ℤ) (step : ℕ) : Prop where
  step_pos : 0 < step
  step_lt : step < 2147483648
  start_lt : start < 65536
  start_ge : -2147483648 ≤ start

variable {start start' : ℤ} {step step' : ℕ}

theorem Counts.iterate (h : Counts start step) {t : ℕ} (ht : ∀ u < t, (u : ℤ) * step < start) :
    (fun i => i32 (i - step))^[t] start = start - t * step := by
  induction t with
  | zero => simp
  | succ t ih =>
    have hlt := ht t t.lt_succ_self
    have hsplit : ((t + 1 : ℕ) : ℤ) * step = t * step + step := by push_cast; ring
    have hnonneg : (0 : ℤ) ≤ t * step := by positivity
    have hstep := h.step_lt
    have hstart := h.start_lt
    rw [Function.iterate_succ_apply', ih fun u hu => ht u (Nat.lt_succ_of_lt hu), hsplit,
      i32_of_bounds (by omega) (by omega)]
    ring

/-- The number of iterations. -/
theorem exists_steps (start : ℤ) {step : ℕ} (h : 0 < step) :
    ∃ m : ℕ, (∀ t < m, (t : ℤ) * step < start) ∧ start ≤ m * step ∧ m ≤ start.toNat := by
  have hdiv := Nat.div_add_mod (start.toNat + step - 1) step
  have hmod := Nat.mod_lt (start.toNat + step - 1) h
  rw [Nat.mul_comm] at hdiv
  refine ⟨(start.toNat + step - 1) / step, fun t ht => ?_, ?_, ?_⟩
  · have hle := Nat.mul_le_mul_right step (Nat.succ_le_of_lt ht)
    rw [Nat.succ_mul] at hle
    have hnat : t * step < start.toNat := by omega
    zify at hnat
    omega
  · have hnat : start.toNat ≤ (start.toNat + step - 1) / step * step := by omega
    zify at hnat
    omega
  · by_contra! hlt
    have hle := Nat.mul_le_mul_right step (Nat.succ_le_of_lt hlt)
    have hstart := Nat.le_mul_of_pos_right start.toNat h
    rw [Nat.succ_mul] at hle
    omega

theorem countdown_eq (h : Counts start step) : ∃ m : ℕ, start ≤ m * step
    ∧ (∀ t < m, (t : ℤ) * step < start)
    ∧ countdown start step = some ((List.range m).map fun t : ℕ => start - t * step) := by
  obtain ⟨m, hlt, hle, hfuel⟩ := exists_steps start h.step_pos
  have hiterate : ∀ t ≤ m, (fun i => i32 (i - step))^[t] start = start - t * step :=
    fun t ht => h.iterate fun u hu => hlt u (by omega)
  refine ⟨m, hle, hlt, ?_⟩
  rw [countdown, Loop.visited_eq hfuel]
  · refine congrArg some (List.map_congr_left fun t ht => hiterate t ?_)
    exact (List.mem_range.mp ht).le
  · intro t ht
    rw [hiterate t ht.le, decide_eq_true_eq]
    have := hlt t ht
    omega
  · rw [hiterate m le_rfl, decide_eq_false_iff_not]
    omega

/-- The terms of a sum over a padding. -/
theorem cast_covered (start : ℤ) (step m : ℕ) (hlt : ∀ t < m, (t : ℤ) * step < start) :
    (covered start.toNat step m : ℤ) = ∑ t ∈ Finset.range m, (start - t * step) := by
  rw [covered, Nat.cast_sum]
  refine Finset.sum_congr rfl fun t ht => ?_
  have := hlt t (Finset.mem_range.mp ht)
  have hnonneg : (0 : ℤ) ≤ t * step := by positivity
  push_cast [Nat.cast_sub (show t * step ≤ start.toNat by zify; omega)]
  omega

/-- What the loop over a padding adds up. -/
theorem zeros_eq (h : Counts start step) {n : ℕ} (hn : start ≤ n * step) :
    zeros start step = some (covered start.toNat step n) := by
  obtain ⟨m, hm, hlt, hrun⟩ := countdown_eq h
  have hsmall : covered start.toNat step n < 4294967296 := by
    have hle := covered_le start.toNat n h.step_pos
    have hstart := h.start_lt
    have hsquare : start.toNat * start.toNat ≤ 65535 * 65535 := Nat.mul_le_mul (by omega) (by omega)
    omega
  have hcovered : covered start.toNat step m = covered start.toNat step n :=
    covered_eq (Int.toNat_le.mpr (by exact_mod_cast hm)) (Int.toNat_le.mpr (by exact_mod_cast hn))
  rw [zeros, hrun]
  simp only [Option.bind_eq_bind, Option.bind_some, Option.pure_def]
  rw [foldl_u32 _ (by norm_num), sum_map_range, ← cast_covered start step m hlt, hcovered,
    Nat.cast_zero, zero_add, u32_natCast hsmall]

/-- Both loops in step end with the shorter one. -/
theorem countdown₂_eq (h : Counts start step) (h' : Counts start' step') :
    ∃ m : ℕ, (start ≤ m * step ∨ start' ≤ m * step')
      ∧ (∀ t < m, (t : ℤ) * step < start ∧ (t : ℤ) * step' < start')
      ∧ countdown₂ start start' step step'
        = some ((List.range m).map fun t : ℕ => (start - t * step, start' - t * step')) := by
  obtain ⟨m, hlt, hle, hfuel⟩ := exists_steps start h.step_pos
  obtain ⟨m', hlt', hle', -⟩ := exists_steps start' h'.step_pos
  have hiterate : ∀ t ≤ min m m', (fun p : ℤ × ℤ => (i32 (p.1 - step), i32 (p.2 - step')))^[t]
      (start, start') = (start - t * step, start' - t * step') := by
    intro t ht
    have hmap : (fun p : ℤ × ℤ => (i32 (p.1 - step), i32 (p.2 - step')))
        = Prod.map (fun i => i32 (i - step)) fun i => i32 (i - step') := rfl
    rw [hmap, Prod.map_iterate, Prod.map_apply, h.iterate fun u hu => hlt u (by omega),
      h'.iterate fun u hu => hlt' u (by omega)]
  have hend : start ≤ (min m m' : ℕ) * step ∨ start' ≤ (min m m' : ℕ) * step' := by
    rcases le_total m m' with hm | hm
    · exact .inl (by rwa [min_eq_left hm])
    · exact .inr (by rwa [min_eq_right hm])
  refine ⟨min m m', hend, fun t ht => ⟨hlt t (by omega), hlt' t (by omega)⟩, ?_⟩
  rw [countdown₂, Loop.visited_eq (show min m m' ≤ start.toNat by omega)]
  · refine congrArg some (List.map_congr_left fun t ht => hiterate t ?_)
    exact (List.mem_range.mp ht).le
  · intro t ht
    rw [hiterate t ht.le, decide_eq_true_eq]
    have := hlt t (by omega)
    have := hlt' t (by omega)
    simp only
    omega
  · rw [hiterate _ le_rfl, decide_eq_false_iff_not]
    simp only
    omega

/-- What the loop over a corner takes off. -/
theorem doubleCounted_eq (h : Counts start step) (h' : Counts start' step') {n : ℕ}
    (hn : start ≤ n * step) :
    doubleCounted start start' step step'
      = some (diagonal start.toNat step start'.toNat step' n : ℤ) := by
  obtain ⟨m, hm, hlt, hrun⟩ := countdown₂_eq h h'
  have hdiagonal : diagonal start.toNat step start'.toNat step' m
      = diagonal start.toNat step start'.toNat step' n := by
    refine diagonal_eq ?_ (.inl (Int.toNat_le.mpr (by exact_mod_cast hn)))
    exact hm.imp (fun hm => Int.toNat_le.mpr (by exact_mod_cast hm))
      fun hm => Int.toNat_le.mpr (by exact_mod_cast hm)
  have hterm : ∀ t < m, ((start.toNat - t * step : ℕ) : ℤ) = start - t * step
      ∧ ((start'.toNat - t * step' : ℕ) : ℤ) = start' - t * step' := by
    intro t ht
    obtain ⟨h1, h2⟩ := hlt t ht
    have hnonneg : (0 : ℤ) ≤ t * step := by positivity
    have hnonneg' : (0 : ℤ) ≤ t * step' := by positivity
    refine ⟨?_, ?_⟩
    · push_cast [Nat.cast_sub (show t * step ≤ start.toNat by zify; omega)]
      omega
    · push_cast [Nat.cast_sub (show t * step' ≤ start'.toNat by zify; omega)]
      omega
  rw [doubleCounted, hrun, ← hdiagonal, diagonal, Nat.cast_sum]
  simp only [Option.bind_eq_bind, Option.bind_some, Option.pure_def, List.map_map]
  rw [sum_map_range]
  refine congrArg some (Finset.sum_congr rfl fun t ht => ?_)
  obtain ⟨h1, h2⟩ := hterm t (Finset.mem_range.mp ht)
  rw [Nat.cast_mul, h1, h2]
  rfl

/-! ### What is counted -/

/-- An axis of which the loops count the taps in the paddings: there are as many windows as steps in
    the input, and the remainder of the input says how far the last one reaches. -/
structure Counted (g : Geometry) : Prop where
  consistent : g.Consistent
  reached : g.Reached
  k_le : g.k ≤ 65535
  s_lt : g.s < 2147483648
  inp_le : g.inp + g.s ≤ 4294967296
  out_eq : g.out = (g.inp + g.s - 1) / g.s
  overlap_eq : g.overlap = g.padEnd - g.inp % g.s

/-- The value that the loop for the end padding starts from. -/
def endStart (g : Geometry) : ℤ := g.padEnd - (g.inp % g.s : ℕ)

variable {g g' : Geometry}

theorem Counted.counts (h : Counted g) :
    Counts g.padBegin g.s ∧ Counts (endStart g) g.s := by
  have hk := h.k_le
  have hs := h.s_lt
  have hbegin := h.consistent.padBegin_lt
  have hend := h.consistent.padEnd_lt
  have hmod := Nat.mod_lt g.inp h.consistent.s_pos
  exact ⟨⟨h.consistent.s_pos, hs, by omega, by omega⟩,
    ⟨h.consistent.s_pos, hs, by rw [endStart]; omega, by rw [endStart]; omega⟩⟩

theorem Counted.i32_eq (h : Counted g) :
    i32 g.padBegin = g.padBegin ∧ i32 (g.padEnd - (g.inp % g.s : ℕ)) = endStart g := by
  obtain ⟨hb, he⟩ := h.counts
  have := hb.start_lt
  have := he.start_lt
  have := he.start_ge
  exact ⟨i32_of_bounds (by omega) (by omega), i32_of_bounds (by rw [endStart] at *; omega)
    (by rw [endStart] at *; omega)⟩

theorem Counted.toNat_endStart (h : Counted g) : (endStart g).toNat = g.overlap := by
  rw [endStart, h.overlap_eq]
  omega

/-- Both starting values are reached by the steps of at least as many windows as there are. -/
theorem Counted.start_le (h : Counted g) {n : ℕ} (hn : g.out ≤ n) :
    (g.padBegin : ℤ) ≤ n * g.s ∧ endStart g ≤ n * g.s := by
  obtain ⟨hb, he⟩ := h.reached.mono hn
  refine ⟨by exact_mod_cast hb, ?_⟩
  rw [← h.toNat_endStart] at he
  have hcast : ((endStart g).toNat : ℤ) ≤ (n * g.s : ℕ) := by exact_mod_cast he
  push_cast at hcast
  omega

theorem Counted.zeros_eq (h : Counted g) :
    zeros g.padBegin g.s = some (covered g.padBegin g.s g.out)
      ∧ zeros (endStart g) g.s = some (covered g.overlap g.s g.out) := by
  obtain ⟨hb, he⟩ := h.counts
  obtain ⟨hb', he'⟩ := h.start_le le_rfl
  exact ⟨DPUTheoretical.zeros_eq hb hb', by rw [DPUTheoretical.zeros_eq he he', h.toNat_endStart]⟩

theorem Counted.doubleCounted_eq (h : Counted g) (h' : Counted g') :
    doubleCounted g.padBegin g'.padBegin g.s g'.s
        = some (diagonal g.padBegin g.s g'.padBegin g'.s (max g.out g'.out) : ℤ)
      ∧ doubleCounted g.padBegin (endStart g') g.s g'.s
        = some (diagonal g.padBegin g.s g'.overlap g'.s (max g.out g'.out) : ℤ)
      ∧ doubleCounted (endStart g) g'.padBegin g.s g'.s
        = some (diagonal g.overlap g.s g'.padBegin g'.s (max g.out g'.out) : ℤ)
      ∧ doubleCounted (endStart g) (endStart g') g.s g'.s
        = some (diagonal g.overlap g.s g'.overlap g'.s (max g.out g'.out) : ℤ) := by
  obtain ⟨hb, he⟩ := h.counts
  obtain ⟨hb', he'⟩ := h'.counts
  obtain ⟨hle, hle'⟩ := h.start_le (le_max_left g.out g'.out)
  have hend := h.toNat_endStart
  have hend' := h'.toNat_endStart
  refine ⟨?_, ?_, ?_, ?_⟩
  · exact DPUTheoretical.doubleCounted_eq hb hb' hle
  · rw [DPUTheoretical.doubleCounted_eq hb he' hle, hend', Int.toNat_natCast]
  · rw [DPUTheoretical.doubleCounted_eq he hb' hle', hend, Int.toNat_natCast]
  · rw [DPUTheoretical.doubleCounted_eq he he' hle', hend, hend']

theorem Counted.ceilDivision_eq (h : Counted g) : ceilDivision g.inp g.s = g.out := by
  have hs := h.consistent.s_pos
  have hinp := h.inp_le
  have hcast : ((g.inp : ℤ) + g.s - 1) = ((g.inp + g.s - 1 : ℕ) : ℤ) := by omega
  rw [ceilDivision, hcast, u32_natCast (by omega), h.out_eq]

/-- What is taken off: the taps outside of the input, and what the corners have in excess. -/
theorem paddingSkipCycles_eq {wl : DPUWorkload} (hh : Counted (wl.geometry .h))
    (hw : Counted (wl.geometry .w)) :
    paddingSkipCycles wl = some (ulong ((outsideTaps (wl.geometry .h) (wl.geometry .w)
      + cornerExcess (wl.geometry .h) (wl.geometry .w)) * wl.inputs.channels * wl.outputs.channels
      : ℕ)) := by
  have hstrides : ¬ (wl.strides.w = 0 ∨ wl.strides.h = 0) := by
    rintro (h | h)
    · exact absurd h (Nat.pos_iff_ne_zero.mp hw.consistent.s_pos)
    · exact absurd h (Nat.pos_iff_ne_zero.mp hh.consistent.s_pos)
  have hpt : i32 wl.padding.top = (wl.geometry .h).padBegin := hh.i32_eq.1
  have hpb : i32 (wl.padding.bottom - (wl.inputs.height % wl.strides.h : ℕ))
      = endStart (wl.geometry .h) := hh.i32_eq.2
  have hpl : i32 wl.padding.left = (wl.geometry .w).padBegin := hw.i32_eq.1
  have hpr : i32 (wl.padding.right - (wl.inputs.width % wl.strides.w : ℕ))
      = endStart (wl.geometry .w) := hw.i32_eq.2
  have hsh : wl.strides.h = (wl.geometry .h).s := rfl
  have hsw : wl.strides.w = (wl.geometry .w).s := rfl
  have hch : ceilDivision wl.inputs.height (wl.geometry .h).s = (wl.geometry .h).out :=
    hh.ceilDivision_eq
  have hcw : ceilDivision wl.inputs.width (wl.geometry .w).s = (wl.geometry .w).out :=
    hw.ceilDivision_eq
  obtain ⟨hzt, hzb⟩ := hh.zeros_eq
  obtain ⟨hzl, hzr⟩ := hw.zeros_eq
  obtain ⟨htl, htr, hbl, hbr⟩ := hh.doubleCounted_eq hw
  simp only [paddingSkipCycles, if_neg hstrides, hpt, hpb, hpl, hpr]
  simp only [hsh, hsw, hzt, hzb, hzl, hzr, htl, htr, hbl, hbr, hch, hcw, Option.bind_eq_bind,
    Option.bind_some, Option.pure_def]
  refine congrArg (fun x => some (ulong x)) ?_
  have houtside := outsideTaps_add_mul hh.consistent hw.consistent
  rw [← cornerDiagonals_add_cornerExcess hh.reached hw.reached, cornerDiagonals,
    Geometry.padTaps, Geometry.padTaps] at houtside
  zify at houtside
  have hkh : (wl.geometry .h).k = wl.kernels.h := rfl
  have hkw : (wl.geometry .w).k = wl.kernels.w := rfl
  rw [hkh, hkw] at houtside
  push_cast
  refine congrArg₂ (· * ·) (congrArg₂ (· * ·) ?_ rfl) rfl
  linarith

/-! ### Results -/

/-- The products that are computed for a workload fit into their types. -/
structure Fits (hw : HwInfo) (wl : DPUWorkload) : Prop where
  kernel : wl.kernels.w * wl.kernels.h < 4294967296
  output : wl.outputs.width * wl.outputs.height * wl.outputs.channels < 4294967296
  operations : 2 * (wl.kernels.h * wl.outputs.height * (wl.kernels.w * wl.outputs.width)
    * wl.inputs.channels * wl.outputs.channels) < 18446744073709551616
  macs : wl.kernels.h * wl.outputs.height * (wl.kernels.w * wl.outputs.width)
    * wl.inputs.channels * wl.outputs.channels + hw.nrMacs ≤ 18446744073709551616
  cycles : wl.kernels.h * wl.outputs.height * (wl.kernels.w * wl.outputs.width)
    * wl.inputs.channels * wl.outputs.channels * hw.fpRatio < 18446744073709551616

variable {hw : HwInfo} {wl : DPUWorkload}

/-- All taps of a workload, with a multiplication for each input and each output channel. -/
theorem taps_mul (wl : DPUWorkload) :
    insideTaps (wl.geometry .h) (wl.geometry .w) * wl.inputs.channels * wl.outputs.channels
        + outsideTaps (wl.geometry .h) (wl.geometry .w) * wl.inputs.channels * wl.outputs.channels
      = wl.kernels.h * wl.outputs.height * (wl.kernels.w * wl.outputs.width) * wl.inputs.channels
        * wl.outputs.channels := by
  have hall : insideTaps (wl.geometry .h) (wl.geometry .w)
      + outsideTaps (wl.geometry .h) (wl.geometry .w)
      = wl.kernels.h * wl.outputs.height * (wl.kernels.w * wl.outputs.width) :=
    insideTaps_add_outsideTaps _ _
  rw [← hall]
  ring

/-- The padding is never counted too low, and it is counted right exactly where no corner has more
    than one step of padding along one axis and some along the other. -/
theorem paddingSkipCycles_spec (hh : Counted (wl.geometry .h)) (hv : Counted (wl.geometry .w))
    (hfit : 2 * (wl.kernels.h * wl.outputs.height * (wl.kernels.w * wl.outputs.width)
      * wl.inputs.channels * wl.outputs.channels) < 18446744073709551616)
    (hin : 0 < wl.inputs.channels) (hout : 0 < wl.outputs.channels) :
    ∃ skip, paddingSkipCycles wl = some skip
      ∧ outsideTaps (wl.geometry .h) (wl.geometry .w) * wl.inputs.channels * wl.outputs.channels
        ≤ skip
      ∧ (skip = outsideTaps (wl.geometry .h) (wl.geometry .w) * wl.inputs.channels
          * wl.outputs.channels ↔ SingleCorners (wl.geometry .h) (wl.geometry .w)) := by
  have hexcess : cornerExcess (wl.geometry .h) (wl.geometry .w)
      ≤ wl.kernels.h * wl.outputs.height * (wl.kernels.w * wl.outputs.width) :=
    cornerExcess_le hh.consistent hv.consistent hh.reached hv.reached
  have hexcess' : cornerExcess (wl.geometry .h) (wl.geometry .w)
      * (wl.inputs.channels * wl.outputs.channels)
      ≤ wl.kernels.h * wl.outputs.height * (wl.kernels.w * wl.outputs.width) * wl.inputs.channels
        * wl.outputs.channels := by
    rw [Nat.mul_assoc _ wl.inputs.channels]
    exact Nat.mul_le_mul_right _ hexcess
  have hall := taps_mul wl
  rw [← cornerExcess_eq_zero_iff hh.reached hv.reached, paddingSkipCycles_eq hh hv]
  generalize outsideTaps (wl.geometry .h) (wl.geometry .w) = outside at *
  generalize cornerExcess (wl.geometry .h) (wl.geometry .w) = excess at *
  have hsum : (outside + excess) * wl.inputs.channels * wl.outputs.channels
      = outside * wl.inputs.channels * wl.outputs.channels
        + excess * (wl.inputs.channels * wl.outputs.channels) := by
    ring
  refine ⟨(outside + excess) * wl.inputs.channels * wl.outputs.channels, ?_, by omega, ?_⟩
  · rw [hsum, ulong_natCast (by omega)]
  · rw [hsum, Nat.add_eq_left, Nat.mul_eq_zero]
    exact ⟨fun h => h.resolve_right (Nat.mul_pos hin hout).ne', .inl⟩

theorem isConvolutionLike.ne_eltwise (h : isConvolutionLike wl.op) : wl.op ≠ .eltwise := by
  rintro heq
  rw [heq] at h
  exact absurd h (by decide)

theorem operations_eq (h : wl.op ≠ .eltwise) (hbatch : wl.outputs.batches = 1)
    (hfit : Fits hw wl) :
    operations hw wl = some (ulong (wl.kernels.h * wl.outputs.height
      * (wl.kernels.w * wl.outputs.width) * wl.outputs.channels : ℕ)) := by
  have hshape : multiplyShape wl.outputs.shape
      = wl.outputs.width * wl.outputs.height * wl.outputs.channels := by
    have hcast : ((wl.outputs.shape.x * wl.outputs.shape.y * wl.outputs.shape.z
        * wl.outputs.shape.b : ℕ) : ℤ) = (wl.outputs.width * wl.outputs.height
          * wl.outputs.channels : ℕ) := by
      rw [show wl.outputs.shape.b = 1 from hbatch, Nat.mul_one]
      rfl
    push_cast at hcast
    rw [multiplyShape, hcast]
    exact_mod_cast u32_natCast hfit.output
  have hkernel : u32 ((wl.kernels.w : ℤ) * wl.kernels.h) = wl.kernels.w * wl.kernels.h := by
    exact_mod_cast u32_natCast hfit.kernel
  rw [operations, if_neg h, hshape, hkernel]
  refine congrArg (fun x => some (ulong x)) ?_
  push_cast
  ring

theorem ulong_modEq (x : ℤ) : (ulong x : ℤ) ≡ x [ZMOD 18446744073709551616] := by
  unfold Int.ModEq ulong
  omega

theorem ulong_congr {x y : ℤ} (h : x ≡ y [ZMOD 18446744073709551616]) : ulong x = ulong y := by
  rw [ulong, h, ulong]

theorem ulong_ulong_mul_sub (x y z : ℤ) :
    ulong (ulong (ulong x * y) - z) = ulong (x * y - z) :=
  ulong_congr (((ulong_modEq _).trans ((ulong_modEq x).mul_right y)).sub_right z)

theorem ceilQuotient_le (a : ℕ) {b : ℕ} (hb : 0 < b) : (a + b - 1) / b ≤ a := by
  rcases Nat.eq_zero_or_pos a with rfl | ha
  · rw [Nat.zero_add, Nat.div_eq_of_lt (Nat.sub_lt hb Nat.one_pos)]
  · refine Nat.div_le_of_le_mul ?_
    obtain ⟨m, rfl⟩ : ∃ m, a = m + 1 := ⟨a - 1, by omega⟩
    obtain ⟨n, rfl⟩ : ∃ n, b = n + 1 := ⟨b - 1, by omega⟩
    have hexpand : (n + 1) * (m + 1) = n * m + n + m + 1 := by ring
    omega

/-- A convolution is given the cycles of the taps that are in the input. -/
theorem dpuTheoreticalCycles_convolution (hop : isConvolutionLike wl.op)
    (hh : Counted (wl.geometry .h)) (hv : Counted (wl.geometry .w))
    (hcorners : SingleCorners (wl.geometry .h) (wl.geometry .w)) (hbatch : wl.outputs.batches = 1)
    (hfit : Fits hw wl) (hmacs : 0 < hw.nrMacs) :
    dpuTheoreticalCycles hw wl
      = some (max ((insideTaps (wl.geometry .h) (wl.geometry .w) * wl.inputs.channels
          * wl.outputs.channels + hw.nrMacs - 1) / hw.nrMacs
          * if nativeCompOnFp16 wl then hw.fpRatio else 1) (cmxReads hw wl)) := by
  have hall := taps_mul wl
  have hfitMacs := hfit.macs
  have hfitOperations := hfit.operations
  have hfitCycles := hfit.cycles
  have hexcess := (cornerExcess_eq_zero_iff hh.reached hv.reached).mpr hcorners
  have hskip := paddingSkipCycles_eq hh hv
  rw [hexcess, Nat.add_zero, ulong_natCast (by omega)] at hskip
  have hoperations := operations_eq hop.ne_eltwise hbatch hfit
  rw [← hall] at hfitMacs hfitCycles
  have hcycles : ulong (ulong (ulong (wl.kernels.h * wl.outputs.height
        * (wl.kernels.w * wl.outputs.width) * wl.outputs.channels : ℕ) * wl.inputs.channels)
        - (outsideTaps (wl.geometry .h) (wl.geometry .w) * wl.inputs.channels
          * wl.outputs.channels : ℕ))
      = insideTaps (wl.geometry .h) (wl.geometry .w) * wl.inputs.channels
          * wl.outputs.channels := by
    rw [ulong_ulong_mul_sub, ← ulong_natCast (show insideTaps (wl.geometry .h) (wl.geometry .w)
      * wl.inputs.channels * wl.outputs.channels < 18446744073709551616 by omega)]
    refine congrArg ulong ?_
    zify at hall
    push_cast
    linarith
  generalize insideTaps (wl.geometry .h) (wl.geometry .w) * wl.inputs.channels
    * wl.outputs.channels = inside at *
  generalize outsideTaps (wl.geometry .h) (wl.geometry .w) * wl.inputs.channels
    * wl.outputs.channels = outside at *
  have hceil : ceilDivisionLong inside hw.nrMacs
      = some ((inside + hw.nrMacs - 1) / hw.nrMacs) := by
    have hcast : (inside : ℤ) + hw.nrMacs - 1 = ((inside + hw.nrMacs - 1 : ℕ) : ℤ) := by omega
    rw [ceilDivisionLong, if_neg hmacs.ne', hcast, ulong_natCast (by omega)]
  have hfp : ulong (((inside + hw.nrMacs - 1) / hw.nrMacs : ℕ) * hw.fpRatio)
      = (inside + hw.nrMacs - 1) / hw.nrMacs * hw.fpRatio := by
    have hle := Nat.mul_le_mul_right hw.fpRatio (ceilQuotient_le inside hmacs)
    rw [Nat.add_mul] at hfitCycles
    exact_mod_cast ulong_natCast (show (inside + hw.nrMacs - 1) / hw.nrMacs * hw.fpRatio
      < 18446744073709551616 by omega)
  rw [dpuTheoreticalCycles, hoperations, hskip, macs, if_pos hop]
  simp only [Option.bind_eq_bind, Option.bind_some, if_pos hop, Option.map_some, hcycles, hceil,
    Option.pure_def]
  split_ifs
  · rw [hfp]
  · rw [Nat.mul_one]

/-- A convolution with as many rows and columns in its output as in its input. -/
def sameConvolution : DPUWorkload where
  device := .vpu_4_0
  op := .convolution
  inputs := { shape := ⟨16, 16, 16, 1⟩ }
  outputs := { shape := ⟨16, 16, 32, 1⟩ }
  kernels := ⟨3, 3⟩
  strides := ⟨1, 1⟩
  padding := ⟨1, 1, 1, 1⟩
  executionOrder := .cuboid16x16

theorem counted_sameConvolution (a : Axis) : Counted (sameConvolution.geometry a) := by
  cases a <;>
    exact ⟨by decide, ⟨by decide, by decide⟩, by decide, by decide, by decide, by decide, by decide⟩

theorem paddingSkipCycles_sameConvolution :
    paddingSkipCycles sameConvolution = some (outsideTaps (sameConvolution.geometry .h)
      (sameConvolution.geometry .w) * sameConvolution.inputs.channels
        * sameConvolution.outputs.channels) := by
  obtain ⟨skip, hskip, -, hexact⟩ := paddingSkipCycles_spec (counted_sameConvolution .h)
    (counted_sameConvolution .w) (by decide) (by decide) (by decide)
  rw [hskip]
  exact congrArg some (hexact.mpr (by decide))

theorem dpuTheoreticalCycles_sameConvolution :
    dpuTheoreticalCycles .vpu4_0 sameConvolution
      = some (max ((insideTaps (sameConvolution.geometry .h) (sameConvolution.geometry .w)
        * sameConvolution.inputs.channels * sameConvolution.outputs.channels
        + HwInfo.vpu4_0.nrMacs - 1) / HwInfo.vpu4_0.nrMacs
        * if nativeCompOnFp16 sameConvolution then HwInfo.vpu4_0.fpRatio else 1)
        (cmxReads .vpu4_0 sameConvolution)) :=
  dpuTheoreticalCycles_convolution (.inl rfl) (counted_sameConvolution .h)
    (counted_sameConvolution .w) (by decide) rfl
    ⟨by decide, by decide, by decide, by decide, by decide⟩ (by decide)

end DPUTheoretical

end Vpunn
