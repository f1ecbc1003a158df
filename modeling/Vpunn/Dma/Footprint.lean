import Vpunn.Dma.Fidelity

/-! The memory that a `VPUDMATensor` touches (`dma_descriptors.h`): its accessed and contiguous
    bytes, the chunks, and the span `getMemoryFootprintBytes`.

    All four are compared with the address of each element. They describe it, except that the
    contiguous bytes of a tensor without elements are those before the first gap, if the walk meets
    a gap before it meets the empty dimension. -/

namespace Vpunn
open MachineInt Strided

namespace VPUDMATensor

/-! ### The footprint -/

/-- `abs_stride` -/
def absStride (d : Dim ℤ) : ℤ := if 0 ≤ d.stride then d.stride else i32 (-d.stride)

/-- The innermost dimension has its stride reserved for every element. -/
def innermostFootprint (elemBytes : ℤ) (d : Dim ℤ) : ℤ :=
  if absStride d = 0 then elemBytes
  else if 1 < d.count then mul32 d.count (absStride d)
  else mul32 d.count elemBytes

/-- Every other dimension adds the steps along it. -/
def outerFootprint (footprint : ℤ) (ds : List (Dim ℤ)) : ℤ :=
  ds.foldl (fun footprint d => i32 (footprint + mul32 (i32 (d.count - 1)) (absStride d))) footprint

def getMemoryFootprintBytes (t : VPUDMATensor) : ℤ :=
  if t.dims = [] then 0
  else if dtypeToBytes t.dtype ≤ 0 then 0
  else if t.innermostFirst.any (·.count = 0) then 0
  else
    match t.innermostFirst with
    | [] => 0
    | d :: ds => outerFootprint (innermostFootprint (dtypeToBytes t.dtype) d) ds

/-! ### What the sizes are about -/

/-- The number of elements. -/
def elementCount (t : VPUDMATensor) : ℕ := elements t.innermostFirst

/-- The byte offset of the `i`-th element in row-major order. -/
def addr (t : VPUDMATensor) (i : ℕ) : ℤ := address t.innermostFirst i

/-- The elements up to the `m`-th lie back to back. -/
def Contiguous (t : VPUDMATensor) (m : ℕ) : Prop :=
  m ≤ t.elementCount ∧ ∀ i < m, t.addr i = t.addr 0 + i * dtypeToBytes t.dtype

/-- The sizes of a tensor with elements describe where these lie. -/
structure Describes (t : VPUDMATensor) : Prop where
  contiguous : ∃ m : ℕ, t.getContiguousBytes = m * dtypeToBytes t.dtype
    ∧ IsGreatest {m | t.Contiguous m} m
  dvd : t.getContiguousBytes ∣ t.getAccessedBytes
  chunks : t.getNumContiguousChunks * t.getContiguousBytes = t.getAccessedBytes
  footprint_eq : t.getNumContiguousChunks = 1 → t.getMemoryFootprintBytes = t.getAccessedBytes
  span_le : (∀ d ∈ t.innermostFirst.head?,
      d.count = 1 ∨ d.stride = 0 ∨ dtypeToBytes t.dtype ≤ |d.stride|) →
    ∀ i < t.elementCount, ∀ j < t.elementCount,
      t.addr i + dtypeToBytes t.dtype - t.addr j ≤ t.getMemoryFootprintBytes

/-- The sizes of a tensor without elements are `0`. -/
structure AllZero (t : VPUDMATensor) : Prop where
  accessed : t.getAccessedBytes = 0
  contiguous : t.getContiguousBytes = 0
  chunks : t.getNumContiguousChunks = 0
  footprint : t.getMemoryFootprintBytes = 0

/-- The part of the innermost dimension without a bound on the result. -/
def exactInnermost (elemBytes : ℤ) (d : Dim ℤ) : ℤ :=
  if d.stride = 0 then elemBytes
  else if 1 < d.count then d.count * |d.stride|
  else d.count * elemBytes

/-- The footprint without a bound on the result. -/
def exactFootprint (elemBytes : ℤ) : List (Dim ℤ) → ℤ
  | [] => 0
  | d :: ds => exactInnermost elemBytes d + reach ds

/-- Nothing that is computed for a tensor with elements exceeds the range of `int32_t`. -/
structure NoOverflow (t : VPUDMATensor) : Prop where
  strides : ∀ d ∈ t.dims, d.stride ≠ -2147483648
  rounding : total (· * ·) (dtypeToBytes t.dtype) t.innermostFirst
    + run (· * ·) 1 (dtypeToBytes t.dtype) t.innermostFirst - 1 < 2147483648
  footprint : exactFootprint (dtypeToBytes t.dtype) t.innermostFirst < 2147483648

/-! ### Without overflow -/

theorem total_mul32_eq {c : ℤ} (hc : 0 ≤ c) {ds : List (Dim ℤ)} (h : ∀ d ∈ ds, 1 ≤ d.count)
    (hfit : total (· * ·) c ds < 2147483648) : total mul32 c ds = total (· * ·) c ds := by
  induction ds generalizing c with
  | nil => rfl
  | cons d ds ih =>
    obtain ⟨hd, hds⟩ := List.forall_mem_cons.mp h
    have hpos : 0 ≤ c * d.count := mul_nonneg hc (by omega)
    rw [total_cons] at hfit ⊢
    have hle := le_total hpos hds
    rw [mul32, i32_of_bounds (by omega) (by omega), total_cons]
    exact ih hpos hds hfit

theorem run_mul32_eq {c : ℤ} (hc : 0 ≤ c) {ds : List (Dim ℤ)} (h : ∀ d ∈ ds, 1 ≤ d.count)
    (hfit : total (· * ·) c ds < 2147483648) : run mul32 1 c ds = run (· * ·) 1 c ds := by
  induction ds generalizing c with
  | nil => rfl
  | cons d ds ih =>
    obtain ⟨hd, hds⟩ := List.forall_mem_cons.mp h
    have hpos : 0 ≤ c * d.count := mul_nonneg hc (by omega)
    rw [total_cons] at hfit
    have hle := le_total hpos hds
    unfold run
    split_ifs with hone hstride
    · exact ih hc hds (by rwa [hone, mul_one] at hfit)
    · rw [mul32, i32_of_bounds (by omega) (by omega)]
      exact ih hpos hds hfit
    · rfl

theorem absStride_eq {d : Dim ℤ} (h : InI32 d.stride) (hmin : d.stride ≠ -2147483648) :
    absStride d = |d.stride| := by
  unfold InI32 at h
  unfold absStride
  split_ifs with hsign
  · exact (abs_of_nonneg hsign).symm
  · rw [i32_of_bounds (by omega) (by omega), abs_of_neg (by omega)]

theorem reach_nonneg {ds : List (Dim ℤ)} (h : ∀ d ∈ ds, 1 ≤ d.count) : 0 ≤ reach ds := by
  have := address_sub_le h (elements_pos h) (elements_pos h)
  simpa using this

theorem outerFootprint_eq {footprint : ℤ} (hf : 0 ≤ footprint) {ds : List (Dim ℤ)}
    (h : ∀ d ∈ ds, 1 ≤ d.count) (hrep : ∀ d ∈ ds, InI32 d.count ∧ InI32 d.stride)
    (hmin : ∀ d ∈ ds, d.stride ≠ -2147483648) (hfit : footprint + reach ds < 2147483648) :
    outerFootprint footprint ds = footprint + reach ds := by
  induction ds generalizing footprint with
  | nil => simp [outerFootprint, reach]
  | cons d ds ih =>
    obtain ⟨hd, hds⟩ := List.forall_mem_cons.mp h
    obtain ⟨⟨hcount, hstride⟩, hreps⟩ := List.forall_mem_cons.mp hrep
    obtain ⟨hdmin, hmins⟩ := List.forall_mem_cons.mp hmin
    have hstep : 0 ≤ (d.count - 1) * |d.stride| := mul_nonneg (by omega) (abs_nonneg _)
    have hrest := reach_nonneg hds
    rw [reach_cons] at hfit ⊢
    unfold InI32 at hcount
    have hnext : i32 (footprint + mul32 (i32 (d.count - 1)) (absStride d))
        = footprint + (d.count - 1) * |d.stride| := by
      rw [absStride_eq hstride hdmin, mul32, i32_of_bounds (x := d.count - 1) (by omega) (by omega),
        i32_of_bounds (x := (d.count - 1) * |d.stride|) (by omega) (by omega),
        i32_of_bounds (by omega) (by omega)]
    rw [outerFootprint, List.foldl_cons, hnext, ← outerFootprint,
      ih (by omega) hds hreps hmins (by omega), add_assoc]

theorem exactInnermost_pos {elemBytes : ℤ} (hbytes : 0 < elemBytes) {d : Dim ℤ}
    (hd : 1 ≤ d.count) : 0 < exactInnermost elemBytes d := by
  unfold exactInnermost
  split_ifs with h0 hcount
  · exact hbytes
  · exact Int.mul_pos (by omega) (abs_pos.mpr h0)
  · exact Int.mul_pos (by omega) hbytes

theorem innermostFootprint_eq {elemBytes : ℤ} (hbytes : 0 < elemBytes) {d : Dim ℤ}
    (hd : 1 ≤ d.count) (habs : absStride d = |d.stride|)
    (hfit : exactInnermost elemBytes d < 2147483648) :
    innermostFootprint elemBytes d = exactInnermost elemBytes d := by
  have hpos := exactInnermost_pos hbytes hd
  unfold innermostFootprint exactInnermost mul32 at *
  simp only [habs, abs_eq_zero] at *
  split_ifs at hfit hpos ⊢
  · rfl
  · exact i32_of_bounds (by omega) (by omega)
  · exact i32_of_bounds (by omega) (by omega)

/-- The innermost part covers the steps along it and one element, if an element fits in a step. -/
theorem le_exactInnermost {elemBytes : ℤ} {d : Dim ℤ} (hd : 1 ≤ d.count)
    (h : d.count = 1 ∨ d.stride = 0 ∨ elemBytes ≤ |d.stride|) :
    elemBytes + (d.count - 1) * |d.stride| ≤ exactInnermost elemBytes d := by
  unfold exactInnermost
  split_ifs with h0 hcount
  · simp [h0]
  · have hle : elemBytes ≤ |d.stride| := by
      rcases h with h | h | h
      · omega
      · exact absurd h h0
      · exact h
    linarith
  · have hone : d.count = 1 := by omega
    simp [hone]

theorem exactInnermost_eq {elemBytes : ℤ} {d : Dim ℤ} (hd : 1 ≤ d.count)
    (h : d.count = 1 ∨ |d.stride| = elemBytes) :
    exactInnermost elemBytes d = elemBytes + (d.count - 1) * |d.stride| := by
  unfold exactInnermost
  split_ifs with h0 hcount
  · simp [h0]
  · rw [h.resolve_left (by omega)]
    ring
  · have hone : d.count = 1 := by omega
    simp [hone]

/-- A packed tensor has no memory that is not accessed. -/
theorem exactFootprint_eq_total {elemBytes : ℤ} (hbytes : 0 < elemBytes) {ds : List (Dim ℤ)}
    (hne : ds ≠ []) (h : ∀ d ∈ ds, 1 ≤ d.count)
    (hrun : run (· * ·) 1 elemBytes ds = total (· * ·) elemBytes ds) :
    exactFootprint elemBytes ds = total (· * ·) elemBytes ds := by
  rw [← add_reach_eq_total hbytes h hrun]
  obtain ⟨d, ds, rfl⟩ := List.exists_cons_of_ne_nil hne
  obtain ⟨hd, hds⟩ := List.forall_mem_cons.mp h
  have hpacked : d.count = 1 ∨ |d.stride| = elemBytes := by
    by_contra hnot
    obtain ⟨hone, hstride⟩ := not_or.mp hnot
    have hgap : d.stride ≠ elemBytes := fun heq => hstride (by rw [heq, abs_of_pos hbytes])
    have hle := le_total (Int.mul_pos hbytes (show 0 < d.count by omega)).le hds
    have : elemBytes * 2 ≤ elemBytes * d.count := by
      have : 2 ≤ d.count := by omega
      gcongr
    rw [run, if_neg hone, if_neg hgap, total_cons] at hrun
    omega
  rw [exactFootprint, exactInnermost_eq hd hpacked, reach_cons, add_assoc]

/-! ### Tensors with elements -/

section Full

variable {t : VPUDMATensor}

theorem getMemoryFootprintBytes_eq (hsane : VPUDMADescriptor.SaneSide t) (hrep : t.Representable)
    (hdims : t.dims ≠ []) (hfull : ∀ d ∈ t.innermostFirst, 1 ≤ d.count) (hno : t.NoOverflow) :
    t.getMemoryFootprintBytes = exactFootprint (dtypeToBytes t.dtype) t.innermostFirst := by
  obtain ⟨hbytes, -⟩ := dtypeToBytes_pos hsane.byteAligned
  have hnone : t.innermostFirst.any (·.count = 0) = false := by
    simp only [List.any_eq_false, decide_eq_true_eq]
    intro d hd
    have := hfull d hd
    omega
  have hmem : ∀ d ∈ t.innermostFirst, d ∈ t.dims := fun d hd => List.mem_reverse.mp hd
  have hfit := hno.footprint
  unfold getMemoryFootprintBytes
  rw [if_neg hdims, if_neg (not_le.mpr hbytes), hnone, if_neg (by decide)]
  cases hinner : t.innermostFirst with
  | nil => exact absurd (List.reverse_eq_nil_iff.mp hinner) hdims
  | cons d ds =>
    rw [hinner] at hfull hmem hfit
    obtain ⟨hd, hds⟩ := List.forall_mem_cons.mp hfull
    obtain ⟨hdmem, hdsmem⟩ := List.forall_mem_cons.mp hmem
    have hreach := reach_nonneg hds
    have hpos := exactInnermost_pos hbytes hd
    rw [exactFootprint] at hfit ⊢
    dsimp only
    rw [innermostFootprint_eq hbytes hd (absStride_eq (hrep d hdmem).2 (hno.strides d hdmem))
      (by omega)]
    exact outerFootprint_eq hpos.le hds (fun e he => hrep e (hdsmem e he))
      (fun e he => hno.strides e (hdsmem e he)) hfit

/-- In a tensor with elements all sizes are the exact ones. -/
theorem sizes_eq (hsane : VPUDMADescriptor.SaneSide t) (hrep : t.Representable)
    (hdims : t.dims ≠ []) (hfull : ∀ d ∈ t.innermostFirst, 1 ≤ d.count) (hno : t.NoOverflow) :
    t.getAccessedBytes = total (· * ·) (dtypeToBytes t.dtype) t.innermostFirst
      ∧ t.getContiguousBytes = run (· * ·) 1 (dtypeToBytes t.dtype) t.innermostFirst
      ∧ t.getNumContiguousChunks
        = (t.getAccessedBytes + t.getContiguousBytes - 1).tdiv t.getContiguousBytes := by
  obtain ⟨hbytes, -⟩ := dtypeToBytes_pos hsane.byteAligned
  obtain ⟨p, hrun, hp, -⟩ := run_eq_mul (dtypeToBytes t.dtype) hfull
  have hrunPos : 0 < run (· * ·) 1 (dtypeToBytes t.dtype) t.innermostFirst := by
    rw [hrun]; exact Int.mul_pos (by exact_mod_cast hp) hbytes
  have hround := hno.rounding
  have htotal : total (· * ·) (dtypeToBytes t.dtype) t.innermostFirst < 2147483648 := by omega
  have htotalPos := le_total hbytes.le hfull
  have haccessed := (getAccessedBytes_eq_total hsane hrep hdims).trans
    (total_mul32_eq hbytes.le hfull htotal)
  have hcontiguous : t.getContiguousBytes
      = run (· * ·) 1 (dtypeToBytes t.dtype) t.innermostFirst := by
    rw [getContiguousBytes, if_neg hdims, if_neg (not_le.mpr hbytes),
      contiguousBytesFrom_eq_run fun d hd => by have := hfull d hd; omega,
      run_mul32_eq hbytes.le hfull htotal]
  refine ⟨haccessed, hcontiguous, ?_⟩
  rw [getNumContiguousChunks, numContiguousChunks, if_neg (by omega), haccessed, hcontiguous,
    i32_of_bounds (by omega) (by omega)]

theorem describes (hsane : VPUDMADescriptor.SaneSide t) (hrep : t.Representable)
    (hdims : t.dims ≠ []) (hfull : ∀ d ∈ t.innermostFirst, 1 ≤ d.count) (hno : t.NoOverflow) :
    t.Describes := by
  obtain ⟨hbytes, -⟩ := dtypeToBytes_pos hsane.byteAligned
  obtain ⟨haccessed, hcontiguous, hchunks⟩ := sizes_eq hsane hrep hdims hfull hno
  have hfootprint := getMemoryFootprintBytes_eq hsane hrep hdims hfull hno
  obtain ⟨p, hrun, hp, ⟨q, hq⟩, haddr, hlast⟩ := run_eq_mul (dtypeToBytes t.dtype) hfull
  have hinner : t.innermostFirst ≠ [] := fun h => hdims (List.reverse_eq_nil_iff.mp h)
  -- The packed block is repeated `q` times.
  have hwhole : t.getAccessedBytes = t.getContiguousBytes * q := by
    rw [haccessed, hcontiguous, hrun, total_eq_mul_elements _ hfull, hq]
    push_cast
    ring
  have hpositive : 0 < t.getContiguousBytes := by
    rw [hcontiguous, hrun]; exact Int.mul_pos (by exact_mod_cast hp) hbytes
  have hcount : t.getNumContiguousChunks = q := by
    have hnonneg : 0 ≤ t.getContiguousBytes * (q : ℤ) := by positivity
    rw [hchunks, hwhole, Int.tdiv_eq_ediv_of_nonneg (by omega), add_sub_assoc, add_comm,
      Int.add_mul_ediv_left _ _ hpositive.ne', Int.ediv_eq_zero_of_lt (by omega) (by omega),
      zero_add]
  refine ⟨⟨p, hcontiguous.trans hrun, ?_, ?_⟩, ⟨q, hwhole⟩, ?_, ?_, ?_⟩
  · exact ⟨Nat.le_of_dvd (elements_pos hfull) ⟨q, hq⟩, fun i hi => by
      rw [addr, addr, address_zero, haddr i hi, zero_add]⟩
  · rintro m ⟨hm, hback⟩
    by_contra hlt
    rcases hlast with hall | hgap
    · exact hlt (hm.trans hall.ge)
    · refine hgap ?_
      have := hback p (not_le.mp hlt)
      rwa [addr, addr, address_zero, zero_add] at this
  · rw [hcount, hwhole, mul_comm]
  · intro hone
    have hpacked : run (· * ·) 1 (dtypeToBytes t.dtype) t.innermostFirst
        = total (· * ·) (dtypeToBytes t.dtype) t.innermostFirst := by
      rw [← haccessed, ← hcontiguous, hwhole, ← hcount, hone, mul_one]
    rw [hfootprint, exactFootprint_eq_total hbytes hinner hfull hpacked, haccessed]
  · intro hhead i hi j hj
    have hspan := address_sub_le hfull hi hj
    obtain ⟨d, ds, hcons⟩ := List.exists_cons_of_ne_nil hinner
    have hd : 1 ≤ d.count := hfull d (by rw [hcons]; exact List.mem_cons_self)
    have hle := le_exactInnermost hd (hhead d (by rw [hcons]; rfl))
    rw [hfootprint]
    unfold addr
    rw [hcons] at hspan ⊢
    rw [reach_cons] at hspan
    rw [exactFootprint]
    linarith

end Full

/-! ### Tensors without elements -/

theorem allZero_iff {t : VPUDMATensor} (hsane : VPUDMADescriptor.SaneSide t)
    (hrep : t.Representable) (hempty : ∃ d ∈ t.dims, d.count = 0) :
    t.AllZero ↔ ¬ t.GapBeforeEmpty := by
  obtain ⟨hbytes, -⟩ := dtypeToBytes_pos hsane.byteAligned
  have hdims : t.dims ≠ [] := by
    rintro hnil
    simp [hnil] at hempty
  have hinner : ∃ d ∈ t.innermostFirst, d.count = 0 := by simpa [innermostFirst] using hempty
  have hcontiguous : t.getContiguousBytes = 0 ↔ ¬ t.GapBeforeEmpty := by
    rw [getContiguousBytes, if_neg hdims, if_neg (not_le.mpr hbytes)]
    exact contiguousBytesFrom_eq_zero_iff hinner
  rw [← hcontiguous]
  refine ⟨AllZero.contiguous, fun hzero => ⟨?_, hzero, ?_, ?_⟩⟩
  · rw [getAccessedBytes_eq_total hsane hrep hdims, total_eq_zero hinner]
  · rw [getNumContiguousChunks, numContiguousChunks, if_pos hzero]
  · have : t.innermostFirst.any (·.count = 0) = true := by simpa using hinner
    rw [getMemoryFootprintBytes, if_neg hdims, if_neg (not_le.mpr hbytes), this, if_pos rfl]

/-- What the sizes of a tensor should say: `0` without elements, else where the elements lie. -/
structure Geometry (t : VPUDMATensor) : Prop where
  allZero : (∃ d ∈ t.dims, d.count = 0) → t.AllZero
  describes : (∀ d ∈ t.dims, d.count ≠ 0) → t.Describes

/-- The sizes are right, unless the walk outward meets a gap before it meets an empty dimension. -/
theorem geometry_iff {t : VPUDMATensor} (hdims : t.dims ≠ []) (hsane : VPUDMADescriptor.SaneSide t)
    (hrep : t.Representable) (hno : (∀ d ∈ t.dims, d.count ≠ 0) → t.NoOverflow) :
    t.Geometry ↔ ¬ t.GapBeforeEmpty := by
  constructor
  · intro hgeometry hgap
    obtain ⟨d, hd, hzero⟩ := GapBeforeEmptyFrom.exists_empty hgap
    have hempty : ∃ d ∈ t.dims, d.count = 0 := ⟨d, List.mem_reverse.mp hd, hzero⟩
    exact (allZero_iff hsane hrep hempty).mp (hgeometry.allZero hempty) hgap
  · intro hgap
    refine ⟨fun hempty => (allZero_iff hsane hrep hempty).mpr hgap, fun hne => ?_⟩
    refine VPUDMATensor.describes hsane hrep hdims (fun d hd => ?_) (hno hne)
    have hmem := List.mem_reverse.mp hd
    have := hsane.counts_nonneg d hmem
    have := hne d hmem
    omega

/-- Three slices of four rows of packed elements, the rows padded to 32 bytes. -/
theorem geometry_iff_padded_rows :
    Geometry { dtype := .float16, dims := [⟨3, 128⟩, ⟨4, 32⟩, ⟨8, 2⟩] } :=
  (geometry_iff (by decide) ⟨by decide, by decide, by decide⟩ (by decide)
    fun _ => ⟨by decide, by decide, by decide⟩).mpr (by decide)

/-- Four bytes with gaps, zero times, have one contiguous byte. -/
theorem not_geometry : ¬ ∀ t : VPUDMATensor, t.dims ≠ [] → VPUDMADescriptor.SaneSide t →
    t.Representable → t.NoOverflow → t.Geometry := by
  intro h
  have hgeometry := h { dims := [⟨0, 64⟩, ⟨4, 8⟩] } (by decide) ⟨by decide, by decide, by decide⟩
    (by decide) ⟨by decide, by decide, by decide⟩
  exact absurd (hgeometry.allZero (by decide)).contiguous (by decide)

end VPUDMATensor

end Vpunn
