import Vpunn.Dma.StridedCost

/-! The hardware descriptor of a strided transfer describes the same transfer, except where an empty
    dimension lies outside a gap. -/

namespace Vpunn
open MachineInt Strided

/-! ### The slots of one side -/

theorem sideBytes_append (width : ℤ) (as bs : List SideSlot) :
    sideBytes width (as ++ bs) = sideBytes (sideBytes width as) bs := List.foldl_append ..

theorem sideBytes_inI32 {width : ℤ} (h : InI32 width) (slots : List SideSlot) :
    InI32 (sideBytes width slots) := by
  induction slots generalizing width with
  | nil => exact h
  | cons e es ih => exact ih (i32_inI32 _)

theorem length_foldIntoLast (slots : List SideSlot) (count : ℤ) :
    (foldIntoLast slots count).length = slots.length := by
  rcases List.eq_nil_or_concat slots with rfl | ⟨init, last, rfl⟩
  · rfl
  · simp [foldIntoLast]

theorem length_encodeSlots_le {slots : List SideSlot} (h : slots.length ≤ maxExtraDimensions)
    (ds : List (Dim ℤ)) : (encodeSlots slots ds).length ≤ maxExtraDimensions := by
  induction ds generalizing slots with
  | nil => exact h
  | cons d ds ih =>
    unfold encodeSlots
    split_ifs with hone hroom
    · exact ih h
    · exact ih (by rw [List.length_append]; exact hroom)
    · exact ih (by rw [length_foldIntoLast]; exact h)

/-- Folding multiplies the bytes like a slot of its own. -/
theorem sideBytes_foldIntoLast (width : ℤ) {slots : List SideSlot} (h : slots ≠ []) (count : ℤ) :
    sideBytes width (foldIntoLast slots count) = mul32 (sideBytes width slots) count := by
  obtain ⟨init, last, rfl⟩ := (List.eq_nil_or_concat slots).resolve_left h
  have hfold : foldIntoLast (init ++ [last]) count
      = init ++ [{ last with dimSize := i32 ((last.dimSize + 1) * count - 1) }] := by
    simp [foldIntoLast]
  rw [List.concat_eq_append, hfold, sideBytes_append, sideBytes_append]
  simp only [sideBytes, List.foldl_cons, List.foldl_nil, mul32, i32_i32_mul]
  rw [i32_eq_iff]
  have hsize := (i32_modEq ((last.dimSize + 1) * count - 1)).add_right 1
  rw [sub_add_cancel] at hsize
  rw [mul_assoc]
  exact hsize.mul_left _

/-- No repetition is lost, neither in a slot of its own nor by folding. -/
theorem sideBytes_encodeSlots {width : ℤ} (hwidth : InI32 width) (slots : List SideSlot)
    (ds : List (Dim ℤ)) :
    sideBytes width (encodeSlots slots ds) = total mul32 (sideBytes width slots) ds := by
  induction ds generalizing slots with
  | nil => rfl
  | cons d ds ih =>
    unfold encodeSlots
    split_ifs with hone hroom
    · rw [ih, total_cons, hone, mul32_one (sideBytes_inI32 hwidth slots)]
    · rw [ih, sideBytes_append]
      have hslot : sideBytes (sideBytes width slots) [⟨d.stride, i32 (d.count - 1)⟩]
          = mul32 (sideBytes width slots) d.count := by
        have hcount := (i32_modEq (d.count - 1)).add_right 1
        rw [sub_add_cancel] at hcount
        exact i32_eq_iff.mpr (hcount.mul_left _)
      rw [hslot]; rfl
    · rw [ih, sideBytes_foldIntoLast width (by rintro rfl; exact hroom (by decide))]; rfl

/-- The first slot stays where it is: folding only reaches the last of five. -/
theorem encodeSlots_cons (e : SideSlot) (slots : List SideSlot) (ds : List (Dim ℤ)) :
    ∃ rest, encodeSlots (e :: slots) ds = e :: rest := by
  induction ds generalizing slots with
  | nil => exact ⟨slots, rfl⟩
  | cons d ds ih =>
    unfold encodeSlots
    split_ifs with hone hroom
    · exact ih slots
    · exact ih (slots ++ [⟨d.stride, i32 (d.count - 1)⟩])
    · have hslots : slots ≠ [] := by rintro rfl; exact hroom (by simp [maxExtraDimensions])
      have hfold : foldIntoLast (e :: slots) d.count = e :: foldIntoLast slots d.count := by
        obtain ⟨last, rest, rfl⟩ := List.exists_cons_of_ne_nil hslots
        simp [foldIntoLast]
      rw [hfold]
      exact ih (foldIntoLast slots d.count)

/-! ### Padding -/

/-- Merging keeps the slots of a side and pads them with empty ones. -/
theorem map_src_mergeSlots {src : List SideSlot} (dst : List SideSlot)
    (h : src.length ≤ maxExtraDimensions) :
    ∃ n, (mergeSlots src dst).map SizeStride.src = src ++ List.replicate n ⟨0, 0⟩ := by
  refine ⟨min (max src.length dst.length) maxExtraDimensions - src.length, ?_⟩
  apply List.ext_getElem
  · simp only [mergeSlots, List.length_map, List.length_range, List.length_append,
      List.length_replicate]
    omega
  · intro i hi hi'
    simp only [mergeSlots, List.getElem_map, List.getElem_range, SizeStride.src]
    by_cases hlt : i < src.length
    · simp [List.getElem_append_left, List.getD_eq_getElem?_getD, hlt]
    · simp [List.getElem_append_right, List.getD_eq_getElem?_getD, hlt, not_lt.mp hlt]

theorem map_dst_mergeSlots {dst : List SideSlot} (src : List SideSlot)
    (h : dst.length ≤ maxExtraDimensions) :
    ∃ n, (mergeSlots src dst).map SizeStride.dst = dst ++ List.replicate n ⟨0, 0⟩ := by
  have hswap : (mergeSlots src dst).map SizeStride.dst
      = (mergeSlots dst src).map SizeStride.src := by
    simp only [mergeSlots, List.map_map, max_comm]
    rfl
  rw [hswap]
  exact map_src_mergeSlots src h

theorem sideBytes_padded {width : ℤ} (hwidth : InI32 width) (slots : List SideSlot) (n : ℕ) :
    sideBytes width (slots ++ List.replicate n ⟨0, 0⟩) = sideBytes width slots := by
  induction n with
  | zero => rw [List.replicate_zero, List.append_nil]
  | succ n ih =>
    rw [List.replicate_succ', ← List.append_assoc, sideBytes_append, ih]
    simp only [sideBytes, List.foldl_cons, List.foldl_nil, zero_add, mul_one]
    exact i32_of_inI32 (sideBytes_inI32 hwidth slots)

theorem sideContiguousBytes_padded (width : ℤ) (slots : List SideSlot) (n : ℕ) :
    sideContiguousBytes width (slots ++ List.replicate n ⟨0, 0⟩)
      = sideContiguousBytes width slots := by
  induction slots generalizing width with
  | nil =>
    induction n with
    | zero => rfl
    | succ n ih => rw [List.nil_append, List.replicate_succ]; exact ih
  | cons e es ih => simp only [List.cons_append, sideContiguousBytes, ih]

/-! ### Bytes of a strided side -/

/-- For types of whole bytes the size is a plain product. -/
theorem computeSizeInBytes_eq_mul32 {dtype : DataType} {n : ℤ}
    (hdtype : ByteAligned dtype) (hn : 0 ≤ n) (hi : InI32 n) :
    computeSizeInBytes n dtype = mul32 (dtypeToBytes dtype) n := by
  rcases hn.eq_or_lt with rfl | hpos
  · simp [computeSizeInBytes]
  · cases dtype <;> revert hdtype <;>
      simp [ByteAligned, computeSizeInBytes, dtypeToBytes, dtypeToBits, typesPerByte, hpos, mul32,
        mul_comm n, i32_of_inI32 hi]

theorem dtypeToBytes_pos {dtype : DataType} (hdtype : ByteAligned dtype) :
    0 < dtypeToBytes dtype ∧ InI32 (dtypeToBytes dtype) := by
  cases dtype <;> revert hdtype <;> decide

namespace VPUDMATensor

/-- The values that the arrays of `int32_t` can hold. -/
def Representable (t : VPUDMATensor) : Prop := ∀ d ∈ t.dims, InI32 d.count ∧ InI32 d.stride

instance (t : VPUDMATensor) : Decidable t.Representable :=
  inferInstanceAs (Decidable (∀ d ∈ t.dims, _))

/-- Walking outward from `c` packed bytes, a gap comes before a dimension without elements. -/
def GapBeforeEmptyFrom : ℤ → List (Dim ℤ) → Prop
  | _, [] => False
  | c, d :: ds =>
    d.count ≠ 0 ∧
      if d.count = 1 then GapBeforeEmptyFrom c ds
      else if d.stride = c then GapBeforeEmptyFrom (mul32 c d.count) ds
      else c ≠ 0 ∧ ∃ e ∈ ds, e.count = 0

instance decidableGapBeforeEmptyFrom : (c : ℤ) → (ds : List (Dim ℤ)) →
    Decidable (GapBeforeEmptyFrom c ds)
  | _, [] => inferInstanceAs (Decidable False)
  | c, d :: ds =>
    have := decidableGapBeforeEmptyFrom c ds
    have := decidableGapBeforeEmptyFrom (mul32 c d.count) ds
    inferInstanceAs (Decidable (d.count ≠ 0 ∧
      if d.count = 1 then GapBeforeEmptyFrom c ds
      else if d.stride = c then GapBeforeEmptyFrom (mul32 c d.count) ds
      else c ≠ 0 ∧ ∃ e ∈ ds, e.count = 0))

def GapBeforeEmpty (t : VPUDMATensor) : Prop :=
  GapBeforeEmptyFrom (dtypeToBytes t.dtype) t.innermostFirst

instance (t : VPUDMATensor) : Decidable t.GapBeforeEmpty :=
  decidableGapBeforeEmptyFrom ..

theorem GapBeforeEmptyFrom.exists_empty {c : ℤ} {ds : List (Dim ℤ)}
    (h : GapBeforeEmptyFrom c ds) : ∃ d ∈ ds, d.count = 0 := by
  induction ds generalizing c with
  | nil => exact h.elim
  | cons d ds ih =>
    obtain ⟨-, h⟩ := h
    have hempty : ∃ e ∈ ds, e.count = 0 := by
      split_ifs at h with hone hstride
      · exact ih h
      · exact ih h
      · exact h.2
    obtain ⟨e, he, hzero⟩ := hempty
    exact ⟨e, List.mem_cons_of_mem _ he, hzero⟩

/-- Without empty dimensions the walk is the packed run. -/
theorem contiguousBytesFrom_eq_run {c : ℤ} {ds : List (Dim ℤ)} (h : ∀ d ∈ ds, d.count ≠ 0) :
    contiguousBytesFrom c ds = run mul32 1 c ds := by
  induction ds generalizing c with
  | nil => rfl
  | cons d ds ih =>
    have ih := fun c => ih (c := c) fun e he => h e (List.mem_cons_of_mem _ he)
    rw [contiguousBytesFrom, if_neg (h d (by simp)), run, ite_not, ih, ih]

/-- With an empty dimension the walk ends with no bytes, unless it stops at a gap before. -/
theorem contiguousBytesFrom_eq_zero_iff {c : ℤ} {ds : List (Dim ℤ)} (h : ∃ d ∈ ds, d.count = 0) :
    contiguousBytesFrom c ds = 0 ↔ ¬ GapBeforeEmptyFrom c ds := by
  induction ds generalizing c with
  | nil => simp at h
  | cons d ds ih =>
    unfold contiguousBytesFrom GapBeforeEmptyFrom
    by_cases hzero : d.count = 0
    · simp [hzero]
    have hrest : ∃ e ∈ ds, e.count = 0 := by
      obtain ⟨e, he, he0⟩ := h
      rcases List.mem_cons.mp he with rfl | he
      · exact absurd he0 hzero
      · exact ⟨e, he, he0⟩
    rw [if_neg hzero, ite_not]
    simp only [ne_eq, hzero, not_false_eq_true, true_and]
    split_ifs with hone hstride
    · exact ih hrest
    · exact ih hrest
    · simp [hrest]

/-- The bytes of a side are those of an element times all counts. -/
theorem getAccessedBytes_eq_total {t : VPUDMATensor} (hsane : VPUDMADescriptor.SaneSide t)
    (hrep : t.Representable) (hdims : t.dims ≠ []) :
    t.getAccessedBytes = total mul32 (dtypeToBytes t.dtype) t.innermostFirst := by
  unfold getAccessedBytes
  cases hinner : t.innermostFirst with
  | nil => exact absurd (List.reverse_eq_nil_iff.mp hinner) hdims
  | cons d ds =>
    have hd : d ∈ t.innermostFirst := by rw [hinner]; exact List.mem_cons_self
    rw [innermostFirst, List.mem_reverse] at hd
    simp only [total_cons]
    rw [computeSizeInBytes_eq_mul32 hsane.byteAligned (hsane.counts_nonneg d hd) (hrep d hd).1]

end VPUDMATensor

/-! ### One side of the conversion -/

/-- The three ways out of `collapse_side`. -/
theorem collapseSide_cases {t : VPUDMATensor} (hsane : VPUDMADescriptor.SaneSide t) :
    (t.dims = [] ∧ collapseSide t = ⟨0, []⟩) ∨
    ((∃ d ∈ t.innermostFirst, d.count = 0) ∧ collapseSide t = ⟨0, []⟩) ∨
    (t.dims ≠ [] ∧ (∀ d ∈ t.innermostFirst, d.count ≠ 0) ∧
      collapseSide t =
        ⟨(peel mul32 1 (dtypeToBytes t.dtype) t.innermostFirst).1,
          encodeSlots [] (peel mul32 1 (dtypeToBytes t.dtype) t.innermostFirst).2⟩) := by
  unfold collapseSide
  by_cases hdims : t.dims = []
  · exact .inl ⟨hdims, if_pos hdims⟩
  by_cases hempty : t.innermostFirst.any (·.count = 0)
  · refine .inr (.inl ⟨by simpa using hempty, ?_⟩)
    rw [if_neg hdims, if_pos hempty]
  · refine .inr (.inr ⟨hdims, by simpa using hempty, ?_⟩)
    rw [if_neg hdims, if_neg hempty, if_neg (not_le.mpr (dtypeToBytes_pos hsane.byteAligned).1)]

theorem sideBytes_zero (slots : List SideSlot) : sideBytes 0 slots = 0 := by
  rw [sideBytes_eq_total, total_zero]

/-- Collapsing keeps the bytes of a side. -/
theorem sideBytes_collapseSide {t : VPUDMATensor} (hsane : VPUDMADescriptor.SaneSide t)
    (hrep : t.Representable) :
    sideBytes (collapseSide t).width (collapseSide t).slots = t.getAccessedBytes := by
  rcases collapseSide_cases hsane with ⟨hdims, heq⟩ | ⟨hempty, heq⟩ | ⟨hdims, -, heq⟩
  · simp [heq, sideBytes, VPUDMATensor.getAccessedBytes, VPUDMATensor.innermostFirst, hdims]
  · have hdims : t.dims ≠ [] := by
      rintro hnil
      simp [VPUDMATensor.innermostFirst, hnil] at hempty
    rw [heq, VPUDMATensor.getAccessedBytes_eq_total hsane hrep hdims, total_eq_zero hempty]
    rfl
  · have helem := mul32_one (dtypeToBytes_pos hsane.byteAligned).2
    rw [heq, VPUDMATensor.getAccessedBytes_eq_total hsane hrep hdims]
    simp only
    rw [sideBytes_encodeSlots (peel_inI32 (dtypeToBytes_pos hsane.byteAligned).2 _)]
    exact total_peel mul32_mul32_one helem _

/-- The slots that come after a packed block begin with a gap, so the block stays as it is. -/
theorem sideContiguousBytes_encodeSlots {c : ℤ} {ds : List (Dim ℤ)}
    (hhead : ∀ d, ds.head? = some d → d.count ≠ 1 ∧ d.stride ≠ c)
    (hds : ∀ d ∈ ds, InI32 d.count) :
    sideContiguousBytes c (encodeSlots [] ds) = c := by
  cases ds with
  | nil => rfl
  | cons d ds =>
    obtain ⟨hone, hstride⟩ := hhead d rfl
    have hrange := hds d (by simp)
    obtain ⟨rest, hrest⟩ := encodeSlots_cons ⟨d.stride, i32 (d.count - 1)⟩ [] ds
    rw [encodeSlots, if_neg hone, if_pos (by decide), List.nil_append, hrest]
    have hsize : i32 (d.count - 1) ≠ 0 := by unfold InI32 at hrange; unfold i32; omega
    rw [sideContiguousBytes, if_neg hsize, if_pos hstride]

theorem mem_of_mem_peel {c : ℤ} {ds : List (Dim ℤ)} {d : Dim ℤ} (h : d ∈ (peel mul32 1 c ds).2) :
    d ∈ ds := by
  induction ds generalizing c with
  | nil => exact h
  | cons e ds ih =>
    unfold peel at h
    split_ifs at h
    · exact List.mem_cons_of_mem _ (ih h)
    · exact List.mem_cons_of_mem _ (ih h)
    · exact h

/-- Collapsing keeps the contiguous bytes of a side exactly where no gap hides an empty
    dimension. -/
theorem sideContiguousBytes_collapseSide_iff {t : VPUDMATensor}
    (hsane : VPUDMADescriptor.SaneSide t) (hrep : t.Representable) :
    sideContiguousBytes (collapseSide t).width (collapseSide t).slots = t.getContiguousBytes
      ↔ ¬ t.GapBeforeEmpty := by
  have helem := (dtypeToBytes_pos hsane.byteAligned).1
  rcases collapseSide_cases hsane with ⟨hdims, heq⟩ | ⟨hempty, heq⟩ | ⟨hdims, hfull, heq⟩
  · simp [heq, sideContiguousBytes, VPUDMATensor.getContiguousBytes, VPUDMATensor.GapBeforeEmpty,
      VPUDMATensor.GapBeforeEmptyFrom, VPUDMATensor.innermostFirst, hdims]
  · have hdims : t.dims ≠ [] := by
      rintro hnil
      simp [VPUDMATensor.innermostFirst, hnil] at hempty
    rw [heq, VPUDMATensor.getContiguousBytes, if_neg hdims, if_neg (not_le.mpr helem)]
    exact eq_comm.trans (VPUDMATensor.contiguousBytesFrom_eq_zero_iff hempty)
  · have hnotGap : ¬ t.GapBeforeEmpty := by
      intro hgap
      obtain ⟨d, hd, hzero⟩ := hgap.exists_empty
      exact hfull d hd hzero
    have hmem : ∀ d ∈ (peel mul32 1 (dtypeToBytes t.dtype) t.innermostFirst).2,
        InI32 d.count :=
      fun d hd => (hrep d (List.mem_reverse.mp (mem_of_mem_peel hd))).1
    rw [heq, VPUDMATensor.getContiguousBytes, if_neg hdims, if_neg (not_le.mpr helem),
      VPUDMATensor.contiguousBytesFrom_eq_run hfull, run_eq_peel]
    simp only [hnotGap, not_false_eq_true, iff_true]
    exact sideContiguousBytes_encodeSlots (head_peel _ _ _ _) hmem

theorem collapseSide_width_inI32 {t : VPUDMATensor} (hsane : VPUDMADescriptor.SaneSide t) :
    InI32 (collapseSide t).width := by
  rcases collapseSide_cases hsane with ⟨-, heq⟩ | ⟨-, heq⟩ | ⟨-, -, heq⟩ <;> rw [heq]
  · decide
  · decide
  · exact peel_inI32 (dtypeToBytes_pos hsane.byteAligned).2 _

theorem length_collapseSide_le (t : VPUDMATensor) :
    (collapseSide t).slots.length ≤ maxExtraDimensions := by
  unfold collapseSide
  split_ifs
  · exact Nat.zero_le _
  · exact Nat.zero_le _
  · exact Nat.zero_le _
  · exact length_encodeSlots_le (Nat.zero_le _) _

/-! ### The whole descriptor -/

section Transform

variable (desc : VPUDMADescriptor)

theorem map_src_transform : ∃ n,
    (fromStridedTensorsToDMANNWorkloadNPU4050 desc).eDim.map SizeStride.src
      = (collapseSide desc.src).slots ++ List.replicate n ⟨0, 0⟩ :=
  map_src_mergeSlots _ (length_collapseSide_le desc.src)

theorem map_dst_transform : ∃ n,
    (fromStridedTensorsToDMANNWorkloadNPU4050 desc).eDim.map SizeStride.dst
      = (collapseSide desc.dst).slots ++ List.replicate n ⟨0, 0⟩ :=
  map_dst_mergeSlots _ (length_collapseSide_le desc.dst)

theorem getContiguousBytesSrc_transform :
    (fromStridedTensorsToDMANNWorkloadNPU4050 desc).getContiguousBytesSrc
      = sideContiguousBytes (collapseSide desc.src).width (collapseSide desc.src).slots := by
  obtain ⟨n, hn⟩ := map_src_transform desc
  rw [DMANNWorkloadNPU4050.getContiguousBytesSrc, hn, sideContiguousBytes_padded]
  rfl

theorem getContiguousBytesDst_transform :
    (fromStridedTensorsToDMANNWorkloadNPU4050 desc).getContiguousBytesDst
      = sideContiguousBytes (collapseSide desc.dst).width (collapseSide desc.dst).slots := by
  obtain ⟨n, hn⟩ := map_dst_transform desc
  rw [DMANNWorkloadNPU4050.getContiguousBytesDst, hn, sideContiguousBytes_padded]
  rfl

variable {desc}

theorem getReadBytes_transform (hsane : VPUDMADescriptor.SaneSide desc.src)
    (hrep : desc.src.Representable) :
    (fromStridedTensorsToDMANNWorkloadNPU4050 desc).getReadBytes = desc.getReadBytes := by
  obtain ⟨n, hn⟩ := map_src_transform desc
  rw [DMANNWorkloadNPU4050.getReadBytes, DMANNWorkloadNPU4050.getAccessedBytes, hn]
  exact (sideBytes_padded (collapseSide_width_inI32 hsane) _ n).trans
    (sideBytes_collapseSide hsane hrep)

theorem getWrittenBytes_transform (hsane : VPUDMADescriptor.SaneSide desc.dst)
    (hrep : desc.dst.Representable) :
    (fromStridedTensorsToDMANNWorkloadNPU4050 desc).getWrittenBytes = desc.getWrittenBytes := by
  obtain ⟨n, hn⟩ := map_dst_transform desc
  rw [DMANNWorkloadNPU4050.getWrittenBytes, hn]
  exact (sideBytes_padded (collapseSide_width_inI32 hsane) _ n).trans
    (sideBytes_collapseSide hsane hrep)

end Transform

/-- An accepted descriptor and its hardware descriptor describe the same transfer if and only if on
    neither side a gap hides an empty dimension. -/
theorem fromStridedTensors_sameTransfer_iff {desc : VPUDMADescriptor}
    (hsrc : desc.src.Representable) (hdst : desc.dst.Representable)
    (hsane : desc.checkDescriptorSanity = .ok ()) :
    SameTransfer desc (fromStridedTensorsToDMANNWorkloadNPU4050 desc)
      ↔ ¬ desc.src.GapBeforeEmpty ∧ ¬ desc.dst.GapBeforeEmpty := by
  obtain ⟨saneSrc, saneDst, -⟩ := VPUDMADescriptor.checkDescriptorSanity_eq_ok hsane
  have hcontSrc := sideContiguousBytes_collapseSide_iff saneSrc hsrc
  have hcontDst := sideContiguousBytes_collapseSide_iff saneDst hdst
  rw [← getContiguousBytesSrc_transform] at hcontSrc
  rw [← getContiguousBytesDst_transform] at hcontDst
  constructor
  · intro h
    exact ⟨hcontSrc.mp h.contiguousBytesSrc, hcontDst.mp h.contiguousBytesDst⟩
  · rintro ⟨hgapSrc, hgapDst⟩
    exact .of_bytes rfl rfl (getReadBytes_transform saneSrc hsrc)
      (getWrittenBytes_transform saneDst hdst) (hcontSrc.mpr hgapSrc) (hcontDst.mpr hgapDst)

/-- All six dimensions of the source have gaps, so two of them share the last slot. -/
theorem fromStridedTensors_sameTransfer_six :
    let desc : VPUDMADescriptor :=
      { device := .npu_5_0
        src := { dims := [⟨2, 4000⟩, ⟨3, 900⟩, ⟨2, 400⟩, ⟨2, 150⟩, ⟨4, 30⟩, ⟨5, 2⟩] }
        dst := { dims := [⟨480, 1⟩] } }
    SameTransfer desc (fromStridedTensorsToDMANNWorkloadNPU4050 desc) :=
  (fromStridedTensors_sameTransfer_iff (by decide) (by decide) (by decide)).mpr
    ⟨by decide, by decide⟩

/-- Four elements with gaps, zero times: the strided side has runs of one byte, the hardware
    descriptor of none. -/
theorem fromStridedTensors_not_sameTransfer :
    ¬ ∀ desc : VPUDMADescriptor, desc.src.Representable → desc.dst.Representable →
      desc.checkDescriptorSanity = .ok () →
      SameTransfer desc (fromStridedTensorsToDMANNWorkloadNPU4050 desc) := by
  intro h
  have hsame := h
    { device := .npu_5_0
      src := { dims := [⟨0, 32⟩, ⟨4, 8⟩] }
      dst := { dims := [⟨0, 32⟩, ⟨4, 8⟩] } } (by decide) (by decide) (by decide)
  exact absurd hsame.contiguousBytesSrc (by decide)

end Vpunn
