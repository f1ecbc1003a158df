import Vpunn.Dma.Fidelity

/-! From the hardware descriptor to strides and back.

    The way back absorbs packed slots into the width, drops slots of one repetition and forgets all
    slots of a side without bytes. Doing it again changes nothing. -/

namespace Vpunn
open MachineInt Strided

/-! ### Slots and dimensions -/

/-- The slot that a dimension is encoded as. -/
def slotOf (d : Dim ℤ) : SideSlot := ⟨d.stride, i32 (d.count - 1)⟩

theorem toDim_slotOf {d : Dim ℤ} (h : InI32 d.count) : (slotOf d).toDim = d := by
  have hcount : i32 (i32 (d.count - 1) + 1) = d.count := by
    rw [i32_i32_add, sub_add_cancel, i32_of_inI32 h]
  rw [SideSlot.toDim, slotOf]
  simp only [hcount]

theorem slotOf_toDim {e : SideSlot} (h : 0 ≤ e.dimSize ∧ e.dimSize < 2147483648) :
    slotOf e.toDim = e := by
  have hsize : i32 (i32 (e.dimSize + 1) - 1) = e.dimSize := by unfold i32; omega
  rw [SideSlot.toDim, slotOf]
  simp only [hsize]

/-- Encoding reaches a dimension for which no slot is left. -/
def FoldsFrom : ℕ → List (Dim ℤ) → Prop
  | _, [] => False
  | used, d :: ds =>
    if d.count = 1 then FoldsFrom used ds
    else if used < maxExtraDimensions then FoldsFrom (used + 1) ds
    else True

theorem not_foldsFrom {used : ℕ} {ds : List (Dim ℤ)}
    (h : used + ds.length ≤ maxExtraDimensions) : ¬ FoldsFrom used ds := by
  induction ds generalizing used with
  | nil => exact id
  | cons d ds ih =>
    rw [List.length_cons] at h
    unfold FoldsFrom
    split_ifs with hone hroom
    · exact ih (by omega)
    · exact ih (by omega)
    · omega

/-- `collapse_side` takes its overflow branch. -/
def VPUDMATensor.Folds (t : VPUDMATensor) : Prop :=
  FoldsFrom 0 (peel mul32 1 (dtypeToBytes t.dtype) t.innermostFirst).2

/-- Without folding every dimension that is stepped along has a slot of its own. -/
theorem encodeSlots_of_not_foldsFrom {slots : List SideSlot} {ds : List (Dim ℤ)}
    (h : ¬ FoldsFrom slots.length ds) :
    encodeSlots slots ds = slots ++ (proper 1 ds).map slotOf := by
  induction ds generalizing slots with
  | nil => exact (List.append_nil slots).symm
  | cons d ds ih =>
    unfold encodeSlots
    unfold FoldsFrom at h
    split_ifs at h ⊢ with hone hroom
    · rw [ih h, proper, proper, List.filter_cons_of_neg (by simpa using hone)]
    · have h' : ¬ FoldsFrom (slots ++ [slotOf d]).length ds := by
        rw [List.length_append]; exact h
      rw [proper, List.filter_cons_of_pos (by simpa using hone), ← proper, List.map_cons]
      exact (ih h').trans (List.append_assoc ..)
    · exact absurd trivial h

/-! ### One side -/

namespace Side

/-- One side of the way to strides and back. -/
def roundTrip (s : Side) : Side := collapseSide (fillSide s.width s.slots)

theorem innermostFirst_fillSide (width : ℤ) (slots : List SideSlot) :
    (fillSide width slots).innermostFirst = ⟨width, 1⟩ :: slots.map SideSlot.toDim :=
  List.reverse_reverse _

/-- The bytes along the width are packed, whatever their number. -/
theorem peel_width {width : ℤ} (h : InI32 width) (ds : List (Dim ℤ)) :
    peel mul32 1 1 (⟨width, 1⟩ :: ds) = peel mul32 1 width ds := by
  have hmul : mul32 1 width = width := by rw [mul32, one_mul, i32_of_inI32 h]
  unfold peel
  split_ifs with hone hstride
  · rw [show width = 1 from hone]; cases ds <;> rfl
  · rw [hmul]; cases ds <;> rfl
  · exact absurd rfl hstride

/-- The width is absorbed, so that at most five dimensions need slots. -/
theorem not_folds_fillSide {width : ℤ} {slots : List SideSlot} (hrange : InI32 width)
    (hlen : slots.length ≤ maxExtraDimensions) : ¬ (fillSide width slots).Folds := by
  have hle := length_peel_le mul32 1 width (slots.map SideSlot.toDim)
  rw [List.length_map] at hle
  rw [VPUDMATensor.Folds, innermostFirst_fillSide,
    show dtypeToBytes (fillSide width slots).dtype = 1 from rfl, peel_width hrange]
  exact not_foldsFrom (by omega)

theorem roundTrip_zero (slots : List SideSlot) : roundTrip ⟨0, slots⟩ = ⟨0, []⟩ := by
  have hdims : (fillSide 0 slots).dims ≠ [] := by simp [fillSide]
  have hempty : (fillSide 0 slots).innermostFirst.any (·.count = 0) := by
    rw [innermostFirst_fillSide]; rfl
  rw [roundTrip, collapseSide, if_neg hdims, if_pos hempty]

/-- A side with bytes comes back with its packed slots in the width and the others behind it. -/
theorem roundTrip_eq {width : ℤ} {slots : List SideSlot} (hrange : InI32 width)
    (hwidth : width ≠ 0) (hcounts : ∀ e ∈ slots, e.toDim.count ≠ 0)
    (hlen : slots.length ≤ maxExtraDimensions) :
    roundTrip ⟨width, slots⟩ =
      ⟨(peel mul32 1 width (slots.map SideSlot.toDim)).1,
        (proper 1 (peel mul32 1 width (slots.map SideSlot.toDim)).2).map slotOf⟩ := by
  have hdims : (fillSide width slots).dims ≠ [] := by simp [fillSide]
  have hfull : ¬ (fillSide width slots).innermostFirst.any (·.count = 0) := by
    rw [innermostFirst_fillSide]
    simpa [hwidth] using hcounts
  have hfolds := not_folds_fillSide hrange hlen
  rw [VPUDMATensor.Folds, innermostFirst_fillSide,
    show dtypeToBytes (fillSide width slots).dtype = 1 from rfl, peel_width hrange] at hfolds
  have hbytes : ¬ dtypeToBytes (fillSide width slots).dtype ≤ 0 := by
    rw [show dtypeToBytes (fillSide width slots).dtype = 1 from rfl]; decide
  rw [roundTrip, collapseSide, if_neg hdims, if_neg hfull, if_neg hbytes,
    innermostFirst_fillSide]
  simp only [show dtypeToBytes (fillSide width slots).dtype = 1 from rfl, peel_width hrange]
  rw [@encodeSlots_of_not_foldsFrom [] _ hfolds, List.nil_append]

/-- What the way back and forth needs of a side: values of an `int`, none of them negative. -/
structure NonNegative (s : Side) : Prop where
  width : 0 ≤ s.width ∧ s.width < 2147483648
  slots : SlotsOk s.slots
  length_le : s.slots.length ≤ maxExtraDimensions

theorem toDim_count_ne_zero {e : SideSlot} (h : 0 ≤ e.dimSize ∧ e.dimSize < 2147483648) :
    e.toDim.count ≠ 0 := by
  simp only [SideSlot.toDim, i32]; omega

theorem exists_slot_of_mem_peel {width : ℤ} {slots : List SideSlot} {d : Dim ℤ}
    (h : d ∈ proper 1 (peel mul32 1 width (slots.map SideSlot.toDim)).2) :
    ∃ e ∈ slots, e.toDim = d :=
  List.mem_map.mp (mem_of_mem_peel (List.mem_filter.mp h).1)

theorem sideContiguousBytes_zero (slots : List SideSlot) : sideContiguousBytes 0 slots = 0 := by
  induction slots with
  | nil => rfl
  | cons e es ih =>
    unfold sideContiguousBytes
    rw [zero_mul, i32_zero, ih]
    split_ifs <;> rfl

namespace NonNegative

variable {s : Side} (h : s.NonNegative)
include h

theorem width_inI32 : InI32 s.width := ⟨by have := h.width; omega, h.width.2⟩

theorem counts_ne_zero : ∀ e ∈ s.slots, e.toDim.count ≠ 0 :=
  fun e he => toDim_count_ne_zero (h.slots e he)

theorem sideContiguousBytes_eq :
    sideContiguousBytes s.width s.slots
      = (peel mul32 1 s.width (s.slots.map SideSlot.toDim)).1 := by
  rw [sideContiguousBytes_eq_run s.width h.slots, run_eq_peel]

theorem roundTrip_eq (hwidth : s.width ≠ 0) :
    s.roundTrip =
      ⟨(peel mul32 1 s.width (s.slots.map SideSlot.toDim)).1,
        (proper 1 (peel mul32 1 s.width (s.slots.map SideSlot.toDim)).2).map slotOf⟩ :=
  Side.roundTrip_eq h.width_inI32 hwidth h.counts_ne_zero h.length_le

theorem width_roundTrip_inI32 : InI32 s.roundTrip.width := by
  by_cases hwidth : s.width = 0
  · rw [show s = ⟨0, s.slots⟩ from by rw [← hwidth], roundTrip_zero]; decide
  · rw [h.roundTrip_eq hwidth]
    exact peel_inI32 h.width_inI32 _

/-- The slots that come back are among those that were given. -/
theorem mem_slots_of_mem_roundTrip {e : SideSlot} (he : e ∈ s.roundTrip.slots) : e ∈ s.slots := by
  by_cases hwidth : s.width = 0
  · rw [show s = ⟨0, s.slots⟩ from by rw [← hwidth], roundTrip_zero] at he
    exact absurd he List.not_mem_nil
  · rw [h.roundTrip_eq hwidth] at he
    obtain ⟨d, hd, rfl⟩ := List.mem_map.mp he
    obtain ⟨e', he', rfl⟩ := exists_slot_of_mem_peel hd
    rwa [slotOf_toDim (h.slots e' he')]

theorem slots_roundTrip : SlotsOk s.roundTrip.slots :=
  fun e he => h.slots e (h.mem_slots_of_mem_roundTrip he)

/-- As dimensions the slots that come back are those left over by peeling. -/
theorem map_toDim_roundTrip (hwidth : s.width ≠ 0) :
    s.roundTrip.slots.map SideSlot.toDim
      = proper 1 (peel mul32 1 s.width (s.slots.map SideSlot.toDim)).2 := by
  rw [h.roundTrip_eq hwidth]
  refine (List.map_map ..).trans ((List.map_congr_left fun d hd => ?_).trans (List.map_id _))
  obtain ⟨e, -, rfl⟩ := exists_slot_of_mem_peel hd
  exact toDim_slotOf (i32_inI32 _)

theorem sideBytes_roundTrip :
    sideBytes s.roundTrip.width s.roundTrip.slots = sideBytes s.width s.slots := by
  by_cases hwidth : s.width = 0
  · rw [show s = ⟨0, s.slots⟩ from by rw [← hwidth], roundTrip_zero]
    exact (sideBytes_zero s.slots).symm
  · have hstable := mul32_one h.width_inI32
    rw [sideBytes_eq_total, h.map_toDim_roundTrip hwidth, h.roundTrip_eq hwidth]
    simp only
    rw [total_proper mul32_mul32_one (mul32_one (peel_inI32 h.width_inI32 _)),
      total_peel mul32_mul32_one hstable, sideBytes_eq_total]

theorem sideContiguousBytes_roundTrip :
    sideContiguousBytes s.roundTrip.width s.roundTrip.slots
      = sideContiguousBytes s.width s.slots := by
  by_cases hwidth : s.width = 0
  · rw [show s = ⟨0, s.slots⟩ from by rw [← hwidth], roundTrip_zero]
    exact (sideContiguousBytes_zero s.slots).symm
  · rw [sideContiguousBytes_eq_run _ h.slots_roundTrip, h.map_toDim_roundTrip hwidth,
      h.sideContiguousBytes_eq, h.roundTrip_eq hwidth]
    exact (normal_peel ..).run_eq

/-- A side that came back, with empty slots behind it, comes back the same. -/
theorem roundTrip_roundTrip {n : ℕ}
    (hlen : (s.roundTrip.slots ++ List.replicate n (⟨0, 0⟩ : SideSlot)).length
      ≤ maxExtraDimensions)
    (hbytes : sideContiguousBytes s.width s.slots = 0 → s.width = 0) :
    (Side.mk s.roundTrip.width (s.roundTrip.slots ++ List.replicate n ⟨0, 0⟩)).roundTrip
      = s.roundTrip := by
  by_cases hwidth : s.width = 0
  · rw [show s = ⟨0, s.slots⟩ from by rw [← hwidth], roundTrip_zero, roundTrip_zero]
  have hnormal := normal_peel mul32 1 s.width (s.slots.map SideSlot.toDim)
  have hdims := h.map_toDim_roundTrip hwidth
  have hwidth' : s.roundTrip.width = (peel mul32 1 s.width (s.slots.map SideSlot.toDim)).1 := by
    rw [h.roundTrip_eq hwidth]
  rw [← hdims, ← hwidth'] at hnormal
  have hne : s.roundTrip.width ≠ 0 := by
    rw [hwidth', ← h.sideContiguousBytes_eq]
    exact fun hzero => hwidth (hbytes hzero)
  have hcounts : ∀ e ∈ s.roundTrip.slots ++ List.replicate n ⟨0, 0⟩, e.toDim.count ≠ 0 := by
    intro e he
    rcases List.mem_append.mp he with he | he
    · exact toDim_count_ne_zero (h.slots_roundTrip e he)
    · rw [(List.mem_replicate.mp he).2]; decide
  -- The empty slots are not stepped along, and what is left is normal already.
  have hproper :
      proper 1 ((s.roundTrip.slots ++ List.replicate n (⟨0, 0⟩ : SideSlot)).map SideSlot.toDim)
        = s.roundTrip.slots.map SideSlot.toDim := by
    rw [List.map_append, proper_append, hnormal.proper_eq, List.map_replicate]
    simp [proper, SideSlot.toDim, i32]
  rw [Side.roundTrip_eq h.width_roundTrip_inI32 hne hcounts hlen, proper_peel, hproper, ← run_eq_peel,
    ← run_proper, hproper, hnormal.run_eq, hnormal.peel_eq]
  have hslots : (s.roundTrip.slots.map SideSlot.toDim).map slotOf = s.roundTrip.slots := by
    refine (List.map_map ..).trans ((List.map_congr_left fun e he => ?_).trans (List.map_id _))
    exact slotOf_toDim (h.slots_roundTrip e he)
  rw [hslots]

end NonNegative

end Side

/-! ### The whole descriptor -/

namespace DMANNWorkloadNPU4050

def srcSide (wl : DMANNWorkloadNPU4050) : Side := ⟨wl.srcWidth, wl.eDim.map SizeStride.src⟩

def dstSide (wl : DMANNWorkloadNPU4050) : Side := ⟨wl.dstWidth, wl.eDim.map SizeStride.dst⟩

/-- To strides and back. -/
def roundTrip (wl : DMANNWorkloadNPU4050) : DMANNWorkloadNPU4050 :=
  fromStridedTensorsToDMANNWorkloadNPU4050 (fromDMANNWorkloadNPU4050ToVPUDMADescriptor wl)

/-- The arrays of a descriptor have five entries, and an `int` holds no more than 32 bits. -/
structure NonNegative (wl : DMANNWorkloadNPU4050) : Prop where
  numDim_le : wl.eDim.length ≤ maxExtraDimensions
  srcWidth : 0 ≤ wl.srcWidth ∧ wl.srcWidth < 2147483648
  dstWidth : 0 ≤ wl.dstWidth ∧ wl.dstWidth < 2147483648
  srcDimSize : ∀ e ∈ wl.eDim, 0 ≤ e.srcDimSize ∧ e.srcDimSize < 2147483648
  dstDimSize : ∀ e ∈ wl.eDim, 0 ≤ e.dstDimSize ∧ e.dstDimSize < 2147483648

theorem NonNegative.srcSide {wl : DMANNWorkloadNPU4050} (h : wl.NonNegative) :
    wl.srcSide.NonNegative where
  width := h.srcWidth
  slots := by
    intro e he
    obtain ⟨x, hx, rfl⟩ := List.mem_map.mp he
    exact h.srcDimSize x hx
  length_le := (List.length_map ..).trans_le h.numDim_le

theorem NonNegative.dstSide {wl : DMANNWorkloadNPU4050} (h : wl.NonNegative) :
    wl.dstSide.NonNegative where
  width := h.dstWidth
  slots := by
    intro e he
    obtain ⟨x, hx, rfl⟩ := List.mem_map.mp he
    exact h.dstDimSize x hx
  length_le := (List.length_map ..).trans_le h.numDim_le

theorem getDirection_fromDMANN (wl : DMANNWorkloadNPU4050) :
    (fromDMANNWorkloadNPU4050ToVPUDMADescriptor wl).getDirection = wl.transferDirection := by
  simp only [fromDMANNWorkloadNPU4050ToVPUDMADescriptor, VPUDMADescriptor.getDirection]
  cases wl.transferDirection <;> rfl

/-- The way to strides and back treats each side by itself. -/
theorem roundTrip_eq (wl : DMANNWorkloadNPU4050) :
    wl.roundTrip =
      { device := wl.device
        srcWidth := wl.srcSide.roundTrip.width
        dstWidth := wl.dstSide.roundTrip.width
        eDim := mergeSlots wl.srcSide.roundTrip.slots wl.dstSide.roundTrip.slots
        transferDirection := wl.transferDirection } := by
  rw [← getDirection_fromDMANN wl]
  rfl

theorem length_roundTrip_slots_le (s : Side) : s.roundTrip.slots.length ≤ maxExtraDimensions :=
  length_collapseSide_le _

theorem srcSide_roundTrip (wl : DMANNWorkloadNPU4050) : ∃ n, wl.roundTrip.srcSide =
    ⟨wl.srcSide.roundTrip.width,
      wl.srcSide.roundTrip.slots ++ List.replicate n ⟨0, 0⟩⟩ := by
  obtain ⟨n, hn⟩ := map_src_mergeSlots wl.dstSide.roundTrip.slots
    (length_roundTrip_slots_le wl.srcSide)
  refine ⟨n, ?_⟩
  rw [DMANNWorkloadNPU4050.srcSide, roundTrip_eq wl]
  simp only [hn]

theorem dstSide_roundTrip (wl : DMANNWorkloadNPU4050) : ∃ n, wl.roundTrip.dstSide =
    ⟨wl.dstSide.roundTrip.width,
      wl.dstSide.roundTrip.slots ++ List.replicate n ⟨0, 0⟩⟩ := by
  obtain ⟨n, hn⟩ := map_dst_mergeSlots wl.srcSide.roundTrip.slots
    (length_roundTrip_slots_le wl.dstSide)
  refine ⟨n, ?_⟩
  rw [DMANNWorkloadNPU4050.dstSide, roundTrip_eq wl]
  simp only [hn]

theorem length_mergeSlots_le (src dst : List SideSlot) :
    (mergeSlots src dst).length ≤ maxExtraDimensions := by
  simp only [mergeSlots, List.length_map, List.length_range]; omega

/-- Two descriptors that answer all size queries alike and go the same way. -/
structure SameQueries (wl wl' : DMANNWorkloadNPU4050) : Prop where
  readBytes : wl'.getReadBytes = wl.getReadBytes
  writtenBytes : wl'.getWrittenBytes = wl.getWrittenBytes
  contiguousBytesSrc : wl'.getContiguousBytesSrc = wl.getContiguousBytesSrc
  contiguousBytesDst : wl'.getContiguousBytesDst = wl.getContiguousBytesDst
  numContiguousChunksSrc : wl'.getNumContiguousChunksSrc = wl.getNumContiguousChunksSrc
  numContiguousChunksDst : wl'.getNumContiguousChunksDst = wl.getNumContiguousChunksDst
  direction : wl'.getDirection = wl.getDirection

theorem sideBytes_of_padded {s s' : Side} (h : s.NonNegative)
    (hs' : ∃ n, s' = ⟨s.roundTrip.width, s.roundTrip.slots ++ List.replicate n ⟨0, 0⟩⟩) :
    sideBytes s'.width s'.slots = sideBytes s.width s.slots
      ∧ sideContiguousBytes s'.width s'.slots = sideContiguousBytes s.width s.slots := by
  obtain ⟨n, rfl⟩ := hs'
  refine ⟨?_, ?_⟩
  · exact (sideBytes_padded h.width_roundTrip_inI32 _ n).trans h.sideBytes_roundTrip
  · exact (sideContiguousBytes_padded _ _ n).trans h.sideContiguousBytes_roundTrip

theorem sameQueries_roundTrip {wl : DMANNWorkloadNPU4050} (h : wl.NonNegative) :
    SameQueries wl wl.roundTrip := by
  obtain ⟨hread, hcontSrc⟩ := sideBytes_of_padded h.srcSide (srcSide_roundTrip wl)
  obtain ⟨hwritten, hcontDst⟩ := sideBytes_of_padded h.dstSide (dstSide_roundTrip wl)
  exact
    { readBytes := hread
      writtenBytes := hwritten
      contiguousBytesSrc := hcontSrc
      contiguousBytesDst := hcontDst
      numContiguousChunksSrc := congrArg₂ numContiguousChunks hread hcontSrc
      numContiguousChunksDst := congrArg₂ numContiguousChunks hwritten hcontDst
      direction := getDirection_fromDMANN wl }

/-- Where the bytes of a side that is not empty do not wrap around to none, the second round trip
    changes nothing. -/
theorem roundTrip_roundTrip {wl : DMANNWorkloadNPU4050} (h : wl.NonNegative)
    (hsrc : wl.getContiguousBytesSrc = 0 → wl.srcWidth = 0)
    (hdst : wl.getContiguousBytesDst = 0 → wl.dstWidth = 0) :
    wl.roundTrip.roundTrip = wl.roundTrip := by
  have hlen : wl.roundTrip.eDim.length ≤ maxExtraDimensions := length_mergeSlots_le _ _
  have hsrcSide : wl.roundTrip.srcSide.roundTrip = wl.srcSide.roundTrip := by
    have hlenSrc : wl.roundTrip.srcSide.slots.length ≤ maxExtraDimensions :=
      (List.length_map ..).trans_le hlen
    obtain ⟨n, hn⟩ := srcSide_roundTrip wl
    rw [hn] at hlenSrc ⊢
    exact h.srcSide.roundTrip_roundTrip hlenSrc hsrc
  have hdstSide : wl.roundTrip.dstSide.roundTrip = wl.dstSide.roundTrip := by
    have hlenDst : wl.roundTrip.dstSide.slots.length ≤ maxExtraDimensions :=
      (List.length_map ..).trans_le hlen
    obtain ⟨n, hn⟩ := dstSide_roundTrip wl
    rw [hn] at hlenDst ⊢
    exact h.dstSide.roundTrip_roundTrip hlenDst hdst
  have hdirection : wl.roundTrip.transferDirection = wl.transferDirection :=
    getDirection_fromDMANN wl
  rw [roundTrip_eq wl.roundTrip, hsrcSide, hdstSide, hdirection, roundTrip_eq wl]

/-- To strides and back: all queries keep their answers, no dimension is folded, and from the second
    time on nothing changes, unless a product of bytes wraps around to zero. -/
theorem roundTrip_normalizes {wl : DMANNWorkloadNPU4050} (h : wl.NonNegative) :
    SameQueries wl wl.roundTrip
      ∧ ¬ (fromDMANNWorkloadNPU4050ToVPUDMADescriptor wl).src.Folds
      ∧ ¬ (fromDMANNWorkloadNPU4050ToVPUDMADescriptor wl).dst.Folds
      ∧ ((wl.getContiguousBytesSrc = 0 → wl.srcWidth = 0) →
        (wl.getContiguousBytesDst = 0 → wl.dstWidth = 0) →
        wl.roundTrip.roundTrip = wl.roundTrip) :=
  ⟨sameQueries_roundTrip h, Side.not_folds_fillSide h.srcSide.width_inI32 h.srcSide.length_le,
    Side.not_folds_fillSide h.dstSide.width_inI32 h.dstSide.length_le, roundTrip_roundTrip h⟩

/-- The source is packed along the first slot and the destination is not, so the slots of the two
    sides shift against each other. -/
theorem roundTrip_normalizes_shifted :
    let wl : DMANNWorkloadNPU4050 :=
      { device := .npu_5_0
        srcWidth := 16
        dstWidth := 16
        eDim := [⟨16, 64, 3, 3⟩, ⟨0, 0, 0, 0⟩, ⟨100, 256, 6, 6⟩]
        transferDirection := .ddr2cmx }
    SameQueries wl wl.roundTrip ∧ wl.roundTrip.roundTrip = wl.roundTrip := by
  have h := @roundTrip_normalizes
    { device := .npu_5_0
      srcWidth := 16
      dstWidth := 16
      eDim := [⟨16, 64, 3, 3⟩, ⟨0, 0, 0, 0⟩, ⟨100, 256, 6, 6⟩]
      transferDirection := .ddr2cmx }
    ⟨by decide, by decide, by decide, by decide, by decide⟩
  exact ⟨h.1, h.2.2.2 (by decide) (by decide)⟩

/-- The packed bytes of the source are `2^32`, so the first round trip leaves a width of zero before
    a slot, which the second one drops. -/
theorem roundTrip_not_idempotent :
    ¬ ∀ wl : DMANNWorkloadNPU4050, wl.NonNegative →
      SameQueries wl wl.roundTrip
        ∧ ¬ (fromDMANNWorkloadNPU4050ToVPUDMADescriptor wl).src.Folds
        ∧ ¬ (fromDMANNWorkloadNPU4050ToVPUDMADescriptor wl).dst.Folds
        ∧ wl.roundTrip.roundTrip = wl.roundTrip := by
  intro h
  have hwrap := h
    { device := .npu_5_0
      srcWidth := 65536
      dstWidth := 65536
      eDim := [⟨65536, 65536, 65535, 65535⟩, ⟨5, 5, 1, 1⟩] }
    ⟨by decide, by decide, by decide, by decide, by decide⟩
  exact absurd hwrap.2.2.2 (by decide)

end DMANNWorkloadNPU4050

end Vpunn
