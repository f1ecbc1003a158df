import Vpunn.Dma.Types

/-! Conversions between the descriptions of a DMA transfer (`DMADescriptorTransformer`,
    `DMAWorkloadTransformer::create_locations`). -/

namespace Vpunn
open MachineInt Strided

/-! ### From strides to the hardware descriptor -/

/-- One side of a hardware descriptor. -/
structure Side where
  width : ℤ
  slots : List SideSlot
  deriving DecidableEq, Repr

/-- Multiplies the number of repetitions of the last slot. -/
def foldIntoLast (slots : List SideSlot) (count : ℤ) : List SideSlot :=
  slots.dropLast ++
    slots.getLast?.toList.map fun last =>
      { last with dimSize := i32 ((last.dimSize + 1) * count - 1) }

/-- Encodes dimensions behind the given slots. When all slots are used a dimension is folded into the
    last one and its stride is lost. -/
def encodeSlots (slots : List SideSlot) : List (Dim ℤ) → List SideSlot
  | [] => slots
  | d :: ds =>
    if d.count = 1 then encodeSlots slots ds
    else if slots.length < maxExtraDimensions then
      encodeSlots (slots ++ [⟨d.stride, i32 (d.count - 1)⟩]) ds
    else encodeSlots (foldIntoLast slots d.count) ds

/-- `collapse_side`: the packed inner dimensions become the width, the others slots. -/
def collapseSide (t : VPUDMATensor) : Side :=
  if t.dims = [] then ⟨0, []⟩
  else if t.innermostFirst.any (·.count = 0) then ⟨0, []⟩
  else if dtypeToBytes t.dtype ≤ 0 then ⟨0, []⟩
  else
    let walk := peel mul32 1 (dtypeToBytes t.dtype) t.innermostFirst
    ⟨walk.1, encodeSlots [] walk.2⟩

/-- The slots of both sides next to each other; a side that has fewer is padded with zeros. -/
def mergeSlots (src dst : List SideSlot) : List SizeStride :=
  (List.range (min (max src.length dst.length) maxExtraDimensions)).map fun d =>
    { srcStride := (src.getD d ⟨0, 0⟩).stride
      srcDimSize := (src.getD d ⟨0, 0⟩).dimSize
      dstStride := (dst.getD d ⟨0, 0⟩).stride
      dstDimSize := (dst.getD d ⟨0, 0⟩).dimSize }

def fromStridedTensorsToDMANNWorkloadNPU4050 (desc : VPUDMADescriptor) : DMANNWorkloadNPU4050 :=
  let src := collapseSide desc.src
  let dst := collapseSide desc.dst
  { device := desc.device
    srcWidth := src.width
    dstWidth := dst.width
    eDim := mergeSlots src.slots dst.slots
    numEngine := .numEngine1
    transferDirection := desc.getDirection }

/-! ### From the hardware descriptor to strides -/

def createLocations : MemoryDirection → MemoryLocation × MemoryLocation
  | .ddr2ddr => (.dram, .dram)
  | .ddr2cmx => (.dram, .cmx)
  | .cmx2ddr => (.cmx, .dram)
  | .cmx2cmx => (.cmx, .cmx)
  | .__size => (.__size, .__size)

/-- `fill_side`: bytes along the width, and the slots as outer dimensions. -/
def fillSide (width : ℤ) (slots : List SideSlot) : VPUDMATensor where
  dtype := .uint8
  dims := (⟨width, 1⟩ :: slots.map fun e => (⟨i32 (e.dimSize + 1), e.stride⟩ : Dim ℤ)).reverse

def fromDMANNWorkloadNPU4050ToVPUDMADescriptor (wl : DMANNWorkloadNPU4050) : VPUDMADescriptor where
  device := wl.device
  srcLocation := (createLocations wl.transferDirection).1
  dstLocation := (createLocations wl.transferDirection).2
  src := fillSide wl.srcWidth (wl.eDim.map SizeStride.src)
  dst := fillSide wl.dstWidth (wl.eDim.map SizeStride.dst)

/-! ### From and to pairs of tensors -/

/-- The nearest type of whole bytes in the same family. -/
def toByteAlignedDtype (dtype : DataType) : DataType :=
  let bits := dtypeToBits dtype
  if 0 < bits ∧ bits.tmod 8 = 0 then dtype
  else match dtype with
    | .uint1 | .uint2 | .uint4 => .uint8
    | .int1 | .int2 | .int4 => .int8
    | .float4 => .bf8
    | _ => .uint8

/-- `make_side`: one contiguous dimension with the bytes of the tensor. -/
def makeSide (t : VPUTensor) : VPUDMATensor :=
  let totalBytes := i32 t.size
  let effectiveDtype := toByteAlignedDtype t.dtype
  let elemBytes := dtypeToBytes effectiveDtype
  let exactFit := 0 < elemBytes ∧ totalBytes.tmod elemBytes = 0
  { dtype := if exactFit then effectiveDtype else .uint8
    dims := [⟨if exactFit then totalBytes.tdiv elemBytes else totalBytes,
      if exactFit then elemBytes else 1⟩]
    layout := some t.layout }

def fromDMAWorkloadToVPUDMADescriptor (wl : DMAWorkload) : VPUDMADescriptor where
  device := wl.device
  srcLocation := wl.inputLocation
  dstLocation := wl.outputLocation
  src := makeSide wl.input
  dst := makeSide wl.output

/-- `make_tensor`: a tensor with as many bytes, which loses the strides. -/
def makeTensor (t : VPUDMATensor) : VPUTensor :=
  let numBytes := u32 t.getAccessedBytes
  let effectiveDtype := toByteAlignedDtype t.dtype
  let elemBytes := u32 (dtypeToBytes effectiveDtype)
  let exactFit := 0 < elemBytes ∧ numBytes % elemBytes = 0
  { shape := ⟨if exactFit then numBytes / elemBytes else numBytes, 1, 1, 1⟩
    dtype := if exactFit then effectiveDtype else .uint8
    layout := t.layout.getD .zxy }

def fromVPUDMADescriptorToDMAWorkload (desc : VPUDMADescriptor) : DMAWorkload where
  device := desc.device
  input := makeTensor desc.src
  output := makeTensor desc.dst
  inputLocation := desc.srcLocation
  outputLocation := desc.dstLocation
  outputWriteTiles := 1

/-! ### Multiplication of `int32_t` -/

theorem mul32_mul32_one (a b : ℤ) : mul32 (mul32 a b) 1 = mul32 a b := by
  simp [mul32]

theorem mul32_one {a : ℤ} (h : InI32 a) : mul32 a 1 = a := by
  rw [mul32, mul_one, i32_of_inI32 h]

@[simp] theorem mul32_zero (a : ℤ) : mul32 a 0 = 0 := by simp [mul32]

@[simp] theorem zero_mul32 (a : ℤ) : mul32 0 a = 0 := by simp [mul32]

theorem mul32_inI32 (a b : ℤ) : InI32 (mul32 a b) := i32_inI32 _

theorem peel_inI32 {c : ℤ} (hc : InI32 c) (ds : List (Dim ℤ)) : InI32 (peel mul32 1 c ds).1 := by
  induction ds generalizing c with
  | nil => exact hc
  | cons d ds ih =>
    unfold peel
    split_ifs
    · exact ih hc
    · exact ih (mul32_inI32 _ _)
    · exact hc

theorem total_zero (ds : List (Dim ℤ)) : total mul32 0 ds = 0 := by
  induction ds with
  | nil => rfl
  | cons d ds ih => rw [total, List.foldl_cons, zero_mul32]; exact ih

/-- No bytes are accessed when some dimension has no element. -/
theorem total_eq_zero {c : ℤ} {ds : List (Dim ℤ)} (h : ∃ d ∈ ds, d.count = 0) :
    total mul32 c ds = 0 := by
  induction ds generalizing c with
  | nil => simp at h
  | cons d ds ih =>
    obtain ⟨e, he, hzero⟩ := h
    rcases List.mem_cons.mp he with rfl | he
    · rw [total, List.foldl_cons, hzero, mul32_zero]; exact total_zero ds
    · exact ih ⟨e, he, hzero⟩

/-! ### Slots as dimensions -/

/-- A slot repeats once more than its size says. -/
def SideSlot.toDim (e : SideSlot) : Dim ℤ := ⟨i32 (e.dimSize + 1), e.stride⟩

theorem sideBytes_eq_total (width : ℤ) (slots : List SideSlot) :
    sideBytes width slots = total mul32 width (slots.map SideSlot.toDim) := by
  induction slots generalizing width with
  | nil => rfl
  | cons e es ih =>
    simp only [sideBytes, total, List.map_cons, List.foldl_cons, mul32, SideSlot.toDim,
      i32_mul_i32] at ih ⊢
    exact ih _

/-- Sizes that an `int` holds and that are not negative: each names its number of repetitions. -/
def SlotsOk (slots : List SideSlot) : Prop := ∀ e ∈ slots, 0 ≤ e.dimSize ∧ e.dimSize < 2147483648

theorem toDim_count_eq_one_iff {e : SideSlot} (h : 0 ≤ e.dimSize ∧ e.dimSize < 2147483648) :
    e.toDim.count = 1 ↔ e.dimSize = 0 := by
  simp only [SideSlot.toDim, i32]; omega

theorem sideContiguousBytes_eq_run (width : ℤ) {slots : List SideSlot} (h : SlotsOk slots) :
    sideContiguousBytes width slots = run mul32 1 width (slots.map SideSlot.toDim) := by
  induction slots generalizing width with
  | nil => rfl
  | cons e es ih =>
    have he := toDim_count_eq_one_iff (h e (by simp))
    have ih := fun w => ih w fun x hx => h x (List.mem_cons_of_mem _ hx)
    simp only [sideContiguousBytes, List.map_cons, run, he, ih]
    split_ifs with h1 h2 h3 h3
    · rfl
    · exact absurd h3 h2
    · rfl
    · simp only [mul32, SideSlot.toDim, i32_mul_i32]
    · exact absurd (not_not.mp h2) h3

end Vpunn
