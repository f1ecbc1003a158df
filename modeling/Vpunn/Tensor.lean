import Vpunn.Lib.MachineInt
import Vpunn.Types

/-! Element sizes (`dpu_dtypes_dimension_info.h`, `datatype_collection_size.h`) and the byte size of
    a `VPUTensor` under the configured pack mode 0: an element never crosses a byte boundary it
    does not have to, and the innermost dimension fills whole bytes. -/

namespace Vpunn
open MachineInt

/-- Size of an element in bytes, `-1` for an unknown type. -/
def dtypeToBytes : DataType → ℤ
  | .int64 | .uint64 | .float64 => 8
  | .int32 | .uint32 | .float32 => 4
  | .uint16 | .int16 | .float16 | .bfloat16 => 2
  | .uint8 | .int8 | .bf8 | .hf8 => 1
  | .uint4 | .int4 | .float4 | .uint2 | .int2 | .uint1 | .int1 => 1
  | .__size => -1

/-- Size of an element in bits, `-1` for an unknown type. -/
def dtypeToBits : DataType → ℤ
  | .int64 | .uint64 | .float64 => 64
  | .int32 | .uint32 | .float32 => 32
  | .uint16 | .int16 | .float16 | .bfloat16 => 16
  | .uint8 | .int8 | .bf8 | .hf8 => 8
  | .uint4 | .int4 | .float4 => 4
  | .uint2 | .int2 => 2
  | .uint1 | .int1 => 1
  | .__size => -1

/-- How many elements of a type fit into one byte, `0` for wider types. -/
def typesPerByte (d : DataType) : ℤ :=
  if dtypeToBits d ≤ 8 then Int.tdiv 8 (dtypeToBits d) else 0

/-- `compute_size_in_bytes<int32_t>`: bytes for a number of elements, `0` if there is none. -/
def computeSizeInBytes (elementsCount : ℤ) (d : DataType) : ℤ :=
  if 0 < elementsCount ∧ 0 < dtypeToBytes d then
    if dtypeToBytes d = 1 then
      if 0 < typesPerByte d then
        let fullBytes := elementsCount.tdiv (typesPerByte d)
        if elementsCount.tmod (typesPerByte d) ≠ 0 then fullBytes + 1 else fullBytes
      else 0
    else i32 (elementsCount * dtypeToBytes d)
  else 0

/-! ### Layouts -/

/-- The four dimensions of an activation tensor (`Dim::Act`). -/
inductive Act where
  | x | y | z | b
  deriving DecidableEq, Repr

/-- Dimensions from the innermost to the outermost; unknown layouts are read as ZXY. -/
def layoutToOrder : Layout → Act × Act × Act × Act
  | .cmajor | .xyz => (.x, .y, .z, .b)
  | .xzy => (.x, .z, .y, .b)
  | .yxz => (.y, .x, .z, .b)
  | .yzx => (.y, .z, .x, .b)
  | .zyx => (.z, .y, .x, .b)
  | .zmajor | .zxy | .invalid | .__size => (.z, .x, .y, .b)

def Shape.get (s : Shape) : Act → ℕ
  | .x => s.x
  | .y => s.y
  | .z => s.z
  | .b => s.b

/-! ### Pack mode 0 -/

/-- How many elements share a complete byte sequence and how many bytes that sequence has. -/
def computeContiguousElementCountAndSize (d : DataType) : ℤ × ℤ :=
  let typeDimensionB := dtypeToBytes d
  let overflowBits := dtypeToBits d - 8 * (typeDimensionB - 1)
  if overflowBits < 1 ∨ 8 < overflowBits then (-1, -1)
  else
    let contiguousSeqElem := Int.tdiv 8 overflowBits
    (contiguousSeqElem, contiguousSeqElem * (typeDimensionB - 1) + 1)

def computeAlignedSequencesSizeB (d : DataType) (elem : ℤ) : ℤ :=
  let seqInfo := computeContiguousElementCountAndSize d
  i32 (elem.tdiv seqInfo.1 * seqInfo.2)

def sizeOfRemaininElemB (d : DataType) (elem contiguousSeqElm : ℤ) : ℤ :=
  let remainingElem := elem.tmod contiguousSeqElm
  if remainingElem = 0 then 0 else (i32 (remainingElem * dtypeToBits d)).tdiv 8 + 1

/-- Bytes of one run along the innermost dimension. -/
def innermostDimSizeB (d : DataType) (innermostDimension : ℤ) : ℤ :=
  let seqInfo := computeContiguousElementCountAndSize d
  i32 (computeAlignedSequencesSizeB d innermostDimension
    + sizeOfRemaininElemB d innermostDimension seqInfo.1)

/-- `VPUTensor::size()` in the configured `size_packmode_0`. -/
def VPUTensor.size (t : VPUTensor) : ℕ :=
  let order := layoutToOrder t.layout
  u32 (innermostDimSizeB t.dtype (i32 (t.shape.get order.1))
    * t.shape.get order.2.1 * t.shape.get order.2.2.1 * t.shape.get order.2.2.2)

/-! ### The exact size -/

/-- Bytes of `n` elements packed into whole bytes, without a bound on the result. -/
def packedBytes (d : DataType) (n : ℕ) : ℕ :=
  if 0 < dtypeToBits d then (n * (dtypeToBits d).toNat + 7) / 8 else n

/-- The byte size of a tensor as a natural number. -/
def VPUTensor.exactSize (t : VPUTensor) : ℕ :=
  let order := layoutToOrder t.layout
  packedBytes t.dtype (t.shape.get order.1) * t.shape.get order.2.1 * t.shape.get order.2.2.1
    * t.shape.get order.2.2.2

/-- What is left over of a run takes at most one byte more. -/
theorem sizeOfRemaininElemB_natCast {d : DataType} {c bits : ℕ} (hbits : dtypeToBits d = bits)
    (hc : 0 < c) (hsmall : c * bits ≤ 8) (n : ℕ) :
    sizeOfRemaininElemB d n c = if n % c = 0 then 0 else 1 := by
  have hmod : (n : ℤ).tmod c = ((n % c : ℕ) : ℤ) := by
    rw [Int.tmod_eq_emod_of_nonneg (by omega)]; rfl
  unfold sizeOfRemaininElemB
  simp only [hmod, hbits, Nat.cast_eq_zero]
  split
  · rfl
  · have hlt : n % c * bits < 8 := by
      rcases Nat.eq_zero_or_pos bits with h0 | h0
      · rw [h0]; omega
      · exact lt_of_lt_of_le (Nat.mul_lt_mul_of_pos_right (Nat.mod_lt n hc) h0) hsmall
    have hcast : ((n % c : ℕ) : ℤ) * bits = ((n % c * bits : ℕ) : ℤ) := by push_cast; ring
    rw [hcast, i32_of_bounds (by omega) (by omega), Int.tdiv_eq_ediv_of_nonneg (by omega)]
    omega

/-- One run is as long as its packed elements. The types fall in three kinds: several elements a
    byte, whole bytes, and the unknown type, whose `-1` divides and multiplies out. -/
theorem innermostDimSizeB_eq (d : DataType) (n : ℕ) :
    innermostDimSizeB d n = i32 (packedBytes d n) := by
  unfold innermostDimSizeB computeAlignedSequencesSizeB packedBytes
  have hsub : ∀ c bits : ℕ, dtypeToBits d = bits → 0 < c → c * bits ≤ 8 → _ :=
    fun c bits hbits hc hsmall => sizeOfRemaininElemB_natCast hbits hc hsmall n
  cases d
  case uint4 | int4 | float4 =>
    have h := hsub 2 4 rfl (by omega) (by omega)
    simp [computeContiguousElementCountAndSize, dtypeToBytes, dtypeToBits] at h ⊢
    rw [h]
    congr 1; split <;> omega
  case uint2 | int2 =>
    have h := hsub 4 2 rfl (by omega) (by omega)
    simp [computeContiguousElementCountAndSize, dtypeToBytes, dtypeToBits] at h ⊢
    rw [h]
    congr 1; split <;> omega
  case uint1 | int1 =>
    have h := hsub 8 1 rfl (by omega) (by omega)
    simp [computeContiguousElementCountAndSize, dtypeToBytes, dtypeToBits] at h ⊢
    rw [h]
    congr 1; split <;> omega
  all_goals
    norm_num [computeContiguousElementCountAndSize, dtypeToBytes, dtypeToBits,
      sizeOfRemaininElemB]
  all_goals congr 1; omega

/-- The size is the exact size modulo `2^32`, as long as the innermost extent is an `int`. -/
theorem VPUTensor.size_eq_u32_exactSize {t : VPUTensor}
    (h : t.shape.get (layoutToOrder t.layout).1 < 2147483648) : t.size = u32 t.exactSize := by
  unfold VPUTensor.size VPUTensor.exactSize
  simp only
  rw [i32_of_bounds (by omega) (by omega), innermostDimSizeB_eq]
  push_cast
  rw [mul_assoc, mul_assoc, u32_i32_mul]
  congr 1; ring

theorem VPUTensor.size_eq_exactSize {t : VPUTensor}
    (h : t.shape.get (layoutToOrder t.layout).1 < 2147483648) (hfit : t.exactSize < 4294967296) :
    t.size = t.exactSize := by
  rw [VPUTensor.size_eq_u32_exactSize h, u32_natCast hfit]

/-! ### Changing extents -/

theorem packedBytes_mono (d : DataType) {m n : ℕ} (h : m ≤ n) :
    packedBytes d m ≤ packedBytes d n := by
  unfold packedBytes
  split
  · exact Nat.div_le_div_right (Nat.add_le_add_right (Nat.mul_le_mul_right _ h) 7)
  · exact h

theorem packedBytes_pos (d : DataType) {n : ℕ} (h : 0 < n) : 0 < packedBytes d n := by
  unfold packedBytes
  split
  · next hb =>
    have : n * 1 ≤ n * (dtypeToBits d).toNat := Nat.mul_le_mul_left n (by omega)
    omega
  · exact h

@[simp] theorem packedBytes_zero (d : DataType) : packedBytes d 0 = 0 := by
  unfold packedBytes; split <;> simp

/-- A shape is at most another one when every extent is. -/
def Shape.Le (s t : Shape) : Prop := s.x ≤ t.x ∧ s.y ≤ t.y ∧ s.z ≤ t.z ∧ s.b ≤ t.b

theorem Shape.Le.get {s t : Shape} (h : s.Le t) (a : Act) : s.get a ≤ t.get a := by
  obtain ⟨hx, hy, hz, hb⟩ := h
  cases a <;> assumption

/-- Every extent is positive. -/
def Shape.Pos (s : Shape) : Prop := 0 < s.x ∧ 0 < s.y ∧ 0 < s.z ∧ 0 < s.b

instance (s : Shape) : Decidable s.Pos := inferInstanceAs (Decidable (_ ∧ _))

theorem Shape.Pos.get {s : Shape} (h : s.Pos) (a : Act) : 0 < s.get a := by
  obtain ⟨hx, hy, hz, hb⟩ := h
  cases a <;> assumption

theorem VPUTensor.exactSize_mono {t u : VPUTensor} (hd : t.dtype = u.dtype)
    (hl : t.layout = u.layout) (h : t.shape.Le u.shape) : t.exactSize ≤ u.exactSize := by
  unfold VPUTensor.exactSize
  simp only [hd, hl]
  gcongr
  · exact packedBytes_mono _ (h.get _)
  all_goals exact h.get _

theorem VPUTensor.exactSize_pos {t : VPUTensor} (h : t.shape.Pos) : 0 < t.exactSize := by
  unfold VPUTensor.exactSize
  have h0 := packedBytes_pos t.dtype (h.get (layoutToOrder t.layout).1)
  have h1 := h.get (layoutToOrder t.layout).2.1
  have h2 := h.get (layoutToOrder t.layout).2.2.1
  have h3 := h.get (layoutToOrder t.layout).2.2.2
  positivity

/-- The layout orders list every dimension once, so one zero extent empties the tensor. -/
theorem VPUTensor.exactSize_eq_zero {t : VPUTensor} (a : Act) (h : t.shape.get a = 0) :
    t.exactSize = 0 := by
  unfold VPUTensor.exactSize
  cases hl : t.layout <;> cases a <;> simp_all [layoutToOrder]

theorem VPUTensor.size_eq_zero {t : VPUTensor} (a : Act) (h : t.shape.get a = 0) : t.size = 0 := by
  have hinner : innermostDimSizeB t.dtype 0 = 0 := by
    simpa using innermostDimSizeB_eq t.dtype 0
  unfold VPUTensor.size
  cases hl : t.layout <;> cases a <;> simp_all [layoutToOrder]

end Vpunn
