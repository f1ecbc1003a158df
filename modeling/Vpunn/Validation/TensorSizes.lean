import Vpunn.Dpu.Operation

/-! The size of a `TensorInfo` (`serializable_tensor.h`), by its run along the innermost dimension, and
    the law that ties it to the size of the `VPUTensor` it is built from. -/

namespace Vpunn
open MachineInt

namespace TensorInfo

def get (t : TensorInfo) : Act → ℤ
  | .x => t.width
  | .y => t.height
  | .z => t.channels
  | .b => t.batch

def toVPUTensor (t : TensorInfo) : VPUTensor where
  shape := ⟨u32 t.width, u32 t.height, u32 t.channels, u32 t.batch⟩
  dtype := t.datatype
  layout := t.layout
  sparsity := t.sparsityEnabled

def numberOfElements (t : TensorInfo) : ℤ := t.height * t.width * t.channels * t.batch

def tensorSizeB (t : TensorInfo) : ℕ := t.toVPUTensor.size

/-- The size in bytes of the tensor that has only the innermost dimension. -/
def getTensorInnermostDimB (t : TensorInfo) : ℤ :=
  let only (a : Act) : ℤ := if (layoutToOrder t.layout).1 = a then t.get a else 1
  tensorSizeB { t with width := only .x, height := only .y, channels := only .z, batch := only .b }

def numberOfElementsExcludingInnermost (t : TensorInfo) : ℤ :=
  match (layoutToOrder t.layout).1 with
  | .x => t.height * t.channels * t.batch
  | .y => t.width * t.channels * t.batch
  | .z => t.width * t.height * t.batch
  | .b => t.width * t.height * t.channels

end TensorInfo

/-! ### One run times the number of runs -/

/-- The innermost extent of a tensor. -/
def VPUTensor.innermostExtent (t : VPUTensor) : ℕ := t.shape.get (layoutToOrder t.layout).1

/-- The runs along the innermost dimension. -/
def VPUTensor.runs (t : VPUTensor) : ℕ :=
  t.shape.get (layoutToOrder t.layout).2.1 * t.shape.get (layoutToOrder t.layout).2.2.1
    * t.shape.get (layoutToOrder t.layout).2.2.2

theorem VPUTensor.exactSize_eq (t : VPUTensor) :
    t.exactSize = packedBytes t.dtype t.innermostExtent * t.runs := by
  unfold VPUTensor.exactSize VPUTensor.innermostExtent VPUTensor.runs
  ring

theorem VPUTensor.size_eq_u32 (t : VPUTensor) :
    t.size = u32 (innermostDimSizeB t.dtype (i32 t.innermostExtent) * t.runs) := by
  unfold VPUTensor.size VPUTensor.innermostExtent VPUTensor.runs
  push_cast
  simp only [mul_assoc]

theorem Shape.Pos.runs_pos {t : VPUTensor} (h : t.shape.Pos) : 0 < t.runs :=
  Nat.mul_pos (Nat.mul_pos (h.get _) (h.get _)) (h.get _)

theorem layoutToOrder_ne_innermost (l : Layout) :
    (layoutToOrder l).2.1 ≠ (layoutToOrder l).1 ∧ (layoutToOrder l).2.2.1 ≠ (layoutToOrder l).1
      ∧ (layoutToOrder l).2.2.2 ≠ (layoutToOrder l).1 := by
  cases l <;> simp [layoutToOrder]

/-- The dimensions other than the innermost. -/
theorem layoutToOrder_cases {l : Layout} {a : Act} (h : a ≠ (layoutToOrder l).1) :
    a = (layoutToOrder l).2.1 ∨ a = (layoutToOrder l).2.2.1 ∨ a = (layoutToOrder l).2.2.2 := by
  cases l <;> cases a <;> simp_all [layoutToOrder]

namespace TensorInfo

theorem getTensorInnermostDimB_eq {t : TensorInfo} {n : ℕ}
    (hn : t.get (layoutToOrder t.layout).1 = n) (hlt : n < 2147483648)
    (hfit : packedBytes t.datatype n < 4294967296) :
    t.getTensorInnermostDimB = packedBytes t.datatype n := by
  have hn' : u32 (n : ℤ) = n := u32_natCast (by omega)
  have hone : u32 1 = 1 := rfl
  unfold getTensorInnermostDimB tensorSizeB
  simp only
  rw [VPUTensor.size_eq_exactSize]
  all_goals
    cases hl : t.layout <;>
      simp_all [toVPUTensor, VPUTensor.exactSize, layoutToOrder, Shape.get, get]

theorem get_ofVPUTensor (t : VPUTensor) (a : Act) :
    (ofVPUTensor t).get a = i32 (t.shape.get a) := by
  cases a with
  | x => rw [get, ofVPUTensor, VPUTensor.width, Shape.get]
  | y => rw [get, ofVPUTensor, VPUTensor.height, Shape.get]
  | z => rw [get, ofVPUTensor, VPUTensor.channels, Shape.get]
  | b => rw [get, ofVPUTensor, VPUTensor.batches, Shape.get]

theorem numberOfElementsExcludingInnermost_eq_get (t : TensorInfo) :
    t.numberOfElementsExcludingInnermost = t.get (layoutToOrder t.layout).2.1
      * t.get (layoutToOrder t.layout).2.2.1 * t.get (layoutToOrder t.layout).2.2.2 := by
  unfold numberOfElementsExcludingInnermost
  cases t.layout <;> simp only [layoutToOrder, get] <;> ring

theorem numberOfElementsExcludingInnermost_ofVPUTensor {t : VPUTensor}
    (hlt : ∀ a, a ≠ (layoutToOrder t.layout).1 → t.shape.get a < 2147483648) :
    (ofVPUTensor t).numberOfElementsExcludingInnermost = t.runs := by
  have hget : ∀ a, a ≠ (layoutToOrder t.layout).1 → (ofVPUTensor t).get a = t.shape.get a :=
    fun a ha => (get_ofVPUTensor t a).trans (i32_natCast (hlt a ha))
  have hlayout : (ofVPUTensor t).layout = t.layout := rfl
  obtain ⟨h1, h2, h3⟩ := layoutToOrder_ne_innermost t.layout
  rw [numberOfElementsExcludingInnermost_eq_get, hlayout, hget _ h1, hget _ h2, hget _ h3,
    VPUTensor.runs]
  push_cast
  rfl

end TensorInfo

/-! ### The size law -/

/-- The size is exact, no tensor of smaller extents is larger, and it is the run of the innermost
    dimension times the number of runs. -/
structure VPUTensor.SizeLaw (t : VPUTensor) : Prop where
  size_eq : t.size = t.exactSize
  size_mono : ∀ s : VPUTensor, s.dtype = t.dtype → s.layout = t.layout → s.shape.Pos →
    s.shape.Le t.shape → s.size ≤ t.size
  size_eq_runs : (t.size : ℤ) = (TensorInfo.ofVPUTensor t).getTensorInnermostDimB
    * (TensorInfo.ofVPUTensor t).numberOfElementsExcludingInnermost

/-- Every extent is an `unsigned int`. -/
def Shape.Unsigned (s : Shape) : Prop := ∀ a, s.get a < 4294967296

/-- Of a tensor that is not too large, only the innermost extent can be too large for an `int`. -/
theorem VPUTensor.get_lt {t : VPUTensor} (hpos : t.shape.Pos) (hfit : t.exactSize ≤ 2147483647)
    {a : Act} (ha : a ≠ (layoutToOrder t.layout).1) : t.shape.get a < 2147483648 := by
  have hle : t.shape.get a ≤ t.runs := by
    have h1 := hpos.get (layoutToOrder t.layout).2.1
    have h2 := hpos.get (layoutToOrder t.layout).2.2.1
    have h3 := hpos.get (layoutToOrder t.layout).2.2.2
    unfold runs
    rcases layoutToOrder_cases ha with rfl | rfl | rfl
    · exact le_trans (Nat.le_mul_of_pos_right _ h2) (Nat.le_mul_of_pos_right _ h3)
    · exact le_trans (Nat.le_mul_of_pos_left _ h1) (Nat.le_mul_of_pos_right _ h3)
    · exact Nat.le_mul_of_pos_left _ (Nat.mul_pos h1 h2)
  have hinner : 0 < packedBytes t.dtype t.innermostExtent := packedBytes_pos _ (hpos.get _)
  rw [exactSize_eq] at hfit
  have := Nat.le_mul_of_pos_left t.runs hinner
  omega

theorem VPUTensor.sizeLaw_of_lt {t : VPUTensor} (hpos : t.shape.Pos)
    (hfit : t.exactSize ≤ 2147483647) (hlt : t.innermostExtent < 2147483648) : t.SizeLaw := by
  have hsize : t.size = t.exactSize := size_eq_exactSize hlt (by omega)
  refine ⟨hsize, fun s hd hl hs hle => ?_, ?_⟩
  · have hexact := exactSize_mono hd hl hle
    have hget := hle.get (layoutToOrder t.layout).1
    have hlt' : t.shape.get (layoutToOrder t.layout).1 < 2147483648 := hlt
    rw [hsize, size_eq_exactSize (by rw [hl]; omega) (by omega)]
    exact hexact
  · have hpacked : packedBytes t.dtype t.innermostExtent < 4294967296 := by
      have := Nat.le_mul_of_pos_right (packedBytes t.dtype t.innermostExtent) hpos.runs_pos
      rw [exactSize_eq] at hfit
      omega
    have hget : (TensorInfo.ofVPUTensor t).get (layoutToOrder t.layout).1 = t.innermostExtent :=
      (TensorInfo.get_ofVPUTensor t _).trans (i32_natCast hlt)
    have hinner : (TensorInfo.ofVPUTensor t).getTensorInnermostDimB
        = packedBytes t.dtype t.innermostExtent :=
      TensorInfo.getTensorInnermostDimB_eq hget hlt hpacked
    rw [hinner,
      TensorInfo.numberOfElementsExcludingInnermost_ofVPUTensor fun a ha => get_lt hpos hfit ha,
      hsize, exactSize_eq]
    push_cast
    rfl

/-! ### Where the innermost extent is no `int` -/

theorem computeContiguousElementCountAndSize_eq {d : DataType} {c bits : ℕ}
    (hbits : dtypeToBits d = bits) (hbytes : dtypeToBytes d = 1) (hc : c * bits = 8) :
    computeContiguousElementCountAndSize d = ((c : ℤ), 1) := by
  have hpos : 0 < bits := Nat.pos_of_ne_zero fun h => by simp [h] at hc
  have hle : bits ≤ 8 := Nat.le_of_dvd (by omega) ⟨c, by rw [Nat.mul_comm]; exact hc.symm⟩
  have hdiv : Int.tdiv 8 bits = c := by
    have h8 : (8 : ℤ) = (c : ℤ) * bits := by exact_mod_cast hc.symm
    rw [h8, Int.mul_tdiv_cancel _ (by omega)]
  unfold computeContiguousElementCountAndSize
  simp only [hbits, hbytes, sub_self, mul_zero, sub_zero, zero_add, hdiv]
  rw [if_neg (by omega)]

/-- A negative extent is split into whole bytes from the wrong side: what is left over takes one more
    byte. -/
theorem innermostDimSizeB_neg {d : DataType} {c bits m : ℕ} (hbits : dtypeToBits d = bits)
    (hbytes : dtypeToBytes d = 1) (hc : c * bits = 8) (hm : m ≤ 2147483648) :
    innermostDimSizeB d (-m) = -((m / c : ℕ) : ℤ) + if m % c = 0 then 0 else 1 := by
  have hpos : 0 < c := Nat.pos_of_ne_zero fun h => by simp [h] at hc
  have hdiv : (-(m : ℤ)).tdiv c = -((m / c : ℕ) : ℤ) := by
    rw [Int.neg_tdiv, Int.tdiv_eq_ediv_of_nonneg (by omega)]
    push_cast
    rfl
  have hmod : (-(m : ℤ)).tmod c = -((m % c : ℕ) : ℤ) := by
    rw [Int.neg_tmod, Int.tmod_eq_emod_of_nonneg (by omega)]
    push_cast
    rfl
  have hle : m / c ≤ m := Nat.div_le_self m c
  have hrem : sizeOfRemaininElemB d (-m) c = if m % c = 0 then 0 else 1 := by
    have hlt : m % c * bits < 8 := by
      have hb : 0 < bits := Nat.pos_of_ne_zero fun h => by simp [h] at hc
      calc m % c * bits < c * bits := Nat.mul_lt_mul_of_pos_right (Nat.mod_lt m hpos) hb
        _ = 8 := hc
    have hcast : -((m % c : ℕ) : ℤ) * bits = -((m % c * bits : ℕ) : ℤ) := by push_cast; ring
    unfold sizeOfRemaininElemB
    simp only [hmod, hbits, neg_eq_zero, Nat.cast_eq_zero]
    rw [hcast, i32_of_bounds (by omega) (by omega), Int.neg_tdiv,
      Int.tdiv_eq_ediv_of_nonneg (by omega)]
    split <;> omega
  unfold innermostDimSizeB computeAlignedSequencesSizeB
  rw [computeContiguousElementCountAndSize_eq hbits hbytes hc]
  simp only [hdiv, hrem, mul_one]
  generalize m / c = q at hle
  have hq : i32 (-(q : ℤ)) = -q := i32_of_bounds (by omega) (by omega)
  rw [hq]
  split
  all_goals rw [i32_of_bounds (by omega) (by omega)]

/-- Elements that are smaller than a byte fill it, and others take a byte or more. -/
theorem packs_or_le_packedBytes (d : DataType) :
    (∃ c bits : ℕ, dtypeToBits d = bits ∧ dtypeToBytes d = 1
        ∧ (c = 2 ∧ bits = 4 ∨ c = 4 ∧ bits = 2 ∨ c = 8 ∧ bits = 1))
      ∨ ∀ n, n ≤ packedBytes d n := by
  cases d
  case uint4 | int4 | float4 => exact .inl ⟨2, 4, rfl, rfl, by simp⟩
  case uint2 | int2 => exact .inl ⟨4, 2, rfl, rfl, by simp⟩
  case uint1 | int1 => exact .inl ⟨8, 1, rfl, rfl, by simp⟩
  all_goals
    right
    intro n
    simp only [packedBytes, dtypeToBits, Int.reduceToNat, Int.reduceLT, Int.reduceNeg, if_true,
      if_false]
    omega

/-- What is computed and what is exact differ by less than `2^32`, since there are fewer runs than
    elements in a byte. -/
theorem wrong_runs_ne {c bits n runs : ℕ}
    (hc : c = 2 ∧ bits = 4 ∨ c = 4 ∧ bits = 2 ∨ c = 8 ∧ bits = 1) (hruns : 0 < runs)
    (hlarge : 2147483648 ≤ n) (hlt : n < 4294967296)
    (hfit : (n * bits + 7) / 8 * runs ≤ 2147483647) :
    u32 ((-(((4294967296 - n) / c : ℕ) : ℤ) + if (4294967296 - n) % c = 0 then 0 else 1) * runs)
      ≠ (n * bits + 7) / 8 * runs := by
  intro heq
  have hfew : runs < c := by
    by_contra hge
    have hrun : 2147483648 / c ≤ (n * bits + 7) / 8 := by
      rcases hc with ⟨rfl, rfl⟩ | ⟨rfl, rfl⟩ | ⟨rfl, rfl⟩ <;> omega
    have hmul := Nat.mul_le_mul hrun (not_lt.mp hge)
    rcases hc with ⟨rfl, rfl⟩ | ⟨rfl, rfl⟩ | ⟨rfl, rfl⟩ <;> omega
  -- the run that is computed is short by `2^32 / c`, or by one less
  obtain ⟨short, hrun, hshort, hshort'⟩ : ∃ short : ℤ,
      -(((4294967296 - n) / c : ℕ) : ℤ) + (if (4294967296 - n) % c = 0 then 0 else 1)
        = ((n * bits + 7) / 8 : ℕ) - short ∧ 0 < short ∧ short * c ≤ 4294967296 := by
    refine ⟨4294967296 / c - if (4294967296 - n) % c = 0 then 0 else 1, ?_, ?_, ?_⟩
    all_goals
      rcases hc with ⟨rfl, rfl⟩ | ⟨rfl, rfl⟩ | ⟨rfl, rfl⟩ <;> split <;> omega
  have hpos : 0 < short * runs := mul_pos hshort (by omega)
  have hsmall : short * runs < 4294967296 := by
    have : short * runs < short * c := mul_lt_mul_of_pos_left (by omega) hshort
    omega
  rw [hrun, sub_mul] at heq
  generalize short * runs = y at hpos hsmall heq
  generalize hx : (n * bits + 7) / 8 * runs = x at hfit heq
  have hcast : (((n * bits + 7) / 8 : ℕ) : ℤ) * runs = x := by rw [← hx]; push_cast; rfl
  rw [hcast] at heq
  unfold u32 at heq
  omega

theorem VPUTensor.size_ne_exactSize {t : VPUTensor} (hpos : t.shape.Pos)
    (hunsigned : t.shape.Unsigned) (hfit : t.exactSize ≤ 2147483647)
    (hlarge : 2147483648 ≤ t.innermostExtent) : t.size ≠ t.exactSize := by
  have hruns : 0 < t.runs := hpos.runs_pos
  have hlt : t.innermostExtent < 4294967296 := hunsigned _
  rw [size_eq_u32]
  rw [exactSize_eq] at hfit ⊢
  generalize t.runs = runs at *
  generalize t.innermostExtent = n at *
  rcases packs_or_le_packedBytes t.dtype with ⟨c, bits, hbits, hbytes, hc⟩ | hle
  · have hneg : i32 n = -((4294967296 - n : ℕ) : ℤ) := by
      unfold i32; omega
    have hpacked : packedBytes t.dtype n = (n * bits + 7) / 8 := by
      unfold packedBytes
      rw [hbits, if_pos (by omega), Int.toNat_natCast]
    have hcb : c * bits = 8 := by rcases hc with ⟨rfl, rfl⟩ | ⟨rfl, rfl⟩ | ⟨rfl, rfl⟩ <;> rfl
    rw [hneg, innermostDimSizeB_neg hbits hbytes hcb (by omega), hpacked]
    rw [hpacked] at hfit
    exact wrong_runs_ne hc hruns hlarge hlt hfit
  · have := Nat.le_mul_of_pos_right (packedBytes t.dtype n) hruns
    have := hle n
    omega

/-- A tensor of at most `2^31 - 1` bytes has the size law exactly if its innermost extent is an
    `int`. -/
theorem VPUTensor.sizeLaw_iff (t : VPUTensor) (hpos : t.shape.Pos)
    (hunsigned : t.shape.Unsigned) (hfit : t.exactSize ≤ 2147483647) :
    t.SizeLaw ↔ t.innermostExtent < 2147483648 := by
  constructor
  · intro h
    by_contra hlarge
    exact size_ne_exactSize hpos hunsigned hfit (by omega) h.size_eq
  · exact sizeLaw_of_lt hpos hfit

theorem VPUTensor.sizeLaw_iff_int4 :
    VPUTensor.SizeLaw { shape := ⟨5, 3, 33, 1⟩, dtype := .int4 } ↔ 33 < 2147483648 :=
  sizeLaw_iff _ (by decide) (fun a => by cases a <;> decide) (by decide)

/-- A run of `2^31` elements of 4 bits has `2^30` bytes. Its extent is read as `-2^31`. -/
theorem VPUTensor.not_sizeLaw_uint4 :
    ∃ t : VPUTensor, t = { shape := ⟨1, 1, 2147483648, 1⟩, dtype := .uint4 } ∧ t.shape.Pos
      ∧ t.shape.Unsigned ∧ t.exactSize = 1073741824 ∧ t.size = 3221225472 ∧ ¬ t.SizeLaw := by
  refine ⟨_, rfl, by decide, fun a => by cases a <;> decide, by decide, by decide, fun h => ?_⟩
  exact absurd h.size_eq (by decide)

end Vpunn
