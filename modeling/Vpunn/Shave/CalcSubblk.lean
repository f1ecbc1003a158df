import Mathlib.Data.List.Forall2
import Vpunn.Floats
import Vpunn.Tensor

/-! The blocks a SHAVE operation works on (`VPUEM_op_base_dsp.h`,
    `VPUEM_piecewise_calc_subblk_size.h`). Each tensor is flattened to its volume, which is then cut
    into blocks of at most the number of elements that the blocks of one SIMD word allow. Quotients
    are rounded up, in `double` for the block sizes and in `float` for the number of blocks. A
    tensor of one element has no dimension to cut and is refused by an exception. -/

namespace Vpunn

open MachineInt Cycles

/-- `multiply_vector` of the shape. -/
def VPUTensor.volume (t : VPUTensor) : ℕ :=
  u32 (t.shape.x * t.shape.y * t.shape.z * t.shape.b)

/-- `VPUEM_Subblk_Tensor` -/
structure VPUEMSubblkTensor where
  shape : List ℤ := [1, 1, 1]
  dtype : DataType := .uint8
  layout : Layout := .zxy
  deriving DecidableEq, Repr

namespace VPUEMSubblkTensor

def getShape (t : VPUEMSubblkTensor) (i : ℕ) : ℤ := t.shape.getD i 0

def setShape (t : VPUEMSubblkTensor) (m : ℕ) (val : ℤ) : VPUEMSubblkTensor :=
  { t with shape := t.shape.set m val }

end VPUEMSubblkTensor

/-- Why there are no blocks: an exception with its text, or an access outside of the shape. -/
inductive SubblkFailure where
  | runtimeError (what : String)
  | outOfBounds
  deriving DecidableEq, Repr

structure VPUEMCalcSubblk where
  adaptiveBlkNumEn : Bool
  maxBlkNum : ℤ
  dspArch : ℤ
  deriving DecidableEq, Repr

/-- The lists that `calc_dsp_block_unit` returns. -/
structure DspBlockUnit where
  numBlocks : List ℤ := [1, 1, 1]
  isizes : List VPUEMSubblkTensor := []
  isizesLast : List VPUEMSubblkTensor := []
  osizes : List VPUEMSubblkTensor := []
  osizesLast : List VPUEMSubblkTensor := []
  deriving DecidableEq, Repr

namespace VPUEMCalcSubblk

def simd (c : VPUEMCalcSubblk) : ℤ := c.dspArch.tdiv 8

/-- `setup_dsp`: the limit that `get_max_blk_num` returns. -/
def getMaxBlkNum (c : VPUEMCalcSubblk) (inputs outputs : List VPUTensor) : ℤ :=
  if c.adaptiveBlkNumEn then
    let totalIoSize := (inputs ++ outputs).foldl (fun total t => i32 (total + t.size)) 0
    let sizeSimdR := roundFloat (roundFloat (roundFloat totalIoSize * 8) / roundFloat c.dspArch)
    let maxBlkNum :=
      if sizeSimdR ≤ 1024 then 8
      else if sizeSimdR ≤ 8 * 1024 then 16
      else if sizeSimdR ≤ 16 * 1024 then 32
      else if sizeSimdR ≤ 32 * 1024 then 64
      else if sizeSimdR ≤ 64 * 1024 then 128
      else 32
    min (maxBlkNum * if c.dspArch = 128 then 2 else 1) 32
  else c.maxBlkNum

def roundDim (d0 d1 : ℤ) : ℤ := if d0 < d1 then 1 else ⌈roundDouble (d0 / d1)⌉

/-- The loop that makes a dimension smaller until the block is within the limit. It gives up at 1,
    and then the block is returned from inside the loop. -/
def shrink (rest limit dim : ℤ) : ℤ × Bool :=
  if limit < i32 (dim * rest) then
    if 1 < dim then shrink rest limit (dim - 1) else (dim, true)
  else (dim, false)
termination_by dim.toNat

/-- The innermost dimension of a block: the limit, or whole SIMD words that cover the extent. -/
def innerDimension (maxNumData dataNum extent : ℤ) : ℤ :=
  if maxNumData ≤ extent then maxNumData else i32 (dataNum * roundDim extent dataNum)

/-- The next outer dimension of a block, `rest` the elements of the inner ones. -/
def fitDimension (maxNumData rest extent : ℤ) : ℤ × Bool :=
  let dim := roundDim maxNumData rest
  shrink rest maxNumData (if extent < dim then extent else dim)

def calcTsSubblkSize (maxNumData dataNum : ℤ) (ts : VPUTensor) :
    Except SubblkFailure VPUEMSubblkTensor :=
  let shape := [ts.shape.x, ts.shape.y, ts.shape.z, ts.shape.b]
  match shape.reverse.findIdx? (· ≠ 1) with
  | none => .error (.runtimeError "All the dimensions are 1")
  | some idx =>
    let m := 3 - idx
    -- `set_shape(m - 1, ...)`
    if m = 0 then .error .outOfBounds
    else
      let blk : VPUEMSubblkTensor := { dtype := ts.dtype, layout := ts.layout }
      let blk := blk.setShape (m - 1) (innerDimension maxNumData dataNum (i32 (shape.getD m 0)))
      if m < 2 then .ok blk
      else
        let fit := fitDimension maxNumData (blk.getShape (m - 1)) (i32 (shape.getD (m - 1) 0))
        let blk := blk.setShape (m - 2) fit.1
        if fit.2 || m ≠ 3 then .ok blk
        else
          let fit := fitDimension maxNumData (i32 (blk.getShape (m - 1) * blk.getShape (m - 2)))
            (i32 (shape.getD (m - 2) 0))
          .ok (blk.setShape (m - 3) fit.1)

/-- What is left of an extent for the last block. -/
def lastDimension (extent : ℕ) (size : ℤ) : ℤ :=
  if i32 extent ≤ size then size else i32 ((extent % u32 size : ℕ) : ℤ)

def calcLastSubblkSize (dim : VPUEMSubblkTensor) (ts : VPUTensor) : VPUEMSubblkTensor :=
  let dim0 := lastDimension ts.shape.y (dim.getShape 0)
  let dim1 := lastDimension ts.shape.z (dim.getShape 1)
  if dim0 = 0 ∧ dim1 = 0 then dim
  else
    { shape := [if dim0 = 0 then dim.getShape 0 else dim0,
        if dim1 = 0 then dim.getShape 1 else dim1, dim.getShape 2]
      dtype := ts.dtype
      layout := ts.layout }

/-- The tensor as one dimension. -/
def flatten (t : VPUTensor) : VPUTensor :=
  { shape := ⟨1, 1, 1, t.volume⟩, dtype := t.dtype, layout := t.layout }

/-- The elements of one SIMD word. -/
def dataNum (c : VPUEMCalcSubblk) (dtype : DataType) : ℤ :=
  ⌈roundDouble (c.simd / (dtypeToBits dtype / 8))⌉

def maxNumData (c : VPUEMCalcSubblk) (maxBlkNum : ℤ) (dtype : DataType) : ℤ :=
  i32 (c.dataNum dtype * maxBlkNum)

def addInput (c : VPUEMCalcSubblk) (maxBlkNum : ℤ) (unit : DspBlockUnit) (inTensor : VPUTensor) :
    Except SubblkFailure DspBlockUnit :=
  let inTs := flatten inTensor
  (calcTsSubblkSize (c.maxNumData maxBlkNum inTs.dtype) (c.dataNum inTs.dtype) inTs).map
    fun idim => { unit with
      isizes := unit.isizes ++ [idim]
      isizesLast := unit.isizesLast ++ [calcLastSubblkSize idim inTs] }

/-- The number of blocks along one dimension. -/
def blockCount (extent : ℕ) (size : ℤ) : ℤ := ⌈roundFloat (roundFloat extent / roundFloat size)⌉

/-- The numbers of blocks are those of the last output. A shape has four dimensions, so the loop
    over more does nothing. -/
def addOutput (c : VPUEMCalcSubblk) (maxBlkNum : ℤ) (unit : DspBlockUnit)
    (outTensor : VPUTensor) : Except SubblkFailure DspBlockUnit :=
  let outTs := flatten outTensor
  (calcTsSubblkSize (c.maxNumData maxBlkNum outTs.dtype) (c.dataNum outTs.dtype) outTs).map
    fun odim => { unit with
      osizes := unit.osizes ++ [odim]
      osizesLast := unit.osizesLast ++ [calcLastSubblkSize odim outTs]
      numBlocks := [blockCount outTs.shape.y (odim.getShape 0),
        blockCount outTs.shape.z (odim.getShape 1), blockCount outTs.shape.b (odim.getShape 2)] }

def calcDspBlockUnit (c : VPUEMCalcSubblk) (inputs outputs : List VPUTensor) :
    Except SubblkFailure DspBlockUnit := do
  let maxBlkNum := c.getMaxBlkNum inputs outputs
  let unit ← inputs.foldlM (c.addInput maxBlkNum) {}
  outputs.foldlM (c.addOutput maxBlkNum) unit

/-! ### Rounding up -/

/-- The quotient rounded up, in integers. -/
theorem ceil_div_bounds (a : ℕ) {b : ℕ} (hb : 0 < b) :
    (⌈(a / b : ℚ)⌉ - 1) * b < (a : ℤ) ∧ (a : ℤ) ≤ ⌈(a / b : ℚ)⌉ * b := by
  have hbq : (0 : ℚ) < b := by exact_mod_cast hb
  have hlt := Int.ceil_lt_add_one (a / b : ℚ)
  have hle := Int.le_ceil (a / b : ℚ)
  rw [div_le_iff₀ hbq] at hle
  rw [← sub_lt_iff_lt_add, lt_div_iff₀ hbq] at hlt
  exact ⟨by exact_mod_cast hlt, by exact_mod_cast hle⟩

theorem roundDim_bounds {d0 d1 : ℤ} (h0 : 0 < d0) (hfit : d0 < 2147483648) (h1 : 0 < d1) :
    (roundDim d0 d1 - 1) * d1 < d0 ∧ d0 ≤ roundDim d0 d1 * d1 := by
  lift d0 to ℕ using h0.le
  lift d1 to ℕ using h1.le
  have hb : 0 < d1 := by exact_mod_cast h1
  unfold roundDim
  split
  · omega
  · have hquot : (0 : ℚ) ≤ ((d0 : ℤ) : ℚ) / ((d1 : ℤ) : ℚ) := by positivity
    rw [roundDouble_of_nonneg hquot, Int.cast_natCast, Int.cast_natCast,
      Rounding.ceil_round_div (by norm_num) (by omega) hb]
    exact ceil_div_bounds d0 hb

theorem roundDim_pos {d0 d1 : ℤ} (hfit : d0 < 2147483648) (h1 : 0 < d1) : 0 < roundDim d0 d1 := by
  by_cases hlt : d0 < d1
  · rw [roundDim, if_pos hlt]
    exact Int.one_pos
  · have hle := (roundDim_bounds (by omega) hfit h1).2
    exact (mul_pos_iff_of_pos_right h1).mp (by omega)

/-! ### One flattened tensor -/

variable {c : VPUEMCalcSubblk} {maxNumData dataNum : ℤ}

/-- A dimension of extent 1 is left at 1. -/
theorem fitDimension_one {rest : ℤ} (hrest : 0 < rest) (hle : rest ≤ maxNumData)
    (hfit : maxNumData < 2147483648) : fitDimension maxNumData rest 1 = (1, false) := by
  have hpos := roundDim_pos hfit hrest
  have hdim : (if 1 < roundDim maxNumData rest then 1 else roundDim maxNumData rest) = 1 := by
    split <;> omega
  change shrink rest maxNumData (if 1 < roundDim maxNumData rest then 1 else _) = _
  rw [hdim, shrink, one_mul, i32_of_bounds (by omega) (by omega), if_neg (by omega)]

/-- The innermost dimension is within the limit, and it covers an extent below the limit. -/
theorem innerDimension_spec {maxBlkNum : ℤ} (hdata : 0 < dataNum) (hblk : 1 ≤ maxBlkNum)
    (hmax : maxNumData = dataNum * maxBlkNum) (hfit : maxNumData < 2147483648) {extent : ℤ}
    (hextent : InI32 extent) :
    0 < innerDimension maxNumData dataNum extent
      ∧ innerDimension maxNumData dataNum extent ≤ maxNumData
      ∧ (extent < maxNumData → extent ≤ innerDimension maxNumData dataNum extent) := by
  have hle : dataNum ≤ maxNumData := by rw [hmax]; exact le_mul_of_one_le_right hdata.le hblk
  unfold innerDimension
  split
  · exact ⟨by omega, le_refl _, fun h => by omega⟩
  · next hsmall =>
    by_cases hword : extent < dataNum
    · rw [roundDim, if_pos hword, mul_one, i32_of_bounds (by omega) (by omega)]
      exact ⟨hdata, hle, fun _ => hword.le⟩
    · obtain ⟨hlo, hhi⟩ := roundDim_bounds (by omega : 0 < extent) hextent.2 hdata
      generalize roundDim extent dataNum = words at *
      have hwords : words ≤ maxBlkNum := by
        -- one word less is below the limit
        have : (words - 1) * dataNum < maxBlkNum * dataNum := by
          rw [mul_comm maxBlkNum, ← hmax]; omega
        have := lt_of_mul_lt_mul_right this hdata.le
        omega
      have hsize : dataNum * words ≤ maxNumData := by
        rw [hmax]; exact mul_le_mul_of_nonneg_left hwords hdata.le
      rw [mul_comm words] at hhi
      rw [i32_of_bounds (by omega) (by omega)]
      exact ⟨by omega, hsize, fun _ => hhi⟩

/-- The block of a tensor whose last dimension is not 1. -/
theorem calcTsSubblkSize_of_batches (ts : VPUTensor) (h : ts.shape.b ≠ 1) {dim : ℤ}
    (hinner : innerDimension maxNumData dataNum (i32 ts.shape.b) = dim) {dim1 dim0 : ℤ}
    (hfit1 : fitDimension maxNumData dim (i32 ts.shape.z) = (dim1, false))
    (hfit0 : fitDimension maxNumData (i32 (dim * dim1)) (i32 ts.shape.y) = (dim0, false)) :
    calcTsSubblkSize maxNumData dataNum ts
      = .ok ⟨[dim0, dim1, dim], ts.dtype, ts.layout⟩ := by
  have hfind : [ts.shape.x, ts.shape.y, ts.shape.z, ts.shape.b].reverse.findIdx? (· ≠ 1)
      = some 0 := by
    rw [List.reverse_cons]
    simp [List.findIdx?_cons, h]
  unfold calcTsSubblkSize
  dsimp only
  rw [hfind]
  simp [hinner, hfit1, hfit0, VPUEMSubblkTensor.setShape, VPUEMSubblkTensor.getShape]

@[simp] theorem flatten_y (t : VPUTensor) : (flatten t).shape.y = 1 := rfl

@[simp] theorem flatten_z (t : VPUTensor) : (flatten t).shape.z = 1 := rfl

@[simp] theorem flatten_b (t : VPUTensor) : (flatten t).shape.b = t.volume := rfl

@[simp] theorem flatten_dtype (t : VPUTensor) : (flatten t).dtype = t.dtype := rfl

theorem i32_one : i32 ((1 : ℕ) : ℤ) = 1 := by decide

/-- The block of a flattened tensor. -/
def flatBlock (maxNumData dataNum : ℤ) (t : VPUTensor) : VPUEMSubblkTensor :=
  ⟨[1, 1, innerDimension maxNumData dataNum (i32 t.volume)], t.dtype, t.layout⟩

/-- A tensor of more than one element is cut into blocks along its flattened dimension. -/
theorem calcTsSubblkSize_flatten {maxBlkNum : ℤ} (hdata : 0 < dataNum) (hblk : 1 ≤ maxBlkNum)
    (hmax : maxNumData = dataNum * maxBlkNum) (hfit : maxNumData < 2147483648) {t : VPUTensor}
    (hvolume : t.volume ≠ 1) :
    calcTsSubblkSize maxNumData dataNum (flatten t) = .ok (flatBlock maxNumData dataNum t) := by
  obtain ⟨hpos, hle, -⟩ := innerDimension_spec hdata hblk hmax hfit (i32_inI32 t.volume)
  unfold flatBlock
  generalize hdim : innerDimension maxNumData dataNum (i32 t.volume) = dim at *
  have hrest : i32 (dim * 1) = dim := by rw [mul_one, i32_of_bounds (by omega) (by omega)]
  have hone := fitDimension_one hpos hle hfit
  have hinner : innerDimension maxNumData dataNum (i32 (flatten t).shape.b) = dim := by
    rw [flatten_b, hdim]
  have hfit1 : fitDimension maxNumData dim (i32 (flatten t).shape.z) = (1, false) := by
    rw [flatten_z, i32_one, hone]
  have hfit0 : fitDimension maxNumData (i32 (dim * 1)) (i32 (flatten t).shape.y) = (1, false) := by
    rw [flatten_y, i32_one, hrest, hone]
  rw [calcTsSubblkSize_of_batches (flatten t) hvolume hinner hfit1 hfit0]
  rfl

/-- The last block is like the others. -/
theorem calcLastSubblkSize_flatten (maxNumData dataNum : ℤ) (t : VPUTensor) :
    calcLastSubblkSize (flatBlock maxNumData dataNum t) (flatten t)
      = flatBlock maxNumData dataNum t := by
  have hdim : (flatBlock maxNumData dataNum t).shape
      = [1, 1, innerDimension maxNumData dataNum (i32 t.volume)] := rfl
  have hone : lastDimension 1 1 = 1 := by rw [lastDimension, i32_one, if_pos (le_refl 1)]
  unfold calcLastSubblkSize VPUEMSubblkTensor.getShape
  rw [hdim, flatten_y, flatten_z]
  simp only [List.getD_cons_zero, List.getD_cons_succ, hone, one_ne_zero, and_self, if_false]
  rfl

/-- A tensor of one element is refused. -/
theorem calcTsSubblkSize_flatten_one {t : VPUTensor} (h : t.volume = 1) (maxNumData dataNum : ℤ) :
    calcTsSubblkSize maxNumData dataNum (flatten t)
      = .error (.runtimeError "All the dimensions are 1") := by
  unfold calcTsSubblkSize flatten
  dsimp only
  rw [h]
  rfl

/-! ### All tensors -/

/-- A block of positive dimensions with at most `limit` elements. -/
structure BoundedBlock (limit : ℤ) (blk : VPUEMSubblkTensor) : Prop where
  pos : ∀ dim ∈ blk.shape, 0 < dim
  elements_le : blk.shape.prod ≤ limit

/-- Tensors of known types and more than one element, with limits that fit the type `int`. -/
structure Cuttable (c : VPUEMCalcSubblk) (inputs outputs : List VPUTensor) : Prop where
  arch_pos : 0 < c.dspArch
  arch_dvd : 8 ∣ c.dspArch
  one_le : 1 ≤ c.maxBlkNum
  volume : ∀ t ∈ inputs ++ outputs, 1 < t.volume
  dtype : ∀ t ∈ inputs ++ outputs, t.dtype ≠ .__size
  limit : ∀ t ∈ inputs ++ outputs,
    c.dataNum t.dtype * c.getMaxBlkNum inputs outputs < 2147483648

/-- What the lists of blocks have to satisfy. The number of blocks covers the last output exactly,
    if its volume is a `float` or one block is enough for it. -/
structure Decomposition (c : VPUEMCalcSubblk) (inputs outputs : List VPUTensor)
    (unit : DspBlockUnit) : Prop where
  isizes : List.Forall₂ (fun t => BoundedBlock (c.dataNum t.dtype * c.getMaxBlkNum inputs outputs))
    inputs unit.isizes
  isizesLast : List.Forall₂
    (fun t => BoundedBlock (c.dataNum t.dtype * c.getMaxBlkNum inputs outputs))
    inputs unit.isizesLast
  osizes : List.Forall₂ (fun t => BoundedBlock (c.dataNum t.dtype * c.getMaxBlkNum inputs outputs))
    outputs unit.osizes
  osizesLast : List.Forall₂
    (fun t => BoundedBlock (c.dataNum t.dtype * c.getMaxBlkNum inputs outputs))
    outputs unit.osizesLast
  covers : ∀ t ∈ outputs.getLast?, ∀ blk ∈ unit.osizes.getLast?,
    (t.volume ≤ 2 ^ 24 ∨ (t.volume : ℤ) < c.dataNum t.dtype * c.getMaxBlkNum inputs outputs) →
    (unit.numBlocks.prod - 1) * blk.shape.prod < (t.volume : ℤ)
      ∧ (t.volume : ℤ) ≤ unit.numBlocks.prod * blk.shape.prod

theorem dtypeToBits_pos {d : DataType} (h : d ≠ .__size) : 0 < dtypeToBits d := by
  cases d <;> first | decide | exact absurd rfl h

theorem dataNum_pos (harch : 0 < c.dspArch) (hdvd : 8 ∣ c.dspArch) {d : DataType}
    (hd : d ≠ .__size) : 0 < c.dataNum d := by
  have hsimd : 0 < c.simd := by
    unfold simd
    rw [Int.tdiv_eq_ediv_of_nonneg harch.le]
    omega
  have hquot : (0 : ℚ) < c.simd / (dtypeToBits d / 8) := by
    have h1 : (0 : ℚ) < c.simd := by exact_mod_cast hsimd
    have h2 : (0 : ℚ) < dtypeToBits d := by exact_mod_cast dtypeToBits_pos hd
    positivity
  rw [VPUEMCalcSubblk.dataNum, roundDouble_of_nonneg hquot.le, Int.ceil_pos]
  exact Rounding.round_pos (by norm_num) hquot

theorem one_le_getMaxBlkNum (h : 1 ≤ c.maxBlkNum) (inputs outputs : List VPUTensor) :
    1 ≤ c.getMaxBlkNum inputs outputs := by
  unfold getMaxBlkNum
  split
  · dsimp only
    split_ifs <;> omega
  · exact h

/-- The number of blocks of a volume that is a `float`, or for which one block is enough. -/
theorem blockCount_bounds {volume : ℕ} {size : ℤ} (hvolume : 0 < volume) (hsize : 0 < size)
    (h : (volume ≤ 2 ^ 24 ∧ size ≤ 2 ^ 24) ∨ (volume : ℤ) ≤ size) :
    (blockCount volume size - 1) * size < (volume : ℤ)
      ∧ (volume : ℤ) ≤ blockCount volume size * size := by
  lift size to ℕ using hsize.le
  have hpos : 0 < size := by exact_mod_cast hsize
  have hquot : 0 ≤ toFloat volume / toFloat size :=
    div_nonneg (toFloat_nonneg (Nat.cast_nonneg _)) (toFloat_nonneg (Nat.cast_nonneg _))
  have hcount : blockCount volume size = ⌈toFloat (toFloat volume / toFloat size)⌉ := by
    rw [blockCount, Int.cast_natCast, roundFloat_of_nonneg (Nat.cast_nonneg volume),
      roundFloat_of_nonneg (Nat.cast_nonneg size), roundFloat_of_nonneg hquot]
  rw [hcount]
  rcases h with ⟨hv, hs⟩ | hle
  · have hs : size ≤ 2 ^ 24 := by exact_mod_cast hs
    rw [toFloat, toFloat, toFloat, Rounding.round_natCast hv (by norm_num),
      Rounding.round_natCast hs (by norm_num), Rounding.ceil_round_div (by norm_num) hv hpos]
    exact ceil_div_bounds volume hpos
  · -- the quotient is rounded to a positive number that is at most 1
    have hle : volume ≤ size := by exact_mod_cast hle
    have hfloat : ∀ {n : ℕ}, 0 < n → 0 < toFloat n := fun hn =>
      Rounding.round_pos (by norm_num) (by exact_mod_cast hn)
    have hone : toFloat volume / toFloat size ≤ 1 := by
      rw [div_le_one (hfloat hpos)]
      exact toFloat_mono (Nat.cast_nonneg _) (by exact_mod_cast hle)
    have hceil : ⌈toFloat (toFloat volume / toFloat size)⌉ = 1 := by
      rw [Int.ceil_eq_iff, Int.cast_one, sub_self]
      refine ⟨Rounding.round_pos (by norm_num) (div_pos (hfloat hvolume) (hfloat hpos)), ?_⟩
      calc toFloat (toFloat volume / toFloat size) ≤ toFloat ((1 : ℕ) : ℚ) :=
            toFloat_mono hquot (by exact_mod_cast hone)
        _ = 1 := by rw [toFloat, Rounding.round_natCast (by norm_num) (by norm_num), Nat.cast_one]
    rw [hceil]
    omega

/-- The size of the block of a tensor. -/
def blockSize (c : VPUEMCalcSubblk) (maxBlkNum : ℤ) (t : VPUTensor) : ℤ :=
  innerDimension (c.maxNumData maxBlkNum t.dtype) (c.dataNum t.dtype) (i32 t.volume)

/-- The block of a tensor. -/
def block (c : VPUEMCalcSubblk) (maxBlkNum : ℤ) (t : VPUTensor) : VPUEMSubblkTensor :=
  ⟨[1, 1, c.blockSize maxBlkNum t], t.dtype, t.layout⟩

theorem flatBlock_eq_block (c : VPUEMCalcSubblk) (maxBlkNum : ℤ) (t : VPUTensor) :
    flatBlock (c.maxNumData maxBlkNum t.dtype) (c.dataNum t.dtype) t = c.block maxBlkNum t := by
  rw [flatBlock, block, blockSize]

/-- A tensor of a known type and more than one element, within the limits. -/
structure CuttableTensor (c : VPUEMCalcSubblk) (maxBlkNum : ℤ) (t : VPUTensor) : Prop where
  dataNum_pos : 0 < c.dataNum t.dtype
  volume : 1 < t.volume
  limit : c.dataNum t.dtype * maxBlkNum < 2147483648

section Blocks

variable {maxBlkNum : ℤ} {t : VPUTensor}

theorem CuttableTensor.maxNumData_eq (h : CuttableTensor c maxBlkNum t) (hblk : 1 ≤ maxBlkNum) :
    c.maxNumData maxBlkNum t.dtype = c.dataNum t.dtype * maxBlkNum := by
  have := mul_pos h.dataNum_pos (by omega : 0 < maxBlkNum)
  exact i32_of_bounds (by omega) h.limit

theorem CuttableTensor.calcTsSubblkSize_eq (h : CuttableTensor c maxBlkNum t)
    (hblk : 1 ≤ maxBlkNum) :
    calcTsSubblkSize (c.maxNumData maxBlkNum (flatten t).dtype) (c.dataNum (flatten t).dtype)
      (flatten t) = .ok (c.block maxBlkNum t) := by
  rw [flatten_dtype, ← flatBlock_eq_block]
  exact calcTsSubblkSize_flatten h.dataNum_pos hblk (h.maxNumData_eq hblk)
    (by rw [h.maxNumData_eq hblk]; exact h.limit) (by have := h.volume; omega)

@[simp] theorem block_shape (c : VPUEMCalcSubblk) (maxBlkNum : ℤ) (t : VPUTensor) :
    (c.block maxBlkNum t).shape = [1, 1, c.blockSize maxBlkNum t] := rfl

theorem prod_one_one (n : ℤ) : [1, 1, n].prod = n := by simp

theorem CuttableTensor.blockSize_spec (h : CuttableTensor c maxBlkNum t) (hblk : 1 ≤ maxBlkNum) :
    0 < c.blockSize maxBlkNum t ∧ c.blockSize maxBlkNum t ≤ c.dataNum t.dtype * maxBlkNum
      ∧ ((t.volume : ℤ) < c.dataNum t.dtype * maxBlkNum →
        (t.volume : ℤ) ≤ c.blockSize maxBlkNum t) := by
  have hmax := h.maxNumData_eq hblk
  have hlimit := h.limit
  obtain ⟨hpos, hle, hcover⟩ := innerDimension_spec h.dataNum_pos hblk hmax
    (by rw [hmax]; exact hlimit) (i32_inI32 t.volume)
  rw [← blockSize] at hpos hle hcover
  rw [hmax] at hle hcover
  refine ⟨hpos, hle, fun hlt => ?_⟩
  rw [i32_natCast (by omega)] at hcover
  exact hcover hlt

theorem CuttableTensor.boundedBlock (h : CuttableTensor c maxBlkNum t) (hblk : 1 ≤ maxBlkNum) :
    BoundedBlock (c.dataNum t.dtype * maxBlkNum) (c.block maxBlkNum t) := by
  obtain ⟨hpos, hle, -⟩ := h.blockSize_spec hblk
  refine ⟨fun dim hdim => ?_, ?_⟩
  · rw [block_shape, List.mem_cons, List.mem_cons, List.mem_singleton] at hdim
    rcases hdim with heq | heq | heq
    · rw [heq]; exact Int.one_pos
    · rw [heq]; exact Int.one_pos
    · rw [heq]; exact hpos
  · calc (c.block maxBlkNum t).shape.prod = c.blockSize maxBlkNum t := prod_one_one _
      _ ≤ c.dataNum t.dtype * maxBlkNum := hle

theorem addInput_eq (h : CuttableTensor c maxBlkNum t) (hblk : 1 ≤ maxBlkNum)
    (unit : DspBlockUnit) :
    c.addInput maxBlkNum unit t = .ok { unit with
      isizes := unit.isizes ++ [c.block maxBlkNum t]
      isizesLast := unit.isizesLast ++ [c.block maxBlkNum t] } := by
  unfold addInput
  dsimp only
  rw [h.calcTsSubblkSize_eq hblk, Except.map, ← flatBlock_eq_block, calcLastSubblkSize_flatten]

theorem addOutput_eq (h : CuttableTensor c maxBlkNum t) (hblk : 1 ≤ maxBlkNum)
    (unit : DspBlockUnit) :
    c.addOutput maxBlkNum unit t = .ok { unit with
      osizes := unit.osizes ++ [c.block maxBlkNum t]
      osizesLast := unit.osizesLast ++ [c.block maxBlkNum t]
      numBlocks := [1, 1, blockCount t.volume (c.blockSize maxBlkNum t)] } := by
  have hone : blockCount 1 1 = 1 := by decide +kernel
  have hget : ∀ i, (c.block maxBlkNum t).getShape i = [1, 1, c.blockSize maxBlkNum t].getD i 0 :=
    fun _ => rfl
  have hlast : calcLastSubblkSize (c.block maxBlkNum t) (flatten t) = c.block maxBlkNum t := by
    rw [← flatBlock_eq_block, calcLastSubblkSize_flatten]
  unfold addOutput
  dsimp only
  rw [h.calcTsSubblkSize_eq hblk, Except.map, hlast, hget, hget, hget, flatten_y, flatten_z,
    flatten_b, List.getD_cons_succ, List.getD_cons_succ, List.getD_cons_zero, List.getD_cons_zero,
    List.getD_cons_succ, List.getD_cons_zero, hone]

theorem foldlM_addInput {tensors : List VPUTensor} (hblk : 1 ≤ maxBlkNum)
    (h : ∀ t ∈ tensors, CuttableTensor c maxBlkNum t) (unit : DspBlockUnit) :
    tensors.foldlM (c.addInput maxBlkNum) unit = .ok { unit with
      isizes := unit.isizes ++ tensors.map (c.block maxBlkNum)
      isizesLast := unit.isizesLast ++ tensors.map (c.block maxBlkNum) } := by
  induction tensors generalizing unit with
  | nil => simp [pure, Except.pure]
  | cons t tensors ih =>
    rw [List.foldlM_cons, addInput_eq (h t List.mem_cons_self) hblk]
    refine (ih (fun t' ht' => h t' (List.mem_cons_of_mem _ ht')) _).trans ?_
    rw [List.map_cons, List.append_assoc, List.append_assoc]
    rfl

/-- The last output decides the numbers of blocks. -/
theorem foldlM_addOutput {tensors : List VPUTensor} (hblk : 1 ≤ maxBlkNum)
    (h : ∀ t ∈ tensors, CuttableTensor c maxBlkNum t) (unit : DspBlockUnit) :
    tensors.foldlM (c.addOutput maxBlkNum) unit = .ok { unit with
      osizes := unit.osizes ++ tensors.map (c.block maxBlkNum)
      osizesLast := unit.osizesLast ++ tensors.map (c.block maxBlkNum)
      numBlocks := (tensors.getLast?.map fun t =>
        [1, 1, blockCount t.volume (c.blockSize maxBlkNum t)]).getD unit.numBlocks } := by
  induction tensors generalizing unit with
  | nil => simp [pure, Except.pure]
  | cons t tensors ih =>
    rw [List.foldlM_cons, addOutput_eq (h t List.mem_cons_self) hblk]
    refine (ih (fun t' ht' => h t' (List.mem_cons_of_mem _ ht')) _).trans ?_
    rw [List.map_cons, List.append_assoc, List.append_assoc]
    rcases List.eq_nil_or_concat tensors with rfl | ⟨front, last, rfl⟩
    · rfl
    · rw [List.concat_eq_append, List.getLast?_concat, ← List.cons_append, List.getLast?_concat]
      rfl

end Blocks

theorem Cuttable.cuttableTensor {inputs outputs : List VPUTensor} (h : c.Cuttable inputs outputs)
    {t : VPUTensor} (ht : t ∈ inputs ++ outputs) :
    CuttableTensor c (c.getMaxBlkNum inputs outputs) t :=
  ⟨VPUEMCalcSubblk.dataNum_pos h.arch_pos h.arch_dvd (h.dtype t ht), h.volume t ht, h.limit t ht⟩

/-- Tensors of more than one element are cut into bounded blocks, and the blocks cover the last
    output. -/
theorem calcDspBlockUnit_decomposition (c : VPUEMCalcSubblk) (inputs outputs : List VPUTensor)
    (h : c.Cuttable inputs outputs) :
    ∃ unit, c.calcDspBlockUnit inputs outputs = .ok unit
      ∧ c.Decomposition inputs outputs unit := by
  have hblk := one_le_getMaxBlkNum h.one_le inputs outputs
  have hinputs : ∀ t ∈ inputs, CuttableTensor c (c.getMaxBlkNum inputs outputs) t :=
    fun t ht => h.cuttableTensor (List.mem_append_left _ ht)
  have houtputs : ∀ t ∈ outputs, CuttableTensor c (c.getMaxBlkNum inputs outputs) t :=
    fun t ht => h.cuttableTensor (List.mem_append_right _ ht)
  have hbounded : ∀ {tensors : List VPUTensor},
      (∀ t ∈ tensors, CuttableTensor c (c.getMaxBlkNum inputs outputs) t) →
      List.Forall₂ (fun t => BoundedBlock (c.dataNum t.dtype * c.getMaxBlkNum inputs outputs))
        tensors (tensors.map (c.block (c.getMaxBlkNum inputs outputs))) := fun htensors =>
    List.forall₂_map_right_iff.mpr (List.forall₂_same.mpr fun t ht =>
      (htensors t ht).boundedBlock hblk)
  have hunit : c.calcDspBlockUnit inputs outputs = .ok
      ⟨(outputs.getLast?.map fun t => [1, 1, blockCount t.volume
          (c.blockSize (c.getMaxBlkNum inputs outputs) t)]).getD [1, 1, 1],
        inputs.map (c.block (c.getMaxBlkNum inputs outputs)),
        inputs.map (c.block (c.getMaxBlkNum inputs outputs)),
        outputs.map (c.block (c.getMaxBlkNum inputs outputs)),
        outputs.map (c.block (c.getMaxBlkNum inputs outputs))⟩ := by
    rw [calcDspBlockUnit, foldlM_addInput hblk hinputs]
    exact foldlM_addOutput hblk houtputs _
  refine ⟨_, hunit, hbounded hinputs, hbounded hinputs, hbounded houtputs, hbounded houtputs, ?_⟩
  intro t ht blk hblock hsmall
  dsimp only at hblock ⊢
  rw [Option.mem_def] at ht hblock
  rw [List.getLast?_map, ht, Option.map_some, Option.some_inj] at hblock
  rw [ht, Option.map_some, Option.getD_some, ← hblock, block_shape, prod_one_one, prod_one_one]
  have hcut := houtputs t (List.mem_of_getLast? ht)
  obtain ⟨hpos, hle, hcover⟩ := hcut.blockSize_spec hblk
  refine blockCount_bounds (by have := hcut.volume; omega) hpos ?_
  rcases hsmall with hfloat | hone
  · by_cases hlt : (t.volume : ℤ) < c.dataNum t.dtype * c.getMaxBlkNum inputs outputs
    · exact .inr (hcover hlt)
    · exact .inl ⟨hfloat, by omega⟩
  · exact .inr (hcover hone)

/-- A tensor of 9 x 9 x 32 numbers of 16 bits with an adaptive number of blocks. -/
theorem calcDspBlockUnit_decomposition_float16 : ∃ unit,
    (⟨true, 32, 128⟩ : VPUEMCalcSubblk).calcDspBlockUnit [⟨⟨9, 9, 32, 1⟩, .float16, .zxy, false⟩]
      [⟨⟨9, 9, 32, 1⟩, .float16, .zxy, false⟩] = .ok unit
    ∧ (⟨true, 32, 128⟩ : VPUEMCalcSubblk).Decomposition [⟨⟨9, 9, 32, 1⟩, .float16, .zxy, false⟩]
      [⟨⟨9, 9, 32, 1⟩, .float16, .zxy, false⟩] unit :=
  calcDspBlockUnit_decomposition ⟨true, 32, 128⟩ [⟨⟨9, 9, 32, 1⟩, .float16, .zxy, false⟩]
    [⟨⟨9, 9, 32, 1⟩, .float16, .zxy, false⟩]
    ⟨by decide, by decide, by decide, by decide, by decide, by decide +kernel⟩

theorem foldlM_addInput_of_volume_one {t : VPUTensor} (h : t.volume = 1) (maxBlkNum : ℤ)
    (tensors : List VPUTensor) (unit : DspBlockUnit) :
    (t :: tensors).foldlM (c.addInput maxBlkNum) unit
      = .error (.runtimeError "All the dimensions are 1") := by
  rw [List.foldlM_cons, addInput, calcTsSubblkSize_flatten_one h]
  rfl

/-- One element is refused; the number of blocks of one element each loses the last one of `2^24 + 1`
    elements; a limit of `2^31` elements wraps around to a negative size. -/
theorem calcDspBlockUnit_counterexamples :
    (⟨true, 32, 128⟩ : VPUEMCalcSubblk).calcDspBlockUnit [⟨⟨1, 1, 1, 1⟩, .float16, .zxy, false⟩]
        [⟨⟨1, 1, 1, 1⟩, .float16, .zxy, false⟩]
        = .error (.runtimeError "All the dimensions are 1")
      ∧ (⟨false, 1, 8⟩ : VPUEMCalcSubblk).calcDspBlockUnit []
          [⟨⟨1, 1, 1, 16777217⟩, .uint8, .zxy, false⟩]
        = .ok ⟨[1, 1, 16777216], [], [], [⟨[1, 1, 1], .uint8, .zxy⟩], [⟨[1, 1, 1], .uint8, .zxy⟩]⟩
      ∧ (⟨false, 134217728, 128⟩ : VPUEMCalcSubblk).calcDspBlockUnit
          [⟨⟨2, 1, 1, 1⟩, .uint8, .zxy, false⟩] []
        = .ok ⟨[1, 1, 1], [⟨[1, 1, -2147483648], .uint8, .zxy⟩],
          [⟨[1, 1, -2147483648], .uint8, .zxy⟩], [], []⟩ := by
  refine ⟨?_, ?_, ?_⟩
  · rw [calcDspBlockUnit, foldlM_addInput_of_volume_one (by decide)]
    rfl
  · decide +kernel
  · decide +kernel

end VPUEMCalcSubblk

end Vpunn
