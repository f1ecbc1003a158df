import Vpunn.Lib.Window
import Vpunn.Tensor

/-! What the splits of a `DPULayer` share (`layer.h`, `utils.h`, `dpu_halo.h`): the axis that is
    cut, the arithmetic helpers, and the last steps over the list of tiles. -/

namespace Vpunn
open MachineInt Window

/-! ### The two axes -/

/-- The axis of a spatial split: the height with `TOP` and `BOTTOM` as its ends, or the width with
    `LEFT` and `RIGHT`. -/
inductive Axis where
  | h | w
  deriving DecidableEq, Repr

namespace Axis

def dim : Axis → Shape → ℕ
  | .h, s => s.y
  | .w, s => s.x

def setDim : Axis → Shape → ℕ → Shape
  | .h, s, n => { s with y := n }
  | .w, s, n => { s with x := n }

def grid : Axis → GridWH → ℕ
  | .h, g => g.h
  | .w, g => g.w

def padBegin : Axis → Padding → ℕ
  | .h, p => p.top
  | .w, p => p.left

def padEnd : Axis → Padding → ℕ
  | .h, p => p.bottom
  | .w, p => p.right

def setPads : Axis → Padding → ℕ → ℕ → Padding
  | .h, p, b, e => { p with top := b, bottom := e }
  | .w, p, b, e => { p with left := b, right := e }

@[simp] theorem dim_setDim (a : Axis) (s : Shape) (n : ℕ) : a.dim (a.setDim s n) = n := by
  cases a <;> rfl

@[simp] theorem padBegin_setPads (a : Axis) (p : Padding) (b e : ℕ) :
    a.padBegin (a.setPads p b e) = b := by cases a <;> rfl

@[simp] theorem padEnd_setPads (a : Axis) (p : Padding) (b e : ℕ) :
    a.padEnd (a.setPads p b e) = e := by cases a <;> rfl

theorem setDim_le {a : Axis} {s : Shape} {n : ℕ} (h : n ≤ a.dim s) : (a.setDim s n).Le s := by
  cases a <;> simp_all [setDim, dim, Shape.Le]

theorem setDim_pos {a : Axis} {s : Shape} {n : ℕ} (h : s.Pos) (hn : 0 < n) :
    (a.setDim s n).Pos := by
  cases a <;> simp_all [setDim, Shape.Pos]

/-- The dimension of a tensor that an axis runs along. -/
def act : Axis → Act
  | .h => .y
  | .w => .x

theorem get_act_setDim (a : Axis) (s : Shape) (n : ℕ) : (a.setDim s n).get a.act = n := by
  cases a <;> rfl

end Axis

/-- The sizes of a layer along one axis. -/
def DPUWorkload.geometry (layer : DPULayer) (a : Axis) : Geometry where
  inp := a.dim layer.inputs.shape
  k := a.grid layer.kernels
  s := a.grid layer.strides
  padBegin := a.padBegin layer.padding
  padEnd := a.padEnd layer.padding
  out := a.dim layer.outputs.shape

/-- The output rows of a tile, or its output columns. -/
def Axis.outputRows (a : Axis) (tile : DPULayer) : ℕ := a.dim tile.outputs.shape

/-! ### Arithmetic helpers -/

def ceilDivision (a b : ℕ) : ℕ := u32 (a + b - 1) / b

def roundUp (a b : ℕ) : ℕ := ceilDivision a b * b

/-- The input extent that `output` rows need. Its assertions are not part of a release build. -/
def helperInputDim (output kernel totalPadding stride : ℕ) : ℕ :=
  let rawInput := i32 ((i32 output - 1) * i32 stride - i32 totalPadding + i32 kernel)
  u32 (if rawInput ≤ 0 ∨ output = 0 then 0 else rawInput)

theorem ceilDivision_eq {a b : ℕ} (hb : 0 < b) (hfit : a + b ≤ 4294967296) :
    ceilDivision a b = (a + b - 1) / b := by
  unfold ceilDivision
  congr 1
  unfold u32; omega

theorem le_mul_ceilDivision {a b : ℕ} (hb : 0 < b) (hfit : a + b ≤ 4294967296) :
    a ≤ b * ceilDivision a b := by
  rw [ceilDivision_eq hb hfit]
  have := Nat.lt_mul_div_succ (a + b - 1) hb
  rw [Nat.mul_add] at this
  omega

theorem ceilDivision_pos {a b : ℕ} (ha : 0 < a) (hb : 0 < b) (hfit : a + b ≤ 4294967296) :
    0 < ceilDivision a b := by
  rw [ceilDivision_eq hb hfit]
  exact Nat.div_pos (by omega) hb

theorem ceilDivision_le {a b : ℕ} (hb : 0 < b) (hfit : a + b ≤ 4294967296) :
    ceilDivision a b ≤ a := by
  rw [ceilDivision_eq hb hfit, ← Nat.lt_succ_iff, Nat.div_lt_iff_lt_mul hb]
  rcases Nat.eq_zero_or_pos a with rfl | ha
  · omega
  · have : a * 1 ≤ a * b := Nat.mul_le_mul_left a hb
    rw [Nat.succ_mul]; omega

/-- Without overflow, `output` windows of `kernel` rows span `output - 1` steps and a kernel. -/
theorem helperInputDim_eq {output kernel stride : ℕ} (ho : 0 < output) (hk : 0 < kernel)
    (hs : stride < 2147483648) (hout : output < 2147483648)
    (hfit : (output - 1) * stride + kernel < 2147483648) :
    helperInputDim output kernel 0 stride = (output - 1) * stride + kernel := by
  obtain ⟨n, rfl⟩ := Nat.exists_eq_add_of_lt ho
  simp only [Nat.zero_add, Nat.add_sub_cancel] at hfit ⊢
  have hraw : i32 ((i32 ((n + 1 : ℕ) : ℤ) - 1) * i32 stride - i32 (0 : ℕ) + i32 kernel)
      = ((n * stride + kernel : ℕ) : ℤ) := by
    rw [i32_of_bounds (x := ((n + 1 : ℕ) : ℤ)) (by omega) (by omega),
      i32_of_bounds (x := (stride : ℤ)) (by omega) (by omega),
      i32_of_bounds (x := (kernel : ℤ)) (by omega) (by omega)]
    simp only [Nat.cast_zero, i32_zero]
    have : ((n + 1 : ℕ) - 1 : ℤ) * stride - 0 + kernel = ((n * stride + kernel : ℕ) : ℤ) := by
      push_cast; ring
    rw [this, i32_of_bounds (by omega) (by omega)]
  unfold helperInputDim
  simp only at hraw ⊢
  rw [hraw, if_neg (by omega), u32_natCast (by omega)]

/-! ### Halos and storage elements -/

/-- `setInboundHaloVerticalForBroadcastAll`, `setInboundHaloHorizontalForBroadcastAll`: the output
    rows before and after a tile that the other tiles write to it. -/
def HaloWorkload.setInboundHaloForBroadcastAll (h : HaloWorkload) (a : Axis)
    (fullOutputSize outputRemainingToProcess outputTileDim : ℕ) : HaloWorkload :=
  let prev := i32 (fullOutputSize - outputRemainingToProcess)
  let next := i32 (outputRemainingToProcess - outputTileDim)
  match a with
  | .h => { h with output0InboundHalo := { h.output0InboundHalo with top := prev, bottom := next } }
  | .w => { h with output0InboundHalo := { h.output0InboundHalo with left := prev, right := next } }

def HaloWorkload.setInboundHaloVerticalForBroadcastAll (h : HaloWorkload)
    (fullOutputSize outputRemainingToProcess outputTileDim : ℕ) : HaloWorkload :=
  h.setInboundHaloForBroadcastAll .h fullOutputSize outputRemainingToProcess outputTileDim

def HaloWorkload.setInboundHaloHorizontalForBroadcastAll (h : HaloWorkload)
    (fullOutputSize outputRemainingToProcess outputTileDim : ℕ) : HaloWorkload :=
  h.setInboundHaloForBroadcastAll .w fullOutputSize outputRemainingToProcess outputTileDim

def HaloWorkload.setNoHalo (h : HaloWorkload) : Axis → HaloWorkload
  | .h => h.setVerticalNoHalo
  | .w => h.setHorizontalNoHalo

/-- `rescale_tensor_height`, `rescale_tensor_width`: the share `part / whole` of an extent, rounded
    up and at least `1`. -/
def rescaleTensor (a : Axis) (tensor : Shape) (part whole : ℕ) : Shape :=
  let newRaw := ceilDivision (u32 (a.dim tensor * part)) whole
  a.setDim tensor (if 0 < newRaw then newRaw else 1)

/-! ### Lists of tiles -/

namespace DPUWorkload

/-- `redimension_tile_H`, `redimension_tile_W` -/
def redimensionTile (layer tile : DPULayer) (a : Axis) (inputTileDim outputTileDim : ℕ) :
    DPULayer :=
  { tile with
    outputs := tile.outputs.setShape (a.setDim layer.outputs.shape outputTileDim)
    inputs := tile.inputs.setShape (a.setDim layer.inputs.shape inputTileDim) }

def redimensionTileH (layer tile : DPULayer) (inputTileDim outputTileDim : ℕ) : DPULayer :=
  layer.redimensionTile tile .h inputTileDim outputTileDim

def redimensionTileW (layer tile : DPULayer) (inputTileDim outputTileDim : ℕ) : DPULayer :=
  layer.redimensionTile tile .w inputTileDim outputTileDim

/-- Removes the tiles whose output has no bytes. -/
def removeEmptyTiles (tilesList : List DPULayer) : List DPULayer :=
  tilesList.filter fun layer => layer.outputs.size ≠ 0

/-- With a forced broadcast, no tile is written to more tiles than there are. -/
def limitOutputWriteTiles (forceBroadcast : Bool) (nTiles : ℕ) (tiles : List DPULayer) :
    List DPULayer :=
  if forceBroadcast ∧ tiles.length < nTiles then
    tiles.map fun t => { t with outputWriteTiles := tiles.length }
  else tiles

end DPUWorkload

/-- A tensor with bytes whose size in bytes is an `unsigned int`. -/
structure VPUTensor.Regular (t : VPUTensor) : Prop where
  pos : t.shape.Pos
  innermost_lt : t.shape.get (layoutToOrder t.layout).1 < 2147483648
  exactSize_lt : t.exactSize < 4294967296

instance (t : VPUTensor) : Decidable t.Regular :=
  decidable_of_iff (t.shape.Pos ∧ t.shape.get (layoutToOrder t.layout).1 < 2147483648 ∧
      t.exactSize < 4294967296)
    ⟨fun ⟨h1, h2, h3⟩ => ⟨h1, h2, h3⟩, fun ⟨h1, h2, h3⟩ => ⟨h1, h2, h3⟩⟩

/-- A part of a regular tensor has no bytes exactly when it has no rows. -/
theorem VPUTensor.Regular.size_eq_zero_iff {t : VPUTensor} (h : t.Regular) {a : Act} {s : Shape}
    (hle : s.Le t.shape) (hpos : 0 < s.get a → s.Pos) :
    (t.setShape s).size = 0 ↔ s.get a = 0 := by
  have hsize : (t.setShape s).size = (t.setShape s).exactSize :=
    VPUTensor.size_eq_exactSize (lt_of_le_of_lt (hle.get _) h.innermost_lt)
      (lt_of_le_of_lt (VPUTensor.exactSize_mono (t := t.setShape s) (u := t) rfl rfl hle)
        h.exactSize_lt)
  rw [hsize]
  constructor
  · intro h0
    by_contra hne
    have := VPUTensor.exactSize_pos (t := t.setShape s) (hpos (Nat.pos_of_ne_zero hne))
    omega
  · exact VPUTensor.exactSize_eq_zero (t := t.setShape s) a

theorem VPUTensor.Regular.setDim_size_eq_zero_iff {t : VPUTensor} (h : t.Regular) {a : Axis}
    {n : ℕ} (hn : n ≤ a.dim t.shape) : (t.setShape (a.setDim t.shape n)).size = 0 ↔ n = 0 := by
  have := h.size_eq_zero_iff (a := a.act) (Axis.setDim_le hn)
    (fun hpos => Axis.setDim_pos h.pos (by rwa [Axis.get_act_setDim] at hpos))
  rwa [Axis.get_act_setDim] at this

end Vpunn
