import Vpunn.Lib.Rectangle
import Vpunn.Lib.Runs
import Vpunn.Tiling.TilingPrimitives

/-! Splits over the height and the width (`hwtiling.cpp`).

    The halos of the four sides are passed on along the edges of the layer only. -/

namespace Vpunn
open MachineInt Consecutive TilingPrimitives

/-! ### Sides -/

inductive HaloSide where
  | top | bottom | left | right
  deriving DecidableEq, Repr

namespace HaloInfoHWC

def get (h : HaloInfoHWC) : HaloSide → ℤ
  | .top => h.top
  | .bottom => h.bottom
  | .left => h.left
  | .right => h.right

def set (h : HaloInfoHWC) : HaloSide → ℤ → HaloInfoHWC
  | .top, v => { h with top := v }
  | .bottom, v => { h with bottom := v }
  | .left, v => { h with left := v }
  | .right, v => { h with right := v }

@[simp] theorem get_set (h : HaloInfoHWC) (side side' : HaloSide) (v : ℤ) :
    (h.set side v).get side' = if side' = side then v else h.get side' := by
  cases side <;> cases side' <;> rfl

end HaloInfoHWC

/-- The extent of a shape across a side. -/
def HaloSide.extent (side : HaloSide) (width height : ℕ) : ℕ :=
  match side with
  | .top | .bottom => height
  | .left | .right => width

theorem TilingPrimitives.get_limitInputHalo (halo : HaloInfoHWC) (input : Shape) (side : HaloSide) :
    (limitInputHalo halo input).get side = limitHalo (halo.get side) (side.extent input.x input.y) := by
  cases side <;> rfl

namespace HWTiling

/-! ### The code -/

/-- A side on an edge of the layer: its input halo and its output halo, limited to the tile. -/
def passSide (halo haloNow : HaloWorkload) (side : HaloSide) (size : ℕ) : HaloWorkload :=
  { haloNow with
    input0Halo := haloNow.input0Halo.set side (halo.input0Halo.get side)
    output0Halo := haloNow.output0Halo.set side (limitHalo (halo.output0Halo.get side) size) }

/-- A side on another tile of the layer. -/
def clearSide (haloNow : HaloWorkload) (side : HaloSide) : HaloWorkload :=
  { haloNow with
    input0Halo := haloNow.input0Halo.set side 0
    output0Halo := haloNow.output0Halo.set side 0
    output0HaloBroadcastCnt := haloNow.output0HaloBroadcastCnt.set side 0 }

/-- The first side of a tile, then the last one. Both branches overwrite the zeroes that the left
    side is set to before. -/
def passEnds (halo haloNow : HaloWorkload) (first last : HaloSide) (idx count size : ℕ) :
    HaloWorkload :=
  let haloNow := if idx = 0 then passSide halo haloNow first size else clearSide haloNow first
  if idx = count - 1 then passSide halo haloNow last size else clearSide haloNow last

def createTileHW (layer : DPULayer) (width height offsetWidth offsetHeight : ℕ)
    (halo : HaloWorkload) : DPUWorkload :=
  let wl := createIncompleteTile layer ⟨width, height, layer.outputs.channels, 1⟩
    ⟨offsetWidth, offsetHeight, 0, 0⟩
  let tileHalo := layer.halo.output0InboundHalo
  let remainingRows := i32 (layer.outputs.height - height - offsetHeight)
  let remainingColumns := i32 (layer.outputs.width - width - offsetWidth)
  wl.setHalo { halo with
    output0InboundHalo := { halo.output0InboundHalo with
      top := i32 (tileHalo.top + offsetHeight)
      bottom := i32 (tileHalo.bottom + remainingRows)
      left := i32 (tileHalo.left + offsetWidth)
      right := i32 (tileHalo.right + remainingColumns) } }

/-- The state of the inner loop. -/
structure Columns where
  haloNow : HaloWorkload
  remainedWidth : ℕ
  split : DPUWorkloadsWithCyclesSplit

/-- One iteration of the inner loop, in the row `idx`. -/
def columnStep (layer : DPULayer) (maxWidth maxHeight widthSplits idx tileHeight : ℕ)
    (st : Columns) (idy : ℕ) : Columns :=
  let tileWidth := if maxWidth < st.remainedWidth then maxWidth else st.remainedWidth
  let haloNow := passEnds layer.halo st.haloNow .left .right idy widthSplits tileWidth
  { haloNow := haloNow
    remainedWidth := st.remainedWidth - tileWidth
    split := st.split.emplaceBack (createTileHW layer tileWidth tileHeight (u32 (idy * maxWidth))
      (u32 (idx * maxHeight)) haloNow) }

/-- The state of the outer loop. -/
structure Rows where
  remainedHeight : ℕ
  split : DPUWorkloadsWithCyclesSplit

/-- One iteration of the outer loop. -/
def rowStep (layer : DPULayer) (maxWidth maxHeight widthSplits heightSplits : ℕ) (st : Rows)
    (idx : ℕ) : Rows :=
  let tileHeight := if maxHeight < st.remainedHeight then maxHeight else st.remainedHeight
  let haloNow := passEnds layer.halo layer.halo .top .bottom idx heightSplits tileHeight
  { remainedHeight := st.remainedHeight - tileHeight
    split := ((List.range widthSplits).foldl
      (columnStep layer maxWidth maxHeight widthSplits idx tileHeight)
      ⟨haloNow, layer.outputs.width, st.split⟩).split }

def splitOverHW (layer : DPULayer) (splitPool : List DPUWorkloadsWithCyclesSplit)
    (widthFactor heightFactor : ℕ) (mode : ExecutionMode) : List DPUWorkloadsWithCyclesSplit :=
  let maxWidth := roundUp (ceilDivision layer.outputs.width widthFactor) (mpeModeToGrid mode).x
  let maxHeight := roundUp (ceilDivision layer.outputs.height heightFactor) (mpeModeToGrid mode).y
  let widthSplits := ceilDivision layer.outputs.width maxWidth
  let heightSplits := ceilDivision layer.outputs.height maxHeight
  let rows := (List.range heightSplits).foldl
    (rowStep layer maxWidth maxHeight widthSplits heightSplits) ⟨layer.outputs.height, {}⟩
  splitPool ++ [setWorkloadsModeAndInfereInputShape rows.split mode layer]

/-! ### What a split should be -/

/-- The part of the output of the layer that a workload makes. -/
def rect (wl : DPUWorkload) : Rect where
  x := wl.offsets.x
  y := wl.offsets.y
  w := wl.outputs.width
  h := wl.outputs.height

/-- A side of a part lies on the edge of the layer. -/
def OnEdge (layer : DPULayer) (r : Rect) : HaloSide → Prop
  | .top => r.y = 0
  | .bottom => r.y + r.h = layer.outputs.height
  | .left => r.x = 0
  | .right => r.x + r.w = layer.outputs.width

instance (layer : DPULayer) (r : Rect) (side : HaloSide) : Decidable (OnEdge layer r side) :=
  match side with
  | .top | .bottom | .left | .right => inferInstanceAs (Decidable (_ = _))

/-- On the edge a side keeps the halos of the layer, within the limits; elsewhere it has none. The
    broadcast count on the edge is only described for `keepsCnt`. -/
structure PassesSide (halo h : HaloWorkload) (side : HaloSide) (inputLimit : ℤ → ℤ) (size : ℕ)
    (onEdge keepsCnt : Prop) : Prop where
  input : onEdge → h.input0Halo.get side = inputLimit (halo.input0Halo.get side)
  output : onEdge → h.output0Halo.get side = limitHalo (halo.output0Halo.get side) size
  cnt : onEdge → keepsCnt →
    h.output0HaloBroadcastCnt.get side = halo.output0HaloBroadcastCnt.get side
  no_input : ¬ onEdge → h.input0Halo.get side = 0
  no_output : ¬ onEdge → h.output0Halo.get side = 0
  no_cnt : ¬ onEdge → h.output0HaloBroadcastCnt.get side = 0

/-! ### One side -/

theorem PassesSide.congr {halo h h' : HaloWorkload} {side : HaloSide} {limit : ℤ → ℤ} {size : ℕ}
    {onEdge onEdge' keepsCnt keepsCnt' : Prop}
    (hp : PassesSide halo h side limit size onEdge keepsCnt) (hedge : onEdge' ↔ onEdge)
    (hcnt : onEdge → keepsCnt' → keepsCnt) (hinput : h'.input0Halo.get side = h.input0Halo.get side)
    (houtput : h'.output0Halo.get side = h.output0Halo.get side)
    (hbroadcast : h'.output0HaloBroadcastCnt.get side = h.output0HaloBroadcastCnt.get side) :
    PassesSide halo h' side limit size onEdge' keepsCnt' where
  input he := hinput.trans (hp.input (hedge.mp he))
  output he := houtput.trans (hp.output (hedge.mp he))
  cnt he hk := hbroadcast.trans (hp.cnt (hedge.mp he) (hcnt (hedge.mp he) hk))
  no_input he := hinput.trans (hp.no_input fun h => he (hedge.mpr h))
  no_output he := houtput.trans (hp.no_output fun h => he (hedge.mpr h))
  no_cnt he := hbroadcast.trans (hp.no_cnt fun h => he (hedge.mpr h))

section PassEnds

variable {halo h : HaloWorkload} {first last : HaloSide} {idx count size : ℕ}

theorem passEnds_first (hne : first ≠ last) :
    PassesSide halo (passEnds halo h first last idx count size) first id size (idx = 0)
      (h.output0HaloBroadcastCnt.get first = halo.output0HaloBroadcastCnt.get first) := by
  unfold passEnds passSide clearSide
  constructor <;> intro hidx <;> split_ifs <;> simp_all

theorem passEnds_last (hne : first ≠ last) :
    PassesSide halo (passEnds halo h first last idx count size) last id size (idx = count - 1)
      (h.output0HaloBroadcastCnt.get last = halo.output0HaloBroadcastCnt.get last) := by
  have hne' : ¬ last = first := fun heq => hne heq.symm
  unfold passEnds passSide clearSide
  constructor <;> intro hidx <;> split_ifs <;> simp_all

/-- The other sides stay as they are. -/
theorem PassesSide.passEnds {side : HaloSide} {limit : ℤ → ℤ} {size' : ℕ} {onEdge keepsCnt : Prop}
    (hp : PassesSide halo h side limit size' onEdge keepsCnt) (hfirst : side ≠ first)
    (hlast : side ≠ last) :
    PassesSide halo (passEnds halo h first last idx count size) side limit size' onEdge
      keepsCnt := by
  refine hp.congr Iff.rfl (fun _ hk => hk) ?_ ?_ ?_ <;>
    unfold HWTiling.passEnds passSide clearSide <;> split_ifs <;> simp_all

end PassEnds

/-! ### One workload -/

/-- The inbound halo of a workload: what the layer has on each side, and the rows and columns of the
    layer that the workload does not make. -/
structure HasInbound (layer : DPULayer) (wl : DPUWorkload) : Prop where
  top : wl.halo.output0InboundHalo.top
    = i32 (layer.halo.output0InboundHalo.top + wl.offsets.y)
  bottom : wl.halo.output0InboundHalo.bottom = i32 (layer.halo.output0InboundHalo.bottom
    + i32 (layer.outputs.height - wl.outputs.height - wl.offsets.y))
  left : wl.halo.output0InboundHalo.left
    = i32 (layer.halo.output0InboundHalo.left + wl.offsets.x)
  right : wl.halo.output0InboundHalo.right = i32 (layer.halo.output0InboundHalo.right
    + i32 (layer.outputs.width - wl.outputs.width - wl.offsets.x))

/-- What the loops give each workload. The count to the right is only kept in the first column. -/
structure IsPassed (layer : DPULayer) (inputLimit : HaloSide → DPUWorkload → ℤ → ℤ)
    (wl : DPUWorkload) : Prop where
  side : ∀ side, PassesSide layer.halo wl.halo side (inputLimit side wl)
    (side.extent wl.outputs.width wl.outputs.height) (OnEdge layer (rect wl) side)
    (side = .right → wl.offsets.x = 0)
  inbound : HasInbound layer wl

section CreateTileHW

variable {layer : DPULayer} {width height offsetWidth offsetHeight : ℕ} {halo : HaloWorkload}

theorem rect_createTileHW (layer : DPULayer) (width height offsetWidth offsetHeight : ℕ)
    (halo : HaloWorkload) : rect (createTileHW layer width height offsetWidth offsetHeight
      halo) = ⟨offsetWidth, offsetHeight, width, height⟩ := by
  simp only [rect, createTileHW, DPUWorkload.offsets_setHalo, DPUWorkload.outputs_setHalo,
    createIncompleteTile, VPUTensor.setShape, VPUTensor.width, VPUTensor.height]

/-- The other halos are the ones it is given. -/
theorem PassesSide.createTileHW {side : HaloSide} {limit : ℤ → ℤ} {size : ℕ}
    {onEdge onEdge' keepsCnt keepsCnt' : Prop}
    (hp : PassesSide layer.halo halo side limit size onEdge keepsCnt) (hedge : onEdge' ↔ onEdge)
    (hcnt : onEdge → keepsCnt' → keepsCnt) :
    PassesSide layer.halo (createTileHW layer width height offsetWidth offsetHeight halo).halo side
      limit size onEdge' keepsCnt' := by
  refine hp.congr hedge hcnt ?_ ?_ ?_ <;>
    rw [HWTiling.createTileHW, DPUWorkload.halo_setHalo]

theorem hasInbound_createTileHW :
    HasInbound layer (createTileHW layer width height offsetWidth offsetHeight halo) := by
  constructor <;>
    simp only [createTileHW, DPUWorkload.offsets_setHalo, DPUWorkload.outputs_setHalo,
      DPUWorkload.halo_setHalo, createIncompleteTile, VPUTensor.setShape, VPUTensor.width,
      VPUTensor.height]

theorem isPassed_createTileHW (hside : ∀ side, PassesSide layer.halo halo side id
      (side.extent width height)
      (OnEdge layer ⟨offsetWidth, offsetHeight, width, height⟩ side)
      (side = .right → offsetWidth = 0)) :
    IsPassed layer (fun _ _ => id)
      (createTileHW layer width height offsetWidth offsetHeight halo) where
  side side := by
    have hrect := rect_createTileHW layer width height offsetWidth offsetHeight halo
    refine PassesSide.createTileHW (hside side) ?_ fun _ hk => hk
    rw [hrect]
  inbound := hasInbound_createTileHW

end CreateTileHW

/-! ### The loops -/

/-- An axis that is cut into `n` chunks of the size `d`. -/
structure IsCut (total d n : ℕ) : Prop where
  pos : 0 < d
  below : ∀ i < n, i * d < total
  le : total ≤ n * d
  total_lt : total < 4294967296

theorem IsCut.offset {total d n i : ℕ} (h : IsCut total d n) (hi : i < n) :
    u32 (i * d) = i * d := by
  have := h.below i hi
  have := h.total_lt
  rw [← Nat.cast_mul]
  exact u32_natCast (by omega)

theorem IsCut.begin_iff {total d n i : ℕ} (h : IsCut total d n) : i * d = 0 ↔ i = 0 := by
  rw [Nat.mul_eq_zero]
  exact or_iff_left h.pos.ne'

theorem IsCut.end_iff {total d n i : ℕ} (h : IsCut total d n) (hi : i < n) :
    i * d + chunk d total i = total ↔ i = n - 1 := by
  rw [chunk_end_iff (h.below i hi) h.below h.le]
  omega

section Loops

variable {layer : DPULayer} {maxWidth maxHeight cols rows : ℕ}

/-- The state of the inner loop in a row, after some columns. -/
structure ColumnsInv (layer : DPULayer) (maxWidth maxHeight rows idx : ℕ)
    (before : List DPUWorkload) (n : ℕ) (st : Columns) : Prop where
  remained : st.remainedWidth = layer.outputs.width - n * maxWidth
  top : PassesSide layer.halo st.haloNow .top id (chunk maxHeight layer.outputs.height idx)
    (idx = 0) True
  bottom : PassesSide layer.halo st.haloNow .bottom id (chunk maxHeight layer.outputs.height idx)
    (idx = rows - 1) True
  cnt : n = 0 → st.haloNow.output0HaloBroadcastCnt.left = layer.halo.output0HaloBroadcastCnt.left
    ∧ st.haloNow.output0HaloBroadcastCnt.right = layer.halo.output0HaloBroadcastCnt.right
  workloads : ∃ new, st.split.workloads = before ++ new
    ∧ new.map rect = (List.range n).map
      (Rect.cell maxWidth maxHeight layer.outputs.width layer.outputs.height idx)
    ∧ ∀ wl ∈ new, IsPassed layer (fun _ _ => id) wl

theorem ColumnsInv.step (hw : IsCut layer.outputs.width maxWidth cols)
    (hh : IsCut layer.outputs.height maxHeight rows) {idx : ℕ} (hidx : idx < rows)
    {before : List DPUWorkload} {n : ℕ} (hn : n < cols) {st : Columns}
    (h : ColumnsInv layer maxWidth maxHeight rows idx before n st) :
    ColumnsInv layer maxWidth maxHeight rows idx before (n + 1)
      (columnStep layer maxWidth maxHeight cols idx (chunk maxHeight layer.outputs.height idx)
        st n) := by
  obtain ⟨hremained, htop, hbottom, hcnt, new, hworkloads, hrect, hnew⟩ := h
  have htile : (if maxWidth < st.remainedWidth then maxWidth else st.remainedWidth)
      = chunk maxWidth layer.outputs.width n := by rw [hremained, ite_eq_chunk]
  simp only [columnStep, htile]
  refine ⟨?_, htop.passEnds (by decide) (by decide), hbottom.passEnds (by decide) (by decide),
    fun hzero => absurd hzero (by omega), ?_⟩
  · rw [hremained]
    exact sub_chunk ..
  · rw [hw.offset hn, hh.offset hidx]
    refine ⟨new ++ [createTileHW layer (chunk maxWidth layer.outputs.width n)
      (chunk maxHeight layer.outputs.height idx) (n * maxWidth) (idx * maxHeight)
      (passEnds layer.halo st.haloNow .left .right n cols
        (chunk maxWidth layer.outputs.width n))], ?_, ?_, ?_⟩
    · rw [DPUWorkloadsWithCyclesSplit.emplaceBack, hworkloads, List.append_assoc]
    · rw [List.map_append, hrect, List.range_succ, List.map_append, List.map_singleton,
        List.map_singleton, rect_createTileHW]
      rfl
    · rw [List.forall_mem_append, List.forall_mem_singleton]
      refine ⟨hnew, isPassed_createTileHW fun side => ?_⟩
      cases side with
      | top =>
        refine (htop.passEnds (by decide) (by decide)).congr ?_ (fun _ _ => trivial) rfl rfl rfl
        exact hh.begin_iff
      | bottom =>
        refine (hbottom.passEnds (by decide) (by decide)).congr ?_ (fun _ _ => trivial) rfl rfl rfl
        exact hh.end_iff hidx
      | left =>
        refine (passEnds_first (by decide)).congr ?_ (fun he _ => (hcnt he).1) rfl rfl rfl
        exact hw.begin_iff
      | right =>
        refine (passEnds_last (by decide)).congr ?_ (fun _ hk => ?_) rfl rfl rfl
        · exact hw.end_iff hn
        · exact (hcnt (hw.begin_iff.mp (hk rfl))).2

/-- A row of the split. -/
theorem rowStep_workloads (hw : IsCut layer.outputs.width maxWidth cols)
    (hh : IsCut layer.outputs.height maxHeight rows) {idx : ℕ} (hidx : idx < rows) {st : Rows}
    (hst : st.remainedHeight = layer.outputs.height - idx * maxHeight) :
    ∃ new, (rowStep layer maxWidth maxHeight cols rows st idx).split.workloads
        = st.split.workloads ++ new
      ∧ new.map rect = (List.range cols).map
        (Rect.cell maxWidth maxHeight layer.outputs.width layer.outputs.height idx)
      ∧ ∀ wl ∈ new, IsPassed layer (fun _ _ => id) wl := by
  have htile : (if maxHeight < st.remainedHeight then maxHeight else st.remainedHeight)
      = chunk maxHeight layer.outputs.height idx := by rw [hst, ite_eq_chunk]
  simp only [rowStep, htile]
  refine (Runs.foldl_range (ColumnsInv layer maxWidth maxHeight rows idx st.split.workloads)
    (fun n hn _ => ColumnsInv.step hw hh hidx hn) ?_).workloads
  refine ⟨by simp, ?_, ?_, fun _ => ?_, [], by simp⟩
  · exact (passEnds_first (by decide)).congr Iff.rfl (fun _ _ => rfl) rfl rfl rfl
  · exact (passEnds_last (by decide)).congr Iff.rfl (fun _ _ => rfl) rfl rfl rfl
  · unfold passEnds passSide clearSide
    split_ifs <;> exact ⟨rfl, rfl⟩

/-- The state of the outer loop after some rows. -/
structure RowsInv (layer : DPULayer) (maxWidth maxHeight cols n : ℕ) (st : Rows) : Prop where
  remained : st.remainedHeight = layer.outputs.height - n * maxHeight
  rects : st.split.workloads.map rect
    = Rect.grid maxWidth maxHeight layer.outputs.width layer.outputs.height n cols
  passed : ∀ wl ∈ st.split.workloads, IsPassed layer (fun _ _ => id) wl

theorem RowsInv.step (hw : IsCut layer.outputs.width maxWidth cols)
    (hh : IsCut layer.outputs.height maxHeight rows) {n : ℕ} (hn : n < rows) {st : Rows}
    (h : RowsInv layer maxWidth maxHeight cols n st) :
    RowsInv layer maxWidth maxHeight cols (n + 1)
      (rowStep layer maxWidth maxHeight cols rows st n) := by
  obtain ⟨new, hworkloads, hrect, hnew⟩ := rowStep_workloads hw hh hn h.remained
  refine ⟨?_, ?_, ?_⟩
  · simp only [rowStep, h.remained, ite_eq_chunk]
    exact sub_chunk ..
  · rw [hworkloads, List.map_append, h.rects, hrect, Rect.grid, Rect.grid, List.range_succ,
      List.flatMap_append, List.flatMap_singleton]
  · rw [hworkloads, List.forall_mem_append]
    exact ⟨h.passed, hnew⟩

theorem rowsInv_foldl (hw : IsCut layer.outputs.width maxWidth cols)
    (hh : IsCut layer.outputs.height maxHeight rows) :
    RowsInv layer maxWidth maxHeight cols rows ((List.range rows).foldl
      (rowStep layer maxWidth maxHeight cols rows) ⟨layer.outputs.height, {}⟩) :=
  Runs.foldl_range (RowsInv layer maxWidth maxHeight cols) (fun _ hn _ => RowsInv.step hw hh hn)
    ⟨by simp, by simp [Rect.grid], by simp⟩

end Loops

/-! ### The input -/

theorem helperInputDim_lt (output kernel totalPadding stride : ℕ) :
    helperInputDim output kernel totalPadding stride < 2147483648 := by
  unfold helperInputDim
  have := (i32_inI32 ((i32 output - 1) * i32 stride - i32 totalPadding + i32 kernel)).2
  generalize i32 ((i32 output - 1) * i32 stride - i32 totalPadding + i32 kernel) = x at *
  simp only
  split_ifs
  · decide
  · unfold u32
    omega

theorem limitHalo_zero {size : ℕ} (h : size < 2147483648) : limitHalo 0 size = 0 := by
  rw [limitHalo, i32_natCast h, if_neg (by omega)]

/-- The limit for an input halo: the extent of the input of the workload. -/
def inputLimit (side : HaloSide) (wl : DPUWorkload) (halo : ℤ) : ℤ :=
  limitHalo halo (side.extent wl.inputs.width wl.inputs.height)

theorem PassesSide.limitInput {halo h : HaloWorkload} {side : HaloSide} {size : ℕ}
    {onEdge keepsCnt : Prop} (hp : PassesSide halo h side id size onEdge keepsCnt) {input : Shape}
    (hinput : side.extent input.x input.y < 2147483648) :
    PassesSide halo { h with input0Halo := limitInputHalo h.input0Halo input } side
      (fun v => limitHalo v (side.extent input.x input.y)) size onEdge keepsCnt where
  input he := by rw [get_limitInputHalo, hp.input he, id]
  output := hp.output
  cnt := hp.cnt
  no_input he := by rw [get_limitInputHalo, hp.no_input he, limitHalo_zero hinput]
  no_output := hp.no_output
  no_cnt := hp.no_cnt

section Input

variable {layer : DPULayer} {wl : DPUWorkload} {mode : ExecutionMode}

/-- A workload as it is added: its mode is set and its input inferred. -/
def finish (layer : DPULayer) (mode : ExecutionMode) (wl : DPUWorkload) : DPUWorkload :=
  inferInputTensorShape (wl.setExecutionOrder mode) layer

theorem outputs_finish : (finish layer mode wl).outputs = wl.outputs :=
  (outputs_inferInputTensorShape ..).trans (DPUWorkload.outputs_setExecutionOrder ..)

theorem offsets_finish : (finish layer mode wl).offsets = wl.offsets :=
  (offsets_inferInputTensorShape ..).trans (DPUWorkload.offsets_setExecutionOrder ..)

theorem halo_finish : (finish layer mode wl).halo = { wl.halo with
    input0Halo := limitInputHalo wl.halo.input0Halo
      (inputShape (wl.setExecutionOrder mode)) } := by
  rw [finish, halo_inferInputTensorShape, DPUWorkload.halo_setExecutionOrder]

theorem inputLimit_finish (layer : DPULayer) (wl : DPUWorkload) (mode : ExecutionMode)
    (side : HaloSide) (halo : ℤ) :
    inputLimit side (finish layer mode wl) halo
      = limitHalo halo (side.extent (inputShape (wl.setExecutionOrder mode)).x
        (inputShape (wl.setExecutionOrder mode)).y) := by
  have hwidth : ∀ (t : VPUTensor) (s : Shape), (t.setShape s).width = s.x := fun _ _ => rfl
  have hheight : ∀ (t : VPUTensor) (s : Shape), (t.setShape s).height = s.y := fun _ _ => rfl
  rw [inputLimit, finish, inferInputTensorShape, DPUWorkload.inputs_setInput, hwidth, hheight]

theorem rect_finish : rect (finish layer mode wl) = rect wl := by
  rw [rect, rect, outputs_finish, offsets_finish]

theorem inputShape_x_lt (wl : DPUWorkload) : (inputShape wl).x < 2147483648 := by
  simp only [inputShape, helperInputDim_lt]

theorem inputShape_y_lt (wl : DPUWorkload) : (inputShape wl).y < 2147483648 := by
  simp only [inputShape, helperInputDim_lt]

theorem extent_lt (side : HaloSide) {width height n : ℕ} (hw : width < n) (hh : height < n) :
    side.extent width height < n := by
  cases side <;> assumption

theorem IsPassed.finish (h : IsPassed layer (fun _ _ => id) wl) :
    IsPassed layer inputLimit (finish layer mode wl) where
  side side := by
    have hp := (h.side side).limitInput
      (extent_lt side (inputShape_x_lt (wl.setExecutionOrder mode)) (inputShape_y_lt _))
    have hlimit := funext (inputLimit_finish layer wl mode side)
    rw [rect_finish, outputs_finish, offsets_finish, halo_finish, hlimit]
    exact hp
  inbound := by
    obtain ⟨htop, hbottom, hleft, hright⟩ := h.inbound
    constructor <;> simpa only [outputs_finish, offsets_finish, halo_finish]

end Input

/-! ### The sizes of the parts -/

/-- No sum of the code passes `2^32` while it cuts `total` into `factor` parts along a grid. -/
def AxisFits (total factor grid : ℕ) : Prop :=
  total + factor ≤ 4294967296 ∧ ceilDivision total factor + grid ≤ 4294967296
    ∧ total + roundUp (ceilDivision total factor) grid ≤ 4294967296

instance (total factor grid : ℕ) : Decidable (AxisFits total factor grid) :=
  inferInstanceAs (Decidable (_ ∧ _))

section Sizes

variable {total factor grid : ℕ}

theorem ceilDivision_roundUp_le (htotal : 0 < total) (hfactor : 0 < factor) (hgrid : 0 < grid)
    (hfits : AxisFits total factor grid) :
    IsCut total (roundUp (ceilDivision total factor) grid)
        (ceilDivision total (roundUp (ceilDivision total factor) grid))
      ∧ ceilDivision total (roundUp (ceilDivision total factor) grid) ≤ factor := by
  obtain ⟨hfit, hgridFit, hsizeFit⟩ := hfits
  have hceil : ceilDivision total factor ≤ roundUp (ceilDivision total factor) grid := by
    rw [roundUp, Nat.mul_comm]
    exact le_mul_ceilDivision hgrid hgridFit
  have hpos := (ceilDivision_pos htotal hfactor hfit).trans_le hceil
  have htotalLe : total ≤ factor * roundUp (ceilDivision total factor) grid :=
    (le_mul_ceilDivision hfactor hfit).trans (Nat.mul_le_mul_left factor hceil)
  generalize roundUp (ceilDivision total factor) grid = size at *
  have hbelow : ∀ i < ceilDivision total size, i * size < total := by
    intro i hi
    rw [ceilDivision_eq hpos hsizeFit, Nat.lt_iff_add_one_le, Nat.le_div_iff_mul_le hpos,
      Nat.succ_mul] at hi
    omega
  refine ⟨⟨hpos, hbelow, ?_, by omega⟩, ?_⟩
  · rw [Nat.mul_comm]
    exact le_mul_ceilDivision hpos hsizeFit
  · by_contra hlt
    exact absurd (hbelow factor (by omega)) htotalLe.not_gt

end Sizes

theorem mpeModeToGrid_pos (mode : ExecutionMode) :
    0 < (mpeModeToGrid mode).x ∧ 0 < (mpeModeToGrid mode).y := by
  cases mode <;> decide

/-! ### The split -/

/-- The extent of a workload along an axis, with the inbound halo before and after it. -/
def inboundTotal (wl : DPUWorkload) : Axis → ℤ
  | .h => wl.halo.output0InboundHalo.top + wl.outputs.height + wl.halo.output0InboundHalo.bottom
  | .w => wl.halo.output0InboundHalo.left + wl.outputs.width + wl.halo.output0InboundHalo.right

/-- The halos of the layer leave room for its extent in an `int`. -/
def InboundFits (layer : DPULayer) : Axis → Prop
  | .h => InI32 layer.halo.output0InboundHalo.top
      ∧ InI32 (layer.halo.output0InboundHalo.top + layer.outputs.height)
      ∧ InI32 layer.halo.output0InboundHalo.bottom
      ∧ InI32 (layer.halo.output0InboundHalo.bottom + layer.outputs.height)
  | .w => InI32 layer.halo.output0InboundHalo.left
      ∧ InI32 (layer.halo.output0InboundHalo.left + layer.outputs.width)
      ∧ InI32 layer.halo.output0InboundHalo.right
      ∧ InI32 (layer.halo.output0InboundHalo.right + layer.outputs.width)

/-- A split into at most `widthFactor * heightFactor` workloads that tile the output. On each side a
    workload has the halos of the layer if it lies on that edge, and none otherwise. -/
structure IsHWSplit (layer : DPULayer) (widthFactor heightFactor : ℕ)
    (split : DPUWorkloadsWithCyclesSplit) : Prop where
  tiles : Rect.Tiles layer.outputs.width layer.outputs.height (split.workloads.map rect)
  length_le : split.workloads.length ≤ widthFactor * heightFactor
  sides : ∀ wl ∈ split.workloads, ∀ side, PassesSide layer.halo wl.halo side (inputLimit side wl)
    (side.extent wl.outputs.width wl.outputs.height) (OnEdge layer (rect wl) side)
    (side = .right → wl.offsets.x = 0)
  inbound : ∀ wl ∈ split.workloads, ∀ a,
    inboundTotal wl a ≡ inboundTotal layer a [ZMOD 4294967296]
  inbound_eq : ∀ a, InboundFits layer a → ∀ wl ∈ split.workloads,
    inboundTotal wl a = inboundTotal layer a

section Inbound

variable {layer : DPULayer} {wl : DPUWorkload}

theorem HasInbound.modEq (h : HasInbound layer wl) (a : Axis) :
    inboundTotal wl a ≡ inboundTotal layer a [ZMOD 4294967296] := by
  cases a with
  | h =>
    rw [inboundTotal, inboundTotal, h.top, h.bottom]
    exact inboundHalo_modEq ..
  | w =>
    rw [inboundTotal, inboundTotal, h.left, h.right]
    exact inboundHalo_modEq ..

theorem HasInbound.eq (h : HasInbound layer wl)
    (hx : (rect wl).x + (rect wl).w ≤ layer.outputs.width)
    (hy : (rect wl).y + (rect wl).h ≤ layer.outputs.height) {a : Axis}
    (hfits : InboundFits layer a) : inboundTotal wl a = inboundTotal layer a := by
  cases a with
  | h =>
    obtain ⟨hbegin, hbegin', hfinish, hfinish'⟩ := hfits
    rw [inboundTotal, inboundTotal, h.top, h.bottom]
    exact inboundHalo_eq hy hbegin hbegin' hfinish hfinish'
  | w =>
    obtain ⟨hbegin, hbegin', hfinish, hfinish'⟩ := hfits
    rw [inboundTotal, inboundTotal, h.left, h.right]
    exact inboundHalo_eq hx hbegin hbegin' hfinish hfinish'

end Inbound

theorem isHWSplit_of_rowsInv {layer : DPULayer} {mode : ExecutionMode}
    {widthFactor heightFactor maxWidth maxHeight cols rows : ℕ}
    (hw : IsCut layer.outputs.width maxWidth cols) (hcols : cols ≤ widthFactor)
    (hh : IsCut layer.outputs.height maxHeight rows) (hrows : rows ≤ heightFactor) {st : Rows}
    (h : RowsInv layer maxWidth maxHeight cols rows st) :
    IsHWSplit layer widthFactor heightFactor
      (setWorkloadsModeAndInfereInputShape st.split mode layer) := by
  have hworkloads : (setWorkloadsModeAndInfereInputShape st.split mode layer).workloads
      = st.split.workloads.map (finish layer mode) := rfl
  have hrects : (st.split.workloads.map (finish layer mode)).map rect
      = Rect.grid maxWidth maxHeight layer.outputs.width layer.outputs.height rows cols := by
    rw [List.map_map, ← h.rects]
    exact List.map_congr_left fun wl _ => rect_finish
  have htiles := Rect.tiles_grid hw.pos hh.pos hw.below hw.le hh.below hh.le
  rw [← hrects] at htiles
  have hpassed : ∀ wl ∈ st.split.workloads.map (finish layer mode), IsPassed layer inputLimit wl :=
    List.forall_mem_map.mpr fun wl hwl => (h.passed wl hwl).finish
  constructor <;> rw [hworkloads]
  · exact htiles
  · have hlength := congrArg List.length hrects
    rw [List.length_map, Rect.length_grid] at hlength
    rw [hlength, Nat.mul_comm]
    exact Nat.mul_le_mul hcols hrows
  · exact fun wl hwl => (hpassed wl hwl).side
  · exact fun wl hwl => (hpassed wl hwl).inbound.modEq
  · intro a hfits wl hwl
    obtain ⟨hx, hy⟩ := htiles.inside _ (List.mem_map_of_mem hwl)
    exact (hpassed wl hwl).inbound.eq hx hy hfits

/-- Where no sum passes `2^32`, the split that is added is as it should be. -/
theorem splitOverHW_spec (layer : DPULayer) (splitPool : List DPUWorkloadsWithCyclesSplit)
    (widthFactor heightFactor : ℕ) (mode : ExecutionMode) (hwidth : 0 < layer.outputs.width)
    (hheight : 0 < layer.outputs.height) (hwidthFactor : 0 < widthFactor)
    (hheightFactor : 0 < heightFactor)
    (hwidthFits : AxisFits layer.outputs.width widthFactor (mpeModeToGrid mode).x)
    (hheightFits : AxisFits layer.outputs.height heightFactor (mpeModeToGrid mode).y) :
    ∃ split, splitOverHW layer splitPool widthFactor heightFactor mode = splitPool ++ [split]
      ∧ IsHWSplit layer widthFactor heightFactor split := by
  obtain ⟨hcut, hle⟩ := ceilDivision_roundUp_le hwidth hwidthFactor (mpeModeToGrid_pos mode).1
    hwidthFits
  obtain ⟨hcut', hle'⟩ := ceilDivision_roundUp_le hheight hheightFactor (mpeModeToGrid_pos mode).2
    hheightFits
  exact ⟨_, rfl, isHWSplit_of_rowsInv hcut hle hcut' hle' (rowsInv_foldl hcut hcut')⟩

/-- A layer with 8 rows and columns that has halos on the left and the right. -/
def exampleLayer : DPULayer where
  device := .vpu_4_0
  op := .convolution
  inputs := { shape := ⟨8, 8, 16, 1⟩ }
  outputs := { shape := ⟨8, 8, 16, 1⟩ }
  kernels := ⟨1, 1⟩
  strides := ⟨1, 1⟩
  padding := {}
  executionOrder := .cuboid16x16
  halo := { input0Halo := { left := 5 }, output0HaloBroadcastCnt := { right := 1 } }

/-- Two columns and a row. -/
theorem splitOverHW_spec_two_one :
    ∃ split, splitOverHW exampleLayer [] 2 1 .cuboid16x16 = [] ++ [split]
      ∧ IsHWSplit exampleLayer 2 1 split :=
  splitOverHW_spec exampleLayer [] 2 1 .cuboid16x16 (by decide) (by decide) (by decide)
    (by decide) (by decide) (by decide)

/-- The first of two columns has an input of four columns, so its halo of five on the left is cut to
    four; the second one has lost the broadcast count on the right. With `2^32 - 1` columns the sum
    of the division wraps around. -/
theorem splitOverHW_limits :
    (∃ split ∈ splitOverHW exampleLayer [] 2 1 .cuboid16x16, ∃ wl ∈ split.workloads,
      OnEdge exampleLayer (rect wl) .left ∧ wl.halo.input0Halo.left = 4)
    ∧ (∃ split ∈ splitOverHW exampleLayer [] 2 1 .cuboid16x16, ∃ wl ∈ split.workloads,
      OnEdge exampleLayer (rect wl) .right ∧ wl.halo.output0HaloBroadcastCnt.right = 0)
    ∧ ∃ split ∈ splitOverHW exampleLayer [] 4294967295 1 .cuboid16x16,
      ¬ Rect.Tiles 8 8 (split.workloads.map rect) := by
  refine ⟨by decide +kernel, by decide +kernel, ?_⟩
  have hworkloads : ∃ split ∈ splitOverHW exampleLayer [] 4294967295 1 .cuboid16x16,
      split.workloads = [] := by decide +kernel
  obtain ⟨split, hsplit, hempty⟩ := hworkloads
  refine ⟨split, hsplit, fun htiles => ?_⟩
  obtain ⟨r, hr, -⟩ := htiles.cover 0 (by decide) 0 (by decide)
  rw [hempty] at hr
  exact absurd hr (List.not_mem_nil)

end HWTiling

end Vpunn
