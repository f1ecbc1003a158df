import Vpunn.Validation.DeviceVPU4
import Vpunn.Validation.Geometry

/-! Whether the tiles of an accepted layer are accepted.

    The limits on a layer grow with the number of tiles, those on a tile do not. A tile fails when
    its share of the input, overlap included, is still too large, when a split over the channels
    leaves it no input at all, or when the layer came with halos that no check has looked at. -/

namespace Vpunn
open MachineInt Window

namespace DPUWorkload

/-- The sizes of a layer that the checks read are `unsigned int`s. -/
structure UnsignedLayer (layer : DPULayer) : Prop where
  axis : ∀ a, UnsignedSizes (layer.geometry a)
  channels_lt : layer.outputs.channels < 4294967296

/-- What the checks say about a layer that they accept. -/
structure AcceptedLayer (layer : DPULayer) (nTiles : ℕ) (strategy : VPUTilingStrategy) : Prop where
  sizes : ∀ a, AcceptedSizes (layer.geometry a) (getMaximumKernelSize layer.op)
    (getMaximumKernelStride layer.op) (a.dim (strategy.borderCoeff nTiles))
  nTiles_pos : 1 ≤ nTiles
  nTiles_le : nTiles ≤ 8
  channels_lt : layer.outputs.channels < 2147483648

variable {config tileConfig : DeviceValidValues} {layer tile : DPULayer} {isi : ISIStrategy}
  {nTiles : ℕ} {strategy : VPUTilingStrategy}

theorem dim_borderCoeff_le (a : Axis) (h : nTiles ≤ 8) : a.dim (strategy.borderCoeff nTiles) ≤ 8 := by
  cases a <;> cases strategy <;> simp [Axis.dim, VPUTilingStrategy.borderCoeff] <;> omega

theorem acceptedLayer_of_check (hu : UnsignedLayer layer) (hn : nTiles < 4294967296)
    (h : checkCompleteLayerConsistency config layer isi nTiles strategy = true) :
    AcceptedLayer layer nTiles strategy := by
  obtain ⟨⟨htiles, htiles'⟩, hchannels⟩ := outputWriteTiles_mem_of_checkLayerConsistency h
  rw [DPUOperation.outputWriteTiles_setIntendedSplit] at htiles htiles'
  rw [DPUOperation.output0_setIntendedSplit] at hchannels
  have heq := i32_eq_of_nonneg hn (by omega)
  rw [heq] at htiles htiles'
  have hle : nTiles ≤ 8 := by omega
  refine ⟨fun a => ?_, by omega, hle, ?_⟩
  · have hvalid := layerValid_of_checkLayerConsistency h a
    rw [DPUOperation.axisInfo_setIntendedSplit, DPUOperation.axisInfo_ofDPUWorkload] at hvalid
    exact hvalid.acceptedSizes (hu.axis a) (getMaximumKernelSize_le _)
      (config.extraOutRows_mem _) (dim_borderCoeff_le a hle)
  · have hi32 : i32 layer.outputs.channels = layer.outputs.channels :=
      i32_eq_of_nonneg hu.channels_lt hchannels
    have := (i32_inI32 layer.outputs.channels).2
    rw [hi32] at this
    exact_mod_cast this

/-! ### Tiles of an accepted layer -/

/-- The sizes of a tile along one axis: the kernel and stride of the layer, at most its input, and an
    output that fits the formula. -/
structure TileSizes (g' g : Geometry) : Prop where
  k_eq : g'.k = g.k
  s_eq : g'.s = g.s
  padBegin_le : g'.padBegin ≤ g'.k / 2
  padEnd_le : g'.padEnd ≤ g'.k / 2
  reach : g'.k ≤ g'.inp + g'.padBegin + g'.padEnd
  out_eq : g'.out = (g'.inp + g'.padBegin + g'.padEnd - g'.k) / g'.s + 1
  inp_le : g'.inp ≤ g.inp

theorem TileSizes.of_consistent {g' g : Geometry} (h : g'.Consistent) (hk : g'.k = g.k)
    (hs : g'.s = g.s) (hinp : g'.inp ≤ g.inp) : TileSizes g' g :=
  ⟨hk, hs, h.padBegin_le, h.padEnd_le, h.k_le, h.out_eq, hinp⟩

/-- Over the height a tile may be given rows of its neighbours, up to twice its kernel. -/
theorem exists_inpMax (tile : DPULayer) (a : Axis) (hinp : (tile.geometry a).inp ≤ 65536)
    (hk : (tile.geometry .h).k ≤ 15) : ∃ ext : ℕ, ext ≤ 65536 ∧
      (DPUOperation.ofDPUWorkload tile).inpMax a = (tile.geometry a).inp + ext := by
  cases a with
  | w =>
    refine ⟨0, by omega, ?_⟩
    rw [Nat.cast_zero, add_zero]
    exact i32_natCast (hinp.trans_lt (by norm_num))
  | h =>
    obtain ⟨ext, hle, hext⟩ : ∃ ext : ℕ, ext ≤ 65536 ∧
        sohHInputHaloExtension (DPUOperation.ofDPUWorkload tile) = ext := by
      have hheight : (DPUOperation.ofDPUWorkload tile).kernel.height = (tile.geometry .h).k :=
        i32_natCast (hk.trans_lt (by norm_num))
      simp only [sohHInputHaloExtension, hheight]
      split
      · refine ⟨(if (DPUOperation.ofDPUWorkload tile).kernel.padTop = 0
            then (tile.geometry .h).k else 0)
          + (if (DPUOperation.ofDPUWorkload tile).kernel.padBottom = 0
            then (tile.geometry .h).k else 0), ?_, by push_cast; rfl⟩
        split <;> split <;> omega
      · exact ⟨0, by omega, rfl⟩
    refine ⟨ext, hle, ?_⟩
    have hheight : (DPUOperation.ofDPUWorkload tile).input0.height = (tile.geometry .h).inp :=
      i32_natCast (hinp.trans_lt (by norm_num))
    rw [DPUOperation.inpMax, hext, hheight, ← Nat.cast_add, i32_natCast (by omega)]

/-- A tile passes the checks of its geometry when its inputs are neither empty nor too large and the
    halos are valid. -/
theorem isClean_geometryChecks_tile_iff (h : AcceptedLayer layer nTiles strategy)
    (hop : tile.op = layer.op) (hsizes : ∀ a, TileSizes (tile.geometry a) (layer.geometry a)) :
    isClean (geometryChecks tileConfig (.ofDPUWorkload tile)) = true ↔
      (∀ a, 0 < (tile.geometry a).inp ∧ (tile.geometry a).inp ≤ 8192) ∧
        checkHalo (.ofDPUWorkload tile) = true := by
  have hinp : ∀ a, (tile.geometry a).inp ≤ 65536 := by
    intro a
    have hcoeff : a.dim (strategy.borderCoeff nTiles) ≤ 8 := dim_borderCoeff_le a h.nTiles_le
    have := (h.sizes a).inp_le
    have := (hsizes a).inp_le
    omega
  have hkernel : ∀ a, (tile.geometry a).k ≤ 15 := by
    intro a
    have := (h.sizes a).k_le
    have := getMaximumKernelSize_le layer.op
    have := (hsizes a).k_eq
    omega
  rw [isClean_geometryChecks_iff]
  refine and_congr_left fun _ => forall_congr' fun a => ?_
  have hl := h.sizes a
  have ht := hsizes a
  obtain ⟨ext, hle, hext⟩ := exists_inpMax tile a (hinp a) (hkernel .h)
  rw [DPUOperation.axisInfo_ofDPUWorkload]
  show (AxisInfo.ofGeometry (tile.geometry a)).WorkloadValid (getMaximumKernelSize tile.op)
    (getMaximumKernelStride tile.op) _ ↔ _
  rw [hop]
  have hk := ht.k_eq
  have hs := ht.s_eq
  refine workloadValid_iff ?_ ?_ (getMaximumKernelSize_le _) ?_ ?_ (getMaximumKernelStride_le _)
    ht.padBegin_le ht.padEnd_le ht.reach (hinp a) ht.out_eq hle hext
  · rw [hk]; exact hl.consistent.k_pos
  · rw [hk]; exact hl.k_le
  · rw [hs]; exact hl.consistent.s_pos
  · rw [hs]; exact hl.s_le

/-! ### Splits of an axis -/

theorem AcceptedLayer.splitFits (h : AcceptedLayer layer nTiles strategy) (a : Axis) :
    SplitFits (layer.geometry a) nTiles := by
  have hl := h.sizes a
  have hn := h.nTiles_le
  have hcoeff : a.dim (strategy.borderCoeff nTiles) ≤ 8 := dim_borderCoeff_le a h.nTiles_le
  have hinp := hl.inp_le
  have hk := hl.k_le.trans (getMaximumKernelSize_le _)
  have hs := hl.s_le.trans (getMaximumKernelStride_le _)
  have hb := hl.consistent.padBegin_le
  have he := hl.consistent.padEnd_le
  have hout := hl.consistent.out_eq
  have hdiv := Nat.div_le_self ((layer.geometry a).inp + (layer.geometry a).padBegin
    + (layer.geometry a).padEnd - (layer.geometry a).k) (layer.geometry a).s
  constructor <;> omega

/-- The halos that a layer brings along do not contradict its padding, once those at the ends of the
    split axis are reset. -/
def HaloCloses (layer : DPULayer) (a : Axis) : Prop :=
  isClean (haloChecks (.ofDPUWorkload layer) (layer.halo.setNoHalo a)) = true

/-- The output tensor of a tile with `n` rows. -/
def tileOutputs (layer : DPULayer) (a : Axis) (n : ℕ) : VPUTensor :=
  layer.outputs.setShape (a.setDim layer.outputs.shape n)

/-- Every part of the axis that has output bytes looks at no more input rows than a tile may have,
    and no halo is in the way. -/
def AxisSplitCloses (layer : DPULayer) (a : Axis) (nTiles : ℕ) : Prop :=
  let g := layer.geometry a
  let d := ceilDivision g.out nTiles
  ∀ i, i * d < g.out → (layer.tileOutputs a (min d (g.out - i * d))).size ≠ 0 →
    (g.realRows (i * d) (min d (g.out - i * d))).card ≤ 8192 ∧ layer.HaloCloses a

theorem size_tileOutputs_zero (a : Axis) : (layer.tileOutputs a 0).size = 0 :=
  VPUTensor.size_eq_zero a.act (Axis.get_act_setDim ..)

/-! ### One part of an axis -/

/-- A tile whose output begins at row `o`: it has `d` rows or what is left, and with any rows at all
    it is the cut of the layer at them, with valid halos if the layer's are. -/
structure PartOfAxis (layer : DPULayer) (a : Axis) (d o : ℕ) (tile : DPULayer) : Prop where
  op_eq : tile.op = layer.op
  outputs_eq : tile.outputs = layer.tileOutputs a (a.outputRows tile)
  rows_eq : a.outputRows tile = min d ((layer.geometry a).out - o)
  dvd : 0 < a.outputRows tile → d ∣ o
  cut : 0 < a.outputRows tile → tile.geometry a = (layer.geometry a).cut o (a.outputRows tile)
  other : ∀ b ≠ a, tile.geometry b = layer.geometry b
  halo : 0 < a.outputRows tile → (checkHalo (.ofDPUWorkload tile) = true ↔ layer.HaloCloses a)

theorem PartOfAxis.tileSizes {a : Axis} {d o : ℕ} (hc : ∀ b, (layer.geometry b).Consistent)
    (ht : PartOfAxis layer a d o tile) (hpos : 0 < a.outputRows tile)
    (hle : o + a.outputRows tile ≤ (layer.geometry a).out) (b : Axis) :
    TileSizes (tile.geometry b) (layer.geometry b) := by
  rcases eq_or_ne b a with rfl | hab
  · rw [ht.cut hpos]
    exact .of_consistent ((hc b).cut hpos hle) rfl rfl ((hc b).realRows_le hpos hle)
  · rw [ht.other b hab]
    exact .of_consistent (hc b) rfl rfl le_rfl

/-- A part passes the checks when its input rows are not too many. -/
theorem PartOfAxis.isClean_iff {a : Axis} {d o : ℕ} (h : AcceptedLayer layer nTiles strategy)
    (hother : ∀ b ≠ a, (layer.geometry b).inp ≤ 8192) (ht : PartOfAxis layer a d o tile)
    (hpos : 0 < a.outputRows tile) (hle : o + a.outputRows tile ≤ (layer.geometry a).out) :
    isClean (geometryChecks tileConfig (.ofDPUWorkload tile)) = true ↔
      ((layer.geometry a).realRows o (a.outputRows tile)).card ≤ 8192 ∧ layer.HaloCloses a := by
  have hc := fun b => (h.sizes b).consistent
  rw [isClean_geometryChecks_tile_iff h ht.op_eq (ht.tileSizes hc hpos hle), ht.halo hpos]
  refine and_congr_left fun _ => ?_
  constructor
  · intro hinp
    have := (hinp a).2
    rwa [ht.cut hpos] at this
  · intro hcard b
    rcases eq_or_ne b a with rfl | hab
    · rw [ht.cut hpos]
      exact ⟨(hc b).realRows_pos hpos hle, hcard⟩
    · rw [ht.other b hab]
      exact ⟨(hc b).inp_pos, hother b hab⟩

/-- Parts of an axis from its first output row to its last. -/
theorem removeEmptyTiles_closes_iff {a : Axis} {tiles : List DPULayer}
    (h : AcceptedLayer layer nTiles strategy) (hother : ∀ b ≠ a, (layer.geometry b).inp ≤ 8192)
    (hparts : Consecutive a.outputRows
      (PartOfAxis layer a (ceilDivision (layer.geometry a).out nTiles)) 0 tiles
      (layer.geometry a).out) :
    (∀ t ∈ removeEmptyTiles tiles,
      isClean (geometryChecks tileConfig (.ofDPUWorkload t)) = true) ↔
      layer.AxisSplitCloses a nTiles := by
  simp only [removeEmptyTiles, List.mem_filter, decide_eq_true_eq, and_imp]
  refine hparts.forall_mem_iff (R := fun t => t.outputs.size ≠ 0 →
      isClean (geometryChecks tileConfig (.ofDPUWorkload t)) = true)
    (S := fun o => (layer.tileOutputs a (min (ceilDivision (layer.geometry a).out nTiles)
        ((layer.geometry a).out - o))).size ≠ 0 →
      ((layer.geometry a).realRows o (min (ceilDivision (layer.geometry a).out nTiles)
        ((layer.geometry a).out - o))).card ≤ 8192 ∧ layer.HaloCloses a) ?_ ?_
  · intro o t hle ht hpos
    refine ⟨ht.dvd hpos, by rw [ht.rows_eq]; exact Nat.min_le_left _ _, ?_⟩
    rw [← ht.rows_eq, ← ht.outputs_eq]
    exact imp_congr Iff.rfl (ht.isClean_iff h hother hpos hle)
  · intro o t ht h0 hsize
    rw [ht.outputs_eq, h0, size_tileOutputs_zero] at hsize
    exact absurd rfl hsize

/-! ### The parts of the overlapped splits -/

/-- Halos that agree on all that the checks look at: what is written from outside is not. -/
structure AgreeOutgoing (halo halo' : HaloWorkload) : Prop where
  input0 : halo.input0Halo = halo'.input0Halo
  output0 : halo.output0Halo = halo'.output0Halo
  broadcastCnt : halo.output0HaloBroadcastCnt = halo'.output0HaloBroadcastCnt

theorem AgreeOutgoing.setInboundHaloForBroadcastAll {halo : HaloWorkload} (a : Axis)
    (full remaining rows : ℕ) :
    AgreeOutgoing (halo.setInboundHaloForBroadcastAll a full remaining rows) halo := by
  cases a <;> exact ⟨rfl, rfl, rfl⟩

theorem agreeOutgoing_overlappedTile (a : Axis) (forceBroadcast : Bool) (r : ℕ) (c : Geometry) :
    AgreeOutgoing (layer.overlappedTile a nTiles forceBroadcast r c).halo
      (layer.halo.setNoHalo a) := by
  simp only [overlappedTile]
  split_ifs
  all_goals first | exact .setInboundHaloForBroadcastAll .. | exact ⟨rfl, rfl, rfl⟩

/-- The ends of the split axis have no halo left, and the padding of the other axis is kept. -/
theorem checkHalo_overlappedTile (a : Axis) (forceBroadcast : Bool) (r : ℕ) (c : Geometry) :
    checkHalo (.ofDPUWorkload (layer.overlappedTile a nTiles forceBroadcast r c)) = true ↔
      layer.HaloCloses a := by
  have hagree : AgreeOutgoing (layer.overlappedTile a nTiles forceBroadcast r c).halo
      (layer.halo.setNoHalo a) := agreeOutgoing_overlappedTile a forceBroadcast r c
  have hhalo : (DPUOperation.ofDPUWorkload
      (layer.overlappedTile a nTiles forceBroadcast r c)).halo
        = (layer.overlappedTile a nTiles forceBroadcast r c).halo := rfl
  rw [checkHalo, HaloCloses, isClean_haloChecks_iff, isClean_haloChecks_iff, hhalo, hagree.input0,
    hagree.output0, hagree.broadcastCnt]
  cases a <;>
    simp [DPUOperation.ofDPUWorkload, KernelInfo.ofDPUWorkload, overlappedTile, Axis.setPads,
      HaloWorkload.setNoHalo, HaloWorkload.setVerticalNoHalo, HaloWorkload.setHorizontalNoHalo,
      HaloInfoHWC.setVerticalNoHalo, HaloInfoHWC.setHorizontalNoHalo]

theorem geometry_overlappedTile_of_ne {a b : Axis} (hab : b ≠ a) (forceBroadcast : Bool) (r : ℕ)
    (c : Geometry) :
    (layer.overlappedTile a nTiles forceBroadcast r c).geometry b = layer.geometry b := by
  cases a <;> cases b <;> first | exact absurd rfl hab | rfl

theorem partOfAxis_overlappedTile {a : Axis} {d o : ℕ} {forceBroadcast : Bool}
    (ht : CutTile layer a nTiles forceBroadcast d o tile) : PartOfAxis layer a d o tile := by
  obtain ⟨hrows, hdvd, r, c, rfl, hk, hs, hcut⟩ := ht
  rw [outputRows_overlappedTile] at hrows hdvd
  constructor
  case op_eq => rfl
  case outputs_eq => rw [outputRows_overlappedTile]; rfl
  case rows_eq => rw [outputRows_overlappedTile, hrows]
  case dvd => rwa [outputRows_overlappedTile]
  case cut =>
    rw [geometry_overlappedTile r hk hs, outputRows_overlappedTile]
    exact hcut
  case other => exact fun b hab => geometry_overlappedTile_of_ne hab forceBroadcast r c
  case halo => exact fun _ => checkHalo_overlappedTile a forceBroadcast r c

theorem overlappedInputs_closes_iff (h : AcceptedLayer layer nTiles strategy) (a : Axis)
    (hother : ∀ b ≠ a, (layer.geometry b).inp ≤ 8192) :
    (∀ t ∈ layer.overlappedInputs a nTiles false,
      isClean (geometryChecks tileConfig (.ofDPUWorkload t)) = true) ↔
      layer.AxisSplitCloses a nTiles := by
  have hc := (h.sizes a).consistent
  have hf := h.splitFits a
  have hd := ceilDivision_pos hc.out_pos h.nTiles_pos hf.tiles_le
  have hall := le_mul_ceilDivision (a := (layer.geometry a).out) h.nTiles_pos hf.tiles_le
  have hloop := overlappedTiles_loop false hc hf hd nTiles (Nat.zero_le _) (.inl (Nat.dvd_zero _))
  rw [Nat.zero_add, Nat.min_eq_right hall, ← SplitState.init_eq hc hf] at hloop
  have hlimit : ∀ tiles, limitOutputWriteTiles false nTiles tiles = tiles := fun _ => by
    simp [limitOutputWriteTiles]
  rw [overlappedInputs, hlimit]
  exact removeEmptyTiles_closes_iff h hother
    (hloop.mono fun o t _ _ ht => partOfAxis_overlappedTile ht)

/-! ### The parts of the split with input halos -/

/-- A halo above a tile leaves it no begin padding. -/
theorem padBegin_cut_of_topHalo {g : Geometry} (h : g.Consistent) {o m : ℕ} (hm : 0 < m)
    (htop : 0 < topHalo g o) : (g.cut o m).padBegin = 0 := by
  simp only [Geometry.cut, h.rowsAbove_card hm]
  unfold topHalo at htop
  split at htop <;> omega

/-- A halo below a tile leaves it no end padding. -/
theorem padEnd_cut_of_bottomHalo {g : Geometry} (h : g.Consistent) {o m : ℕ} (hm : 0 < m)
    (ho : o + m ≤ g.out) (hbottom : 0 < bottomHalo g (o + m)) : (g.cut o m).padEnd = 0 := by
  unfold bottomHalo at hbottom
  split at hbottom
  · next hlast =>
    obtain ⟨hlt, hstop⟩ := hlast
    have hmul : (o + m) * g.s = o * g.s + ((m - 1) * g.s + g.s) := by
      rw [← Nat.succ_mul, Nat.add_mul]; congr 2; omega
    rw [windowStop, hmul] at hstop
    simp only [Geometry.cut, if_neg hlt.ne, h.rowsBelow_card hm ho]
    omega
  · omega

theorem agreeOutgoing_haloTile (layer : DPULayer) (r : ℕ) (c : Geometry) (top bottom : ℤ) :
    (layer.haloTile r c top bottom).halo.output0Halo
        = (layer.halo.setNoHalo .h).output0Halo ∧
      (layer.haloTile r c top bottom).halo.output0HaloBroadcastCnt
        = (layer.halo.setNoHalo .h).output0HaloBroadcastCnt ∧
      (layer.haloTile r c top bottom).halo.input0Halo
        = { layer.halo.input0Halo with top := top, bottom := bottom } := by
  simp only [haloTile]
  split_ifs <;> exact ⟨rfl, rfl, rfl⟩

theorem checkHalo_haloTile (r : ℕ) (c : Geometry) (top bottom : ℤ) (htop : 0 < top → c.padBegin = 0)
    (hbottom : 0 < bottom → c.padEnd = 0) :
    checkHalo (.ofDPUWorkload (layer.haloTile r c top bottom)) = true ↔ layer.HaloCloses .h := by
  obtain ⟨hout, hcnt, hin⟩ := layer.agreeOutgoing_haloTile r c top bottom
  have hhalo : (DPUOperation.ofDPUWorkload (layer.haloTile r c top bottom)).halo
      = (layer.haloTile r c top bottom).halo := rfl
  have htop' : ¬ (0 < i32 c.padBegin ∧ 0 < top) := by
    rintro ⟨hpad, h⟩
    rw [htop h] at hpad
    simp at hpad
  have hbottom' : ¬ (0 < i32 c.padEnd ∧ 0 < bottom) := by
    rintro ⟨hpad, h⟩
    rw [hbottom h] at hpad
    simp at hpad
  rw [checkHalo, HaloCloses, isClean_haloChecks_iff, isClean_haloChecks_iff, hhalo, hin, hout, hcnt]
  simp only [DPUOperation.ofDPUWorkload, KernelInfo.ofDPUWorkload, haloTile, htop', hbottom']
  simp [HaloWorkload.setNoHalo, HaloWorkload.setVerticalNoHalo, HaloInfoHWC.setVerticalNoHalo]

theorem partOfAxis_haloTile {d o : ℕ} (hc : (layer.geometry .h).Consistent)
    (ht : HaloCutTile layer d o tile) (hle : o + Axis.h.outputRows tile ≤ (layer.geometry .h).out) :
    PartOfAxis layer .h d o tile := by
  obtain ⟨hrows, hdvd, r, c, top, bottom, rfl, hcut⟩ := ht
  rw [outputRows_haloTile] at hrows hdvd hle
  constructor
  case op_eq => rfl
  case outputs_eq => rfl
  case rows_eq => rw [outputRows_haloTile, hrows]
  case dvd => rwa [outputRows_haloTile]
  case cut =>
    intro hpos
    rw [outputRows_haloTile] at hpos ⊢
    obtain ⟨hceq, -, -⟩ := hcut hpos
    rw [← hceq]
    have hk : c.k = (layer.geometry .h).k := by rw [hceq]; rfl
    have hs : c.s = (layer.geometry .h).s := by rw [hceq]; rfl
    obtain ⟨inp, k, s, padBegin, padEnd, out⟩ := c
    simp only at hk hs
    rw [hk, hs]
    rfl
  case other =>
    intro b hb
    cases b with
    | h => exact absurd rfl hb
    | w => rfl
  case halo =>
    intro hpos
    rw [outputRows_haloTile] at hpos
    obtain ⟨hceq, rfl, rfl⟩ := hcut hpos
    refine checkHalo_haloTile r c _ _ (fun htop => ?_) fun hbottom => ?_
    · rw [hceq]; exact padBegin_cut_of_topHalo hc hpos htop
    · rw [hceq]; exact padEnd_cut_of_bottomHalo hc hpos hle hbottom

theorem sohHaloInputs_closes_iff (h : AcceptedLayer layer nTiles strategy)
    (hother : ∀ b ≠ Axis.h, (layer.geometry b).inp ≤ 8192) :
    (∀ t ∈ layer.sohHaloInputs nTiles,
      isClean (geometryChecks tileConfig (.ofDPUWorkload t)) = true) ↔
      layer.AxisSplitCloses .h nTiles := by
  have hc := (h.sizes .h).consistent
  have hf := h.splitFits .h
  have hd := ceilDivision_pos hc.out_pos h.nTiles_pos hf.tiles_le
  have hall := le_mul_ceilDivision (a := (layer.geometry .h).out) h.nTiles_pos hf.tiles_le
  have hloop := haloTiles_loop hc hf hd nTiles (Nat.zero_le _) (.inl (Nat.dvd_zero _))
    (HaloState.init_at hc hf)
  rw [Nat.zero_add, Nat.min_eq_right hall] at hloop
  exact removeEmptyTiles_closes_iff h hother
    (hloop.mono fun o t _ hle ht => partOfAxis_haloTile hc ht hle)

/-! ### The parts of the channels -/

/-- The output tensor of a tile with `n` channels. -/
def tileChannelOutputs (layer : DPULayer) (n : ℕ) : VPUTensor :=
  layer.outputs.setShape { layer.outputs.shape with z := n }

/-- The channels of every tile but the last. -/
def tileChannels (layer : DPULayer) (nTiles : ℕ) : ℕ :=
  roundUp (ceilDivision layer.outputs.channels nTiles) (if layer.isOutputAutopad then 1 else 16)

/-- If a part of the channels has output bytes at all, the recomputed input has rows and columns, and
    no halo of the layer is in the way. -/
def ChannelSplitCloses (layer : DPULayer) (nTiles : ℕ) : Prop :=
  let c := layer.tileChannels nTiles
  ∀ i, i * c < layer.outputs.channels →
    (layer.tileChannelOutputs (min c (layer.outputs.channels - i * c))).size ≠ 0 →
    (∀ a, ¬ ((layer.geometry a).out = 1 ∧
      (layer.geometry a).k = (layer.geometry a).padBegin + (layer.geometry a).padEnd)) ∧
      isClean (haloChecks (.ofDPUWorkload layer) layer.halo) = true

/-- A tile of the loop: it has `c` channels or what is left. -/
structure ChannelPart (layer : DPULayer) (nTiles c o : ℕ) (tile : DPULayer) : Prop where
  channels_eq : outputChannels tile = min c (layer.outputs.channels - o)
  dvd : 0 < outputChannels tile → c ∣ o
  eq : ∃ remaining n, tile = layer.sokTile nTiles true remaining n

theorem sokTiles_loop (layer : DPULayer) (nTiles c n : ℕ) :
    ∀ {o : ℕ}, o ≤ layer.outputs.channels → (c ∣ o ∨ o = layer.outputs.channels) →
      Consecutive outputChannels (ChannelPart layer nTiles c) o
        (layer.sokTiles nTiles true c n (layer.outputs.channels - o))
        (min (o + n * c) layer.outputs.channels) := by
  induction n with
  | zero =>
    intro o ho _
    simp only [Nat.zero_mul, Nat.add_zero, Nat.min_eq_left ho]
    exact .nil _
  | succ n ih =>
    intro o ho hstart
    have hchannels : (if c ≤ layer.outputs.channels - o then c else layer.outputs.channels - o)
        = min c (layer.outputs.channels - o) := (Nat.min_def ..).symm
    simp only [sokTiles, hchannels]
    refine .cons ⟨outputChannels_sokTile .., ?_, _, _, rfl⟩ ?_
    · intro hpos
      rw [outputChannels_sokTile] at hpos
      rcases hstart with hdvd | rfl
      · exact hdvd
      · omega
    · have hih := ih (o := o + min c (layer.outputs.channels - o)) (by omega)
        (dvd_or_eq_next ho hstart)
      rw [Nat.sub_add_eq] at hih
      rw [outputChannels_sokTile]
      convert hih using 1
      rw [Nat.succ_mul]; omega

theorem geometry_sokTile (a : Axis) (h : (layer.geometry a).Consistent)
    (hin : (layer.geometry a).inp < 4294967296) (remaining n : ℕ) :
    (layer.sokTile nTiles true remaining n).geometry a
      = { layer.geometry a with inp := recomputedExtent (layer.geometry a) } := by
  have hinp : a.dim (layer.sokTile nTiles true remaining n).inputs.shape
      = recomputedExtent (layer.geometry a) := by
    refine Eq.trans ?_ (dim_recomputeInputTensorShape a h hin)
    cases a <;> rfl
  rw [← hinp]
  cases a <;> rfl

/-- The recomputed input is what the output formula asks for, without a remainder. -/
theorem tileSizes_recomputedExtent {g : Geometry} (h : g.Consistent) :
    TileSizes { g with inp := recomputedExtent g } g := by
  have hout := h.out_pos
  have hb := h.padBegin_le
  have he := h.padEnd_le
  have hsum : recomputedExtent g + g.padBegin + g.padEnd = (g.out - 1) * g.s + g.k := by
    unfold recomputedExtent; omega
  constructor
  case k_eq => rfl
  case s_eq => rfl
  case padBegin_le => exact hb
  case padEnd_le => exact he
  case reach => simp only [hsum]; omega
  case out_eq =>
    simp only [hsum]
    rw [Nat.add_sub_cancel, Nat.mul_div_cancel _ h.s_pos]; omega
  case inp_le => exact recomputedExtent_le h

theorem checkHalo_sokTile (remaining n : ℕ) :
    checkHalo (.ofDPUWorkload (layer.sokTile nTiles true remaining n)) = true ↔
      isClean (haloChecks (.ofDPUWorkload layer) layer.halo) = true := by
  rw [checkHalo, isClean_haloChecks_iff, isClean_haloChecks_iff]
  exact Iff.rfl

theorem geometryChecks_outputWriteTiles (w : DPUOperation) (n : ℤ) :
    geometryChecks tileConfig { w with outputWriteTiles := n } = geometryChecks tileConfig w := by
  cases w; rfl

theorem ofDPUWorkload_outputWriteTiles (w : DPUWorkload) (n : ℕ) :
    DPUOperation.ofDPUWorkload { w with outputWriteTiles := n }
      = { DPUOperation.ofDPUWorkload w with outputWriteTiles := i32 n } := rfl

/-- The last step of a split changes nothing that the geometry checks look at. -/
theorem forall_mem_limitOutputWriteTiles {tiles : List DPULayer} {forceBroadcast : Bool} :
    (∀ t ∈ limitOutputWriteTiles forceBroadcast nTiles tiles,
      isClean (geometryChecks tileConfig (.ofDPUWorkload t)) = true) ↔
      ∀ t ∈ tiles, isClean (geometryChecks tileConfig (.ofDPUWorkload t)) = true := by
  unfold limitOutputWriteTiles
  split
  · simp only [List.forall_mem_map, ofDPUWorkload_outputWriteTiles,
      geometryChecks_outputWriteTiles]
  · exact Iff.rfl

theorem AcceptedLayer.channelsFit (h : AcceptedLayer layer nTiles strategy) :
    ChannelsFit layer nTiles 16 := by
  have hn := h.nTiles_le
  have hpos := h.nTiles_pos
  have hc := h.channels_lt
  refine ⟨hc, by omega, ?_, fun a => ?_⟩
  · have := ceilDivision_le (a := layer.outputs.channels) (b := nTiles) hpos (by omega)
    omega
  · have hcoeff : a.dim (strategy.borderCoeff nTiles) ≤ 8 := dim_borderCoeff_le a hn
    have hinp : a.dim layer.inputs.shape ≤ 8192 * a.dim (strategy.borderCoeff nTiles) :=
      (h.sizes a).inp_le
    omega

theorem sok_closes_iff (h : AcceptedLayer layer nTiles strategy)
    (hinp : ∀ a, (layer.geometry a).inp ≤ 8192) :
    (∀ t ∈ layer.sok nTiles, isClean (geometryChecks tileConfig (.ofDPUWorkload t)) = true) ↔
      layer.ChannelSplitCloses nTiles := by
  have hc := fun a => (h.sizes a).consistent
  have hloop := layer.sokTiles_loop nTiles (layer.tileChannels nTiles) nTiles (Nat.zero_le _)
    (.inl (Nat.dvd_zero _))
  have hall : layer.outputs.channels ≤ nTiles * layer.tileChannels nTiles := by
    rcases Nat.eq_zero_or_pos layer.outputs.channels with h0 | hpos
    · omega
    · exact (maxTileChannels_spec h.channelsFit h.nTiles_pos (by omega) hpos).2.1
  rw [Nat.zero_add, Nat.sub_zero, Nat.min_eq_right hall] at hloop
  rw [sok, sokVariants, forall_mem_limitOutputWriteTiles]
  simp only [removeEmptyTiles, List.mem_filter, decide_eq_true_eq, and_imp]
  refine hloop.forall_mem_iff (R := fun t => t.outputs.size ≠ 0 →
      isClean (geometryChecks tileConfig (.ofDPUWorkload t)) = true)
    (S := fun o => (layer.tileChannelOutputs (min (layer.tileChannels nTiles)
        (layer.outputs.channels - o))).size ≠ 0 →
      (∀ a, ¬ ((layer.geometry a).out = 1 ∧
        (layer.geometry a).k = (layer.geometry a).padBegin + (layer.geometry a).padEnd)) ∧
        isClean (haloChecks (.ofDPUWorkload layer) layer.halo) = true) ?_ ?_
  · intro o t _ ht hpos
    refine ⟨ht.dvd hpos, by rw [ht.channels_eq]; exact Nat.min_le_left _ _, ?_⟩
    rw [← ht.channels_eq]
    obtain ⟨remaining, n, rfl⟩ := ht.eq
    rw [outputChannels_sokTile]
    refine imp_congr Iff.rfl ?_
    have hgeometry : ∀ a, (layer.sokTile nTiles true remaining n).geometry a
        = { layer.geometry a with inp := recomputedExtent (layer.geometry a) } :=
      fun a => geometry_sokTile a (hc a) ((hinp a).trans_lt (by norm_num)) remaining n
    have hop : (layer.sokTile nTiles true remaining n).op = layer.op := rfl
    rw [isClean_geometryChecks_tile_iff h hop
      (fun a => by rw [hgeometry a]; exact tileSizes_recomputedExtent (hc a)), checkHalo_sokTile]
    refine and_congr_left fun _ => forall_congr' fun a => ?_
    rw [hgeometry a, ← recomputedExtent_eq_zero_iff (hc a)]
    have hle := recomputedExtent_le (hc a)
    have hle' := hinp a
    simp only
    omega
  · intro o t ht h0 hsize
    obtain ⟨remaining, n, rfl⟩ := ht.eq
    rw [outputChannels_sokTile] at h0
    subst h0
    exact absurd (VPUTensor.size_eq_zero .z rfl) hsize

/-! ### All splits -/

/-- When the tiles of an accepted layer pass the checks of their geometry. -/
def SplitCloses (layer : DPULayer) (nTiles : ℕ) : VPUTilingStrategy → Prop
  | .sohOverlapped | .sohHaloRead => layer.AxisSplitCloses .h nTiles
  | .sow => layer.AxisSplitCloses .w nTiles
  | .sok => layer.ChannelSplitCloses nTiles
  | _ => True

/-- The strategies that have a split of their own and are valid for layers. -/
def IsPlainSplit (strategy : VPUTilingStrategy) : Prop :=
  strategy = .sohOverlapped ∨ strategy = .sow ∨ strategy = .sohHaloRead ∨ strategy = .sok

/-- An axis that a strategy does not extend is within the limits of a tile. -/
theorem AcceptedLayer.inp_le {a : Axis} (h : AcceptedLayer layer nTiles strategy)
    (ha : a.dim (strategy.borderCoeff nTiles) = 1) : (layer.geometry a).inp ≤ 8192 := by
  have := (h.sizes a).inp_le
  rwa [ha] at this

/-- All tiles of an accepted layer pass the checks of their geometry exactly when every tile's share
    of the input fits on a tile, a split over the channels does not lose the input, and the layer
    brings no halo that contradicts its padding or is negative. -/
theorem splitAcrossTiles_closes_iff (config tileConfig : DeviceValidValues) (layer : DPULayer)
    (isi : ISIStrategy) (strategy : VPUTilingStrategy) (nTiles : ℕ) (hlayer : UnsignedLayer layer)
    (hn : nTiles < 4294967296) (hstrategy : IsPlainSplit strategy)
    (haccept : checkCompleteLayerConsistency config layer isi nTiles strategy = true) :
    (∃ tiles, layer.splitAcrossTiles strategy nTiles = .ok tiles ∧
      ∀ t ∈ tiles, isClean (geometryChecks tileConfig (.ofDPUWorkload t)) = true) ↔
      layer.SplitCloses nTiles strategy := by
  have h := acceptedLayer_of_check hlayer hn haccept
  have hok : ∀ tiles : List DPULayer, (∃ ts, Except.ok (ε := String) tiles = .ok ts ∧
      ∀ t ∈ ts, isClean (geometryChecks tileConfig (.ofDPUWorkload t)) = true) ↔
      ∀ t ∈ tiles, isClean (geometryChecks tileConfig (.ofDPUWorkload t)) = true := by
    intro tiles
    simp only [Except.ok.injEq, exists_eq_left']
  rcases hstrategy with rfl | rfl | rfl | rfl
  · refine (hok _).trans (overlappedInputs_closes_iff h .h fun b hb => ?_)
    cases b with
    | h => exact absurd rfl hb
    | w => exact h.inp_le rfl
  · refine (hok _).trans (overlappedInputs_closes_iff h .w fun b hb => ?_)
    cases b with
    | h => exact h.inp_le rfl
    | w => exact absurd rfl hb
  · refine (hok _).trans (sohHaloInputs_closes_iff h fun b hb => ?_)
    cases b with
    | h => exact absurd rfl hb
    | w => exact h.inp_le rfl
  · exact (hok _).trans (sok_closes_iff h fun a => h.inp_le (by cases a <;> rfl))

/-- A max-pooling layer of sixteen columns and channels with a padded 3-row kernel. -/
def pooling (rows : ℕ) : DPULayer where
  device := .vpu_4_0
  op := .maxpool
  inputs := { shape := ⟨16, rows, 16, 1⟩ }
  outputs := { shape := ⟨16, rows, 16, 1⟩ }
  kernels := ⟨3, 3⟩
  strides := ⟨1, 1⟩
  padding := ⟨1, 1, 1, 1⟩
  executionOrder := .cuboid16x16

/-- Sixteen rows over two tiles. -/
theorem splitAcrossTiles_closes_iff_sixteen :
    (∃ tiles, (pooling 16).splitAcrossTiles .sohOverlapped 2 = .ok tiles ∧
      ∀ t ∈ tiles,
        isClean (geometryChecks VPU4.layerOnTileValidValues (.ofDPUWorkload t)) = true) ↔
      (pooling 16).SplitCloses 2 .sohOverlapped :=
  splitAcrossTiles_closes_iff VPU4.layerValidValues VPU4.layerOnTileValidValues (pooling 16)
    .clustering .sohOverlapped 2 ⟨fun a => by cases a <;> decide, by decide⟩ (by decide)
    (.inl rfl) (by decide +kernel)

/-- A convolution of one input row with a 2-row kernel in steps of two, one row of padding on both
    ends. -/
def oneRowConvolution : DPULayer where
  device := .vpu_4_0
  op := .convolution
  inputs := { shape := ⟨16, 1, 16, 1⟩ }
  outputs := { shape := ⟨8, 1, 32, 1⟩ }
  kernels := ⟨1, 2⟩
  strides := ⟨2, 2⟩
  padding := ⟨1, 1, 0, 0⟩
  executionOrder := .cuboid16x16

theorem not_closes_of_mem {split : Except String (List DPULayer)} {tiles : List DPULayer}
    (h : split = .ok tiles)
    (hfails : ∃ t ∈ tiles, isClean (geometryChecks tileConfig (.ofDPUWorkload t)) = false) :
    ¬ ∃ tiles, split = .ok tiles ∧
      ∀ t ∈ tiles, isClean (geometryChecks tileConfig (.ofDPUWorkload t)) = true := by
  rintro ⟨tiles', htiles, hall⟩
  obtain ⟨t, ht, hfalse⟩ := hfails
  rw [h, Except.ok.injEq] at htiles
  rw [hall t (htiles ▸ ht)] at hfalse
  exact Bool.noConfusion hfalse

/-- The convolution is accepted for a split over the channels, but its tiles have no input row. Of a
    pooling layer twice the rows of a tile are accepted for two tiles, but the rows of the overlap
    come on top. -/
theorem splitAcrossTiles_not_closed :
    (checkCompleteLayerConsistency VPU4.layerValidValues oneRowConvolution .splitOverK 2 .sok = true ∧
      ¬ ∃ tiles, oneRowConvolution.splitAcrossTiles .sok 2 = .ok tiles ∧
        ∀ t ∈ tiles,
          isClean (geometryChecks VPU4.layerOnTileValidValues (.ofDPUWorkload t)) = true) ∧
    checkCompleteLayerConsistency VPU4.layerValidValues (pooling 16384) .clustering 2 .sohOverlapped
      = true ∧
    ¬ ∃ tiles, (pooling 16384).splitAcrossTiles .sohOverlapped 2 = .ok tiles ∧
      ∀ t ∈ tiles,
        isClean (geometryChecks VPU4.layerOnTileValidValues (.ofDPUWorkload t)) = true :=
  ⟨⟨by decide +kernel, not_closes_of_mem rfl (by decide +kernel)⟩, by decide +kernel,
    not_closes_of_mem rfl (by decide +kernel)⟩

end DPUWorkload
end Vpunn
