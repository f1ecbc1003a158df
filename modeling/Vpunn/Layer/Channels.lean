import Vpunn.Layer.Overlap

/-! The split over the output channels (`DPULayer::SOK_Variants`).

    The channels are dealt out in equal parts, rounded up, until there are none left. Every tile's
    input is computed anew from its output, in width and height as well. -/

namespace Vpunn
open MachineInt Window

namespace DPUWorkload

/-- The input shape that follows from the output, the kernel, the strides and the padding. -/
def recomputeInputTensorShape (layer : DPULayer) : DPULayer :=
  let inputWidth := u32 ((layer.outputs.width - 1) * layer.strides.w + layer.kernels.w
    - layer.padding.left - layer.padding.right)
  let inputHeight := u32 ((layer.outputs.height - 1) * layer.strides.h + layer.kernels.h
    - layer.padding.top - layer.padding.bottom)
  let inputChannel :=
    if layer.op = .convolution ∨ layer.op = .cmConvolution then layer.inputs.channels
    else layer.outputs.channels
  { layer with
    inputs := layer.inputs.setShape ⟨inputWidth, inputHeight, inputChannel, layer.inputs.batches⟩ }

/-- One tile with `tileChannels` of the `channelsRemainingToSplit` output channels. -/
def sokTile (layer : DPULayer) (nTiles : ℕ) (forceBroadcast : Bool)
    (channelsRemainingToSplit tileChannels : ℕ) : DPULayer :=
  let outputSize := layer.outputs.channels
  let tile := recomputeInputTensorShape
    { layer with outputs := layer.outputs.setShape { layer.outputs.shape with z := tileChannels } }
  let outputWriteTiles := if forceBroadcast then nTiles else layer.outputWriteTiles
  let front := if 1 < outputWriteTiles then i32 (outputSize - channelsRemainingToSplit) else 0
  let back := if 1 < outputWriteTiles then i32 (channelsRemainingToSplit - tileChannels) else 0
  { tile with
    isiStrategy := if forceBroadcast then .splitOverK else .clustering
    outputWriteTiles := outputWriteTiles
    halo := { tile.halo with
      output0InboundHalo := { tile.halo.output0InboundHalo with front := front, back := back } } }

/-- The tiles that are still to be made, with the channels that remain. -/
def sokTiles (layer : DPULayer) (nTiles : ℕ) (forceBroadcast : Bool) (maxTileChannels : ℕ) :
    ℕ → ℕ → List DPULayer
  | 0, _ => []
  | n + 1, channelsRemainingToSplit =>
    let tileChannels := if maxTileChannels ≤ channelsRemainingToSplit then maxTileChannels
      else channelsRemainingToSplit
    layer.sokTile nTiles forceBroadcast channelsRemainingToSplit tileChannels
      :: layer.sokTiles nTiles forceBroadcast maxTileChannels n
        (channelsRemainingToSplit - tileChannels)

def sokVariants (layer : DPULayer) (nTiles : ℕ) (forceBroadcast : Bool) (rounding : ℕ) :
    List DPULayer :=
  let outputSize := layer.outputs.channels
  let effectiveRounding := if layer.isOutputAutopad then 1 else rounding
  let maxTileChannels := roundUp (ceilDivision outputSize nTiles) effectiveRounding
  limitOutputWriteTiles forceBroadcast nTiles <| removeEmptyTiles <|
    layer.sokTiles nTiles forceBroadcast maxTileChannels nTiles outputSize

end DPUWorkload

/-! ### The split as a whole -/

open Consecutive (offset)

/-- The channels of a tile. -/
def outputChannels (tile : DPULayer) : ℕ := tile.outputs.channels

/-- The extent that the recomputed input of a layer has along an axis. -/
def recomputedExtent (g : Geometry) : ℕ := (g.out - 1) * g.s + g.k - (g.padBegin + g.padEnd)

/-- What a split over the channels has to be, with the write tiles that the loop sets. -/
structure SplitsChannels (layer : DPULayer) (nTiles rounding loopWriteTiles : ℕ)
    (tiles : List DPULayer) : Prop where
  length_pos : 1 ≤ tiles.length
  length_le : tiles.length ≤ nTiles
  channels_pos : ∀ t ∈ tiles, 0 < outputChannels t
  sum_eq : (tiles.map outputChannels).sum = layer.outputs.channels
  equal : ∃ c, (layer.isOutputAutopad = false → rounding ∣ c) ∧
    ∀ (i : ℕ) (hi : i + 1 < tiles.length), outputChannels tiles[i] = c
  inbound : 1 < loopWriteTiles → ∀ (i : ℕ) (hi : i < tiles.length),
    tiles[i].halo.output0InboundHalo.front = offset outputChannels tiles i ∧
    tiles[i].halo.output0InboundHalo.front + outputChannels tiles[i]
      + tiles[i].halo.output0InboundHalo.back = layer.outputs.channels
  input_eq : ∀ t ∈ tiles, ∀ a : Axis, a.dim t.inputs.shape = recomputedExtent (layer.geometry a)
  input_le : ∀ t ∈ tiles, ∀ a : Axis, a.dim t.inputs.shape ≤ a.dim layer.inputs.shape

/-- The sums that the loop forms, and the input extents, are `unsigned int`; the halos are `int`. -/
structure ChannelsFit (layer : DPULayer) (nTiles rounding : ℕ) : Prop where
  channels_lt : layer.outputs.channels < 2147483648
  tiles_le : layer.outputs.channels + nTiles ≤ 4294967296
  rounding_le : ceilDivision layer.outputs.channels nTiles + rounding ≤ 4294967296
  input_lt : ∀ a : Axis, a.dim layer.inputs.shape < 4294967296

/-- The recomputed extent is at most the extent of the layer: what it lacks are the rows that a
    stride does not divide evenly. -/
theorem recomputedExtent_le {g : Geometry} (h : g.Consistent) : recomputedExtent g ≤ g.inp := by
  have := h.reach (o := g.out - 1) (by have := h.out_pos; omega)
  unfold recomputedExtent
  omega

/-- It is empty exactly when the paddings of both ends make up the kernel of the only window. -/
theorem recomputedExtent_eq_zero_iff {g : Geometry} (h : g.Consistent) :
    recomputedExtent g = 0 ↔ g.out = 1 ∧ g.k = g.padBegin + g.padEnd := by
  have hpb := h.padBegin_le
  have hpe := h.padEnd_le
  have hs := h.s_pos
  have hout := h.out_pos
  unfold recomputedExtent
  rcases Nat.lt_or_ge 1 g.out with h1 | h1
  · have : g.s ≤ (g.out - 1) * g.s := Nat.le_mul_of_pos_left _ (by omega)
    omega
  · rw [show g.out = 1 by omega]; omega

namespace DPUWorkload

variable {layer : DPULayer} {nTiles rounding c : ℕ} {forceBroadcast : Bool}

/-! ### The tiles of the loop -/

/-- What the loop gives a tile whose channels begin at `o`: as many as are left, up to `c`. -/
structure SokTileAt (layer : DPULayer) (loopWriteTiles c o : ℕ) (tile : DPULayer) : Prop where
  outputs : tile.outputs
    = layer.outputs.setShape { layer.outputs.shape with z := outputChannels tile }
  channels : outputChannels tile = min c (layer.outputs.channels - o)
  front : 1 < loopWriteTiles → tile.halo.output0InboundHalo.front = o
  back : 1 < loopWriteTiles → tile.halo.output0InboundHalo.back
    = ((layer.outputs.channels - o - outputChannels tile : ℕ) : ℤ)
  input : ∀ a : Axis, a.dim tile.inputs.shape = recomputedExtent (layer.geometry a)

/-- The unsigned subtraction of the recomputation does not wrap around. -/
theorem u32_recompute {g : Geometry} (h : g.Consistent) (hin : g.inp < 4294967296) :
    u32 ((g.out - 1) * g.s + g.k - g.padBegin - g.padEnd) = recomputedExtent g := by
  have hle := recomputedExtent_le h
  have hpb := h.padBegin_le
  have hpe := h.padEnd_le
  have hout := h.out_pos
  have hexact : ((g.out - 1) * g.s + g.k - g.padBegin - g.padEnd : ℤ) = recomputedExtent g := by
    unfold recomputedExtent
    push_cast [show g.padBegin + g.padEnd ≤ (g.out - 1) * g.s + g.k by omega,
      show 1 ≤ g.out by omega]
    ring
  rw [hexact, u32_natCast (by omega)]

theorem dim_recomputeInputTensorShape (a : Axis) (h : (layer.geometry a).Consistent)
    (hin : a.dim layer.inputs.shape < 4294967296) :
    a.dim layer.recomputeInputTensorShape.inputs.shape = recomputedExtent (layer.geometry a) := by
  rw [← u32_recompute h hin]
  cases a <;> rfl

@[simp] theorem outputChannels_sokTile (remaining n : ℕ) :
    outputChannels (layer.sokTile nTiles forceBroadcast remaining n) = n := rfl

theorem sokTile_at (h : ∀ a : Axis, (layer.geometry a).Consistent)
    (hf : ChannelsFit layer nTiles rounding) {o : ℕ} (ho : o ≤ layer.outputs.channels) :
    SokTileAt layer (if forceBroadcast then nTiles else layer.outputWriteTiles) c o
      (layer.sokTile nTiles forceBroadcast (layer.outputs.channels - o)
        (min c (layer.outputs.channels - o))) where
  outputs := rfl
  channels := rfl
  front := by
    intro hw
    have := hf.channels_lt
    simp only [sokTile, if_pos hw]
    rw [i32_of_bounds] <;> omega
  back := by
    intro hw
    have := hf.channels_lt
    rw [outputChannels_sokTile]
    simp only [sokTile, if_pos hw]
    rw [i32_of_bounds] <;> omega
  input := by
    intro a
    refine Eq.trans ?_ (dim_recomputeInputTensorShape a (h a) (hf.input_lt a))
    cases a <;> rfl

/-- The tiles of the loop follow each other from the channel it starts at. -/
theorem sokTiles_consecutive (forceBroadcast : Bool)
    (h : ∀ a : Axis, (layer.geometry a).Consistent) (hf : ChannelsFit layer nTiles rounding) (n : ℕ) :
    ∀ {o : ℕ}, o ≤ layer.outputs.channels →
      Consecutive outputChannels
        (SokTileAt layer (if forceBroadcast then nTiles else layer.outputWriteTiles) c) o
        (layer.sokTiles nTiles forceBroadcast c n (layer.outputs.channels - o))
        (min (o + n * c) layer.outputs.channels) := by
  induction n with
  | zero =>
    intro o ho
    simp only [Nat.zero_mul, Nat.add_zero, Nat.min_eq_left ho]
    exact .nil _
  | succ n ih =>
    intro o ho
    have hchannels : (if c ≤ layer.outputs.channels - o then c else layer.outputs.channels - o)
        = min c (layer.outputs.channels - o) := (Nat.min_def ..).symm
    simp only [sokTiles, hchannels]
    refine .cons (sokTile_at h hf ho) ?_
    have hih := ih (o := o + min c (layer.outputs.channels - o)) (by omega)
    rw [Nat.sub_add_eq] at hih
    rw [outputChannels_sokTile]
    convert hih using 1
    rw [Nat.succ_mul]; omega

@[simp] theorem length_sokTiles (n remaining : ℕ) :
    (layer.sokTiles nTiles forceBroadcast c n remaining).length = n := by
  induction n generalizing remaining with
  | zero => rfl
  | succ n ih => simp [sokTiles, ih]

theorem roundUp_pos {a b : ℕ} (ha : 0 < a) (hb : 0 < b) (hfit : a + b ≤ 4294967296) :
    0 < roundUp a b := Nat.mul_pos (ceilDivision_pos ha hb hfit) hb

theorem le_roundUp {a b : ℕ} (hb : 0 < b) (hfit : a + b ≤ 4294967296) : a ≤ roundUp a b := by
  unfold roundUp
  rw [Nat.mul_comm]
  exact le_mul_ceilDivision hb hfit

/-- The size of all parts but the last is positive, large enough, and aligned. -/
theorem maxTileChannels_spec (hf : ChannelsFit layer nTiles rounding) (hn : 1 ≤ nTiles)
    (hr : 1 ≤ rounding) (hpos : 0 < layer.outputs.channels) :
    let c := roundUp (ceilDivision layer.outputs.channels nTiles)
      (if layer.isOutputAutopad then 1 else rounding)
    0 < c ∧ layer.outputs.channels ≤ nTiles * c ∧
      (layer.isOutputAutopad = false → rounding ∣ c) := by
  have hd := ceilDivision_pos hpos hn hf.tiles_le
  have hall := le_mul_ceilDivision (a := layer.outputs.channels) hn hf.tiles_le
  have hround := hf.rounding_le
  have heff : 0 < (if layer.isOutputAutopad then 1 else rounding) ∧
      ceilDivision layer.outputs.channels nTiles + (if layer.isOutputAutopad then 1 else rounding)
        ≤ 4294967296 := by
    split <;> omega
  refine ⟨roundUp_pos hd heff.1 heff.2, ?_, ?_⟩
  · exact hall.trans (Nat.mul_le_mul_left _ (le_roundUp heff.1 heff.2))
  · intro hoff
    simp only [hoff, Bool.false_eq_true, if_false]
    exact Nat.dvd_mul_left _ _

/-- The tiles of the split, with the last step undone. -/
theorem sokVariants_consecutive (forceBroadcast : Bool)
    (h : ∀ a : Axis, (layer.geometry a).Consistent)
    (hf : ChannelsFit layer nTiles rounding) (hout : layer.outputs.Regular) (hn : 1 ≤ nTiles)
    (hr : 1 ≤ rounding) :
    Consecutive outputChannels
      (fun o t => 0 < outputChannels t ∧
        SokTileAt layer (if forceBroadcast then nTiles else layer.outputWriteTiles)
          (roundUp (ceilDivision layer.outputs.channels nTiles)
            (if layer.isOutputAutopad then 1 else rounding)) o t) 0
      (layer.sokVariants nTiles forceBroadcast rounding) layer.outputs.channels := by
  obtain ⟨-, hall, -⟩ := maxTileChannels_spec hf hn hr hout.pos.2.2.1
  have hloop := sokTiles_consecutive forceBroadcast h hf nTiles
    (c := roundUp (ceilDivision layer.outputs.channels nTiles)
      (if layer.isOutputAutopad then 1 else rounding)) (Nat.zero_le _)
  rw [Nat.zero_add, Nat.sub_zero, Nat.min_eq_right hall] at hloop
  have hempty : ∀ t, t.outputs
      = layer.outputs.setShape { layer.outputs.shape with z := outputChannels t } →
      outputChannels t ≤ layer.outputs.channels → (t.outputs.size = 0 ↔ outputChannels t = 0) := by
    intro t ht hle
    rw [ht]
    refine hout.size_eq_zero_iff (a := .z) ⟨le_refl _, le_refl _, hle, le_refl _⟩ ?_
    exact fun hpos => ⟨hout.pos.1, hout.pos.2.1, hpos, hout.pos.2.2.2⟩
  have hkept := hloop.filter (fun layer => layer.outputs.size ≠ 0) ?_
  · unfold sokVariants
    refine consecutive_limitOutputWriteTiles ?_ (fun _ _ => rfl) ?_
    · refine hkept.mono fun o t _ hle hkeep => ⟨?_, hkeep.1⟩
      refine Nat.pos_of_ne_zero fun h0 => (decide_eq_true_iff.mp hkeep.2) ?_
      exact (hempty t hkeep.1.outputs (by omega)).mpr h0
    · exact fun o t n ⟨hpos, ht⟩ => ⟨hpos, ht.outputs, ht.channels, ht.front, ht.back, ht.input⟩
  · intro o t hle htile hdrop
    rw [decide_eq_false_iff_not, not_not] at hdrop
    exact (hempty t htile.outputs (by omega)).mp hdrop

theorem length_sokVariants_le (layer : DPULayer) (nTiles rounding : ℕ) (forceBroadcast : Bool) :
    (layer.sokVariants nTiles forceBroadcast rounding).length ≤ nTiles := by
  unfold sokVariants
  rw [length_limitOutputWriteTiles]
  exact (List.length_filter_le _ _).trans (length_sokTiles ..).le

/-- Split over the channels: under the size conditions the parts are positive, aligned and equal but
    for the last, the inbound halos complete them, and the recomputed inputs are at most the
    layer's. -/
theorem sokVariants_splitsChannels (layer : DPULayer) (nTiles rounding : ℕ) (forceBroadcast : Bool)
    (hn : 1 ≤ nTiles) (hr : 1 ≤ rounding) (h : ∀ a : Axis, (layer.geometry a).Consistent)
    (hf : ChannelsFit layer nTiles rounding) (hout : layer.outputs.Regular) :
    SplitsChannels layer nTiles rounding
      (if forceBroadcast then nTiles else layer.outputWriteTiles)
      (layer.sokVariants nTiles forceBroadcast rounding) := by
  have hc := sokVariants_consecutive forceBroadcast h hf hout hn hr
  obtain ⟨-, -, hdvd⟩ := maxTileChannels_spec hf hn hr hout.pos.2.2.1
  have hchannels : 0 < layer.outputs.channels := hout.pos.2.2.1
  have hlen := length_sokVariants_le layer nTiles rounding forceBroadcast
  generalize layer.sokVariants nTiles forceBroadcast rounding = tiles at hc hlen ⊢
  have htile := hc.get
  have hend := (hc.mono (Q := fun o t => o + outputChannels t ≤ layer.outputs.channels)
    fun _ _ _ hle _ => hle).get
  simp only [Nat.zero_add] at htile hend
  constructor
  case length_pos =>
    refine List.length_pos_iff.mpr ?_
    rintro rfl
    have := hc.sum_eq
    simp at this
    omega
  case length_le => exact hlen
  case channels_pos => exact hc.forall_mem fun _ _ _ ht => ht.1
  case sum_eq => simpa using hc.sum_eq
  case equal =>
    refine ⟨_, hdvd, fun i hi => ?_⟩
    -- a later tile has channels, so this one did not take all that were left
    obtain ⟨hpos, hnext⟩ := htile (i + 1) hi
    have hthis := (htile i (by omega)).2.channels
    rw [hnext.channels, Consecutive.offset_succ (by omega)] at hpos
    omega
  case inbound =>
    intro hw i hi
    obtain ⟨-, ht⟩ := htile i hi
    rw [ht.front hw, ht.back hw]
    have := hend i hi
    omega
  case input_eq => exact hc.forall_mem fun _ _ _ ht => ht.2.input
  case input_le =>
    refine hc.forall_mem fun _ t _ ht a => ?_
    rw [ht.2.input a]
    exact recomputedExtent_le (h a)

/-- No tile of a split loses the input of an axis. -/
def KeepsInput (tiles : List DPULayer) : Prop :=
  ∀ t ∈ tiles, ∀ a : Axis, 1 ≤ a.dim t.inputs.shape

instance (tiles : List DPULayer) : Decidable (KeepsInput tiles) :=
  decidable_of_iff (∀ t ∈ tiles, 1 ≤ Axis.h.dim t.inputs.shape ∧ 1 ≤ Axis.w.dim t.inputs.shape)
    ⟨fun h t ht a => by cases a; exacts [(h t ht).1, (h t ht).2],
      fun h t ht => ⟨h t ht .h, h t ht .w⟩⟩

theorem keepsInput_iff {loopWriteTiles : ℕ} {tiles : List DPULayer}
    (h : ∀ a : Axis, (layer.geometry a).Consistent)
    (hs : SplitsChannels layer nTiles rounding loopWriteTiles tiles) :
    KeepsInput tiles ↔ ∀ a : Axis, ¬ ((layer.geometry a).out = 1 ∧
      (layer.geometry a).k = (layer.geometry a).padBegin + (layer.geometry a).padEnd) := by
  have hzero : ∀ t ∈ tiles, ∀ a : Axis, 1 ≤ a.dim t.inputs.shape ↔ ¬ ((layer.geometry a).out = 1 ∧
      (layer.geometry a).k = (layer.geometry a).padBegin + (layer.geometry a).padEnd) := by
    intro t ht a
    rw [hs.input_eq t ht a, ← recomputedExtent_eq_zero_iff (h a)]
    exact Nat.pos_iff_ne_zero
  obtain ⟨t, ht⟩ := List.exists_mem_of_length_pos hs.length_pos
  exact ⟨fun hkeeps a => (hzero t ht a).mp (hkeeps t ht a),
    fun hne t ht a => (hzero t ht a).mpr (hne a)⟩

/-- The channels are always split as they should be. The tiles keep an input exactly when on neither
    axis the paddings of both ends make up the kernel of the only window: the end padding is
    taken off although it may lie behind that window. -/
theorem sokVariants_keepsInput_iff (layer : DPULayer) (nTiles rounding : ℕ)
    (forceBroadcast : Bool) (hn : 1 ≤ nTiles) (hr : 1 ≤ rounding)
    (h : ∀ a : Axis, (layer.geometry a).Consistent) (hf : ChannelsFit layer nTiles rounding)
    (hout : layer.outputs.Regular) :
    let tiles := layer.sokVariants nTiles forceBroadcast rounding
    SplitsChannels layer nTiles rounding
        (if forceBroadcast then nTiles else layer.outputWriteTiles) tiles ∧ KeepsInput tiles ↔
      ∀ a : Axis, ¬ ((layer.geometry a).out = 1 ∧
        (layer.geometry a).k = (layer.geometry a).padBegin + (layer.geometry a).padEnd) := by
  have hs := sokVariants_splitsChannels layer nTiles rounding forceBroadcast hn hr h hf hout
  exact (and_iff_right hs).trans (keepsInput_iff h hs)

/-- Forty channels for three tiles in multiples of sixteen. -/
theorem sokVariants_keepsInput_forty :
    SplitsChannels (ofHeight ⟨5, 3, 1, 1, 1, 5⟩ 40) 3 16 3
        ((ofHeight ⟨5, 3, 1, 1, 1, 5⟩ 40).sokVariants 3 true 16) ∧
      KeepsInput ((ofHeight ⟨5, 3, 1, 1, 1, 5⟩ 40).sokVariants 3 true 16) :=
  (sokVariants_keepsInput_iff (ofHeight ⟨5, 3, 1, 1, 1, 5⟩ 40) 3 16 true (by decide) (by decide)
    (fun a => by cases a <;> decide)
    ⟨by decide, by decide, by decide, fun a => by cases a <;> decide⟩ (by decide)).mpr
    fun a => by cases a <;> decide

/-- A one-row input, a 2-row kernel in steps of two, one row of padding on both ends: the window of
    the only output row is padding and the input, but the recomputed input has no row. -/
def paddingOnly : DPULayer := ofHeight ⟨1, 2, 2, 1, 1, 1⟩ 16

/-- One tile for such a layer is consistent and has no input row. The size conditions leave out an
    output without channels, which leaves no tiles, and `2^32 - 1` channels for two tiles, which wrap
    around to none. -/
theorem sokVariants_exceptions :
    ((∀ a : Axis, (paddingOnly.geometry a).Consistent) ∧ ChannelsFit paddingOnly 1 16 ∧
      paddingOnly.outputs.Regular ∧ ¬ KeepsInput (paddingOnly.sokVariants 1 true 16)) ∧
    ((∀ a : Axis, ((ofHeight ⟨1, 1, 1, 0, 0, 1⟩ 0).geometry a).Consistent) ∧
      (ofHeight ⟨1, 1, 1, 0, 0, 1⟩ 0).sokVariants 1 true 16 = []) ∧
    ((∀ a : Axis, ((ofHeight ⟨1, 1, 1, 0, 0, 1⟩ 4294967295).geometry a).Consistent) ∧
      (ofHeight ⟨1, 1, 1, 0, 0, 1⟩ 4294967295).sokVariants 2 true 16 = []) := by
  refine ⟨⟨?_, ⟨by decide, by decide, by decide, ?_⟩, by decide, by decide⟩, ⟨?_, by decide⟩,
    ⟨?_, by decide⟩⟩ <;>
    (intro a; cases a <;> decide)

end DPUWorkload

end Vpunn
