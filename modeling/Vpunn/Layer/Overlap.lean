import Vpunn.Lib.Consecutive
import Vpunn.Layer.Axis

/-! Splits with overlapped inputs (`DPULayer::SOH_overlapped_inputs`,
    `DPULayer::SOW_overlapped_inputs`).

    The output rows are dealt out evenly. A loop over the tiles carries how many input rows are still
    available, how much begin padding they contain, and how many output rows remain, and gives each
    tile all the input it needs. The two functions are one text for the two axes. Every tile turns
    out to be the cut of the layer's geometry at the output rows it computes. -/

namespace Vpunn
open MachineInt Window

/-! ### The loop -/

/-- The counters of the loop: `available_in`, `remnant_pad_begin`, `remaining_output_to_split`. -/
structure SplitState where
  availableIn : ℤ
  remnantPadBegin : ℤ
  remainingOutputToSplit : ℕ
  deriving DecidableEq, Repr

namespace SplitState

def init (g : Geometry) : SplitState where
  availableIn := i32 (g.inp + g.padBegin)
  remnantPadBegin := i32 g.padBegin
  remainingOutputToSplit := g.out

/-- The output rows of the next tile. -/
def outputTileDim (st : SplitState) (desiredTileDim : ℕ) : ℕ :=
  if desiredTileDim ≤ st.remainingOutputToSplit then desiredTileDim
  else st.remainingOutputToSplit

/-- Whether the next tile takes all the rows that remain. -/
def isLastUsefullTile (st : SplitState) (desiredTileDim : ℕ) : Bool :=
  st.remainingOutputToSplit = st.outputTileDim desiredTileDim

/-- The input rows that the windows of the next tile move past. -/
def consumedInput (st : SplitState) (g : Geometry) (desiredTileDim : ℕ) : ℤ :=
  i32 (u32 (st.outputTileDim desiredTileDim * g.s))

/-- How much input the next tile's output needs. -/
def inputMaxRequiredSize (st : SplitState) (g : Geometry) (desiredTileDim : ℕ) : ℤ :=
  i32 (helperInputDim (st.outputTileDim desiredTileDim) g.k 0 g.s)

/-- The end padding that the next tile needs: what is missing when the axis ends before its
    windows do. -/
def useFromEndPadding (st : SplitState) (g : Geometry) (desiredTileDim : ℕ) : ℤ :=
  let needMoreSize := i32 (st.inputMaxRequiredSize g desiredTileDim - st.availableIn)
  if 0 < needMoreSize then min needMoreSize (i32 g.padEnd) else 0

def inputTile (st : SplitState) (g : Geometry) (desiredTileDim : ℕ) : ℤ :=
  let currentPadBegin := st.remnantPadBegin
  i32 (i32 (st.inputMaxRequiredSize g desiredTileDim - currentPadBegin)
    - st.useFromEndPadding g desiredTileDim)

def currentPadEnd (st : SplitState) (g : Geometry) (desiredTileDim : ℕ) : ℤ :=
  if st.isLastUsefullTile desiredTileDim then i32 g.padEnd
  else st.useFromEndPadding g desiredTileDim

/-- The sizes that the next tile gets along the split axis. -/
def tile (st : SplitState) (g : Geometry) (desiredTileDim : ℕ) : Geometry :=
  let inputTile := st.inputTile g desiredTileDim
  { inp := u32 (if inputTile < 0 then 0 else inputTile)
    k := g.k
    s := g.s
    padBegin := u32 st.remnantPadBegin
    padEnd := u32 (st.currentPadEnd g desiredTileDim)
    out := st.outputTileDim desiredTileDim }

def next (st : SplitState) (g : Geometry) (desiredTileDim : ℕ) : SplitState :=
  let consumedInput := st.consumedInput g desiredTileDim
  { availableIn := i32 (st.availableIn - consumedInput)
    remnantPadBegin :=
      if consumedInput < st.remnantPadBegin then i32 (st.remnantPadBegin - consumedInput) else 0
    remainingOutputToSplit := st.remainingOutputToSplit - st.outputTileDim desiredTileDim }

end SplitState

namespace DPUWorkload

/-- One tile of the layer with the sizes `c` along the axis. -/
def overlappedTile (layer : DPULayer) (a : Axis) (nTiles : ℕ) (forceBroadcast : Bool)
    (remainingOutputToSplit : ℕ) (c : Geometry) : DPULayer :=
  let outputWriteTiles := if forceBroadcast then nTiles else layer.outputWriteTiles
  let tHalo := layer.halo.setNoHalo a
  let sep := layer.sepActivators
  { layer.redimensionTile layer a c.inp c.out with
    padding := a.setPads layer.padding c.padBegin c.padEnd
    isiStrategy := .clustering
    outputWriteTiles := outputWriteTiles
    halo :=
      if 1 < outputWriteTiles then
        tHalo.setInboundHaloForBroadcastAll a (a.dim layer.outputs.shape) remainingOutputToSplit
          c.out
      else tHalo
    sepActivators :=
      if sep.isEnabled then
        { sep with
          storageElementsPointers :=
            rescaleTensor a sep.storageElementsPointers c.inp (a.dim layer.inputs.shape)
          actualActivatorsInput :=
            rescaleTensor a sep.actualActivatorsInput c.inp (a.dim layer.inputs.shape) }
      else sep }

/-- The tiles that are still to be made, from a state of the counters on. -/
def overlappedTiles (layer : DPULayer) (a : Axis) (nTiles : ℕ) (forceBroadcast : Bool)
    (desiredTileDim : ℕ) : ℕ → SplitState → List DPULayer
  | 0, _ => []
  | n + 1, st =>
    layer.overlappedTile a nTiles forceBroadcast st.remainingOutputToSplit
        (st.tile (layer.geometry a) desiredTileDim)
      :: layer.overlappedTiles a nTiles forceBroadcast desiredTileDim n
        (st.next (layer.geometry a) desiredTileDim)

def overlappedInputs (layer : DPULayer) (a : Axis) (nTiles : ℕ) (forceBroadcast : Bool) :
    List DPULayer :=
  let desiredTileDim := ceilDivision (layer.geometry a).out nTiles
  limitOutputWriteTiles forceBroadcast nTiles <| removeEmptyTiles <|
    layer.overlappedTiles a nTiles forceBroadcast desiredTileDim nTiles
      (.init (layer.geometry a))

def sohOverlappedInputs (layer : DPULayer) (nTiles : ℕ) (forceBroadcast : Bool) : List DPULayer :=
  layer.overlappedInputs .h nTiles forceBroadcast

def sowOverlappedInputs (layer : DPULayer) (nTiles : ℕ) (forceBroadcast : Bool) : List DPULayer :=
  layer.overlappedInputs .w nTiles forceBroadcast

end DPUWorkload

/-! ### The counters in closed form -/

/-- The sums that the loop forms are an `int`, or an `unsigned int`. -/
structure SplitFits (g : Geometry) (nTiles : ℕ) : Prop where
  reach_le : g.inp + g.padBegin + g.padEnd + g.s ≤ 2147483648
  tiles_le : g.out + nTiles ≤ 4294967296

instance (g : Geometry) (nTiles : ℕ) : Decidable (SplitFits g nTiles) :=
  decidable_of_iff (g.inp + g.padBegin + g.padEnd + g.s ≤ 2147483648 ∧
      g.out + nTiles ≤ 4294967296)
    ⟨fun ⟨h1, h2⟩ => ⟨h1, h2⟩, fun ⟨h1, h2⟩ => ⟨h1, h2⟩⟩

namespace SplitState

/-- The counters after the tiles for the first `o` output rows. -/
def reached (g : Geometry) (o : ℕ) : SplitState where
  availableIn := (g.inp + g.padBegin : ℕ) - (o * g.s : ℕ)
  remnantPadBegin := (g.padBegin - o * g.s : ℕ)
  remainingOutputToSplit := g.out - o

variable {g : Geometry} {nTiles d o : ℕ}

theorem steps_lt (h : g.Consistent) (hf : SplitFits g nTiles) {m : ℕ} (hm : m ≤ g.out) :
    m * g.s < 2147483648 := by
  have hout := h.out_pos
  have hlast := h.reach (o := g.out - 1) (by omega)
  have hk := h.k_pos
  have hfit := hf.reach_le
  have hle : m * g.s ≤ (g.out - 1) * g.s + g.s := by
    rw [← Nat.succ_mul]; exact Nat.mul_le_mul_right _ (by omega)
  omega

theorem init_eq (h : g.Consistent) (hf : SplitFits g nTiles) : init g = reached g 0 := by
  have hfit := hf.reach_le
  have hs := h.s_pos
  simp only [init, reached, Nat.zero_mul, Nat.sub_zero, Nat.cast_zero, Int.sub_zero]
  rw [i32_of_bounds (by omega) (by omega), i32_of_bounds (by omega) (by omega)]
  push_cast; rfl

theorem outputTileDim_reached : (reached g o).outputTileDim d = min d (g.out - o) := by
  show (if d ≤ g.out - o then d else g.out - o) = min d (g.out - o)
  rw [Nat.min_def]

theorem consumedInput_reached (h : g.Consistent) (hf : SplitFits g nTiles) :
    (reached g o).consumedInput g d = (min d (g.out - o) * g.s : ℕ) := by
  have hlt := steps_lt h hf (m := min d (g.out - o)) (by omega)
  unfold consumedInput
  rw [outputTileDim_reached, i32_u32, ← Nat.cast_mul, i32_of_bounds (by omega) (by omega)]

/-- One turn of the loop moves the counters on by the output rows of its tile. -/
theorem next_reached (h : g.Consistent) (hf : SplitFits g nTiles) (ho : o ≤ g.out) :
    (reached g o).next g d = reached g (o + min d (g.out - o)) := by
  have hall := steps_lt h hf (m := o + min d (g.out - o)) (by omega)
  have hfit := hf.reach_le
  have hs := h.s_pos
  unfold next
  rw [consumedInput_reached h hf, outputTileDim_reached]
  simp only [reached, Nat.add_mul] at hall ⊢
  congr 1
  · rw [i32_of_bounds (by omega) (by omega)]; omega
  · rw [i32_of_bounds (by omega) (by omega)]; omega
  · omega

/-- The last row a tile needs lies within the end padding, its first one within the input. -/
theorem reach_bounds (h : g.Consistent) {m : ℕ} (hm : 0 < m) (ho : o + m ≤ g.out) :
    o * g.s + ((m - 1) * g.s + g.k) ≤ g.inp + g.padBegin + g.padEnd ∧
      o * g.s < g.inp + g.padBegin := by
  have hlast := h.reach (o := o + (m - 1)) (by omega)
  rw [Nat.add_mul] at hlast
  exact ⟨by omega, h.begin_lt (by omega)⟩

theorem inputMaxRequiredSize_reached (h : g.Consistent) (hf : SplitFits g nTiles) (hd : 0 < d)
    (ho : o < g.out) : (reached g o).inputMaxRequiredSize g d
      = ((min d (g.out - o) - 1) * g.s + g.k : ℕ) := by
  obtain ⟨hlast, -⟩ := reach_bounds h (o := o) (m := min d (g.out - o)) (by omega) (by omega)
  have hfit := hf.reach_le
  have hs := h.s_pos
  have hinp := h.inp_pos
  have hout : g.out ≤ g.out * g.s := Nat.le_mul_of_pos_right _ hs
  have hsteps := steps_lt h hf (m := g.out) (le_refl _)
  unfold inputMaxRequiredSize
  rw [outputTileDim_reached,
    helperInputDim_eq (by omega) h.k_pos (by omega) (by omega) (by omega),
    i32_of_bounds (by omega) (by omega)]

theorem useFromEndPadding_reached (h : g.Consistent) (hf : SplitFits g nTiles) (hd : 0 < d)
    (ho : o < g.out) : (reached g o).useFromEndPadding g d
      = (g.rowsBelow o (min d (g.out - o))).card := by
  obtain ⟨hlast, hfirst⟩ := reach_bounds h (o := o) (m := min d (g.out - o)) (by omega) (by omega)
  have hfit := hf.reach_le
  have hs := h.s_pos
  have hinp := h.inp_pos
  rw [h.rowsBelow_card (by omega) (by omega)]
  unfold useFromEndPadding
  rw [inputMaxRequiredSize_reached h hf hd ho, i32_of_bounds (x := g.padEnd) (by omega) (by omega)]
  generalize (min d (g.out - o) - 1) * g.s + g.k = required at *
  have hneed : i32 (required - (reached g o).availableIn)
      = o * g.s + required - (g.inp + g.padBegin) := by
    simp only [reached]
    rw [i32_of_bounds] <;> push_cast <;> omega
  simp only [hneed]
  split <;> omega

theorem inputTile_reached (h : g.Consistent) (hf : SplitFits g nTiles) (hd : 0 < d)
    (ho : o < g.out) : (reached g o).inputTile g d
      = (g.realRows o (min d (g.out - o))).card := by
  obtain ⟨hlast, hfirst⟩ := reach_bounds h (o := o) (m := min d (g.out - o)) (by omega) (by omega)
  have hfit := hf.reach_le
  have hk := h.padBegin_lt
  have hs := h.s_pos
  have hreal := h.realRows_card (o := o) (m := min d (g.out - o)) (by omega) (by omega)
  have hpos := h.realRows_pos (o := o) (m := min d (g.out - o)) (by omega) (by omega)
  unfold inputTile
  rw [inputMaxRequiredSize_reached h hf hd ho, useFromEndPadding_reached h hf hd ho,
    h.rowsBelow_card (by omega) (by omega)]
  simp only [reached]
  generalize (min d (g.out - o) - 1) * g.s + g.k = required at *
  rw [i32_of_bounds (x := required - _) (by omega) (by omega), i32_of_bounds] <;> omega

theorem currentPadEnd_reached (h : g.Consistent) (hf : SplitFits g nTiles) (hd : 0 < d)
    (ho : o < g.out) : (reached g o).currentPadEnd g d
      = (g.cut o (min d (g.out - o))).padEnd := by
  have hlast : (reached g o).isLastUsefullTile d = true ↔ o + min d (g.out - o) = g.out := by
    unfold isLastUsefullTile
    rw [outputTileDim_reached, decide_eq_true_iff]
    simp only [reached]; omega
  have hfit := hf.reach_le
  have hs := h.s_pos
  have hinp := h.inp_pos
  unfold currentPadEnd
  simp only [hlast, useFromEndPadding_reached h hf hd ho, Geometry.cut]
  split
  · rw [i32_of_bounds (by omega) (by omega)]
  · rfl

/-- Every tile is the cut of the layer's geometry at the output rows the loop has come to. -/
theorem tile_reached (h : g.Consistent) (hf : SplitFits g nTiles) (hd : 0 < d) (ho : o < g.out) :
    (reached g o).tile g d = g.cut o (min d (g.out - o)) := by
  have hfit := hf.reach_le
  have hs := h.s_pos
  have hle := h.realRows_le (o := o) (m := min d (g.out - o)) (by omega) (by omega)
  have hend := (h.cut (o := o) (m := min d (g.out - o)) (by omega) (by omega)).padEnd_lt
  have hk : (g.cut o (min d (g.out - o))).k = g.k := rfl
  have hkle := h.k_le
  have habove := h.rowsAbove_card (o := o) (m := min d (g.out - o)) (by omega)
  unfold tile
  rw [inputTile_reached h hf hd ho, currentPadEnd_reached h hf hd ho, outputTileDim_reached]
  simp only
  rw [if_neg (by omega), u32_natCast (by omega), u32_natCast (by omega)]
  simp only [Geometry.cut, habove, reached]
  rw [u32_natCast (by omega)]

end SplitState

/-! ### The split as a whole -/

open Consecutive (offset)

/-- A tile that computes output rows from `o` on: it is a consistent convolution again, its input
    has the real rows of its window and its begin padding the window rows above the input. -/
structure TileFits (layer : DPULayer) (a : Axis) (o : ℕ) (tile : DPULayer) : Prop where
  out_pos : 0 < a.outputRows tile
  k_eq : (tile.geometry a).k = (layer.geometry a).k
  s_eq : (tile.geometry a).s = (layer.geometry a).s
  consistent : (tile.geometry a).Consistent
  inp_eq : (tile.geometry a).inp = ((layer.geometry a).realRows o (a.outputRows tile)).card
  inp_le : (tile.geometry a).inp ≤ (layer.geometry a).inp
  padBegin_eq :
    (tile.geometry a).padBegin = ((layer.geometry a).rowsAbove o (a.outputRows tile)).card

/-- The input rows of the layer that the tiles look at, one tile after the other. -/
def tilesRealRows (layer : DPULayer) (a : Axis) (tiles : List DPULayer) : Set ℤ :=
  {r | ∃ (i : ℕ) (hi : i < tiles.length),
    r ∈ (layer.geometry a).realRows (offset a.outputRows tiles i) (a.outputRows tiles[i])}

/-- What a split of a layer into at most `nTiles` tiles has to be. -/
structure SplitsAxis (layer : DPULayer) (a : Axis) (nTiles : ℕ) (tiles : List DPULayer) :
    Prop where
  length_le : tiles.length ≤ nTiles
  sum_eq : (tiles.map a.outputRows).sum = (layer.geometry a).out
  tile : ∀ (i : ℕ) (hi : i < tiles.length),
    TileFits layer a (offset a.outputRows tiles i) tiles[i]
  needed_subset : (layer.geometry a).needed ⊆ tilesRealRows layer a tiles
  skipped : ∀ r ∈ tilesRealRows layer a tiles, r ∉ (layer.geometry a).needed →
    ∃ (i : ℕ) (hi : i < tiles.length),
      (layer.geometry a).Skipped (offset a.outputRows tiles i) (a.outputRows tiles[i]) r
  eq_needed : (layer.geometry a).s ≤ (layer.geometry a).k →
    tilesRealRows layer a tiles = (layer.geometry a).needed

/-- A non-empty tile that is the cut of the layer at output row `o`. -/
def IsCut (layer : DPULayer) (a : Axis) (o : ℕ) (tile : DPULayer) : Prop :=
  0 < a.outputRows tile ∧ tile.geometry a = (layer.geometry a).cut o (a.outputRows tile)

theorem IsCut.tileFits {layer tile : DPULayer} {a : Axis} {o : ℕ}
    (h : (layer.geometry a).Consistent) (hcut : IsCut layer a o tile)
    (ho : o + a.outputRows tile ≤ (layer.geometry a).out) : TileFits layer a o tile := by
  obtain ⟨hpos, heq⟩ := hcut
  constructor
  case out_pos => exact hpos
  case k_eq => rw [heq]; rfl
  case s_eq => rw [heq]; rfl
  case consistent => rw [heq]; exact h.cut hpos ho
  case inp_eq => rw [heq]; rfl
  case inp_le => rw [heq]; exact h.realRows_le hpos ho
  case padBegin_eq => rw [heq]; rfl

/-- Consecutive cuts that reach from the first output row to the last one split the layer. -/
theorem SplitsAxis.of_cuts {layer : DPULayer} {a : Axis} {nTiles : ℕ} {tiles : List DPULayer}
    (h : (layer.geometry a).Consistent) (hlen : tiles.length ≤ nTiles)
    (hcuts : Consecutive a.outputRows (IsCut layer a) 0 tiles (layer.geometry a).out) :
    SplitsAxis layer a nTiles tiles := by
  have htile : ∀ (i : ℕ) (hi : i < tiles.length),
      TileFits layer a (offset a.outputRows tiles i) tiles[i] ∧
      offset a.outputRows tiles i + a.outputRows tiles[i] ≤ (layer.geometry a).out := by
    intro i hi
    have hfits := hcuts.mono
      (Q := fun o x => TileFits layer a o x ∧ o + a.outputRows x ≤ (layer.geometry a).out)
      fun o x _ hle hcut => ⟨hcut.tileFits h hle, hle⟩
    simpa using hfits.get i hi
  have hsub : (layer.geometry a).needed ⊆ tilesRealRows layer a tiles := by
    rintro r ⟨j, hj, hr⟩
    obtain ⟨hwin, hreal⟩ := Geometry.mem_realRows.mp hr
    obtain ⟨i, hi, hlo, hhi⟩ := hcuts.cover (Nat.zero_le j) hj
    rw [Nat.zero_add] at hlo hhi
    exact ⟨i, hi, Geometry.mem_realRows.mpr ⟨Geometry.window_subset hlo hhi hwin, hreal⟩⟩
  have hskip : ∀ r ∈ tilesRealRows layer a tiles, r ∉ (layer.geometry a).needed →
      ∃ (i : ℕ) (hi : i < tiles.length),
        (layer.geometry a).Skipped (offset a.outputRows tiles i) (a.outputRows tiles[i]) r := by
    rintro r ⟨i, hi, hr⟩ hnot
    obtain ⟨hwin, hreal⟩ := Geometry.mem_realRows.mp hr
    obtain ⟨hfits, hend⟩ := htile i hi
    rcases Geometry.window_split hwin hfits.out_pos with ⟨j, _, hhi, hj⟩ | hs
    · exact absurd ⟨j, by omega, Geometry.mem_realRows.mpr ⟨hj, hreal⟩⟩ hnot
    · exact ⟨i, hi, hs⟩
  refine ⟨hlen, by simpa using hcuts.sum_eq, fun i hi => (htile i hi).1, hsub, hskip, ?_⟩
  intro hsk
  refine Set.Subset.antisymm (fun r hr => ?_) hsub
  by_contra hnot
  obtain ⟨i, hi, hs⟩ := hskip r hr hnot
  have := hs.k_lt
  omega

/-! ### The code splits the axis -/

namespace DPUWorkload

variable {layer : DPULayer} {a : Axis} {nTiles d : ℕ} {forceBroadcast : Bool}

@[simp] theorem length_overlappedTiles (n : ℕ) (st : SplitState) :
    (layer.overlappedTiles a nTiles forceBroadcast d n st).length = n := by
  induction n generalizing st with
  | zero => rfl
  | succ n ih => simp [overlappedTiles, ih]

@[simp] theorem outputRows_overlappedTile (r : ℕ) (c : Geometry) :
    a.outputRows (layer.overlappedTile a nTiles forceBroadcast r c) = c.out := by
  simp [Axis.outputRows, overlappedTile, redimensionTile, VPUTensor.setShape]

theorem geometry_overlappedTile (r : ℕ) {c : Geometry} (hk : c.k = (layer.geometry a).k)
    (hs : c.s = (layer.geometry a).s) :
    (layer.overlappedTile a nTiles forceBroadcast r c).geometry a = c := by
  obtain ⟨inp, k, s, padBegin, padEnd, out⟩ := c
  simp only [geometry] at hk hs
  simp [geometry, overlappedTile, redimensionTile, VPUTensor.setShape, hk, hs]

/-- What the loop gives a tile whose output begins at row `o`: an empty one says nothing. -/
def LoopTile (layer : DPULayer) (a : Axis) (o : ℕ) (tile : DPULayer) : Prop :=
  tile.outputs = layer.outputs.setShape (a.setDim layer.outputs.shape (a.outputRows tile)) ∧
    (0 < a.outputRows tile → IsCut layer a o tile)

/-- Parts of `d` rows begin at the multiples of `d`, until all `n` rows are dealt out. -/
theorem dvd_or_eq_next {n d o : ℕ} (ho : o ≤ n) (h : d ∣ o ∨ o = n) :
    d ∣ o + min d (n - o) ∨ o + min d (n - o) = n := by
  rcases h with hdvd | rfl
  · rcases Nat.le_total d (n - o) with hle | hle
    · rw [Nat.min_eq_left hle]; exact .inl (Nat.dvd_add hdvd (Nat.dvd_refl d))
    · omega
  · omega

/-- A tile of the loop whose output begins at row `o`: it has `d` rows or what is left, and with any
    rows at all it is the cut of the layer at them. -/
structure CutTile (layer : DPULayer) (a : Axis) (nTiles : ℕ) (forceBroadcast : Bool) (d o : ℕ)
    (tile : DPULayer) : Prop where
  rows_eq : a.outputRows tile = min d ((layer.geometry a).out - o)
  dvd : 0 < a.outputRows tile → d ∣ o
  eq : ∃ (r : ℕ) (c : Geometry), tile = layer.overlappedTile a nTiles forceBroadcast r c ∧
    c.k = (layer.geometry a).k ∧ c.s = (layer.geometry a).s ∧
    (0 < c.out → c = (layer.geometry a).cut o c.out)

/-- The tiles of the loop follow each other from the output row it starts at. -/
theorem overlappedTiles_loop (forceBroadcast : Bool) (h : (layer.geometry a).Consistent)
    (hf : SplitFits (layer.geometry a) nTiles) (hd : 0 < d) (n : ℕ) :
    ∀ {o : ℕ}, o ≤ (layer.geometry a).out → (d ∣ o ∨ o = (layer.geometry a).out) →
      Consecutive a.outputRows (CutTile layer a nTiles forceBroadcast d) o
        (layer.overlappedTiles a nTiles forceBroadcast d n (.reached (layer.geometry a) o))
        (min (o + n * d) (layer.geometry a).out) := by
  induction n with
  | zero =>
    intro o ho _
    simp only [Nat.zero_mul, Nat.add_zero, Nat.min_eq_left ho]
    exact .nil _
  | succ n ih =>
    intro o ho hstart
    have hrows : ((SplitState.reached (layer.geometry a) o).tile (layer.geometry a) d).out
        = min d ((layer.geometry a).out - o) := SplitState.outputTileDim_reached
    refine .cons ⟨?_, ?_, _, _, rfl, rfl, rfl, ?_⟩ ?_
    · rw [outputRows_overlappedTile, hrows]
    · intro hpos
      rw [outputRows_overlappedTile, hrows] at hpos
      rcases hstart with hdvd | rfl
      · exact hdvd
      · omega
    · intro hpos
      rw [hrows] at hpos ⊢
      exact SplitState.tile_reached h hf hd (by omega)
    · have hih := ih (o := o + min d ((layer.geometry a).out - o)) (by omega)
        (dvd_or_eq_next ho hstart)
      rw [SplitState.next_reached h hf ho, outputRows_overlappedTile, hrows]
      convert hih using 1
      rw [Nat.succ_mul]; omega

theorem overlappedTiles_consecutive (forceBroadcast : Bool) (h : (layer.geometry a).Consistent)
    (hf : SplitFits (layer.geometry a) nTiles) (hd : 0 < d) (n : ℕ) :
    Consecutive a.outputRows (LoopTile layer a) 0
      (layer.overlappedTiles a nTiles forceBroadcast d n (.reached (layer.geometry a) 0))
      (min (n * d) (layer.geometry a).out) := by
  have hloop := overlappedTiles_loop forceBroadcast h hf hd n (Nat.zero_le _)
    (.inl (Nat.dvd_zero d))
  rw [Nat.zero_add] at hloop
  refine hloop.mono fun o t _ _ ht => ?_
  obtain ⟨r, c, rfl, hk, hs, hcut⟩ := ht.eq
  rw [LoopTile, outputRows_overlappedTile]
  refine ⟨rfl, fun hpos => ⟨by rwa [outputRows_overlappedTile], ?_⟩⟩
  rw [geometry_overlappedTile r hk hs, outputRows_overlappedTile]
  exact hcut hpos

/-- The last step changes no size. -/
theorem consecutive_limitOutputWriteTiles {size : DPULayer → ℕ} {P : ℕ → DPULayer → Prop}
    {tiles : List DPULayer} {start stop : ℕ} (h : Consecutive size P start tiles stop)
    (hsize : ∀ t n, size { t with outputWriteTiles := n } = size t)
    (hP : ∀ o t n, P o t → P o { t with outputWriteTiles := n }) :
    Consecutive size P start (limitOutputWriteTiles forceBroadcast nTiles tiles) stop := by
  unfold limitOutputWriteTiles
  split
  · exact h.map _ (fun t => hsize t _) fun o t => hP o t _
  · exact h

theorem length_limitOutputWriteTiles (tiles : List DPULayer) :
    (limitOutputWriteTiles forceBroadcast nTiles tiles).length = tiles.length := by
  unfold limitOutputWriteTiles; split <;> simp

/-- Under the size conditions, both overlapped splits cut the layer completely. -/
theorem overlappedInputs_splitsAxis (h : (layer.geometry a).Consistent)
    (hf : SplitFits (layer.geometry a) nTiles) (hout : layer.outputs.Regular) (hn : 1 ≤ nTiles) :
    SplitsAxis layer a nTiles (layer.overlappedInputs a nTiles forceBroadcast) := by
  have hd := ceilDivision_pos h.out_pos hn hf.tiles_le
  have hall := le_mul_ceilDivision (a := (layer.geometry a).out) hn hf.tiles_le
  have hloop := overlappedTiles_consecutive forceBroadcast h hf hd nTiles
  rw [Nat.min_eq_right hall] at hloop
  have hkept := hloop.filter (fun layer => layer.outputs.size ≠ 0) ?_
  · unfold overlappedInputs
    refine .of_cuts h ?_ ?_
    · rw [length_limitOutputWriteTiles]
      exact (List.length_filter_le _ _).trans (length_overlappedTiles ..).le
    · refine consecutive_limitOutputWriteTiles ?_ (fun _ _ => rfl) (fun _ _ _ hcut => hcut)
      rw [SplitState.init_eq h hf]
      refine hkept.mono fun o t _ hle hkeep => hkeep.1.2 (Nat.pos_of_ne_zero fun h0 => ?_)
      obtain ⟨⟨hshape, -⟩, hsize⟩ := hkeep
      rw [hshape] at hsize
      exact (decide_eq_true_iff.mp hsize)
        ((hout.setDim_size_eq_zero_iff (by rw [h0]; exact Nat.zero_le _)).mpr h0)
  · intro o t hle hloopTile hdrop
    rw [hloopTile.1, decide_eq_false_iff_not, not_not] at hdrop
    exact (hout.setDim_size_eq_zero_iff (Nat.le_trans (Nat.le_add_left _ _) hle)).mp hdrop

/-- Both functions split their axis into at most `nTiles` convolutions: the output rows are those
    of the layer, each tile's input and begin padding are those of its window, and together the
    tiles look at the rows the layer needs, and at no row but one that a step skips. -/
theorem sohOverlappedInputs_sowOverlappedInputs_split (layer : DPULayer) (nTiles : ℕ)
    (forceBroadcast : Bool) (hn : 1 ≤ nTiles) (hout : layer.outputs.Regular) :
    ((layer.geometry .h).Consistent → SplitFits (layer.geometry .h) nTiles →
      SplitsAxis layer .h nTiles (layer.sohOverlappedInputs nTiles forceBroadcast)) ∧
    ((layer.geometry .w).Consistent → SplitFits (layer.geometry .w) nTiles →
      SplitsAxis layer .w nTiles (layer.sowOverlappedInputs nTiles forceBroadcast)) :=
  ⟨fun h hf => overlappedInputs_splitsAxis h hf hout hn,
    fun h hf => overlappedInputs_splitsAxis h hf hout hn⟩

/-- A layer of width one with the given heights. -/
def ofHeight (g : Geometry) (outputChannels : ℕ) : DPULayer where
  device := .vpu_2_7
  op := .maxpool
  inputs := { shape := ⟨1, g.inp, 1, 1⟩ }
  outputs := { shape := ⟨1, g.out, outputChannels, 1⟩ }
  kernels := ⟨1, g.k⟩
  strides := ⟨1, g.s⟩
  padding := { top := g.padBegin, bottom := g.padEnd }
  executionOrder := .cuboid16x16

/-- Three tiles of a padded 3-row kernel over five rows. -/
theorem sohOverlappedInputs_sowOverlappedInputs_split_five :
    SplitsAxis (ofHeight ⟨5, 3, 1, 1, 1, 5⟩ 1) .h 3
      ((ofHeight ⟨5, 3, 1, 1, 1, 5⟩ 1).sohOverlappedInputs 3 true) ∧
    SplitsAxis (ofHeight ⟨5, 3, 1, 1, 1, 5⟩ 1) .w 3
      ((ofHeight ⟨5, 3, 1, 1, 1, 5⟩ 1).sowOverlappedInputs 3 true) :=
  have h := sohOverlappedInputs_sowOverlappedInputs_split (ofHeight ⟨5, 3, 1, 1, 1, 5⟩ 1) 3 true
    (by decide) (by decide)
  ⟨h.1 (by decide) (by decide), h.2 (by decide) (by decide)⟩

/-- The sizes are bounded, empty tensors excluded and skipped rows allowed for a reason: steps of
    two with a one-row kernel give a tile the row between its two windows; an output without
    channels leaves no tiles; and dividing `2^32 - 1` rows by two wraps around, so that no tile
    gets any. -/
theorem sohOverlappedInputs_exceptions :
    (((ofHeight ⟨3, 1, 2, 0, 0, 2⟩ 1).geometry .h).Consistent ∧
      tilesRealRows (ofHeight ⟨3, 1, 2, 0, 0, 2⟩ 1) .h
        ((ofHeight ⟨3, 1, 2, 0, 0, 2⟩ 1).sohOverlappedInputs 1 false)
        ≠ ((ofHeight ⟨3, 1, 2, 0, 0, 2⟩ 1).geometry .h).needed) ∧
    (((ofHeight ⟨1, 1, 1, 0, 0, 1⟩ 0).geometry .h).Consistent ∧
      (ofHeight ⟨1, 1, 1, 0, 0, 1⟩ 0).sohOverlappedInputs 1 false = []) ∧
    (((ofHeight ⟨4294967295, 1, 1, 0, 0, 4294967295⟩ 1).geometry .h).Consistent ∧
      (ofHeight ⟨4294967295, 1, 1, 0, 0, 4294967295⟩ 1).sohOverlappedInputs 2 false = []) := by
  refine ⟨⟨by decide, ?_⟩, ⟨by decide, by decide⟩, ⟨by decide, by decide⟩⟩
  intro heq
  have hmem : (1 : ℤ) ∈ tilesRealRows (ofHeight ⟨3, 1, 2, 0, 0, 2⟩ 1) .h
      ((ofHeight ⟨3, 1, 2, 0, 0, 2⟩ 1).sohOverlappedInputs 1 false) :=
    ⟨0, by decide, by decide⟩
  rw [heq] at hmem
  obtain ⟨j, hj, hr⟩ := hmem
  have hj : j < 2 := hj
  rcases (by omega : j = 0 ∨ j = 1) with rfl | rfl <;> revert hr <;> decide

end DPUWorkload

end Vpunn
