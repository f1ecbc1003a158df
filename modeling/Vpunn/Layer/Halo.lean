import Vpunn.Layer.Overlap

/-! The split over the height with input halos (`DPULayer::SOH_HALO_inputs`).

    The tiles are those of the overlapped split, but a tile keeps only part of its input rows in its
    memory. Rows that two neighbours both look at are dealt out between them, and what a tile does
    not keep is halo. Positions count from the end of the input, so row `r` has position `r - inp`. -/

namespace Vpunn
open MachineInt Window

/-! ### The loop -/

/-- The counters of the loop: those of the overlapped split and `prevTile_memoryEnd`. -/
structure HaloState extends SplitState where
  prevTileMemoryEnd : ℤ
  deriving DecidableEq, Repr

namespace HaloState

def init (g : Geometry) : HaloState where
  toSplitState := .init g
  prevTileMemoryEnd := i32 (-i32 g.inp - 1)

def computeStart (st : HaloState) : ℤ := i32 (-st.availableIn)

def computeEnd (st : HaloState) (g : Geometry) (desiredTileDim : ℕ) : ℤ :=
  i32 (st.computeStart + st.inputMaxRequiredSize g desiredTileDim - 1)

def inputHaloTop (st : HaloState) : ℤ :=
  let memoryStart := max (i32 (st.prevTileMemoryEnd + 1)) st.computeStart
  if st.remnantPadBegin = 0 then i32 (memoryStart - st.computeStart) else 0

def inputHaloBottom (st : HaloState) (g : Geometry) (desiredTileDim : ℕ) : ℤ :=
  let nextTileComputeStart := i32 (st.computeStart + st.consumedInput g desiredTileDim)
  if st.currentPadEnd g desiredTileDim = 0 ∧ ¬ st.isLastUsefullTile desiredTileDim then
    let overlap := i32 (st.computeEnd g desiredTileDim - nextTileComputeStart + 1)
    if 0 < overlap then
      let takeAsMemory := (i32 (overlap + 2 - 1)).tdiv 2
      i32 (overlap - takeAsMemory)
    else 0
  else 0

def next (st : HaloState) (g : Geometry) (desiredTileDim : ℕ) : HaloState where
  toSplitState := st.toSplitState.next g desiredTileDim
  prevTileMemoryEnd := i32 (st.computeEnd g desiredTileDim - st.inputHaloBottom g desiredTileDim
    - st.currentPadEnd g desiredTileDim)

end HaloState

namespace DPUWorkload

/-- One tile of the layer with the sizes `c` along the height and the given halos. -/
def haloTile (layer : DPULayer) (remainingOutputToSplit : ℕ) (c : Geometry)
    (inputHaloTop inputHaloBottom : ℤ) : DPULayer :=
  let noHalo := layer.halo.setVerticalNoHalo
  let tHalo := { noHalo with
    input0Halo := { noHalo.input0Halo with top := inputHaloTop, bottom := inputHaloBottom } }
  { layer.redimensionTileH layer c.inp c.out with
    padding := { layer.padding with top := c.padBegin, bottom := c.padEnd }
    isiStrategy := .splitOverH
    halo :=
      if 1 < layer.outputWriteTiles then
        tHalo.setInboundHaloVerticalForBroadcastAll layer.outputs.height remainingOutputToSplit
          c.out
      else tHalo }

/-- The tiles that are still to be made, from a state of the counters on. -/
def haloTiles (layer : DPULayer) (desiredTileDim : ℕ) : ℕ → HaloState → List DPULayer
  | 0, _ => []
  | n + 1, st =>
    layer.haloTile st.remainingOutputToSplit (st.tile (layer.geometry .h) desiredTileDim)
        st.inputHaloTop (st.inputHaloBottom (layer.geometry .h) desiredTileDim)
      :: layer.haloTiles desiredTileDim n (st.next (layer.geometry .h) desiredTileDim)

def sohHaloInputs (layer : DPULayer) (nTiles : ℕ) : List DPULayer :=
  let desiredTileDim := ceilDivision (layer.geometry .h).out nTiles
  removeEmptyTiles <| layer.haloTiles desiredTileDim nTiles (.init (layer.geometry .h))

end DPUWorkload

/-! ### Ownership of the input rows -/

open Consecutive (offset)

/-- The rows of the input that a tile keeps: its real rows without the first `input_0_halo.top` and
    the last `input_0_halo.bottom` of them. -/
def memoryRows (layer : DPULayer) (o : ℕ) (tile : DPULayer) : Finset ℤ :=
  rows
    ((layer.geometry .h).firstReal o + tile.halo.input0Halo.top)
    ((layer.geometry .h).stopReal o (Axis.h.outputRows tile) - tile.halo.input0Halo.bottom)

/-- The tiles split the ownership of the input rows: halos are rows a tile looks at, no two tiles
    keep the same row, and every row that is needed is kept. -/
structure SplitsOwnership (layer : DPULayer) (tiles : List DPULayer) : Prop where
  halo_nonneg : ∀ t ∈ tiles, 0 ≤ t.halo.input0Halo.top ∧ 0 ≤ t.halo.input0Halo.bottom
  halo_fits : ∀ (i : ℕ) (hi : i < tiles.length),
    tiles[i].halo.input0Halo.top + tiles[i].halo.input0Halo.bottom
      ≤ ((layer.geometry .h).realRows (offset Axis.h.outputRows tiles i)
        (Axis.h.outputRows tiles[i])).card
  disjoint : ∀ (i j : ℕ) (hi : i < tiles.length) (hj : j < tiles.length), i ≠ j →
    Disjoint (memoryRows layer (offset Axis.h.outputRows tiles i) tiles[i])
      (memoryRows layer (offset Axis.h.outputRows tiles j) tiles[j])
  owner : ∀ r ∈ (layer.geometry .h).needed, ∃! i, ∃ hi : i < tiles.length,
    r ∈ memoryRows layer (offset Axis.h.outputRows tiles i) tiles[i]
  halo_owned : ∀ (i : ℕ) (hi : i < tiles.length),
    ∀ r ∈ (layer.geometry .h).realRows (offset Axis.h.outputRows tiles i)
      (Axis.h.outputRows tiles[i]),
    r ∉ memoryRows layer (offset Axis.h.outputRows tiles i) tiles[i] →
    ∃ (j : ℕ) (hj : j < tiles.length), j ≠ i ∧
      r ∈ memoryRows layer (offset Axis.h.outputRows tiles j) tiles[j]

/-! ### The halos in closed form -/

/-- One past the last window row of the output rows before `o`. -/
def windowStop (g : Geometry) (o : ℕ) : ℤ := (o * g.s : ℕ) - g.s + g.k - g.padBegin

/-- One past the last row that the tiles before output row `o` keep: with rows left beyond the cut
    half of the overlap, rounded up, else all there is. -/
def boundary (g : Geometry) (o : ℕ) : ℤ :=
  if o = 0 then 0
  else if g.inp < windowStop g o then g.inp
  else windowStop g o - ((g.k - g.s) / 2 : ℕ)

/-- The halo above a tile at output row `o`: what the tiles before it keep, if no padding is left. -/
def topHalo (g : Geometry) (o : ℕ) : ℤ :=
  if g.padBegin ≤ o * g.s then
    max (boundary g o) ((o * g.s : ℕ) - g.padBegin) - ((o * g.s : ℕ) - g.padBegin)
  else 0

/-- The halo below a tile whose output ends at `e`: half of the overlap, unless the input ends. -/
def bottomHalo (g : Geometry) (e : ℕ) : ℤ :=
  if e < g.out ∧ windowStop g e ≤ g.inp then ((g.k - g.s) / 2 : ℕ) else 0

/-- The rows that a tile for the output rows from `o` to `e` keeps. -/
def keptRows (g : Geometry) (o e : ℕ) : Finset ℤ :=
  rows (g.firstReal o + topHalo g o) (min (g.inp : ℤ) (windowStop g e) - bottomHalo g e)

section Boundary

variable {g : Geometry} {o m : ℕ}

theorem stopReal_eq : g.stopReal o m = min (g.inp : ℤ) (windowStop g (o + m)) := by
  unfold Geometry.stopReal windowStop
  congr 1; push_cast; ring

theorem mem_window_one {r : ℤ} : r ∈ g.window o 1 ↔
    ((o * g.s : ℕ) - g.padBegin : ℤ) ≤ r ∧ r < windowStop g (o + 1) := by
  rw [Geometry.mem_window, windowStop]
  push_cast
  rw [show ((o : ℤ) + 1 - 1) * g.s = o * g.s by ring,
    show ((o : ℤ) + 1) * g.s - g.s = o * g.s by ring]

theorem windowStop_mono {o' : ℕ} (h : o ≤ o') : windowStop g o ≤ windowStop g o' := by
  have := Nat.mul_le_mul_right g.s h
  unfold windowStop; omega

/-- A cut leaves half a window at least before its boundary. -/
theorem boundary_bounds (h : g.Consistent) (o : ℕ) : 0 ≤ boundary g o ∧ boundary g o ≤ g.inp := by
  have hk := h.k_pos
  have hpb := h.padBegin_le
  have hs := h.s_pos
  unfold boundary
  split
  · omega
  · next ho =>
    have : g.s ≤ o * g.s := Nat.le_mul_of_pos_left _ (by omega)
    unfold windowStop
    split <;> omega

theorem boundary_le_windowStop (ho : 0 < o) :
    boundary g o ≤ windowStop g o := by
  unfold boundary
  rw [if_neg (by omega)]
  split <;> omega

theorem boundary_mono (h : g.Consistent) {o' : ℕ} (hoo : o ≤ o') :
    boundary g o ≤ boundary g o' := by
  rcases Nat.eq_zero_or_pos o with rfl | ho
  · have := boundary_bounds h o'
    simpa [boundary] using this.1
  · have hmono := windowStop_mono (g := g) hoo
    have ho' : o' ≠ 0 := by omega
    simp only [boundary, if_neg ho.ne', if_neg ho']
    split <;> split <;> omega

/-- Without begin padding a tile keeps the rows from the boundary before it, or from the first one it
    looks at. -/
theorem firstReal_add_topHalo (h : g.Consistent) (hpad : o = 0 ∨ g.padBegin ≤ o * g.s) :
    g.firstReal o + topHalo g o = max (boundary g o) ((o * g.s : ℕ) - g.padBegin) := by
  have hb := boundary_bounds h o
  unfold Geometry.firstReal topHalo
  push_cast at hb ⊢
  rcases hpad with rfl | hpad
  · simp only [boundary, if_true]
    split <;> push_cast <;> omega
  · rw [if_pos hpad]; omega

/-- A tile before the last one keeps the rows up to the boundary after it. -/
theorem stop_sub_bottomHalo {e : ℕ} (he : 0 < e) (hlast : e < g.out) :
    min (g.inp : ℤ) (windowStop g e) - bottomHalo g e = boundary g e := by
  unfold bottomHalo boundary
  rw [if_neg (show e ≠ 0 by omega)]
  split <;> split <;> omega

theorem stop_sub_bottomHalo_last {e : ℕ} (hlast : e = g.out) :
    min (g.inp : ℤ) (windowStop g e) - bottomHalo g e = min (g.inp : ℤ) (windowStop g e) := by
  rw [bottomHalo, if_neg (by omega), sub_zero]

theorem topHalo_nonneg (g : Geometry) (o : ℕ) : 0 ≤ topHalo g o := by
  unfold topHalo; split <;> omega

theorem bottomHalo_nonneg (g : Geometry) (e : ℕ) : 0 ≤ bottomHalo g e := by
  unfold bottomHalo; split <;> omega

/-- A needed row at or after the boundary before `o` is not before the window of `o`. -/
theorem begin_le_of_boundary_le {r : ℤ} (hr : r ∈ g.needed) (ho : 0 < o)
    (hle : boundary g o ≤ r) : ((o * g.s : ℕ) - g.padBegin : ℤ) ≤ r := by
  obtain ⟨j, -, hj⟩ := hr
  obtain ⟨hwin, -, hin⟩ := Geometry.mem_realRows.mp hj
  obtain ⟨hlo, hhi⟩ := mem_window_one.mp hwin
  rcases Nat.lt_or_ge j o with hjo | hjo
  · -- the row lies in a window before `o`, so the boundary is half of an overlap away from it
    have hmono := windowStop_mono (g := g) (show j + 1 ≤ o from hjo)
    have hstop := hhi.trans_le hmono
    rw [boundary, if_neg ho.ne'] at hle
    unfold windowStop at hle hstop
    split at hle <;> omega
  · have := Nat.mul_le_mul_right g.s hjo
    omega

/-- A needed row lies before the end of the last window. -/
theorem lt_windowStop_out {r : ℤ} (hr : r ∈ g.needed) :
    r < min (g.inp : ℤ) (windowStop g g.out) := by
  obtain ⟨j, hjo, hj⟩ := hr
  obtain ⟨hwin, -, hin⟩ := Geometry.mem_realRows.mp hj
  obtain ⟨-, hhi⟩ := mem_window_one.mp hwin
  have hmono := windowStop_mono (g := g) (show j + 1 ≤ g.out from hjo)
  omega

/-- The boundary after a tile lies behind the first row of its window. -/
theorem begin_le_boundary (h : g.Consistent) (hm : 0 < m) (ho : o + m ≤ g.out) :
    ((o * g.s : ℕ) - g.padBegin : ℤ) ≤ boundary g (o + m) := by
  have hbegin := h.begin_lt (o := o) (by omega)
  have hk := h.k_pos
  have hsteps : o * g.s + g.s ≤ (o + m) * g.s := by
    rw [← Nat.succ_mul]; exact Nat.mul_le_mul_right _ (by omega)
  rw [boundary, if_neg (show o + m ≠ 0 by omega)]
  unfold windowStop
  split <;> omega

theorem boundary_le_windowStop_add (h : g.Consistent) (hm : 0 < m) :
    boundary g o ≤ windowStop g (o + m) := by
  rcases Nat.eq_zero_or_pos o with rfl | ho
  · have hk := h.padBegin_lt
    have : g.s ≤ (0 + m) * g.s := Nat.le_mul_of_pos_left _ (by omega)
    simp only [boundary, if_true, windowStop]; omega
  · exact (boundary_le_windowStop ho).trans (windowStop_mono (by omega))

/-- The halos of a tile without begin padding are rows that it looks at. -/
theorem topHalo_add_bottomHalo_le (h : g.Consistent) (hm : 0 < m) (ho : o + m ≤ g.out)
    (hpad : o = 0 ∨ g.padBegin ≤ o * g.s) :
    topHalo g o + bottomHalo g (o + m) ≤ (g.realRows o m).card := by
  have hfirst := firstReal_add_topHalo h hpad
  have hle : max (boundary g o) ((o * g.s : ℕ) - g.padBegin)
      ≤ min (g.inp : ℤ) (windowStop g (o + m)) - bottomHalo g (o + m) := by
    have hmono := boundary_mono h (Nat.le_add_right o m)
    have hbegin := begin_le_boundary h hm ho
    have hstop := boundary_le_windowStop_add (o := o) h hm
    have hbounds := boundary_bounds h (o + m)
    rcases Nat.lt_or_ge (o + m) g.out with hlast | hlast
    · rw [stop_sub_bottomHalo (by omega) hlast]; omega
    · rw [stop_sub_bottomHalo_last (by omega)]
      have := boundary_le_windowStop (g := g) (o := o + m) (by omega)
      omega
  rw [Geometry.realRows_eq, card_rows, stopReal_eq]
  omega

/-- Windows that do not overlap leave no halo. -/
theorem mem_keptRows_of_k_le {r : ℤ} (hks : g.k ≤ g.s) (hr : r ∈ g.realRows o m) :
    r ∈ keptRows g o (o + m) := by
  rw [Geometry.realRows_eq, stopReal_eq, mem_rows] at hr
  have hhalf : (g.k - g.s) / 2 = 0 := by omega
  have htop : topHalo g o ≤ 0 := by
    have hb : boundary g o ≤ max 0 ((o * g.s : ℕ) - g.padBegin) := by
      unfold boundary windowStop
      split
      · omega
      · split <;> omega
    unfold topHalo; split <;> omega
  have hbottom : bottomHalo g (o + m) = 0 := by
    unfold bottomHalo; split <;> simp [hhalf]
  rw [keptRows, mem_rows, hbottom]
  omega

end Boundary

namespace HaloState

variable {g : Geometry} {nTiles d o : ℕ} {st : HaloState}

/-- The counters before the tile at output row `o`. After the last row nothing is said about the
    end of the memory. -/
structure At (g : Geometry) (o : ℕ) (st : HaloState) : Prop where
  counters : st.toSplitState = .reached g o
  memoryEnd : o < g.out → st.prevTileMemoryEnd = boundary g o - 1 - g.inp

theorem init_at (h : g.Consistent) (hf : SplitFits g nTiles) : At g 0 (init g) where
  counters := SplitState.init_eq h hf
  memoryEnd := by
    intro _
    have hfit := hf.reach_le
    have hs := h.s_pos
    simp only [init, boundary, if_true]
    rw [i32_of_bounds (x := g.inp) (by omega) (by omega), i32_of_bounds (by omega) (by omega)]
    omega

theorem computeStart_at (h : g.Consistent) (hf : SplitFits g nTiles) (hst : At g o st)
    (ho : o < g.out) : st.computeStart = (o * g.s : ℕ) - g.padBegin - g.inp := by
  have hbegin := h.begin_lt ho
  have hfit := hf.reach_le
  have hs := h.s_pos
  unfold computeStart
  rw [hst.counters]
  simp only [SplitState.reached]
  rw [i32_of_bounds] <;> omega

theorem inputHaloTop_at (h : g.Consistent) (hf : SplitFits g nTiles) (hst : At g o st)
    (ho : o < g.out) : st.inputHaloTop = topHalo g o := by
  have hbegin := h.begin_lt ho
  have hfit := hf.reach_le
  have hs := h.s_pos
  obtain ⟨hlo, hhi⟩ := boundary_bounds h o
  have hpad : st.remnantPadBegin = (g.padBegin - o * g.s : ℕ) := by rw [hst.counters]; rfl
  simp only [inputHaloTop, topHalo, computeStart_at h hf hst ho, hst.memoryEnd ho, hpad]
  rw [i32_of_bounds (x := boundary g o - 1 - g.inp + 1) (by omega) (by omega),
    i32_of_bounds (by omega) (by omega)]
  split <;> split <;> omega

theorem currentPadEnd_at (h : g.Consistent) (hf : SplitFits g nTiles) (hst : At g o st) (hd : 0 < d)
    (ho : o < g.out) (hlast : o + min d (g.out - o) < g.out) : st.currentPadEnd g d
      = max 0 (windowStop g (o + min d (g.out - o)) - g.inp) := by
  have hbelow := h.rowsBelow_card (o := o) (m := min d (g.out - o)) (by omega) (by omega)
  have hmul : (o + min d (g.out - o)) * g.s
      = o * g.s + ((min d (g.out - o) - 1) * g.s + g.s) := by
    rw [← Nat.succ_mul, Nat.add_mul]; congr 2; omega
  rw [hst.counters, SplitState.currentPadEnd_reached h hf hd ho]
  simp only [Geometry.cut, if_neg hlast.ne, hbelow, windowStop, hmul]
  omega

theorem isLastUsefullTile_at (hst : At g o st) (ho : o < g.out) :
    st.isLastUsefullTile d = decide (o + min d (g.out - o) = g.out) := by
  rw [hst.counters, SplitState.isLastUsefullTile, SplitState.outputTileDim_reached,
    decide_eq_decide]
  simp only [SplitState.reached]
  omega

theorem computeEnd_at (h : g.Consistent) (hf : SplitFits g nTiles) (hst : At g o st) (hd : 0 < d)
    (ho : o < g.out) :
    st.computeEnd g d = windowStop g (o + min d (g.out - o)) - 1 - g.inp := by
  obtain ⟨hlast, hfirst⟩ := SplitState.reach_bounds h (o := o) (m := min d (g.out - o))
    (by omega) (by omega)
  have hmul : (o + min d (g.out - o)) * g.s
      = o * g.s + ((min d (g.out - o) - 1) * g.s + g.s) := by
    rw [← Nat.succ_mul, Nat.add_mul]; congr 2; omega
  have hfit := hf.reach_le
  have hs := h.s_pos
  unfold computeEnd
  rw [computeStart_at h hf hst ho, hst.counters,
    SplitState.inputMaxRequiredSize_reached h hf hd ho, windowStop, hmul, i32_of_bounds] <;> omega

theorem inputHaloBottom_at (h : g.Consistent) (hf : SplitFits g nTiles) (hst : At g o st)
    (hd : 0 < d) (ho : o < g.out) :
    st.inputHaloBottom g d = bottomHalo g (o + min d (g.out - o)) := by
  unfold bottomHalo
  have hk := h.k_pos
  have hs := h.s_pos
  have hkle := h.k_le
  have hfit := hf.reach_le
  have hbegin := h.begin_lt ho
  by_cases hlast : o + min d (g.out - o) < g.out
  · have hconsumed : st.consumedInput g d = (min d (g.out - o) * g.s : ℕ) := by
      rw [hst.counters, SplitState.consumedInput_reached h hf]
    have hsteps := SplitState.steps_lt h hf (m := o + min d (g.out - o)) hlast.le
    have hoverlap : i32 (st.computeEnd g d - i32 (st.computeStart + st.consumedInput g d) + 1)
        = g.k - g.s := by
      rw [computeEnd_at h hf hst hd ho, computeStart_at h hf hst ho, hconsumed, windowStop]
      rw [Nat.add_mul] at hsteps ⊢
      rw [i32_of_bounds (x := _ + ((min d (g.out - o) * g.s : ℕ) : ℤ)) (by omega) (by omega),
        i32_of_bounds (by omega) (by omega)]
      omega
    simp only [inputHaloBottom, hoverlap, currentPadEnd_at h hf hst hd ho hlast,
      isLastUsefullTile_at hst ho, decide_eq_true_eq]
    by_cases hpos : (0 : ℤ) < g.k - g.s
    · rw [if_pos hpos, i32_of_bounds (x := _ + 2 - 1) (by omega) (by omega),
        Int.tdiv_eq_ediv_of_nonneg (by omega), i32_of_bounds (by omega) (by omega)]
      split <;> split <;> omega
    · rw [if_neg hpos]
      split <;> omega
  · rw [if_neg (fun hc => hlast hc.1), inputHaloBottom, isLastUsefullTile_at hst ho]
    exact if_neg fun hc => hc.2 (decide_eq_true (by omega))

/-- One turn of the loop moves the counters on by the output rows of its tile. -/
theorem next_at (h : g.Consistent) (hf : SplitFits g nTiles) (hst : At g o st) (hd : 0 < d)
    (ho : o ≤ g.out) : At g (o + min d (g.out - o)) (st.next g d) where
  counters := by
    rw [next, hst.counters, SplitState.next_reached h hf ho]
  memoryEnd := by
    intro hlast
    have ho : o < g.out := by omega
    have hk := h.k_le
    have hs := h.s_pos
    have hfit := hf.reach_le
    obtain ⟨hlo, hhi⟩ := boundary_bounds h (o + min d (g.out - o))
    have hne : o + min d (g.out - o) ≠ 0 := by omega
    have hval : st.computeEnd g d - st.inputHaloBottom g d - st.currentPadEnd g d
        = boundary g (o + min d (g.out - o)) - 1 - g.inp := by
      rw [computeEnd_at h hf hst hd ho, inputHaloBottom_at h hf hst hd ho,
        currentPadEnd_at h hf hst hd ho hlast, boundary, bottomHalo, if_neg hne]
      split <;> split <;> omega
    rw [next, hval, i32_of_bounds (by omega) (by omega)]

end HaloState

/-! ### The tiles of the loop -/

/-- What the loop gives a tile whose output begins at row `o`: an empty one says nothing. -/
structure HaloLoopTile (layer : DPULayer) (d o : ℕ) (tile : DPULayer) : Prop where
  outputs : tile.outputs = layer.outputs.setShape
    (Axis.h.setDim layer.outputs.shape (Axis.h.outputRows tile))
  rows_le : Axis.h.outputRows tile ≤ d
  start : 0 < Axis.h.outputRows tile → o = 0 ∨ d ≤ o
  top : 0 < Axis.h.outputRows tile → tile.halo.input0Halo.top = topHalo (layer.geometry .h) o
  bottom : 0 < Axis.h.outputRows tile → tile.halo.input0Halo.bottom
    = bottomHalo (layer.geometry .h) (o + Axis.h.outputRows tile)

namespace DPUWorkload

variable {layer : DPULayer} {nTiles d : ℕ}

@[simp] theorem length_haloTiles (n : ℕ) (st : HaloState) :
    (layer.haloTiles d n st).length = n := by
  induction n generalizing st with
  | zero => rfl
  | succ n ih => simp [haloTiles, ih]

@[simp] theorem outputRows_haloTile (r : ℕ) (c : Geometry) (top bottom : ℤ) :
    Axis.h.outputRows (layer.haloTile r c top bottom) = c.out := rfl

@[simp] theorem input0Halo_setInboundHaloForBroadcastAll (h : HaloWorkload) (a : Axis)
    (full remaining rows : ℕ) :
    (h.setInboundHaloForBroadcastAll a full remaining rows).input0Halo = h.input0Halo := by
  cases a <;> rfl

theorem input0Halo_haloTile (layer : DPULayer) (r : ℕ) (c : Geometry) (top bottom : ℤ) :
    (layer.haloTile r c top bottom).halo.input0Halo.top = top ∧
      (layer.haloTile r c top bottom).halo.input0Halo.bottom = bottom := by
  unfold haloTile HaloWorkload.setInboundHaloVerticalForBroadcastAll
  split <;> simp

/-- A tile of the loop whose output begins at row `o`: it has `d` rows or what is left, and with any
    rows at all it is the cut of the layer at them, with the halos of the closed form. -/
structure HaloCutTile (layer : DPULayer) (d o : ℕ) (tile : DPULayer) : Prop where
  rows_eq : Axis.h.outputRows tile = min d ((layer.geometry .h).out - o)
  dvd : 0 < Axis.h.outputRows tile → d ∣ o
  eq : ∃ (r : ℕ) (c : Geometry) (top bottom : ℤ), tile = layer.haloTile r c top bottom ∧
    (0 < c.out → c = (layer.geometry .h).cut o c.out ∧ top = topHalo (layer.geometry .h) o ∧
      bottom = bottomHalo (layer.geometry .h) (o + c.out))

/-- The tiles of the loop follow each other from the output row it starts at. -/
theorem haloTiles_loop (h : (layer.geometry .h).Consistent)
    (hf : SplitFits (layer.geometry .h) nTiles) (hd : 0 < d) (n : ℕ) :
    ∀ {o : ℕ} {st : HaloState}, o ≤ (layer.geometry .h).out →
      (d ∣ o ∨ o = (layer.geometry .h).out) → HaloState.At (layer.geometry .h) o st →
      Consecutive Axis.h.outputRows (HaloCutTile layer d) o (layer.haloTiles d n st)
        (min (o + n * d) (layer.geometry .h).out) := by
  induction n with
  | zero =>
    intro o st ho _ _
    simp only [Nat.zero_mul, Nat.add_zero, Nat.min_eq_left ho]
    exact .nil _
  | succ n ih =>
    intro o st ho hstart hst
    have hrows : (st.tile (layer.geometry .h) d).out = min d ((layer.geometry .h).out - o) := by
      rw [hst.counters]
      exact SplitState.outputTileDim_reached
    refine .cons ⟨?_, ?_, _, _, _, _, rfl, ?_⟩ ?_
    · rw [outputRows_haloTile, hrows]
    · intro hpos
      rw [outputRows_haloTile, hrows] at hpos
      rcases hstart with hdvd | rfl
      · exact hdvd
      · omega
    · intro hpos
      rw [hrows] at hpos ⊢
      refine ⟨?_, HaloState.inputHaloTop_at h hf hst (by omega),
        HaloState.inputHaloBottom_at h hf hst hd (by omega)⟩
      rw [hst.counters, SplitState.tile_reached h hf hd (by omega)]
    · have hih := ih (o := o + min d ((layer.geometry .h).out - o)) (by omega)
        (dvd_or_eq_next ho hstart) (HaloState.next_at h hf hst hd ho)
      rw [outputRows_haloTile, hrows]
      convert hih using 1
      rw [Nat.succ_mul]; omega

theorem haloTiles_consecutive (h : (layer.geometry .h).Consistent)
    (hf : SplitFits (layer.geometry .h) nTiles) (hd : 0 < d) (n : ℕ) :
    Consecutive Axis.h.outputRows (HaloLoopTile layer d) 0
      (layer.haloTiles d n (.init (layer.geometry .h))) (min (n * d) (layer.geometry .h).out) := by
  have hloop := haloTiles_loop h hf hd n (Nat.zero_le _) (.inl (Nat.dvd_zero d))
    (HaloState.init_at h hf)
  rw [Nat.zero_add] at hloop
  refine hloop.mono fun o t _ _ ht => ?_
  obtain ⟨r, c, top, bottom, rfl, hcut⟩ := ht.eq
  obtain ⟨htop, hbottom⟩ := input0Halo_haloTile layer r c top bottom
  refine ⟨rfl, ?_, ?_, ?_, ?_⟩
  · rw [ht.rows_eq]; exact Nat.min_le_left _ _
  · intro hpos
    rcases Nat.eq_zero_or_pos o with h0 | h0
    · exact .inl h0
    · exact .inr (Nat.le_of_dvd h0 (ht.dvd hpos))
  · intro hpos; rw [htop, (hcut hpos).2.1]
  · intro hpos; rw [hbottom, (hcut hpos).2.2, outputRows_haloTile]

/-- The part of `Regular` that says that the size of the output is an `unsigned int`. -/
structure OutputFits (layer : DPULayer) : Prop where
  innermost_lt : layer.outputs.shape.get (layoutToOrder layer.outputs.layout).1 < 2147483648
  exactSize_lt : layer.outputs.exactSize < 4294967296

/-- A non-empty tile of the split, with its memory in closed form. -/
structure HaloTileAt (layer : DPULayer) (d o : ℕ) (tile : DPULayer) : Prop where
  pos : 0 < Axis.h.outputRows tile
  rows_le : Axis.h.outputRows tile ≤ d
  start : o = 0 ∨ d ≤ o
  top : tile.halo.input0Halo.top = topHalo (layer.geometry .h) o
  bottom : tile.halo.input0Halo.bottom
    = bottomHalo (layer.geometry .h) (o + Axis.h.outputRows tile)

theorem HaloTileAt.memoryRows_eq {o : ℕ} {tile : DPULayer} (h : HaloTileAt layer d o tile) :
    memoryRows layer o tile
      = keptRows (layer.geometry .h) o (o + Axis.h.outputRows tile) := by
  unfold memoryRows keptRows
  rw [h.top, h.bottom, stopReal_eq]

theorem sohHaloInputs_loop (h : (layer.geometry .h).Consistent)
    (hf : SplitFits (layer.geometry .h) nTiles) (hn : 1 ≤ nTiles) :
    Consecutive Axis.h.outputRows
      (HaloLoopTile layer (ceilDivision (layer.geometry .h).out nTiles)) 0
      (layer.haloTiles (ceilDivision (layer.geometry .h).out nTiles) nTiles
        (.init (layer.geometry .h))) (layer.geometry .h).out := by
  have hd := ceilDivision_pos h.out_pos hn hf.tiles_le
  have hall := le_mul_ceilDivision (a := (layer.geometry .h).out) hn hf.tiles_le
  have hloop := haloTiles_consecutive h hf hd nTiles
  rwa [Nat.min_eq_right hall] at hloop

theorem sohHaloInputs_consecutive (h : (layer.geometry .h).Consistent)
    (hf : SplitFits (layer.geometry .h) nTiles) (hout : layer.outputs.Regular) (hn : 1 ≤ nTiles) :
    Consecutive Axis.h.outputRows
      (HaloTileAt layer (ceilDivision (layer.geometry .h).out nTiles)) 0
      (layer.sohHaloInputs nTiles) (layer.geometry .h).out := by
  have hkept := (sohHaloInputs_loop h hf hn).filter
    (fun layer => layer.outputs.size ≠ 0) ?_
  · refine hkept.mono fun o t _ hle hkeep => ?_
    obtain ⟨htile, hsize⟩ := hkeep
    rw [htile.outputs] at hsize
    have hpos : 0 < Axis.h.outputRows t := Nat.pos_of_ne_zero fun h0 =>
      (decide_eq_true_iff.mp hsize)
        ((hout.setDim_size_eq_zero_iff (by rw [h0]; exact Nat.zero_le _)).mpr h0)
    exact ⟨hpos, htile.rows_le, htile.start hpos, htile.top hpos, htile.bottom hpos⟩
  · intro o t hle htile hdrop
    rw [htile.outputs, decide_eq_false_iff_not, not_not] at hdrop
    exact (hout.setDim_size_eq_zero_iff (Nat.le_trans (Nat.le_add_left _ _) hle)).mp hdrop

/-- An output without bytes leaves no tiles. -/
theorem sohHaloInputs_eq_nil (h : (layer.geometry .h).Consistent)
    (hf : SplitFits (layer.geometry .h) nTiles) (hempty : ¬ layer.outputs.shape.Pos)
    (hn : 1 ≤ nTiles) : layer.sohHaloInputs nTiles = [] := by
  obtain ⟨act, hact, hzero⟩ : ∃ act : Act, act ≠ .y ∧ layer.outputs.shape.get act = 0 := by
    have hy : 0 < layer.outputs.shape.y := h.out_pos
    simp only [Shape.Pos, not_and_or, Nat.not_lt, Nat.le_zero] at hempty
    rcases hempty with hx | hy' | hz | hb
    · exact ⟨.x, by decide, hx⟩
    · omega
    · exact ⟨.z, by decide, hz⟩
    · exact ⟨.b, by decide, hb⟩
  have hsizes : ∀ t ∈ layer.haloTiles (ceilDivision (layer.geometry .h).out nTiles) nTiles
      (.init (layer.geometry .h)), t.outputs.size = 0 := by
    refine (sohHaloInputs_loop h hf hn).forall_mem fun o t _ htile => ?_
    rw [htile.outputs]
    refine VPUTensor.size_eq_zero act ?_
    cases act <;> first | exact hzero | exact absurd rfl hact
  simpa [sohHaloInputs, removeEmptyTiles, List.filter_eq_nil_iff] using hsizes

/-! ### When the ownership is split -/

/-- No begin padding is left for a second tile. -/
def NoPaddingLeft (layer : DPULayer) (d : ℕ) : Prop :=
  (layer.geometry .h).out ≤ d ∨ (layer.geometry .h).padBegin ≤ d * (layer.geometry .h).s

theorem HaloTileAt.noPadding {o : ℕ} {tile : DPULayer} (h : HaloTileAt layer d o tile)
    (hpad : NoPaddingLeft layer d) (ho : o + Axis.h.outputRows tile ≤ (layer.geometry .h).out) :
    o = 0 ∨ (layer.geometry .h).padBegin ≤ o * (layer.geometry .h).s := by
  have hpos := h.pos
  rcases h.start with h0 | hd
  · exact .inl h0
  · rcases hpad with hle | hle
    · omega
    · exact .inr (hle.trans (Nat.mul_le_mul_right _ hd))

/-- A needed row that the tiles so far do not keep is kept by a tile from here on. -/
theorem exists_owner (h : (layer.geometry .h).Consistent) (hpad : NoPaddingLeft layer d) {r : ℤ}
    (hr : r ∈ (layer.geometry .h).needed) {o stop : ℕ} {tiles : List DPULayer}
    (hc : Consecutive Axis.h.outputRows (HaloTileAt layer d) o tiles stop)
    (hstop : stop = (layer.geometry .h).out) (ho : o < stop)
    (hlo : max (boundary (layer.geometry .h) o)
      ((o * (layer.geometry .h).s : ℕ) - (layer.geometry .h).padBegin) ≤ r) :
    ∃ (i : ℕ) (hi : i < tiles.length),
      r ∈ memoryRows layer (o + offset Axis.h.outputRows tiles i) tiles[i] := by
  induction hc with
  | nil => omega
  | @cons o stop t ts head tail ih =>
    have hpos := head.pos
    have hle : o + Axis.h.outputRows t ≤ stop := by have := tail.sum_eq; omega
    have hfirst := firstReal_add_topHalo h (head.noPadding hpad (by omega))
    by_cases hkept : r < min ((layer.geometry .h).inp : ℤ)
        (windowStop (layer.geometry .h) (o + Axis.h.outputRows t))
        - bottomHalo (layer.geometry .h) (o + Axis.h.outputRows t)
    · refine ⟨0, by simp, ?_⟩
      simp only [Consecutive.offset_zero, Nat.add_zero, List.getElem_cons_zero]
      rw [head.memoryRows_eq, keptRows, mem_rows, hfirst]
      exact ⟨hlo, hkept⟩
    · have hlt : o + Axis.h.outputRows t < stop := by
        rcases Nat.lt_or_ge (o + Axis.h.outputRows t) stop with hlt | hge
        · exact hlt
        · have heq : o + Axis.h.outputRows t = (layer.geometry .h).out := by omega
          rw [stop_sub_bottomHalo_last heq, heq] at hkept
          exact absurd (lt_windowStop_out hr) hkept
      rw [stop_sub_bottomHalo (by omega) (by omega), not_lt] at hkept
      have hbegin := begin_le_of_boundary_le hr (by omega) hkept
      obtain ⟨i, hi, hmem⟩ := ih hstop hlt (max_le hkept hbegin)
      refine ⟨i + 1, by simpa using hi, ?_⟩
      simpa only [Consecutive.offset_cons_succ, ← Nat.add_assoc, List.getElem_cons_succ] using hmem

/-- Tiles that do not overlap in their output keep different rows. -/
theorem disjoint_memoryRows (h : (layer.geometry .h).Consistent) (hpad : NoPaddingLeft layer d)
    {o o' : ℕ} {t t' : DPULayer} (ht : HaloTileAt layer d o t) (ht' : HaloTileAt layer d o' t')
    (hle : o + Axis.h.outputRows t ≤ o')
    (hout : o' + Axis.h.outputRows t' ≤ (layer.geometry .h).out) :
    Disjoint (memoryRows layer o t) (memoryRows layer o' t') := by
  have hpos := ht.pos
  have hpos' := ht'.pos
  have hmono := boundary_mono h hle
  rw [ht.memoryRows_eq, ht'.memoryRows_eq, Finset.disjoint_left]
  intro r hr hr'
  simp only [keptRows, mem_rows] at hr hr'
  rw [stop_sub_bottomHalo (by omega) (by omega)] at hr
  rw [firstReal_add_topHalo h (ht'.noPadding hpad hout)] at hr'
  omega

/-- Without begin padding left for a second tile, the ownership is split. -/
theorem splitsOwnership_of_noPaddingLeft (h : (layer.geometry .h).Consistent)
    {tiles : List DPULayer} (hc : Consecutive Axis.h.outputRows (HaloTileAt layer d) 0 tiles
      (layer.geometry .h).out) (hpad : NoPaddingLeft layer d) : SplitsOwnership layer tiles := by
  have htile : ∀ (i : ℕ) (hi : i < tiles.length),
      HaloTileAt layer d (offset Axis.h.outputRows tiles i) tiles[i] ∧
      offset Axis.h.outputRows tiles i + Axis.h.outputRows tiles[i] ≤ (layer.geometry .h).out := by
    intro i hi
    have := (hc.mono (Q := fun o t => HaloTileAt layer d o t ∧
      o + Axis.h.outputRows t ≤ (layer.geometry .h).out) fun o t _ hle ht => ⟨ht, hle⟩).get i hi
    simpa using this
  have hdisjoint : ∀ (i j : ℕ) (hi : i < tiles.length) (hj : j < tiles.length), i < j →
      Disjoint (memoryRows layer (offset Axis.h.outputRows tiles i) tiles[i])
        (memoryRows layer (offset Axis.h.outputRows tiles j) tiles[j]) := by
    intro i j hi hj hij
    refine disjoint_memoryRows h hpad (htile i hi).1 (htile j hj).1 ?_ (htile j hj).2
    rw [← Consecutive.offset_succ hi]
    exact Consecutive.offset_mono hij
  have hdisj : ∀ (i j : ℕ) (hi : i < tiles.length) (hj : j < tiles.length), i ≠ j →
      Disjoint (memoryRows layer (offset Axis.h.outputRows tiles i) tiles[i])
        (memoryRows layer (offset Axis.h.outputRows tiles j) tiles[j]) := by
    intro i j hi hj hij
    rcases Nat.lt_or_gt_of_ne hij with hlt | hgt
    · exact hdisjoint i j hi hj hlt
    · exact (hdisjoint j i hj hi hgt).symm
  have howner : ∀ r ∈ (layer.geometry .h).needed, ∃ (i : ℕ) (hi : i < tiles.length),
      r ∈ memoryRows layer (offset Axis.h.outputRows tiles i) tiles[i] := by
    intro r hr
    have hlo : max (boundary (layer.geometry .h) 0)
        ((0 * (layer.geometry .h).s : ℕ) - (layer.geometry .h).padBegin) ≤ r := by
      obtain ⟨j, -, hj⟩ := hr
      have := (Geometry.mem_realRows.mp hj).2.1
      simp only [boundary, if_true]
      omega
    simpa using exists_owner h hpad hr hc rfl h.out_pos hlo
  constructor
  case halo_nonneg =>
    refine hc.forall_mem fun o t _ ht => ?_
    rw [ht.top, ht.bottom]
    exact ⟨topHalo_nonneg _ _, bottomHalo_nonneg _ _⟩
  case halo_fits =>
    intro i hi
    obtain ⟨ht, hle⟩ := htile i hi
    rw [ht.top, ht.bottom]
    exact topHalo_add_bottomHalo_le h ht.pos hle (ht.noPadding hpad hle)
  case disjoint => exact hdisj
  case owner =>
    intro r hr
    obtain ⟨i, hi, hmem⟩ := howner r hr
    refine ⟨i, ⟨hi, hmem⟩, ?_⟩
    rintro j ⟨hj, hmem'⟩
    by_contra hne
    exact Finset.disjoint_left.mp (hdisj j i hj hi hne) hmem' hmem
  case halo_owned =>
    intro i hi r hr hnot
    obtain ⟨ht, hle⟩ := htile i hi
    obtain ⟨hwin, hreal⟩ := Geometry.mem_realRows.mp hr
    rcases Geometry.window_split hwin ht.pos with ⟨j, _, hj, hwin'⟩ | hskip
    · obtain ⟨i', hi', hmem⟩ :=
        howner r ⟨j, by omega, Geometry.mem_realRows.mpr ⟨hwin', hreal⟩⟩
      refine ⟨i', hi', ?_, hmem⟩
      rintro rfl
      exact hnot hmem
    · rw [ht.memoryRows_eq] at hnot
      exact absurd (mem_keptRows_of_k_le hskip.k_lt.le hr) hnot

/-- A tile that begins with begin padding keeps the first row. -/
theorem zero_mem_memoryRows (h : (layer.geometry .h).Consistent) {o : ℕ} {t : DPULayer}
    (ht : HaloTileAt layer d o t)
    (ho : o = 0 ∨ o * (layer.geometry .h).s < (layer.geometry .h).padBegin) :
    (0 : ℤ) ∈ memoryRows layer o t := by
  have hpos := ht.pos
  have hs := h.s_pos
  have hk := h.k_pos
  have hpb := h.padBegin_le
  have hinp := h.inp_pos
  have hsteps : (layer.geometry .h).s ≤ (o + Axis.h.outputRows t) * (layer.geometry .h).s :=
    Nat.le_mul_of_pos_left _ (by omega)
  rw [ht.memoryRows_eq, keptRows, mem_rows]
  constructor
  · unfold Geometry.firstReal topHalo
    rcases ho with rfl | ho
    · simp only [boundary, if_true]
      split <;> push_cast <;> omega
    · rw [← Nat.cast_mul, if_neg (by omega)]; omega
  · unfold bottomHalo
    split
    · unfold windowStop at *; omega
    · unfold windowStop; omega

/-- With padding left for a second tile, the first two tiles both keep the first row. -/
theorem not_splitsOwnership_of_paddingLeft (h : (layer.geometry .h).Consistent)
    {tiles : List DPULayer} (hc : Consecutive Axis.h.outputRows (HaloTileAt layer d) 0 tiles
      (layer.geometry .h).out) (hpad : ¬ NoPaddingLeft layer d) : ¬ SplitsOwnership layer tiles := by
  simp only [NoPaddingLeft, not_or, not_le] at hpad
  obtain ⟨hout, hpb⟩ := hpad
  intro hsplit
  obtain ⟨i, hi, hlo, -⟩ := hc.cover (Nat.zero_le 0) h.out_pos
  obtain ⟨j, hj, hlo', hhi'⟩ := hc.cover (Nat.zero_le d) hout
  have hti := hc.get i hi
  have htj := hc.get j hj
  simp only [Nat.zero_add] at hlo hlo' hhi' hti htj
  have hoi : offset Axis.h.outputRows tiles i = 0 := by omega
  have hoj : offset Axis.h.outputRows tiles j = d := by
    have := htj.rows_le
    rcases htj.start with h0 | hd <;> omega
  have hne : i ≠ j := by
    rintro rfl
    have := hti.pos; have := hti.rows_le
    omega
  refine Finset.disjoint_left.mp (hsplit.disjoint i j hi hj hne)
    (zero_mem_memoryRows h hti (.inl hoi)) (zero_mem_memoryRows h htj (.inr ?_))
  rwa [hoj]

/-- The split of the ownership is right exactly when the output is not empty and no begin padding is
    left for a second tile: then that tile has no halo above, and keeps rows of the first one. -/
theorem sohHaloInputs_splitsOwnership_iff (layer : DPULayer) (nTiles : ℕ) (hn : 1 ≤ nTiles)
    (h : (layer.geometry .h).Consistent) (hf : SplitFits (layer.geometry .h) nTiles)
    (hfit : OutputFits layer) :
    SplitsOwnership layer (layer.sohHaloInputs nTiles) ↔
      layer.outputs.shape.Pos ∧
        NoPaddingLeft layer (ceilDivision (layer.geometry .h).out nTiles) := by
  by_cases hpos : layer.outputs.shape.Pos
  · have hc := sohHaloInputs_consecutive h hf ⟨hpos, hfit.innermost_lt, hfit.exactSize_lt⟩ hn
    by_cases hpad : NoPaddingLeft layer (ceilDivision (layer.geometry .h).out nTiles)
    · exact iff_of_true (splitsOwnership_of_noPaddingLeft h hc hpad) ⟨hpos, hpad⟩
    · exact iff_of_false (not_splitsOwnership_of_paddingLeft h hc hpad) fun hand => hpad hand.2
  · refine iff_of_false (fun hsplit => ?_) fun hand => hpos hand.1
    rw [sohHaloInputs_eq_nil h hf hpos hn] at hsplit
    have hzero : (0 : ℤ) ∈ (layer.geometry .h).needed := by
      have hk := h.padBegin_lt
      have hinp := h.inp_pos
      refine ⟨0, h.out_pos, Geometry.mem_realRows.mpr ⟨mem_window_one.mpr ?_, by omega⟩⟩
      unfold windowStop; omega
    obtain ⟨i, ⟨hi, -⟩, -⟩ := hsplit.owner 0 hzero
    exact absurd hi (by simp)

/-- Two rows for each of two tiles of a 3-row kernel: nothing is left of the one padding row. -/
theorem sohHaloInputs_splitsOwnership_iff_four :
    SplitsOwnership (ofHeight ⟨4, 3, 1, 1, 1, 4⟩ 1)
        ((ofHeight ⟨4, 3, 1, 1, 1, 4⟩ 1).sohHaloInputs 2) ↔
      (ofHeight ⟨4, 3, 1, 1, 1, 4⟩ 1).outputs.shape.Pos ∧
        NoPaddingLeft (ofHeight ⟨4, 3, 1, 1, 1, 4⟩ 1)
          (ceilDivision ((ofHeight ⟨4, 3, 1, 1, 1, 4⟩ 1).geometry .h).out 2) :=
  sohHaloInputs_splitsOwnership_iff _ 2 (by decide) (by decide) (by decide)
    ⟨by decide, by decide⟩

/-- A 7-row kernel with three rows of padding and one output row a tile: the second tile still has
    padding, gets no halo, and keeps row `0` like the first one. -/
theorem sohHaloInputs_not_splitsOwnership :
    ((ofHeight ⟨7, 7, 1, 3, 3, 7⟩ 1).geometry .h).Consistent ∧
    ¬ SplitsOwnership (ofHeight ⟨7, 7, 1, 3, 3, 7⟩ 1)
        ((ofHeight ⟨7, 7, 1, 3, 3, 7⟩ 1).sohHaloInputs 7) := by
  refine ⟨by decide, fun hsplit => ?_⟩
  have hdisj := hsplit.disjoint 0 1 (by decide) (by decide) (by decide)
  exact Finset.disjoint_left.mp hdisj (show (0 : ℤ) ∈ _ by decide) (by decide)

end DPUWorkload

end Vpunn
