import Vpunn.Lib.Consecutive
import Vpunn.Tiling.TilingPrimitives
import Vpunn.Tiling.DimensionTiler

/-! Splits over the channels (`ztiling.cpp`). -/

namespace Vpunn
open MachineInt Consecutive

namespace ZTiling

def createTileZ (layer : DPULayer) (channels offsetChannels : ℕ) : DPUWorkload :=
  TilingPrimitives.createTileZ layer channels offsetChannels

/-- Without a list of valid sizes every size is valid. -/
def isValidZ (channels : ℕ) (validZTiles : List ℕ) : Bool :=
  if validZTiles.length = 0 then true else validZTiles.contains channels

/-- One iteration: the channels that remain to split, and the split so far. -/
def splitStep (layer : DPULayer) (validZTiles : List ℕ) (gridZ maxZ : ℕ)
    (st : ℕ × DPUWorkloadsWithCyclesSplit) (idx : ℕ) :
    Option (ℕ × DPUWorkloadsWithCyclesSplit) :=
  let (channels, split) := st
  let actualChannels := if maxZ < channels then maxZ else channels
  let offsetChannels := u32 (idx * maxZ)
  if actualChannels % gridZ ≠ 0 then none
  else if !isValidZ actualChannels validZTiles then none
  else some (channels - actualChannels,
    split.emplaceBack (createTileZ layer actualChannels offsetChannels))

def splitOverZ (layer : DPULayer) (splitPool : List DPUWorkloadsWithCyclesSplit)
    (mode : ExecutionMode) (nWorkloads : ℕ) (validZTiles : List ℕ) :
    List DPUWorkloadsWithCyclesSplit :=
  let gridZ := (mpeModeToGrid mode).z
  let allChannels := layer.outputs.channels
  if allChannels < gridZ ∨ allChannels % gridZ ≠ 0 then splitPool
  else
    let maxZ := roundUp (ceilDivision allChannels nWorkloads) gridZ
    match (List.range nWorkloads).foldlM (splitStep layer validZTiles gridZ maxZ)
      (allChannels, {}) with
    | none => splitPool
    | some (_, split) => splitPool ++ [setWorkloadsModeAndInfereInputShape split mode layer]

/-- The tiles of the sizes, one after the other, unless a size is not positive. -/
def tilesOf (layer : DPULayer) : List ℤ → ℕ → DPUWorkloadsWithCyclesSplit →
    Option DPUWorkloadsWithCyclesSplit
  | [], _, split => some split
  | actualChannels :: rest, offsetChannels, split =>
    if actualChannels ≤ 0 then none
    else tilesOf layer rest (u32 (offsetChannels + actualChannels))
      (split.emplaceBack (createTileZ layer (u32 actualChannels) offsetChannels))

def splitInNOverZ (layer : DPULayer) (splitPool : List DPUWorkloadsWithCyclesSplit)
    (mode : ExecutionMode) (nWorkloads : ℕ) (theSplitter : SplitDimension) :
    List DPUWorkloadsWithCyclesSplit :=
  let split := theSplitter.divideBalanced (i32 layer.outputs.channels) (i32 nWorkloads).toNat []
  if !split.1 then splitPool
  else if split.2.length ≠ nWorkloads then splitPool
  else
    match tilesOf layer split.2 0 {} with
    | none => splitPool
    | some split => splitPool ++ [setWorkloadsModeAndInfereInputShape split mode layer]

/-- A convolution with 128 output channels. -/
def exampleLayer : DPULayer where
  device := .vpu_4_0
  op := .convolution
  inputs := { shape := ⟨64, 108, 256, 1⟩ }
  outputs := { shape := ⟨21, 36, 128, 1⟩ }
  kernels := ⟨3, 3⟩
  strides := ⟨3, 3⟩
  padding := {}
  executionOrder := .cuboid16x16

/-! ### The split over Z -/

/-- A split into tiles of positive sizes that are multiples of the grid, one after the other over all
    channels. The inbound halo in front of a tile, its channels and the inbound halo behind it make
    the same total for all, in the integers of the code and, where no `int` overflows, exactly. -/
structure IsZSplit (layer : DPULayer) (mode : ExecutionMode) (nWorkloads : ℕ)
    (split : DPUWorkloadsWithCyclesSplit) : Prop where
  length_eq : split.workloads.length = nWorkloads
  pos : ∀ wl ∈ split.workloads, 0 < wl.outputs.channels
  grid : ∀ wl ∈ split.workloads, (mpeModeToGrid mode).z ∣ wl.outputs.channels
  consecutive : Consecutive (·.outputs.channels) (fun offset wl => wl.offsets.z = offset) 0
    split.workloads layer.outputs.channels
  halo : ∀ wl ∈ split.workloads,
    wl.halo.output0InboundHalo.front + wl.outputs.channels + wl.halo.output0InboundHalo.back
      ≡ layer.halo.output0InboundHalo.front + layer.outputs.channels
        + layer.halo.output0InboundHalo.back [ZMOD 4294967296]
  halo_eq : InI32 layer.halo.output0InboundHalo.front →
    InI32 (layer.halo.output0InboundHalo.front + layer.outputs.channels) →
    InI32 layer.halo.output0InboundHalo.back →
    InI32 (layer.halo.output0InboundHalo.back + layer.outputs.channels) →
    ∀ wl ∈ split.workloads,
      wl.halo.output0InboundHalo.front + wl.outputs.channels + wl.halo.output0InboundHalo.back
        = layer.halo.output0InboundHalo.front + layer.outputs.channels
          + layer.halo.output0InboundHalo.back

/-- The tile of an iteration. -/
def tile (layer : DPULayer) (maxZ idx : ℕ) : DPUWorkload :=
  createTileZ layer (chunk maxZ layer.outputs.channels idx) (u32 (idx * maxZ))

/-- The size of the chunks: the channels in equal parts, rounded up to the grid. -/
def maxZ (layer : DPULayer) (mode : ExecutionMode) (nWorkloads : ℕ) : ℕ :=
  roundUp (ceilDivision layer.outputs.channels nWorkloads) (mpeModeToGrid mode).z

/-- The channels can be cut along the grid, and all chunks are valid. -/
def IsAdded (layer : DPULayer) (mode : ExecutionMode) (nWorkloads : ℕ) (validZTiles : List ℕ) :
    Prop :=
  (mpeModeToGrid mode).z ≤ layer.outputs.channels
    ∧ layer.outputs.channels % (mpeModeToGrid mode).z = 0
    ∧ ∀ i < nWorkloads, isValidZ (chunk (maxZ layer mode nWorkloads) layer.outputs.channels i)
      validZTiles = true

instance (layer : DPULayer) (mode : ExecutionMode) (nWorkloads : ℕ) (validZTiles : List ℕ) :
    Decidable (IsAdded layer mode nWorkloads validZTiles) :=
  inferInstanceAs (Decidable (_ ∧ _))

section Workload

variable (layer : DPULayer) (mode : ExecutionMode) (maxZ idx : ℕ)

/-- The workload of an iteration, as it is added. -/
def workload : DPUWorkload :=
  TilingPrimitives.inferInputTensorShape ((tile layer maxZ idx).setExecutionOrder mode) layer

theorem channels_workload :
    (workload layer mode maxZ idx).outputs.channels = chunk maxZ layer.outputs.channels idx := by
  simp [workload, tile, createTileZ, VPUTensor.setShape, VPUTensor.channels]

theorem offset_workload : (workload layer mode maxZ idx).offsets.z = u32 (idx * maxZ) := by
  simp [workload, tile, createTileZ]

theorem inboundHalo_workload : (workload layer mode maxZ idx).halo.output0InboundHalo
    = (createTileZ layer (chunk maxZ layer.outputs.channels idx)
        (u32 (idx * maxZ))).halo.output0InboundHalo := by
  simp [workload, tile]

end Workload

/-- The split that is added, if one is. -/
def chunkSplit (layer : DPULayer) (mode : ExecutionMode) (maxZ nWorkloads : ℕ) :
    DPUWorkloadsWithCyclesSplit where
  cycles := List.replicate nWorkloads 0
  workloads := (List.range nWorkloads).map (workload layer mode maxZ)

section SplitOverZ

variable {layer : DPULayer} {validZTiles : List ℕ} {gridZ size : ℕ}

theorem splitStep_eq (hsize : gridZ ∣ size) (hchannels : gridZ ∣ layer.outputs.channels)
    (split : DPUWorkloadsWithCyclesSplit) (n : ℕ) :
    splitStep layer validZTiles gridZ size (layer.outputs.channels - n * size, split) n
      = if isValidZ (chunk size layer.outputs.channels n) validZTiles = true then
          some (layer.outputs.channels - (n + 1) * size, split.emplaceBack (tile layer size n))
        else none := by
  have hmin : (if size < layer.outputs.channels - n * size then size
      else layer.outputs.channels - n * size) = chunk size layer.outputs.channels n := by
    unfold chunk
    split <;> omega
  have hgrid : chunk size layer.outputs.channels n % gridZ = 0 :=
    Nat.mod_eq_zero_of_dvd (chunk_dvd hsize hchannels)
  have hrest : layer.outputs.channels - n * size - chunk size layer.outputs.channels n
      = layer.outputs.channels - (n + 1) * size := by
    unfold chunk
    rw [Nat.succ_mul]
    omega
  simp only [splitStep, hmin, hgrid, ne_eq, not_true_eq_false, if_false, hrest, tile]
  cases isValidZ (chunk size layer.outputs.channels n) validZTiles <;> rfl

/-- The loop makes the tiles of all chunks, unless one of them is not valid. -/
theorem foldlM_splitStep (hsize : gridZ ∣ size) (hchannels : gridZ ∣ layer.outputs.channels)
    (n : ℕ) :
    (List.range n).foldlM (splitStep layer validZTiles gridZ size) (layer.outputs.channels, {})
      = if ∀ i < n, isValidZ (chunk size layer.outputs.channels i) validZTiles = true then
          some (layer.outputs.channels - n * size,
            ⟨List.replicate n 0, (List.range n).map (tile layer size)⟩)
        else none := by
  induction n with
  | zero => simp
  | succ n ih =>
    have hsucc : ∀ st, (List.range (n + 1)).foldlM (splitStep layer validZTiles gridZ size) st
        = ((List.range n).foldlM (splitStep layer validZTiles gridZ size) st).bind
          fun st => splitStep layer validZTiles gridZ size st n := by
      intro st
      rw [List.range_succ, List.foldlM_append]
      simp
    rw [hsucc, ih]
    by_cases hall : ∀ i < n, isValidZ (chunk size layer.outputs.channels i) validZTiles = true
    · rw [if_pos hall, Option.bind_some, splitStep_eq hsize hchannels]
      by_cases hn : isValidZ (chunk size layer.outputs.channels n) validZTiles = true
      · rw [if_pos hn, if_pos fun i hi => ?_]
        · simp [DPUWorkloadsWithCyclesSplit.emplaceBack, List.replicate_succ', List.range_succ]
        · rcases Nat.lt_succ_iff_lt_or_eq.mp hi with hi | rfl
          · exact hall i hi
          · exact hn
      · rw [if_neg hn, if_neg fun h => hn (h n (by omega))]
    · rw [if_neg hall, if_neg fun h => hall fun i hi => h i (by omega)]
      rfl

theorem splitOverZ_eq (layer : DPULayer) (splitPool : List DPUWorkloadsWithCyclesSplit)
    (mode : ExecutionMode) (nWorkloads : ℕ) (validZTiles : List ℕ) :
    splitOverZ layer splitPool mode nWorkloads validZTiles = splitPool ++
      if IsAdded layer mode nWorkloads validZTiles then
        [chunkSplit layer mode (maxZ layer mode nWorkloads) nWorkloads]
      else [] := by
  have hmax : roundUp (ceilDivision layer.outputs.channels nWorkloads) (mpeModeToGrid mode).z
      = maxZ layer mode nWorkloads := rfl
  have hdvd : (mpeModeToGrid mode).z ∣ maxZ layer mode nWorkloads := Dvd.intro_left _ rfl
  simp only [splitOverZ, hmax]
  by_cases hgrid : layer.outputs.channels < (mpeModeToGrid mode).z
      ∨ layer.outputs.channels % (mpeModeToGrid mode).z ≠ 0
  · have hnot : ¬ IsAdded layer mode nWorkloads validZTiles := fun ⟨hle, hmod, _⟩ =>
      hgrid.elim hle.not_gt (absurd hmod)
    rw [if_pos hgrid, if_neg hnot, List.append_nil]
  · rw [if_neg hgrid, foldlM_splitStep hdvd (Nat.dvd_of_mod_eq_zero (by omega))]
    by_cases hvalid : ∀ i < nWorkloads, isValidZ
        (chunk (maxZ layer mode nWorkloads) layer.outputs.channels i) validZTiles = true
    · have hadded : IsAdded layer mode nWorkloads validZTiles := ⟨by omega, by omega, hvalid⟩
      rw [if_pos hvalid, if_pos hadded]
      simp only [chunkSplit, setWorkloadsModeAndInfereInputShape, List.map_map, Function.comp_def]
      rfl
    · have hnot : ¬ IsAdded layer mode nWorkloads validZTiles := fun h => hvalid h.2.2
      rw [if_neg hvalid, if_neg hnot, List.append_nil]

variable {mode : ExecutionMode} {nWorkloads : ℕ}

/-- Unless their computation overflows, the chunks reach over all channels. -/
theorem le_mul_maxZ (hn : 0 < nWorkloads) (hn' : nWorkloads < 4294967296)
    (hchannels : layer.outputs.channels < 4294967296)
    (hmod : layer.outputs.channels % (mpeModeToGrid mode).z = 0)
    (hpos : 0 < maxZ layer mode nWorkloads) :
    layer.outputs.channels ≤ nWorkloads * maxZ layer mode nWorkloads := by
  unfold maxZ roundUp at *
  rw [mpeModeToGrid_z] at *
  by_cases hfit : layer.outputs.channels + nWorkloads ≤ 4294967296
  · have hle := ceilDivision_le hn hfit
    calc layer.outputs.channels
        ≤ nWorkloads * ceilDivision layer.outputs.channels nWorkloads :=
          le_mul_ceilDivision hn hfit
      _ ≤ nWorkloads * (ceilDivision (ceilDivision layer.outputs.channels nWorkloads) 16 * 16) := by
          refine Nat.mul_le_mul_left nWorkloads ?_
          rw [Nat.mul_comm _ 16]
          exact le_mul_ceilDivision (by omega) (by omega)
  · have hzero : ceilDivision layer.outputs.channels nWorkloads = 0 := by
      unfold ceilDivision u32
      rw [Nat.div_eq_zero_iff]
      omega
    rw [hzero] at hpos
    exact absurd hpos (by decide)

/-- The split is as it should be exactly if the last chunk is not empty. -/
theorem isZSplit_chunkSplit_iff (hn : 0 < nWorkloads) (hn' : nWorkloads < 4294967296)
    (hchannels : layer.outputs.channels < 4294967296)
    (hmod : layer.outputs.channels % (mpeModeToGrid mode).z = 0) :
    IsZSplit layer mode nWorkloads (chunkSplit layer mode (maxZ layer mode nWorkloads) nWorkloads)
      ↔ 0 < maxZ layer mode nWorkloads
        ∧ (nWorkloads - 1) * maxZ layer mode nWorkloads < layer.outputs.channels := by
  constructor
  · intro h
    rw [← chunk_pos_iff]
    have hlast := h.pos _ (List.mem_map_of_mem (List.mem_range.mpr (Nat.sub_one_lt_of_lt hn)))
    rwa [channels_workload] at hlast
  · rintro ⟨hpos, hlast⟩
    have hbelow : ∀ i < nWorkloads, i * maxZ layer mode nWorkloads < layer.outputs.channels :=
      fun i hi => (Nat.mul_le_mul_right _ (by omega)).trans_lt hlast
    have hoffset : ∀ i < nWorkloads, u32 (i * maxZ layer mode nWorkloads)
        = i * maxZ layer mode nWorkloads := fun i hi => by
      rw [← Nat.cast_mul]
      exact u32_natCast ((hbelow i hi).trans hchannels)
    have hstop := Nat.min_eq_left (le_mul_maxZ hn hn' hchannels hmod hpos)
    refine ⟨by simp [chunkSplit], ?_, ?_, ?_, ?_, ?_⟩
    · rw [chunkSplit, List.forall_mem_map]
      intro i hi
      rw [channels_workload]
      exact chunk_pos_iff.mpr ⟨hpos, hbelow i (List.mem_range.mp hi)⟩
    · rw [chunkSplit, List.forall_mem_map]
      intro i hi
      rw [channels_workload]
      exact chunk_dvd (Dvd.intro_left _ rfl) (Nat.dvd_of_mod_eq_zero hmod)
    · have hchunks : Consecutive (·.outputs.channels) (fun offset wl => wl.offsets.z = offset) _
          (chunkSplit layer mode (maxZ layer mode nWorkloads) nWorkloads).workloads _ :=
        chunks (fun i _ => channels_workload layer mode (maxZ layer mode nWorkloads) i)
          fun i hi => ?_
      · rwa [hstop] at hchunks
      · rw [offset_workload, Nat.min_eq_right (hbelow i hi).le, hoffset i hi]
    · rw [chunkSplit, List.forall_mem_map]
      intro i hi
      rw [channels_workload, inboundHalo_workload, createTileZ, TilingPrimitives.halo_createTileZ]
      exact TilingPrimitives.inboundHalo_modEq ..
    · intro hfront hfront' hback hback'
      rw [chunkSplit, List.forall_mem_map]
      intro i hi
      rw [channels_workload, inboundHalo_workload, createTileZ, TilingPrimitives.halo_createTileZ]
      refine TilingPrimitives.inboundHalo_eq ?_ hfront hfront' hback hback'
      have hi := List.mem_range.mp hi
      have hend := add_chunk (maxZ layer mode nWorkloads) layer.outputs.channels i
      rw [Nat.min_eq_right (hbelow i hi).le] at hend
      rw [hoffset i hi, hend]
      exact Nat.min_le_left ..

end SplitOverZ

/-- The splits that are added are as they should be exactly if none is added (the channels cannot be
    cut along the grid, or some chunk is not valid), or the last chunk is not empty: the chunks before
    it do not reach over all channels. -/
theorem splitOverZ_iff (layer : DPULayer) (splitPool : List DPUWorkloadsWithCyclesSplit)
    (mode : ExecutionMode) (nWorkloads : ℕ) (validZTiles : List ℕ) (hn : 0 < nWorkloads)
    (hn' : nWorkloads < 4294967296) (hchannels : layer.outputs.channels < 4294967296) :
    ∃ added, splitOverZ layer splitPool mode nWorkloads validZTiles = splitPool ++ added ∧
      ((∀ split ∈ added, IsZSplit layer mode nWorkloads split) ↔
        (IsAdded layer mode nWorkloads validZTiles → 0 < maxZ layer mode nWorkloads
          ∧ (nWorkloads - 1) * maxZ layer mode nWorkloads < layer.outputs.channels)) := by
  refine ⟨_, splitOverZ_eq layer splitPool mode nWorkloads validZTiles, ?_⟩
  by_cases hadded : IsAdded layer mode nWorkloads validZTiles
  · rw [if_pos hadded, List.forall_mem_singleton, forall_prop_of_true hadded]
    exact isZSplit_chunkSplit_iff hn hn' hchannels hadded.2.1
  · rw [if_neg hadded]
    exact iff_of_true (by simp) fun h => absurd h hadded

/-- 128 channels in three workloads, any size being valid: 48, 48 and 32. -/
theorem splitOverZ_iff_three :
    ∃ added, splitOverZ exampleLayer [] .cuboid8x16 3 [] = [] ++ added ∧
      ∀ split ∈ added, IsZSplit exampleLayer .cuboid8x16 3 split :=
  let ⟨added, hadded, hiff⟩ := splitOverZ_iff exampleLayer [] .cuboid8x16 3 [] (by decide)
    (by decide) (by decide)
  ⟨added, hadded, hiff.mpr fun _ => by decide⟩

/-- 128 channels in 13 workloads: the chunks of 16 are used up after eight. -/
theorem not_isZSplit_thirteen :
    ∃ split ∈ splitOverZ exampleLayer [] .cuboid8x16 13 [],
      ¬ IsZSplit exampleLayer .cuboid8x16 13 split := by
  have hadded : IsAdded exampleLayer .cuboid8x16 13 [] := by decide
  refine ⟨chunkSplit exampleLayer .cuboid8x16 (maxZ exampleLayer .cuboid8x16 13) 13, ?_, ?_⟩
  · rw [splitOverZ_eq, if_pos hadded, List.nil_append]
    exact List.mem_singleton_self _
  · rw [isZSplit_chunkSplit_iff (by decide) (by decide) (by decide) hadded.2.1]
    decide

/-! ### The split into N -/

section SplitInN

variable {layer : DPULayer}

theorem tilesOf_eq_some {bins : List ℤ} (hbins : ∀ x ∈ bins, 0 < x ∧ x < 4294967296)
    (offset : ℕ) (split : DPUWorkloadsWithCyclesSplit) :
    ∃ split', tilesOf layer bins offset split = some split' ∧
      split'.workloads.map (·.outputs.channels)
        = split.workloads.map (·.outputs.channels) ++ bins.map Int.toNat := by
  induction bins generalizing offset split with
  | nil => exact ⟨split, rfl, by simp⟩
  | cons x bins ih =>
    obtain ⟨⟨hpos, hlt⟩, hrest⟩ := List.forall_mem_cons.mp hbins
    rw [tilesOf, if_neg (by omega)]
    obtain ⟨split', hsplit', hmap⟩ := ih hrest (u32 (offset + x))
      (split.emplaceBack (createTileZ layer (u32 x) offset))
    refine ⟨split', hsplit', ?_⟩
    have hx : u32 x = x.toNat := by
      have := u32_of_bounds hpos.le hlt
      omega
    rw [hmap, DPUWorkloadsWithCyclesSplit.emplaceBack, List.map_append, List.append_assoc]
    simp [createTileZ, VPUTensor.setShape, VPUTensor.channels, hx]

/-- A feasible number of splits is never dropped, for the ranges where the division is complete. -/
theorem splitInNOverZ_of_isSplit {d : SplitDimension} (hstep : d.OneLargerStep)
    (splitPool : List DPUWorkloadsWithCyclesSplit) (mode : ExecutionMode) {nWorkloads : ℕ}
    (hfit : d.Fits layer.outputs.channels nWorkloads)
    (hchannels : layer.outputs.channels < 2147483648) (hn : nWorkloads < 2147483648) {l : List ℤ}
    (hl : d.IsSplit layer.outputs.channels nWorkloads l) (hpos : ∀ x ∈ l, 0 < x) :
    ∃ split, splitInNOverZ layer splitPool mode nWorkloads d = splitPool ++ [split]
      ∧ split.workloads.length = nWorkloads := by
  obtain ⟨_, hparts⟩ := hl.parts hpos
  obtain ⟨parts, hgreedy⟩ := hstep.exists_greedy hparts
  have hdivide := (SplitDimension.divideBalanced_iff hfit [] _).mpr ⟨parts, hgreedy, rfl⟩
  have hbins : ∀ x ∈ parts.map (Nat.cast : ℕ → ℤ), 0 < x ∧ x < 4294967296 := by
    rw [List.forall_mem_map]
    intro x hx
    have hle := List.single_le_sum (by simp) x hx
    rw [hgreedy.parts.sum_eq] at hle
    have := (hgreedy.parts.mem x hx).1
    omega
  obtain ⟨split, hsplit, hmap⟩ := @tilesOf_eq_some layer _ hbins 0 {}
  have hlength : (parts.map (Nat.cast : ℕ → ℤ)).length = nWorkloads := by
    rw [List.length_map, hgreedy.parts.length_eq]
  refine ⟨setWorkloadsModeAndInfereInputShape split mode layer, ?_, ?_⟩
  · unfold splitInNOverZ
    rw [i32_natCast hchannels, i32_natCast hn, Int.toNat_natCast, hdivide]
    simp only [List.nil_append, hlength, hsplit, Bool.not_true, Bool.false_eq_true, if_false,
      ne_eq, not_true_eq_false]
  · have hlen := congrArg List.length hmap
    rw [List.length_append, List.length_map, List.length_map, List.length_map, hlength] at hlen
    rw [setWorkloadsModeAndInfereInputShape, List.length_map, hlen]
    exact Nat.zero_add nWorkloads

end SplitInN

end ZTiling

end Vpunn
