import Vpunn.Cycles
import Vpunn.Dma.Types
import Vpunn.Shave.Workload

/-! The cost of a SHAVE layer that is already split into tiles
    (`VPULayerCostModel::layer_pre_split_cycles`).

    The costs of the tiles are divided among the SHAVE units in `float`, the largest one is taken,
    and the costs of the DMA transfers are added. The models of a SHAVE kernel and of a transfer are
    parameters. -/

namespace Vpunn
open MachineInt Cycles

structure DMATransfer1D where
  device : VPUDevice
  transferLengthBytes : ℤ
  memoryDirection : MemoryDirection
  deriving DecidableEq, Repr

/-- The cost models that the layer model asks; a SHAVE query may throw. -/
structure VPULayerCostModel where
  shave : SHAVEWorkload → Except String ℕ
  computeDmaCycles : DMATransfer1D → ℕ
  shave_le : ∀ w c, shave w = .ok c → c ≤ maxV
  computeDmaCycles_le : ∀ t, computeDmaCycles t ≤ maxV

/-- One tile in the loop of `extractLargestTime`. -/
def largestTimeStep (largestTime tile : ℕ) : ℕ :=
  if isErrorCode tile then errorTileOutput
  else if ¬ isErrorCode largestTime then max largestTime tile
  else largestTime

/-- The largest cost, or an error for an error or for nothing but zeros. -/
def extractLargestTime (tilesCost : List ℕ) : ℕ :=
  let largestTime := tilesCost.foldl largestTimeStep 0
  if largestTime = 0 then errorTileOutput else largestTime

/-- The quotient that a tile's cost becomes, as a `float`. -/
def shaveQuotient (cycles nSHV : ℕ) : ℚ := toFloat (toFloat cycles / toFloat nSHV)

namespace VPULayerCostModel

variable (model : VPULayerCostModel)

/-- The cost of one tile on `nSHV` units. The conversion of a `float` outside of the range of
    `uint32_t` has no defined result. -/
def tileCost (nSHV : ℕ) (w : SHAVEWorkload) : Option ℕ :=
  match model.shave w with
  | .ok cycles => floatToU32 (shaveQuotient cycles nSHV)
  | .error _ => some errorTileSplitException

def dmaCycles (device : VPUDevice) (direction : MemoryDirection) (t : VPUTensor) : ℕ :=
  model.computeDmaCycles ⟨device, i32 t.size, direction⟩

/-- The costs of the transfers of one tile, added with the plain `+=`. -/
def oneTileCost (device : VPUDevice) (direction : MemoryDirection) (ts : List VPUTensor) : ℕ :=
  ts.foldl (fun oneTileCost t => u32 (oneTileCost + model.dmaCycles device direction t)) 0

/-- Adds the transfers of all tiles, where there are some. -/
def addDma (device : VPUDevice) (direction : MemoryDirection) (inDdr : Bool)
    (tiles : List (List VPUTensor)) (cost : ℕ) : ℕ :=
  if inDdr then
    costAdder cost ((tiles.map (model.oneTileCost device direction)).foldl costAdder 0)
  else cost

/-- Adds the transfers of inputs and outputs, unless the cost is an error already. -/
def addTransfers (device : VPUDevice) (tilesLayer : List SHAVEWorkload)
    (inputInDdr outputInDdr : Bool) (cost : ℕ) : ℕ :=
  if ¬ isErrorCode cost then
    model.addDma device .cmx2ddr outputInDdr (tilesLayer.map (·.outputs))
      (model.addDma device .ddr2cmx inputInDdr (tilesLayer.map (·.inputs)) cost)
  else cost

def layerPreSplitCycles (layersPreSplit : List SHAVEWorkload) (nSHV : ℕ)
    (inputInDdr outputInDdr : Bool) : Option ℕ :=
  match layersPreSplit with
  | [] => some errorL2InvalidParameters
  | first :: _ =>
    (layersPreSplit.mapM (model.tileCost nSHV)).map fun tilesCost =>
      model.addTransfers first.device layersPreSplit inputInDdr outputInDdr
        (extractLargestTime tilesCost)

end VPULayerCostModel

/-! ### The largest time -/

/-- Once an error is seen the time stays one. -/
theorem foldl_largestTimeStep_of_isErrorCode (tilesCost : List ℕ) {t : ℕ} (h : isErrorCode t) :
    isErrorCode (tilesCost.foldl largestTimeStep t) := by
  induction tilesCost generalizing t with
  | nil => exact h
  | cons c costs ih =>
    apply ih
    unfold largestTimeStep
    split_ifs with hc
    · decide
    · exact h

theorem foldl_largestTimeStep_spec (tilesCost : List ℕ) {t : ℕ} (h : ¬ isErrorCode t) :
    if ∃ c ∈ tilesCost, isErrorCode c then isErrorCode (tilesCost.foldl largestTimeStep t)
    else tilesCost.foldl largestTimeStep t = max t (tilesCost.foldr max 0)
      ∧ ¬ isErrorCode (tilesCost.foldl largestTimeStep t) := by
  induction tilesCost generalizing t with
  | nil => simpa using h
  | cons c costs ih =>
    by_cases hc : isErrorCode c
    · rw [if_pos ⟨c, List.mem_cons_self, hc⟩, List.foldl_cons, largestTimeStep, if_pos hc]
      exact foldl_largestTimeStep_of_isErrorCode costs (by decide)
    · have hmax : ¬ isErrorCode (max t c) := by
        unfold isErrorCode at *; omega
      have ih := ih hmax
      have hstep : largestTimeStep t c = max t c := by
        rw [largestTimeStep, if_neg hc, if_pos h]
      simp only [List.foldl_cons, hstep, List.mem_cons, exists_eq_or_imp, hc, false_or,
        List.foldr_cons, max_assoc] at ih ⊢
      exact ih

/-- Errors win, and zeros alone are an error; otherwise it is the maximum. -/
theorem extractLargestTime_spec (tilesCost : List ℕ) :
    (isErrorCode (extractLargestTime tilesCost)
        ↔ (∃ c ∈ tilesCost, isErrorCode c) ∨ tilesCost.foldr max 0 = 0)
      ∧ (¬ isErrorCode (extractLargestTime tilesCost) →
        extractLargestTime tilesCost = tilesCost.foldr max 0) := by
  have hfold := foldl_largestTimeStep_spec tilesCost (t := 0) (by decide)
  have hoff : isErrorCode errorTileOutput := by decide
  unfold extractLargestTime
  simp only [Nat.zero_max] at hfold ⊢
  split_ifs at hfold with herror
  · split_ifs with hzero
    · exact ⟨by simp [hoff, herror], fun h => absurd hoff h⟩
    · exact ⟨by simp [hfold, herror], fun h => absurd hfold h⟩
  · obtain ⟨hmax, hno⟩ := hfold
    split_ifs with hzero
    · exact ⟨by simp [hoff, ← hmax, hzero], fun h => absurd hoff h⟩
    · exact ⟨by simp [hno, herror, ← hmax, hzero], fun _ => hmax⟩

/-! ### The division -/

section Division

variable {cycles nSHV : ℕ}

theorem shaveQuotient_one (cycles : ℕ) : shaveQuotient cycles 1 = toFloat cycles := by
  have hone : toFloat ((1 : ℕ) : ℚ) = 1 := by decide +kernel
  rw [shaveQuotient, hone, div_one, toFloat_toFloat (by positivity)]

theorem shaveQuotient_nonneg (cycles nSHV : ℕ) : 0 ≤ shaveQuotient cycles nSHV :=
  toFloat_nonneg (div_nonneg (toFloat_nonneg (by positivity)) (toFloat_nonneg (by positivity)))

/-- Two units or more bring every cost, error or not, down to half of the range. -/
theorem shaveQuotient_le (hcycles : cycles ≤ maxV) (hn : 2 ≤ nSHV) :
    shaveQuotient cycles nSHV ≤ 2147483648 := by
  have hnum : toFloat cycles ≤ 4294967296 := by
    have hmax : toFloat ((4294967295 : ℕ) : ℚ) = 4294967296 := by decide +kernel
    rw [← hmax]
    exact toFloat_mono (by positivity) (by exact_mod_cast hcycles)
  have hden : 2 ≤ toFloat nSHV := by
    have htwo : toFloat ((2 : ℕ) : ℚ) = 2 := by decide +kernel
    rw [← htwo]
    exact toFloat_mono (by positivity) (by exact_mod_cast hn)
  have hdiv : toFloat cycles / toFloat nSHV ≤ 2147483648 := by
    rw [div_le_iff₀ (by linarith)]; linarith
  have hhalf : toFloat 2147483648 = 2147483648 := by decide +kernel
  rw [shaveQuotient, ← hhalf]
  exact toFloat_mono (div_nonneg (toFloat_nonneg (by positivity)) (by linarith)) hdiv

/-- On one unit the rounding decides: the largest codes leave the range of the type, and smaller
    ones come down to the largest `float` below the error codes. -/
theorem floor_toFloat_of_le {c bound : ℕ} {f : ℤ} (h : c ≤ bound)
    (hbound : toFloat (bound : ℚ) = f) : ⌊toFloat (c : ℚ)⌋ ≤ f := by
  rw [← Int.floor_intCast (R := ℚ) f, ← hbound]
  exact Int.floor_le_floor (toFloat_mono (by positivity) (by exact_mod_cast h))

theorem le_floor_toFloat {c bound : ℕ} {f : ℤ} (h : bound ≤ c)
    (hbound : toFloat (bound : ℚ) = f) : f ≤ ⌊toFloat (c : ℚ)⌋ := by
  rw [← Int.floor_intCast (R := ℚ) f, ← hbound]
  exact Int.floor_le_floor (toFloat_mono (by positivity) (by exact_mod_cast h))

/-- When the division has no result, and when its result is an error code. -/
theorem floatToU32_shaveQuotient (hcycles : cycles ≤ maxV) (hn : 1 ≤ nSHV) :
    (floatToU32 (shaveQuotient cycles nSHV) = none ↔ nSHV = 1 ∧ 4294967168 ≤ cycles)
      ∧ ∀ share, floatToU32 (shaveQuotient cycles nSHV) = some share →
        (isErrorCode share ↔ nSHV = 1 ∧ 4294966400 < cycles) := by
  have hnonneg : 0 ≤ ⌊shaveQuotient cycles nSHV⌋ := Int.floor_nonneg.mpr (shaveQuotient_nonneg ..)
  unfold floatToU32
  rcases hn.eq_or_lt with rfl | hn
  · rw [shaveQuotient_one] at hnonneg ⊢
    by_cases hlarge : 4294967168 ≤ cycles
    · have := le_floor_toFloat (f := 4294967296) hlarge (by decide +kernel)
      rw [if_neg (by omega)]
      simp [hlarge]
    have hle : cycles ≤ 4294967167 := by omega
    have hsmall := floor_toFloat_of_le (f := 4294967040) hle (by decide +kernel)
    rw [if_pos (by omega)]
    refine ⟨by simp [hlarge], ?_⟩
    rintro share ⟨⟩
    unfold isErrorCode startErrorRange maxV
    by_cases herror : 4294966400 < cycles
    · have := le_floor_toFloat (f := 4294966528) (Nat.succ_le_of_lt herror)
        (by decide +kernel)
      omega
    · have := floor_toFloat_of_le (f := 4294966272) (not_lt.mp herror) (by decide +kernel)
      omega
  · have hle : ⌊shaveQuotient cycles nSHV⌋ ≤ 2147483648 := by
      have := Int.floor_le_floor (shaveQuotient_le hcycles hn)
      rwa [show (2147483648 : ℚ) = ((2147483648 : ℤ) : ℚ) by norm_num, Int.floor_intCast] at this
    rw [if_pos (by omega)]
    refine ⟨by simp; omega, ?_⟩
    rintro share ⟨⟩
    unfold isErrorCode startErrorRange maxV
    omega

end Division

/-! ### The transfers -/

namespace VPULayerCostModel

variable (model : VPULayerCostModel)

/-- The costs of the tiles' transfers, as far as they are added. -/
def oneTileCosts (device : VPUDevice) (direction : MemoryDirection) (inDdr : Bool)
    (tiles : List (List VPUTensor)) : List ℕ :=
  if inDdr then tiles.map (model.oneTileCost device direction) else []

/-- Adding transfers gives an error exactly for an error or a total in their range. -/
theorem addDma_spec (device : VPUDevice) (direction : MemoryDirection) (inDdr : Bool)
    (tiles : List (List VPUTensor)) {cost : ℕ} (h : ¬ isErrorCode cost) :
    (isErrorCode (model.addDma device direction inDdr tiles cost)
        ↔ (∃ c ∈ model.oneTileCosts device direction inDdr tiles, isErrorCode c)
          ∨ startErrorRange < cost + (model.oneTileCosts device direction inDdr tiles).sum)
      ∧ (¬ isErrorCode (model.addDma device direction inDdr tiles cost) →
        model.addDma device direction inDdr tiles cost
          = cost + (model.oneTileCosts device direction inDdr tiles).sum) := by
  unfold addDma oneTileCosts
  cases inDdr with
  | false => exact ⟨by simp [isErrorCode], fun _ => rfl⟩
  | true =>
    simp only [if_true]
    obtain ⟨hsumIff, hsum⟩ :=
      foldl_costAdder_spec (tiles.map (model.oneTileCost device direction))
        (show ¬ isErrorCode 0 by decide)
    obtain ⟨hiff, hadd⟩ := costAdder_spec h
      ((tiles.map (model.oneTileCost device direction)).foldl costAdder 0)
    rw [zero_add] at hsumIff hsum
    by_cases herror :
        isErrorCode ((tiles.map (model.oneTileCost device direction)).foldl costAdder 0)
    · have hresult := hiff.mpr (.inl herror)
      refine ⟨⟨fun _ => ?_, fun _ => hresult⟩, fun hno => absurd hresult hno⟩
      rcases hsumIff.mp herror with hc | hlarge
      · exact .inl hc
      · exact .inr (by omega)
    · have hno : ¬ ∃ c ∈ tiles.map (model.oneTileCost device direction), isErrorCode c :=
        fun hc => herror (hsumIff.mpr (.inl hc))
      rw [or_iff_right herror, hsum herror] at hiff
      refine ⟨?_, fun h => (hadd h).trans (by rw [hsum herror])⟩
      rw [hsum herror, hiff, or_iff_right hno]

theorem addDma_of_isErrorCode (device : VPUDevice) (direction : MemoryDirection) (inDdr : Bool)
    (tiles : List (List VPUTensor)) {cost : ℕ} (h : isErrorCode cost) :
    model.addDma device direction inDdr tiles cost = cost := by
  unfold addDma
  split_ifs
  · exact costAdder_of_isErrorCode h _
  · rfl

/-! ### The query -/

/-- The cost of a tile on its units; where it has no defined result, the query has none. -/
def tileShare (nSHV : ℕ) (w : SHAVEWorkload) : ℕ := (model.tileCost nSHV w).getD 0

/-- A tile's query gives no cycles. -/
def ShaveFails (w : SHAVEWorkload) : Prop := ∀ c, model.shave w = .ok c → isErrorCode c

section Query

variable (layersPreSplit : List SHAVEWorkload) (nSHV : ℕ) (inputInDdr outputInDdr : Bool)

/-- `layers_pre_split[0].get_device()` -/
def firstDevice : VPUDevice := (layersPreSplit.head?.map (·.device)).getD .__size

/-- What the transfers of each tile add, computed with 32 bits, first for all inputs. -/
def addedTileCosts : List ℕ :=
  model.oneTileCosts (firstDevice layersPreSplit) .ddr2cmx inputInDdr
      (layersPreSplit.map (·.inputs))
    ++ model.oneTileCosts (firstDevice layersPreSplit) .cmx2ddr outputInDdr
      (layersPreSplit.map (·.outputs))

/-- The costs of the transfers that are added, tile by tile. -/
def addedDmaCosts : List (List ℕ) :=
  (if inputInDdr then
    layersPreSplit.map fun w =>
      w.inputs.map (model.dmaCycles (firstDevice layersPreSplit) .ddr2cmx) else [])
    ++ if outputInDdr then
      layersPreSplit.map fun w =>
        w.outputs.map (model.dmaCycles (firstDevice layersPreSplit) .cmx2ddr) else []

/-- Some cost that goes into the query is an error. -/
def HasError : Prop :=
  (∃ w ∈ layersPreSplit, model.ShaveFails w)
    ∨ ∃ costs ∈ model.addedDmaCosts layersPreSplit inputInDdr outputInDdr,
        ∃ c ∈ costs, isErrorCode c

/-- Errors come out as an error, and without them the cycles cover every tile's cost divided over the
    units. -/
def PropagatesErrors : Prop :=
  ∃ cost, model.layerPreSplitCycles layersPreSplit nSHV inputInDdr outputInDdr = some cost
    ∧ (model.HasError layersPreSplit inputInDdr outputInDdr → isErrorCode cost)
    ∧ (¬ model.HasError layersPreSplit inputInDdr outputInDdr →
      ¬ isErrorCode cost ∧ ∀ w ∈ layersPreSplit, ∀ c, model.shave w = .ok c →
        ⌊toFloat (toFloat c / toFloat nSHV)⌋ ≤ cost)

/-- The costs of the transfers, each tile's sum taken with 32 bits. -/
def transferTotal : ℕ :=
  ((model.addedDmaCosts layersPreSplit inputInDdr outputInDdr).map
    fun costs => costs.sum % 4294967296).sum

/-- What makes an error visible in the end: a tile throws; its code comes through the division by
    one unit; no cost reaches the number of units; the transfers of a tile add up to an error code
    with 32 bits; or cycles and transfers together are too many. -/
def ErrorShows : Prop :=
  (∃ w ∈ layersPreSplit, ∃ e, model.shave w = .error e)
    ∨ (nSHV = 1 ∧ ∃ w ∈ layersPreSplit, ∃ c, model.shave w = .ok c ∧ 4294966400 < c)
    ∨ (∀ w ∈ layersPreSplit, ∀ c, model.shave w = .ok c → toFloat c < toFloat nSHV)
    ∨ (∃ costs ∈ model.addedDmaCosts layersPreSplit inputInDdr outputInDdr,
        isErrorCode (costs.sum % 4294967296))
    ∨ ∃ w ∈ layersPreSplit, ∃ c, model.shave w = .ok c
        ∧ startErrorRange < ⌊toFloat (toFloat c / toFloat nSHV)⌋
          + model.transferTotal layersPreSplit inputInDdr outputInDdr

/-- All transfers together give an error exactly for an error or a total in their range. -/
theorem addTransfers_spec {cost : ℕ} (h : ¬ isErrorCode cost) :
    (isErrorCode (model.addTransfers (firstDevice layersPreSplit) layersPreSplit inputInDdr
          outputInDdr cost)
        ↔ (∃ c ∈ model.addedTileCosts layersPreSplit inputInDdr outputInDdr, isErrorCode c)
          ∨ startErrorRange
            < cost + (model.addedTileCosts layersPreSplit inputInDdr outputInDdr).sum)
      ∧ (¬ isErrorCode (model.addTransfers (firstDevice layersPreSplit) layersPreSplit inputInDdr
          outputInDdr cost) →
        model.addTransfers (firstDevice layersPreSplit) layersPreSplit inputInDdr outputInDdr cost
          = cost + (model.addedTileCosts layersPreSplit inputInDdr outputInDdr).sum) := by
  rw [addTransfers, if_pos h, addedTileCosts, List.sum_append]
  simp only [List.mem_append, or_and_right, exists_or]
  obtain ⟨hinIff, hin⟩ := model.addDma_spec (firstDevice layersPreSplit) .ddr2cmx inputInDdr
    (layersPreSplit.map (·.inputs)) h
  by_cases herror : isErrorCode (model.addDma (firstDevice layersPreSplit) .ddr2cmx inputInDdr
      (layersPreSplit.map (·.inputs)) cost)
  · -- An error of the inputs is kept.
    have hkeep := model.addDma_of_isErrorCode (firstDevice layersPreSplit) .cmx2ddr outputInDdr
      (layersPreSplit.map (·.outputs)) herror
    rw [hkeep]
    refine ⟨⟨fun _ => ?_, fun _ => herror⟩, fun hno => absurd herror hno⟩
    rcases hinIff.mp herror with hc | hlarge
    · exact .inl (.inl hc)
    · exact .inr (by omega)
  · obtain ⟨houtIff, hout⟩ := model.addDma_spec (firstDevice layersPreSplit) .cmx2ddr outputInDdr
      (layersPreSplit.map (·.outputs)) herror
    have hno := fun hc => herror (hinIff.mpr (.inl hc))
    rw [hin herror, add_assoc] at houtIff hout
    rw [hin herror, or_iff_right hno]
    exact ⟨houtIff, hout⟩

/-- The largest of the tiles' shares. -/
def largestShare : ℕ := (layersPreSplit.map (model.tileShare nSHV)).foldr max 0

/-- On one unit a cost that is rounded up to `2^32` has no conversion back. -/
def ConvertsAll : Prop :=
  ∀ w ∈ layersPreSplit, ∀ c, model.shave w = .ok c → ¬ (nSHV = 1 ∧ 4294967168 ≤ c)

/-- A tile throws, or its error code is neither divided nor rounded down. -/
def KeepsError (w : SHAVEWorkload) : Prop :=
  ∀ c, model.shave w = .ok c → nSHV = 1 ∧ 4294966400 < c

/-- The transfers bring an error: through their 32-bit sums, or through a total that is too large. -/
def DmaFails : Prop :=
  (∃ c ∈ model.addedTileCosts layersPreSplit inputInDdr outputInDdr, isErrorCode c)
    ∨ startErrorRange < model.largestShare layersPreSplit nSHV
        + (model.addedTileCosts layersPreSplit inputInDdr outputInDdr).sum

end Query

variable {model} {layersPreSplit : List SHAVEWorkload} {nSHV : ℕ} {inputInDdr outputInDdr : Bool}

theorem tileCost_eq_none_iff (hn : 1 ≤ nSHV) (w : SHAVEWorkload) :
    model.tileCost nSHV w = none ↔ ∃ c, model.shave w = .ok c ∧ nSHV = 1 ∧ 4294967168 ≤ c := by
  unfold tileCost
  cases hw : model.shave w with
  | error e => simp
  | ok c =>
    rw [(floatToU32_shaveQuotient (model.shave_le w c hw) hn).1]
    simp

theorem isErrorCode_tileShare_iff (hn : 1 ≤ nSHV) {w : SHAVEWorkload}
    (hw : model.tileCost nSHV w ≠ none) :
    isErrorCode (model.tileShare nSHV w) ↔ model.KeepsError nSHV w := by
  obtain ⟨share, hshare⟩ := Option.ne_none_iff_exists'.mp hw
  rw [tileShare, hshare, Option.getD_some]
  unfold tileCost at hshare
  unfold KeepsError
  cases hc : model.shave w with
  | error e =>
    rw [hc] at hshare
    obtain rfl : errorTileSplitException = share := by simpa using hshare
    exact ⟨fun _ c hc' => by simp at hc', fun _ => by decide⟩
  | ok c =>
    rw [hc] at hshare
    rw [(floatToU32_shaveQuotient (model.shave_le w c hc) hn).2 share hshare]
    simp

theorem mapM_tileCost (h : ∀ w ∈ layersPreSplit, model.tileCost nSHV w ≠ none) :
    layersPreSplit.mapM (model.tileCost nSHV)
      = some (layersPreSplit.map (model.tileShare nSHV)) := by
  induction layersPreSplit with
  | nil => rfl
  | cons w ws ih =>
    obtain ⟨share, hshare⟩ := Option.ne_none_iff_exists'.mp (h w List.mem_cons_self)
    have ih := ih fun x hx => h x (List.mem_cons_of_mem _ hx)
    have htile : model.tileShare nSHV w = share := by rw [tileShare, hshare]; rfl
    rw [List.mapM_cons, hshare, ih, List.map_cons, htile]
    rfl

theorem mapM_tileCost_eq_none {w : SHAVEWorkload} (hw : w ∈ layersPreSplit)
    (h : model.tileCost nSHV w = none) : layersPreSplit.mapM (model.tileCost nSHV) = none := by
  induction layersPreSplit with
  | nil => simp at hw
  | cons x xs ih =>
    rw [List.mapM_cons]
    cases hx : model.tileCost nSHV x with
    | none => rfl
    | some share =>
      rcases List.mem_cons.mp hw with rfl | hw
      · rw [h] at hx; cases hx
      · rw [ih hw]; rfl

theorem layerPreSplitCycles_eq (hne : layersPreSplit ≠ [])
    (h : ∀ w ∈ layersPreSplit, model.tileCost nSHV w ≠ none) :
    model.layerPreSplitCycles layersPreSplit nSHV inputInDdr outputInDdr
      = some (model.addTransfers (firstDevice layersPreSplit) layersPreSplit inputInDdr outputInDdr
        (extractLargestTime (layersPreSplit.map (model.tileShare nSHV)))) := by
  obtain ⟨first, rest, rfl⟩ := List.exists_cons_of_ne_nil hne
  simp only [layerPreSplitCycles, mapM_tileCost h]
  rfl

theorem le_foldr_max {l : List ℕ} {a : ℕ} (h : a ∈ l) : a ≤ l.foldr max 0 := by
  induction l with
  | nil => simp at h
  | cons b l ih =>
    rw [List.foldr_cons]
    rcases List.mem_cons.mp h with rfl | h
    · exact le_max_left _ _
    · exact (ih h).trans (le_max_right _ _)

/-- The result is an error exactly for a kept error, for nothing but zeros, or for the transfers;
    otherwise it is the largest share with all transfers. -/
theorem layerPreSplitCycles_spec (inputInDdr outputInDdr : Bool) (hne : layersPreSplit ≠ [])
    (hn : 1 ≤ nSHV) (hconv : model.ConvertsAll layersPreSplit nSHV) :
    ∃ cost, model.layerPreSplitCycles layersPreSplit nSHV inputInDdr outputInDdr = some cost
      ∧ (isErrorCode cost ↔ (∃ w ∈ layersPreSplit, model.KeepsError nSHV w)
          ∨ model.largestShare layersPreSplit nSHV = 0
          ∨ model.DmaFails layersPreSplit nSHV inputInDdr outputInDdr)
      ∧ (¬ isErrorCode cost → cost = model.largestShare layersPreSplit nSHV
          + (model.addedTileCosts layersPreSplit inputInDdr outputInDdr).sum) := by
  have hsome : ∀ w ∈ layersPreSplit, model.tileCost nSHV w ≠ none := by
    intro w hw hnone
    obtain ⟨c, hc, hbad⟩ := (tileCost_eq_none_iff hn w).mp hnone
    exact hconv w hw c hc hbad
  obtain ⟨hlargeIff, hlarge⟩ :=
    extractLargestTime_spec (layersPreSplit.map (model.tileShare nSHV))
  have hkeep : (∃ c ∈ layersPreSplit.map (model.tileShare nSHV), isErrorCode c)
      ↔ ∃ w ∈ layersPreSplit, model.KeepsError nSHV w := by
    simp only [List.mem_map, exists_exists_and_eq_and]
    exact exists_congr fun w => and_congr_right fun hw =>
      isErrorCode_tileShare_iff hn (hsome w hw)
  rw [hkeep] at hlargeIff
  refine ⟨_, layerPreSplitCycles_eq hne hsome, ?_⟩
  by_cases herror : isErrorCode (extractLargestTime (layersPreSplit.map (model.tileShare nSHV)))
  · rw [addTransfers, if_neg (not_not.mpr herror)]
    refine ⟨⟨fun _ => ?_, fun _ => herror⟩, fun hno => absurd herror hno⟩
    exact (hlargeIff.mp herror).imp_right .inl
  · obtain ⟨hiff, hsum⟩ := model.addTransfers_spec layersPreSplit inputInDdr outputInDdr herror
    have hkeeps : ¬ ∃ w ∈ layersPreSplit, model.KeepsError nSHV w :=
      fun h => herror (hlargeIff.mpr (.inl h))
    have hzero : model.largestShare layersPreSplit nSHV ≠ 0 :=
      fun h => herror (hlargeIff.mpr (.inr h))
    refine ⟨?_, fun hno => (hsum hno).trans (by rw [hlarge herror]; rfl)⟩
    rw [hiff, or_iff_right hkeeps, or_iff_right hzero, hlarge herror]
    rfl

/-! ### What goes in -/

theorem foldl_u32_add (costs : List ℕ) {cost : ℕ} (h : cost < 4294967296) :
    costs.foldl (fun (oneTileCost c : ℕ) => u32 (oneTileCost + c)) cost
      = (cost + costs.sum) % 4294967296 := by
  induction costs generalizing cost with
  | nil => exact (Nat.mod_eq_of_lt h).symm
  | cons c costs ih =>
    have hstep : u32 (cost + c) = (cost + c) % 4294967296 := by unfold u32; omega
    rw [List.foldl_cons, hstep, ih (Nat.mod_lt _ (by decide)), List.sum_cons, Nat.mod_add_mod,
      add_assoc]

theorem oneTileCost_eq (device : VPUDevice) (direction : MemoryDirection) (ts : List VPUTensor) :
    model.oneTileCost device direction ts
      = (ts.map (model.dmaCycles device direction)).sum % 4294967296 := by
  have hsum := foldl_u32_add (ts.map (model.dmaCycles device direction)) (Nat.zero_lt_succ _)
  rwa [List.foldl_map, zero_add] at hsum

theorem addedTileCosts_eq :
    model.addedTileCosts layersPreSplit inputInDdr outputInDdr
      = (model.addedDmaCosts layersPreSplit inputInDdr outputInDdr).map
        fun costs => costs.sum % 4294967296 := by
  unfold addedTileCosts addedDmaCosts oneTileCosts
  cases inputInDdr <;> cases outputInDdr <;> simp [oneTileCost_eq, Function.comp_def]

/-- A tile without an exception has the truncated quotient. -/
theorem tileShare_of_ok (hn : 1 ≤ nSHV) {w : SHAVEWorkload} {c : ℕ} (hc : model.shave w = .ok c)
    (hconv : ¬ (nSHV = 1 ∧ 4294967168 ≤ c)) :
    (model.tileShare nSHV w : ℤ) = ⌊toFloat (toFloat c / toFloat nSHV)⌋ := by
  have hnonneg : 0 ≤ ⌊shaveQuotient c nSHV⌋ := Int.floor_nonneg.mpr (shaveQuotient_nonneg ..)
  have hsome := (not_congr (floatToU32_shaveQuotient (model.shave_le w c hc) hn).1).mpr hconv
  have hcost : model.tileCost nSHV w = floatToU32 (shaveQuotient c nSHV) := by rw [tileCost, hc]
  rw [tileShare, hcost]
  unfold floatToU32 at hsome ⊢
  split at hsome
  · next hrange =>
    rw [if_pos hrange, Option.getD_some, Int.toNat_of_nonneg hnonneg]
    rfl
  · exact absurd rfl hsome

/-- It is zero exactly when the cost does not reach the number of units. -/
theorem floor_quotient_eq_zero_iff {c nSHV : ℕ} (hn : 1 ≤ nSHV) :
    ⌊toFloat (toFloat c / toFloat nSHV)⌋ = 0 ↔ toFloat c < toFloat nSHV := by
  have hc : 0 ≤ toFloat c := toFloat_nonneg (Nat.cast_nonneg c)
  have hone : toFloat 1 = 1 := by decide +kernel
  have hn' : 1 ≤ toFloat nSHV := by
    rw [← hone]
    exact toFloat_mono (by norm_num) (by exact_mod_cast hn)
  rw [Int.floor_eq_zero_iff, Set.mem_Ico]
  constructor
  · rintro ⟨-, hlt⟩
    by_contra hle
    have hdiv : 1 ≤ toFloat c / toFloat nSHV := by
      rw [le_div_iff₀ (by linarith), one_mul]
      exact not_lt.mp hle
    have := toFloat_mono (by norm_num) hdiv
    rw [hone] at this
    linarith
  · intro hlt
    exact ⟨toFloat_nonneg (div_nonneg hc (by linarith)),
      (Rounding.representable_round (Nat.cast_nonneg c)).round_div_lt_one (by decide)
        (Rounding.representable_round (Nat.cast_nonneg nSHV)) hc hlt⟩

theorem exists_eq_foldr_max {l : List ℕ} (h : l ≠ []) : l.foldr max 0 ∈ l := by
  induction l with
  | nil => exact absurd rfl h
  | cons a l ih =>
    rw [List.foldr_cons]
    rcases eq_or_ne l [] with rfl | hl
    · simp
    · rcases max_choice a (l.foldr max 0) with hmax | hmax <;> rw [hmax]
      · exact List.mem_cons_self
      · exact List.mem_cons_of_mem _ (ih hl)

theorem tileShare_le_largestShare (nSHV : ℕ) {w : SHAVEWorkload} (hw : w ∈ layersPreSplit) :
    model.tileShare nSHV w ≤ model.largestShare layersPreSplit nSHV :=
  le_foldr_max (List.mem_map_of_mem hw)

/-- Some tile has the largest share. -/
theorem exists_tileShare_eq_largestShare (nSHV : ℕ) (hne : layersPreSplit ≠ []) :
    ∃ w ∈ layersPreSplit, model.tileShare nSHV w = model.largestShare layersPreSplit nSHV :=
  List.mem_map.mp (exists_eq_foldr_max (by simpa using hne))

/-- The errors of the result, told from the costs that go in. -/
theorem errorShows_iff (hne : layersPreSplit ≠ []) (hn : 1 ≤ nSHV)
    (hconv : model.ConvertsAll layersPreSplit nSHV) :
    model.ErrorShows layersPreSplit nSHV inputInDdr outputInDdr
      ↔ (∃ w ∈ layersPreSplit, model.KeepsError nSHV w)
        ∨ model.largestShare layersPreSplit nSHV = 0
        ∨ model.DmaFails layersPreSplit nSHV inputInDdr outputInDdr := by
  by_cases hthrow : ∃ w ∈ layersPreSplit, ∃ e, model.shave w = .error e
  · refine iff_of_true (.inl hthrow) (.inl ?_)
    obtain ⟨w, hw, e, he⟩ := hthrow
    exact ⟨w, hw, fun c hc => by rw [he] at hc; cases hc⟩
  have hok : ∀ w ∈ layersPreSplit, ∃ c, model.shave w = .ok c := fun w hw => by
    cases hc : model.shave w with
    | error e => exact absurd ⟨w, hw, e, hc⟩ hthrow
    | ok c => exact ⟨c, rfl⟩
  have hshare : ∀ w ∈ layersPreSplit, ∀ c, model.shave w = .ok c →
      (model.tileShare nSHV w : ℤ) = ⌊toFloat (toFloat c / toFloat nSHV)⌋ :=
    fun w hw c hc => tileShare_of_ok hn hc (hconv w hw c hc)
  have hkeeps : (nSHV = 1 ∧ ∃ w ∈ layersPreSplit, ∃ c, model.shave w = .ok c ∧ 4294966400 < c)
      ↔ ∃ w ∈ layersPreSplit, model.KeepsError nSHV w := by
    constructor
    · rintro ⟨hone, w, hw, c, hc, hlarge⟩
      exact ⟨w, hw, fun c' hc' => by rw [hc] at hc'; cases hc'; exact ⟨hone, hlarge⟩⟩
    · rintro ⟨w, hw, hkeeps⟩
      obtain ⟨c, hc⟩ := hok w hw
      exact ⟨(hkeeps c hc).1, w, hw, c, hc, (hkeeps c hc).2⟩
  have hzero : (∀ w ∈ layersPreSplit, ∀ c, model.shave w = .ok c → toFloat c < toFloat nSHV)
      ↔ model.largestShare layersPreSplit nSHV = 0 := by
    constructor
    · intro h
      obtain ⟨w, hw, hmax⟩ := model.exists_tileShare_eq_largestShare nSHV hne
      obtain ⟨c, hc⟩ := hok w hw
      have := (floor_quotient_eq_zero_iff hn).mpr (h w hw c hc)
      rw [← hshare w hw c hc, hmax] at this
      exact_mod_cast this
    · intro h w hw c hc
      have hle := model.tileShare_le_largestShare nSHV hw
      rw [← floor_quotient_eq_zero_iff hn, ← hshare w hw c hc]
      omega
  have hdma : ((∃ costs ∈ model.addedDmaCosts layersPreSplit inputInDdr outputInDdr,
        isErrorCode (costs.sum % 4294967296))
      ∨ ∃ w ∈ layersPreSplit, ∃ c, model.shave w = .ok c
        ∧ startErrorRange < ⌊toFloat (toFloat c / toFloat nSHV)⌋
          + model.transferTotal layersPreSplit inputInDdr outputInDdr)
      ↔ model.DmaFails layersPreSplit nSHV inputInDdr outputInDdr := by
    rw [DmaFails, addedTileCosts_eq, ← transferTotal]
    refine or_congr (by simp only [List.mem_map, exists_exists_and_eq_and]) ?_
    constructor
    · rintro ⟨w, hw, c, hc, hlarge⟩
      have hle := model.tileShare_le_largestShare nSHV hw
      rw [← hshare w hw c hc] at hlarge
      omega
    · intro hlarge
      obtain ⟨w, hw, hmax⟩ := model.exists_tileShare_eq_largestShare nSHV hne
      obtain ⟨c, hc⟩ := hok w hw
      refine ⟨w, hw, c, hc, ?_⟩
      rw [← hshare w hw c hc, hmax]
      exact_mod_cast hlarge
  rw [ErrorShows, or_iff_right hthrow, hkeeps, hzero, hdma]

/-- Errors come out for errors, and cycles without one, exactly if all costs convert and an error
    shows when there is one. -/
theorem layerPreSplitCycles_propagatesErrors_iff (hne : layersPreSplit ≠ []) (hn : 1 ≤ nSHV) :
    model.PropagatesErrors layersPreSplit nSHV inputInDdr outputInDdr
      ↔ model.ConvertsAll layersPreSplit nSHV
        ∧ (model.HasError layersPreSplit inputInDdr outputInDdr
          ↔ model.ErrorShows layersPreSplit nSHV inputInDdr outputInDdr) := by
  constructor
  · rintro ⟨cost, hcost, herror, hcycles⟩
    have hconv : model.ConvertsAll layersPreSplit nSHV := by
      intro w hw c hc hbad
      have hnone := mapM_tileCost_eq_none hw ((tileCost_eq_none_iff hn w).mpr ⟨c, hc, hbad⟩)
      obtain ⟨first, rest, rfl⟩ := List.exists_cons_of_ne_nil hne
      simp only [layerPreSplitCycles, hnone, Option.map_none] at hcost
      cases hcost
    obtain ⟨cost', hcost', hiff, -⟩ := layerPreSplitCycles_spec inputInDdr outputInDdr hne hn
      hconv
    obtain rfl : cost = cost' := by rw [hcost] at hcost'; exact Option.some.inj hcost'
    rw [← errorShows_iff hne hn hconv] at hiff
    refine ⟨hconv, fun h => hiff.mp (herror h), fun h => ?_⟩
    by_contra hno
    exact (hcycles hno).1 (hiff.mpr h)
  · rintro ⟨hconv, hshows⟩
    obtain ⟨cost, hcost, hiff, hsum⟩ := layerPreSplitCycles_spec inputInDdr outputInDdr hne hn
      hconv
    rw [← errorShows_iff hne hn hconv, ← hshows] at hiff
    refine ⟨cost, hcost, hiff.mpr, fun h => ?_⟩
    have hno : ¬ isErrorCode cost := fun herror => h (hiff.mp herror)
    refine ⟨hno, fun w hw c hc => ?_⟩
    have hle := model.tileShare_le_largestShare nSHV hw
    rw [← tileShare_of_ok hn hc (hconv w hw c hc), hsum hno]
    omega

/-- Every kernel takes 1000 cycles and every transfer 64. -/
def steady : VPULayerCostModel where
  shave := fun _ => .ok 1000
  computeDmaCycles := fun _ => 64
  shave_le := by rintro w c ⟨⟩; decide
  computeDmaCycles_le := fun _ => by decide

/-- No kernel is known, so every query is answered with an error code. -/
def unknownKernels : VPULayerCostModel where
  shave := fun _ => .ok errorShaveOperatorMissing
  computeDmaCycles := fun _ => 64
  shave_le := by rintro w c ⟨⟩; decide
  computeDmaCycles_le := fun _ => by decide

theorem layerPreSplitCycles_propagatesErrors_steady :
    steady.PropagatesErrors
      [⟨"sigmoid", .npu_5_0, [{}], [{}], [], [], .__size, "", false⟩,
        ⟨"sigmoid", .npu_5_0, [{}], [{}], [], [], .__size, "", false⟩] 2 true true := by
  refine (layerPreSplitCycles_propagatesErrors_iff (by decide) (by decide)).mpr
    ⟨fun w _ c _ hbad => absurd hbad.1 (by decide), iff_of_false ?_ ?_⟩
  · rintro (⟨w, -, hfails⟩ | hdma)
    · exact absurd (hfails 1000 rfl) (by decide)
    · revert hdma
      decide
  · rintro (⟨w, -, e, he⟩ | ⟨hone, -⟩ | hzero | hdma | ⟨w, -, c, hc, hlarge⟩)
    · cases he
    · exact absurd hone (by decide)
    · exact absurd (hzero _ List.mem_cons_self 1000 rfl) (by decide +kernel)
    · revert hdma
      decide
    · cases hc
      revert hlarge
      decide +kernel

/-- Two units halve an error code, and the result passes for a number of cycles. -/
theorem layerPreSplitCycles_not_propagatesErrors :
    ¬ ∀ (model : VPULayerCostModel) (layersPreSplit : List SHAVEWorkload) (nSHV : ℕ)
      (inputInDdr outputInDdr : Bool), layersPreSplit ≠ [] → 1 ≤ nSHV →
      model.PropagatesErrors layersPreSplit nSHV inputInDdr outputInDdr := by
  intro h
  obtain ⟨cost, hcost, herror, -⟩ := h unknownKernels
    [⟨"unknown", .npu_5_0, [{}], [{}], [], [], .__size, "", false⟩] 2 false false
    (by decide) (by decide)
  have hhalf : unknownKernels.layerPreSplitCycles
      [⟨"unknown", .npu_5_0, [{}], [{}], [], [], .__size, "", false⟩] 2 false false
      = some 2147483648 := by decide +kernel
  rw [hhalf] at hcost
  obtain rfl := Option.some.inj hcost
  refine absurd (herror (.inl ⟨_, List.mem_cons_self, ?_⟩)) (by decide)
  rintro c ⟨⟩
  decide

end VPULayerCostModel

end Vpunn
