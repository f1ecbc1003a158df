import Mathlib.Data.Fin.Basic
import Vpunn.Schedule
import Vpunn.Layer.ShavePreSplit
import Vpunn.Layer.SplitAcrossTiles

/-! The cost of a DPU layer (`VPULayerCostModel::layer_cycles`,
    `VPULayerCostModel::layer_pre_split_cycles`).

    A layer is sanitized, checked and split, or comes as tiles that are sanitized and checked one by
    one. The largest cost of a tile is taken, and the costs of the DMA transfers are added. The
    validators, the split of a tile into workloads and the model of a transfer are parameters. -/

namespace Vpunn
open MachineInt Cycles DPUWorkload ListSchedule

/-- What the layer model asks about a DPU layer. The checks give the value of a report, which is `0`
    for a layer that is usable; the split of a tile may throw. -/
structure DPULayerCostModel where
  checkCompleteLayerConsistency : DPULayer → ISIStrategy → ℕ → VPUTilingStrategy → ℕ
  checkSplitLayerConsistency : DPULayer → ℕ
  intraTileSplit : DPULayer → ℕ → Except String ℕ
  weightFootprint : DPULayer → ℕ
  computeDmaCycles : DMATransfer1D → ℕ
  dmaPorts : VPUDevice → ℕ

namespace DPULayerCostModel

variable (model : DPULayerCostModel)

/-- The value of the report on a list of tiles, which the first tile that is not usable decides. -/
def checkTiles : List DPULayer → ℕ
  | [] => 0
  | tile :: tiles =>
    if model.checkSplitLayerConsistency tile = 0 then checkTiles tiles
    else model.checkSplitLayerConsistency tile

/-- The cost of one tile, where an exception is an error as well. -/
def tileCost (nDPU : ℕ) (tile : DPULayer) : ℕ :=
  match model.intraTileSplit tile nDPU with
  | .ok cycles => cycles
  | .error _ => errorTileSplitException

def dmaCycles (device : VPUDevice) (direction : MemoryDirection) (t : VPUTensor) : ℕ :=
  model.computeDmaCycles ⟨device, i32 t.size, direction⟩

def oneTileWeightsPrefetching (layer : DPULayer) : ℕ :=
  let weightPlusTableTensor : VPUTensor := { shape := ⟨u32 (model.weightFootprint layer), 1, 1, 1⟩ }
  model.dmaCycles layer.device .ddr2cmx weightPlusTableTensor

/-- Adds the transfers of the weights on all ports, unless the weights are there already. -/
def addWeights (device : VPUDevice) (tiles : List DPULayer) (prefetching : Bool) (cost : ℕ) : ℕ :=
  if prefetching then cost
  else costAdder cost
    (dpuSchedule (model.dmaPorts device) (tiles.map model.oneTileWeightsPrefetching) 0)

/-! ### A layer that is split here -/

/-- `layer_cycles` from the sanitized layer on. -/
def sanitizedLayerCycles (layer : DPULayer) (strategy : VPUTilingStrategy) (nDPU nTiles : ℕ)
    (inputInDdr outputInDdr prefetching : Bool) : Except String ℕ := do
  let unsplitResult := model.checkCompleteLayerConsistency layer
    (mapTilingStrategiesToWorkload strategy) nTiles strategy
  if unsplitResult ≠ 0 then
    return unsplitResult
  let tilesLayer ← layer.splitAcrossTiles strategy nTiles
  let postResult := if tilesLayer = [] then errorTileOutput else model.checkTiles tilesLayer
  if postResult ≠ 0 then
    return postResult
  let cost := extractLargestTime (tilesLayer.map (model.tileCost nDPU))
  if isErrorCode cost then
    return cost
  let cost := model.addWeights layer.device tilesLayer prefetching cost
  let cost :=
    if inputInDdr then costAdder cost (model.dmaCycles layer.device .ddr2cmx layer.inputs) else cost
  return if outputInDdr then costAdder cost (model.dmaCycles layer.device .cmx2ddr layer.outputs)
    else cost

/-- The result of a call, and the layer that the caller has afterwards. -/
def layerCycles (layer : DPULayer) (strategy : VPUTilingStrategy) (nDPU nTiles : ℕ)
    (inputInDdr outputInDdr prefetching : Bool) : Except String ℕ × DPULayer :=
  let layer := layer.swizzlingTurnOff
  if nTiles = 0 then (.ok errorL2InvalidParameters, layer)
  else
    let layer := layer.operationSanitisation.sanitizePreconditions
    (model.sanitizedLayerCycles layer strategy nDPU nTiles inputInDdr outputInDdr prefetching,
      layer)

/-! ### A layer that comes split -/

/-- Adds the transfers of all tiles, where there are some. -/
def addDma (device : VPUDevice) (direction : MemoryDirection) (inDdr : Bool)
    (tensors : List VPUTensor) (cost : ℕ) : ℕ :=
  if inDdr then
    costAdder cost ((tensors.map (model.dmaCycles device direction)).foldl costAdder 0)
  else cost

/-- `layers_pre_split[0].device` -/
def firstDevice (layersPreSplit : List DPULayer) : VPUDevice :=
  (layersPreSplit.head?.map (·.device)).getD .__size

def layerPreSplitCycles (layersPreSplit : List DPULayer) (nDPU : ℕ)
    (inputInDdr outputInDdr prefetching : Bool) : ℕ :=
  let device := firstDevice layersPreSplit
  if layersPreSplit = [] then errorL2InvalidParameters
  else
    let tilesLayer := layersPreSplit.map sanitize
    let postResult := model.checkTiles tilesLayer
    if postResult ≠ 0 then postResult
    else
      let cost := extractLargestTime (tilesLayer.map (model.tileCost nDPU))
      if isErrorCode cost then cost
      else
        model.addDma device .cmx2ddr outputInDdr (tilesLayer.map (·.outputs))
          (model.addDma device .ddr2cmx inputInDdr (tilesLayer.map (·.inputs))
            (model.addWeights device tilesLayer prefetching cost))

end DPULayerCostModel

namespace DPULayerCostModel

variable {model : DPULayerCostModel}

/-! ### The cost of tiles -/

section Tiles

variable (model)

/-- The weight transfers that are not done yet. -/
def weightCosts (prefetching : Bool) (tiles : List DPULayer) : List ℕ :=
  if prefetching then [] else tiles.map model.oneTileWeightsPrefetching

/-- The transfers of tensors that are in DDR. -/
def ddrCosts (device : VPUDevice) (direction : MemoryDirection) (inDdr : Bool)
    (tensors : List VPUTensor) : List ℕ :=
  if inDdr then tensors.map (model.dmaCycles device direction) else []

theorem addDma_adds (device : VPUDevice) (direction : MemoryDirection) (inDdr : Bool)
    (tensors : List VPUTensor) :
    Adds (model.addDma device direction inDdr tensors)
      (∃ c ∈ model.ddrCosts device direction inDdr tensors, isErrorCode c)
      (model.ddrCosts device direction inDdr tensors).sum := by
  unfold addDma ddrCosts
  cases inDdr with
  | false => simpa using Adds.nothing
  | true => exact Adds.costAdder_foldl _

theorem addWeights_adds (device : VPUDevice) (tiles : List DPULayer) (prefetching : Bool)
    (hports : 1 ≤ model.dmaPorts device) {finish : Fin (model.dmaPorts device) → ℕ}
    (h : Schedules (fun _ => 0) (model.weightCosts prefetching tiles) finish) :
    Adds (model.addWeights device tiles prefetching)
      (∃ c ∈ model.weightCosts prefetching tiles, isErrorCode c) (Finset.univ.sup finish) := by
  unfold addWeights
  cases prefetching with
  | true =>
    cases h
    have hsup : (Finset.univ.sup fun _ : Fin (model.dmaPorts device) => 0) = 0 := Finset.sup_bot _
    simpa [weightCosts, hsup] using Adds.nothing
  | false =>
    have : Nonempty (Fin (model.dmaPorts device)) := ⟨⟨0, hports⟩⟩
    obtain ⟨hiff, heq⟩ := dpuSchedule_spec h
    rw [Fintype.card_fin] at hiff heq
    exact Adds.costAdder hiff heq

theorem checkTiles_eq_zero_iff (tiles : List DPULayer) :
    model.checkTiles tiles = 0 ↔ ∀ t ∈ tiles, model.checkSplitLayerConsistency t = 0 := by
  induction tiles with
  | nil => simp [checkTiles]
  | cons tile tiles ih =>
    rw [checkTiles, List.forall_mem_cons]
    split_ifs with h
    · simp [h, ih]
    · simp [h]

/-! ### The query on tiles -/

variable (layersPreSplit : List DPULayer) (nDPU : ℕ) (inputInDdr outputInDdr prefetching : Bool)

/-- The costs of the sanitized tiles. -/
def tilesCost : List ℕ := (layersPreSplit.map sanitize).map (model.tileCost nDPU)

/-- The weight transfers of the sanitized tiles that are not done yet. -/
def weightDma : List ℕ := model.weightCosts prefetching (layersPreSplit.map sanitize)

def inputDma : List ℕ :=
  model.ddrCosts (firstDevice layersPreSplit) .ddr2cmx inputInDdr
    ((layersPreSplit.map sanitize).map (·.inputs))

def outputDma : List ℕ :=
  model.ddrCosts (firstDevice layersPreSplit) .cmx2ddr outputInDdr
    ((layersPreSplit.map sanitize).map (·.outputs))

/-- Every transfer that the flags ask for. -/
def relevantDma : List ℕ :=
  model.weightDma layersPreSplit prefetching ++ model.inputDma layersPreSplit inputInDdr
    ++ model.outputDma layersPreSplit outputInDdr

theorem layerPreSplitCycles_eq (hne : layersPreSplit ≠ [])
    (hvalid : ∀ t ∈ layersPreSplit, model.checkSplitLayerConsistency t.sanitize = 0)
    (hno : ¬ isErrorCode (extractLargestTime (model.tilesCost layersPreSplit nDPU))) :
    model.layerPreSplitCycles layersPreSplit nDPU inputInDdr outputInDdr prefetching
      = model.addDma (firstDevice layersPreSplit) .cmx2ddr outputInDdr
          ((layersPreSplit.map sanitize).map (·.outputs))
          (model.addDma (firstDevice layersPreSplit) .ddr2cmx inputInDdr
            ((layersPreSplit.map sanitize).map (·.inputs))
            (model.addWeights (firstDevice layersPreSplit) (layersPreSplit.map sanitize) prefetching
              (extractLargestTime (model.tilesCost layersPreSplit nDPU)))) := by
  have hcheck : model.checkTiles (layersPreSplit.map sanitize) = 0 :=
    (model.checkTiles_eq_zero_iff _).mpr (List.forall_mem_map.mpr hvalid)
  rw [tilesCost] at hno ⊢
  simp only [layerPreSplitCycles, hne, if_false, hcheck, ne_eq, not_true_eq_false, hno]

theorem layerPreSplitCycles_of_tile_error (hne : layersPreSplit ≠ [])
    (hvalid : ∀ t ∈ layersPreSplit, model.checkSplitLayerConsistency t.sanitize = 0)
    (herror : isErrorCode (extractLargestTime (model.tilesCost layersPreSplit nDPU))) :
    isErrorCode
      (model.layerPreSplitCycles layersPreSplit nDPU inputInDdr outputInDdr prefetching) := by
  have hcheck : model.checkTiles (layersPreSplit.map sanitize) = 0 :=
    (model.checkTiles_eq_zero_iff _).mpr (List.forall_mem_map.mpr hvalid)
  rw [tilesCost] at herror
  simp only [layerPreSplitCycles, hne, if_false, hcheck, ne_eq, not_true_eq_false, herror, if_true]

end Tiles

theorem foldr_max_eq_zero_iff (costs : List ℕ) : costs.foldr max 0 = 0 ↔ ∀ c ∈ costs, c = 0 := by
  induction costs with
  | nil => simp
  | cons c costs ih => rw [List.foldr_cons, Nat.max_eq_zero_iff, ih, List.forall_mem_cons]

/-- The largest cost of a tile, with the time that the ports need for the weights and all costs of
    inputs and outputs, as far as they are asked for. -/
def totalCost (model : DPULayerCostModel) (layersPreSplit : List DPULayer) (nDPU : ℕ)
    (inputInDdr outputInDdr : Bool) (weightsDone : ℕ) : ℕ :=
  (model.tilesCost layersPreSplit nDPU).foldr max 0 + weightsDone
    + (model.inputDma layersPreSplit inputInDdr).sum
    + (model.outputDma layersPreSplit outputInDdr).sum

/-- The query is an error exactly for an error of a tile, for nothing but zeros, for an error of a
    transfer that is asked for, or for a total in the error range. Otherwise it is that total, where
    the weights go to the ports in order, each to one that is free first. -/
theorem layerPreSplitCycles_total (model : DPULayerCostModel) (layersPreSplit : List DPULayer)
    (nDPU : ℕ) (inputInDdr outputInDdr prefetching : Bool) (hne : layersPreSplit ≠ [])
    (hvalid : ∀ t ∈ layersPreSplit, model.checkSplitLayerConsistency t.sanitize = 0)
    (hports : 1 ≤ model.dmaPorts (firstDevice layersPreSplit)) :
    ∃ finish : Fin (model.dmaPorts (firstDevice layersPreSplit)) → ℕ,
      Schedules (fun _ => 0) (model.weightDma layersPreSplit prefetching) finish
      ∧ (isErrorCode
            (model.layerPreSplitCycles layersPreSplit nDPU inputInDdr outputInDdr prefetching)
          ↔ (∃ c ∈ model.tilesCost layersPreSplit nDPU, isErrorCode c)
            ∨ (∀ c ∈ model.tilesCost layersPreSplit nDPU, c = 0)
            ∨ (∃ c ∈ model.relevantDma layersPreSplit inputInDdr outputInDdr prefetching,
                isErrorCode c)
            ∨ startErrorRange < model.totalCost layersPreSplit nDPU inputInDdr outputInDdr
                (Finset.univ.sup finish))
      ∧ (¬ isErrorCode
            (model.layerPreSplitCycles layersPreSplit nDPU inputInDdr outputInDdr prefetching) →
          model.layerPreSplitCycles layersPreSplit nDPU inputInDdr outputInDdr prefetching
            = model.totalCost layersPreSplit nDPU inputInDdr outputInDdr
                (Finset.univ.sup finish)) := by
  have : Nonempty (Fin (model.dmaPorts (firstDevice layersPreSplit))) := ⟨⟨0, hports⟩⟩
  obtain ⟨finish, hfinish⟩ := exists_schedules
    (fun _ : Fin (model.dmaPorts (firstDevice layersPreSplit)) => 0)
    (model.weightDma layersPreSplit prefetching)
  refine ⟨finish, hfinish, ?_⟩
  have hadds := ((model.addDma_adds (firstDevice layersPreSplit) .cmx2ddr outputInDdr
    ((layersPreSplit.map sanitize).map (·.outputs))).comp
      (model.addDma_adds (firstDevice layersPreSplit) .ddr2cmx inputInDdr
        ((layersPreSplit.map sanitize).map (·.inputs)))).comp
      (model.addWeights_adds _ _ prefetching hports hfinish)
  obtain ⟨hlargestIff, hlargest⟩ := extractLargestTime_spec (model.tilesCost layersPreSplit nDPU)
  have hzero : (model.tilesCost layersPreSplit nDPU).foldr max 0 = 0
      ↔ ∀ c ∈ model.tilesCost layersPreSplit nDPU, c = 0 := foldr_max_eq_zero_iff _
  have hrelevant : (∃ c ∈ model.relevantDma layersPreSplit inputInDdr outputInDdr prefetching,
      isErrorCode c) ↔ (∃ c ∈ model.weightDma layersPreSplit prefetching, isErrorCode c)
        ∨ (∃ c ∈ model.inputDma layersPreSplit inputInDdr, isErrorCode c)
        ∨ ∃ c ∈ model.outputDma layersPreSplit outputInDdr, isErrorCode c := by
    simp only [relevantDma, List.mem_append, or_and_right, exists_or, or_assoc]
  rw [hzero] at hlargestIff
  by_cases herror : isErrorCode (extractLargestTime (model.tilesCost layersPreSplit nDPU))
  · have hresult := layerPreSplitCycles_of_tile_error model layersPreSplit nDPU inputInDdr
      outputInDdr prefetching hne hvalid herror
    refine ⟨⟨fun _ => ?_, fun _ => hresult⟩, fun hno => absurd hresult hno⟩
    exact (hlargestIff.mp herror).imp_right .inl
  · obtain ⟨htiles, hzeros⟩ := not_or.mp (fun h => herror (hlargestIff.mpr h))
    rw [or_iff_right htiles, or_iff_right hzeros,
      layerPreSplitCycles_eq model layersPreSplit nDPU inputInDdr outputInDdr prefetching hne hvalid
        herror, hrelevant]
    have hiff := hadds.isErrorCode_iff herror
    have heq := @Adds.eq_add _ _ _ hadds (extractLargestTime (model.tilesCost layersPreSplit nDPU))
    rw [← add_assoc, ← add_assoc] at hiff heq
    rw [totalCost, ← hlargest herror]
    exact ⟨hiff, heq⟩

/-- Every tile is valid and takes 1000 cycles, and every transfer takes 64. -/
def steady : DPULayerCostModel where
  checkCompleteLayerConsistency := fun _ _ _ _ => 0
  checkSplitLayerConsistency := fun _ => 0
  intraTileSplit := fun _ _ => .ok 1000
  weightFootprint := fun _ => 2304
  computeDmaCycles := fun _ => 64
  dmaPorts := fun _ => 2

/-- A convolution of a 32×32 image with 16 channels. -/
def convolution16 : DPULayer where
  device := .npu_5_0
  op := .convolution
  inputs := { shape := ⟨32, 32, 16, 1⟩ }
  outputs := { shape := ⟨32, 32, 16, 1⟩ }
  kernels := ⟨3, 3⟩
  strides := ⟨1, 1⟩
  padding := ⟨1, 1, 1, 1⟩
  executionOrder := .cuboid16x16

theorem layerPreSplitCycles_total_steady :
    ∃ finish : Fin (steady.dmaPorts (firstDevice [convolution16, convolution16])) → ℕ,
      Schedules (fun _ => 0) (steady.weightDma [convolution16, convolution16] false) finish
      ∧ (isErrorCode
            (steady.layerPreSplitCycles [convolution16, convolution16] 1 true true false)
          ↔ (∃ c ∈ steady.tilesCost [convolution16, convolution16] 1, isErrorCode c)
            ∨ (∀ c ∈ steady.tilesCost [convolution16, convolution16] 1, c = 0)
            ∨ (∃ c ∈ steady.relevantDma [convolution16, convolution16] true true false,
                isErrorCode c)
            ∨ startErrorRange < steady.totalCost [convolution16, convolution16] 1 true true
                (Finset.univ.sup finish))
      ∧ (¬ isErrorCode
            (steady.layerPreSplitCycles [convolution16, convolution16] 1 true true false) →
          steady.layerPreSplitCycles [convolution16, convolution16] 1 true true false
            = steady.totalCost [convolution16, convolution16] 1 true true
                (Finset.univ.sup finish)) :=
  layerPreSplitCycles_total steady [convolution16, convolution16] 1 true true false (by decide)
    (fun _ _ => rfl) (by decide)

/-! ### Both ways -/

theorem map_sanitize_tiles {layer : DPULayer} {strategy : VPUTilingStrategy} {nTiles : ℕ}
    {tiles : List DPULayer} (h : layer.sanitize.splitAcrossTiles strategy nTiles = .ok tiles) :
    tiles.map sanitize = tiles :=
  (List.map_congr_left fun _ ht => sanitize_tile h ht).trans (List.map_id _)

theorem firstDevice_tiles {layer : DPULayer} {strategy : VPUTilingStrategy} {nTiles : ℕ}
    {tiles : List DPULayer} (h : layer.splitAcrossTiles strategy nTiles = .ok tiles)
    (hne : tiles ≠ []) : firstDevice tiles = layer.device := by
  obtain ⟨first, rest, rfl⟩ := List.exists_cons_of_ne_nil hne
  exact (sanitizesAlike_splitAcrossTiles h first List.mem_cons_self).device

/-- A layer whose activations stay in CMX costs what its tiles cost as a layer that comes split. If
    there are no tiles, both queries end in an error. -/
theorem layerCycles_eq_layerPreSplitCycles (model : DPULayerCostModel) (layer : DPULayer)
    (strategy : VPUTilingStrategy) (nDPU nTiles : ℕ) (prefetching : Bool) (hn : 1 ≤ nTiles)
    (haccept : model.checkCompleteLayerConsistency layer.sanitize
      (mapTilingStrategiesToWorkload strategy) nTiles strategy = 0)
    {tiles : List DPULayer} (hsplit : layer.sanitize.splitAcrossTiles strategy nTiles = .ok tiles) :
    (tiles ≠ [] →
      (model.layerCycles layer strategy nDPU nTiles false false prefetching).1
        = .ok (model.layerPreSplitCycles tiles nDPU false false prefetching))
    ∧ (tiles = [] →
      ∃ cost, (model.layerCycles layer strategy nDPU nTiles false false prefetching).1 = .ok cost
        ∧ isErrorCode cost
        ∧ isErrorCode (model.layerPreSplitCycles tiles nDPU false false prefetching)) := by
  have hlayer : (model.layerCycles layer strategy nDPU nTiles false false prefetching).1
      = model.sanitizedLayerCycles layer.sanitize strategy nDPU nTiles false false prefetching := by
    rw [layerCycles, if_neg (by omega)]
    rfl
  rw [hlayer]
  constructor
  · intro hne
    have hdevice := firstDevice_tiles hsplit hne
    have hmap := map_sanitize_tiles hsplit
    simp only [sanitizedLayerCycles, layerPreSplitCycles, haccept, hsplit, hne, hmap, hdevice, addDma,
      Bool.false_eq_true, if_false, ne_eq, not_true_eq_false, bind, Except.bind, pure, Except.pure]
    split_ifs <;> rfl
  · rintro rfl
    have hempty : model.layerPreSplitCycles [] nDPU false false prefetching
        = errorL2InvalidParameters := by simp only [layerPreSplitCycles, if_true]
    refine ⟨errorTileOutput, ?_, by decide, by rw [hempty]; decide⟩
    simp only [sanitizedLayerCycles, haccept, hsplit]
    rfl

theorem layerCycles_eq_layerPreSplitCycles_convolution16 :
    (steady.layerCycles convolution16 .sohOverlapped 1 2 false false false).1
      = .ok (steady.layerPreSplitCycles (convolution16.sanitize.sohOverlappedInputs 2 false) 1 false
        false false) :=
  (layerCycles_eq_layerPreSplitCycles steady convolution16 .sohOverlapped 1 2 false (by decide) rfl
    rfl).1 (by decide +kernel)

end DPULayerCostModel

end Vpunn
