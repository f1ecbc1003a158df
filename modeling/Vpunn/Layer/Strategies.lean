import Mathlib.Order.Bounds.Basic
import Vpunn.Lib.Runs
import Vpunn.Layer.LayerCycles

/-! Several queries on one layer (`VPULayerCostModel::Layer` without a strategy,
    `VPULayerCostModel::LayerBatched`).

    A query changes the layer that it is given. What it returns depends on the sanitized layer only,
    and no query changes what a layer is sanitized to, so the changes do not show in any result. -/

namespace Vpunn
open Cycles DPUWorkload

/-- The strategies that are tried on a device, whether they have a split or not. -/
def getValidTilingStrategies : VPUDevice → List VPUTilingStrategy
  | .vpu_2_0 | .vpu_2_1 | .vpu_2_7 => [.none, .sohOverlapped, .sok]
  | .vpu_4_0 | .npu_5_0 | .npu_5_0_w =>
    [.none, .sohOverlapped, .sok, .sow, .sohw, .sohk, .sohoKSwitch]
  | _ => []

/-- The arguments of a query besides the layer. -/
structure LayerCall where
  strategy : VPUTilingStrategy
  nDPU : ℕ
  nTiles : ℕ
  inputInDdr : Bool := false
  outputInDdr : Bool := false
  prefetching : Bool := true
  deriving DecidableEq, Repr

/-- An element of a batch: a layer with its arguments. -/
structure LayerBatchElementInfo where
  layer : DPULayer
  call : LayerCall
  deriving DecidableEq, Repr

structure BatchCostResult where
  isValid : Bool := false
  costs : List ℕ := []
  deriving DecidableEq, Repr

namespace DPULayerCostModel

variable (model : DPULayerCostModel)

/-- `Layer` with a strategy -/
def layer (call : LayerCall) (layer : DPULayer) : Except String ℕ × DPULayer :=
  model.layerCycles layer call.strategy call.nDPU call.nTiles call.inputInDdr call.outputInDdr
    call.prefetching

/-- The costs of a layer with one strategy after the other, until one throws. -/
def configurationCosts (call : LayerCall) :
    List VPUTilingStrategy → DPULayer → Except String (List ℕ) × DPULayer
  | [], layer => (.ok [], layer)
  | strategy :: strategies, layer =>
    match model.layer { call with strategy := strategy } layer with
    | (.error e, layer) => (.error e, layer)
    | (.ok configurationCost, layer) =>
      let (costs, layer) := configurationCosts call strategies layer
      (costs.map (configurationCost :: ·), layer)

/-- The least cost over some strategies. Without costs there is no element to return. -/
def bestOf (call : LayerCall) (strategies : List VPUTilingStrategy) (layer : DPULayer) :
    Except String (Option ℕ) × DPULayer :=
  let (costs, layer) := model.configurationCosts call strategies layer
  (costs.map List.min?, layer)

/-- `Layer` without a strategy; the strategy in the arguments is not used. -/
def bestLayer (call : LayerCall) (layer : DPULayer) : Except String (Option ℕ) × DPULayer :=
  model.bestOf call (getValidTilingStrategies layer.device) layer

section Batch

variable {ι : Type*} [DecidableEq ι]

/-- The query for one element of a batch, which `i` refers to. -/
def batchElement (i : ι) (elements : ι → LayerBatchElementInfo) :
    ℕ × (ι → LayerBatchElementInfo) :=
  let cfg := elements i
  let (result, layer) := model.layer cfg.call cfg.layer
  let elements := Function.update elements i { cfg with layer := layer }
  match result with
  | .ok cost => (cost, elements)
  | .error _ => (errorTileSplitException, elements)

/-- References may name the same element several times. -/
def layerBatched (layers : List ι) (elements : ι → LayerBatchElementInfo) :
    BatchCostResult × (ι → LayerBatchElementInfo) :=
  if layers = [] then ({}, elements)
  else
    let (costs, elements) := Runs.run model.batchElement layers elements
    ({ isValid := costs.all fun c => ¬ isErrorCode c, costs := costs }, elements)

end Batch

/-! ### What a query depends on and what it keeps -/

variable {model} {call : LayerCall} {l l' : DPULayer}

theorem layer_fst_congr (h : l.sanitize = l'.sanitize) :
    (model.layer call l).1 = (model.layer call l').1 := by
  unfold layer layerCycles
  dsimp only
  split_ifs
  · rfl
  · exact congrArg (fun s => model.sanitizedLayerCycles s call.strategy call.nDPU call.nTiles
      call.inputInDdr call.outputInDdr call.prefetching) h

/-- On every path the layer is left with all of the changes or with the first of them. -/
theorem sanitize_layer_snd : (model.layer call l).2.sanitize = l.sanitize := by
  unfold layer layerCycles
  dsimp only
  split_ifs
  · exact sanitize_swizzlingTurnOff l
  · exact sanitize_sanitize l

theorem layer_spec (h : l'.sanitize = l.sanitize) (call : LayerCall) :
    (model.layer call l').1 = (model.layer call l).1
      ∧ (model.layer call l').2.sanitize = l.sanitize :=
  ⟨layer_fst_congr h, sanitize_layer_snd.trans h⟩

/-! ### The best strategy -/

theorem splitAcrossTiles_ok {strategy : VPUTilingStrategy} (h : strategy ≠ .__size) (nTiles : ℕ) :
    ∃ tiles, l.splitAcrossTiles strategy nTiles = .ok tiles := by
  cases strategy <;> first | exact ⟨_, rfl⟩ | exact absurd rfl h

/-- Only a value that is no strategy throws. -/
theorem layer_ok {call : LayerCall} (h : call.strategy ≠ .__size) :
    ∃ cost, (model.layer call l).1 = .ok cost := by
  unfold layer layerCycles
  dsimp only
  split_ifs
  · exact ⟨_, rfl⟩
  · obtain ⟨tiles, htiles⟩ := splitAcrossTiles_ok
      (l := l.swizzlingTurnOff.operationSanitisation.sanitizePreconditions) h call.nTiles
    simp only [sanitizedLayerCycles, htiles, bind, Except.bind, pure, Except.pure]
    split_ifs <;> exact ⟨_, rfl⟩

theorem configurationCosts_fst {f : VPUTilingStrategy → ℕ} (strategies : List VPUTilingStrategy)
    (hf : ∀ s ∈ strategies, (model.layer { call with strategy := s } l).1 = .ok (f s))
    (h : l'.sanitize = l.sanitize) :
    (model.configurationCosts call strategies l').1 = .ok (strategies.map f) := by
  induction strategies generalizing l' with
  | nil => rfl
  | cons s strategies ih =>
    rw [List.forall_mem_cons] at hf
    obtain ⟨hresult, hnext⟩ : (model.layer { call with strategy := s } l').1
          = (model.layer { call with strategy := s } l).1
        ∧ (model.layer { call with strategy := s } l').2.sanitize = l.sanitize :=
      layer_spec h _
    have hstep : model.layer { call with strategy := s } l'
        = (.ok (f s), (model.layer { call with strategy := s } l').2) :=
      Prod.ext (hresult.trans hf.1) rfl
    rw [configurationCosts, hstep]
    simp only [ih hf.2 hnext, List.map_cons]
    rfl

theorem ne_size_of_mem_valid {device : VPUDevice} {s : VPUTilingStrategy}
    (h : s ∈ getValidTilingStrategies device) : s ≠ .__size := by
  rintro rfl
  cases device <;> simp [getValidTilingStrategies] at h

/-- In any order, the valid strategies give the least cost of the original layer. -/
theorem bestOf_iff (call : LayerCall) (l : DPULayer) (cost : ℕ)
    {strategies : List VPUTilingStrategy} (hperm : strategies.Perm (getValidTilingStrategies l.device)) :
    (model.bestOf call strategies l).1 = .ok (some cost)
      ↔ IsLeast {c | ∃ s ∈ getValidTilingStrategies l.device,
          (model.layer { call with strategy := s } l).1 = .ok c} cost := by
  have hok : ∀ s : VPUTilingStrategy, ∃ c, s ∈ getValidTilingStrategies l.device →
      (model.layer { call with strategy := s } l).1 = .ok c := by
    intro s
    by_cases hs : s ∈ getValidTilingStrategies l.device
    · obtain ⟨c, hc⟩ : ∃ c, (model.layer { call with strategy := s } l).1 = .ok c :=
        layer_ok (ne_size_of_mem_valid hs)
      exact ⟨c, fun _ => hc⟩
    · exact ⟨0, fun h => absurd h hs⟩
  choose f hf using hok
  have hcosts : (model.configurationCosts call strategies l).1 = .ok (strategies.map f) :=
    configurationCosts_fst strategies (fun s hs => hf s (hperm.mem_iff.mp hs)) rfl
  have hset : ∀ c, (∃ s ∈ getValidTilingStrategies l.device,
      (model.layer { call with strategy := s } l).1 = .ok c) ↔ c ∈ strategies.map f := by
    intro c
    rw [List.mem_map]
    refine exists_congr fun s => ?_
    rw [hperm.mem_iff]
    refine and_congr_right fun hs => ?_
    rw [hf s hs, Except.ok.injEq]
  simp only [bestOf, hcosts, hset]
  rw [show Except.map List.min? (.ok (strategies.map f) : Except String (List ℕ))
    = .ok (strategies.map f).min? from rfl, Except.ok.injEq, List.min?_eq_some_iff]
  rfl

/-! ### Batches -/

section Batch

variable {ι : Type*} [DecidableEq ι] {elements elements' : ι → LayerBatchElementInfo}

/-- What a single query on the original layer of an element comes to in a batch. -/
def elementCost (model : DPULayerCostModel) (cfg : LayerBatchElementInfo) : ℕ :=
  match (model.layer cfg.call cfg.layer).1 with
  | .ok cost => cost
  | .error _ => errorTileSplitException

/-- The elements have their arguments still, and layers that are sanitized to the same. -/
def ElementsAlike (elements' elements : ι → LayerBatchElementInfo) : Prop :=
  ∀ i, (elements' i).call = (elements i).call
    ∧ (elements' i).layer.sanitize = (elements i).layer.sanitize

theorem batchElement_eq (i : ι) (elements : ι → LayerBatchElementInfo) :
    model.batchElement i elements = (elementCost model (elements i),
      Function.update elements i
        ⟨(model.layer (elements i).call (elements i).layer).2, (elements i).call⟩) := by
  unfold batchElement elementCost
  rcases hres : model.layer (elements i).call (elements i).layer with ⟨_ | _, layer⟩ <;>
    simp only [hres]

theorem batchElement_spec (h : ElementsAlike elements' elements) (i : ι) :
    (model.batchElement i elements').1 = elementCost model (elements i)
      ∧ ElementsAlike (model.batchElement i elements').2 elements := by
  obtain ⟨hcall, hlayer⟩ := h i
  obtain ⟨hresult, hnext⟩ : (model.layer (elements i).call (elements' i).layer).1
        = (model.layer (elements i).call (elements i).layer).1
      ∧ (model.layer (elements i).call (elements' i).layer).2.sanitize
        = (elements i).layer.sanitize :=
    layer_spec hlayer _
  rw [batchElement_eq, elementCost, elementCost, hcall, hresult]
  refine ⟨rfl, fun j => ?_⟩
  rcases eq_or_ne j i with rfl | hne
  · simpa using hnext
  · simpa [hne] using h j

theorem layerBatched_costs (layers : List ι) (elements : ι → LayerBatchElementInfo) :
    (model.layerBatched layers elements).1.costs
      = layers.map fun i => elementCost model (elements i) := by
  unfold layerBatched
  split_ifs with hnil
  · rw [hnil]; rfl
  · exact Runs.run_eq_map (fun elements' => ElementsAlike elements' elements)
      (fun i _ _ h => batchElement_spec h i) fun _ => ⟨rfl, rfl⟩

end Batch

/-- In any sequence of queries on one layer, each returns what it returns for the layer as it was in
    the beginning. So the best strategy has the least cost of the original layer, in any order, and
    a batch has the costs of its original elements, however often they occur. -/
theorem layer_changes_invisible (model : DPULayerCostModel) :
    (∀ (calls : List LayerCall) (l : DPULayer),
      (Runs.run model.layer calls l).1 = calls.map fun call => (model.layer call l).1)
    ∧ (∀ (call : LayerCall) (l : DPULayer) (cost : ℕ),
      (model.bestLayer call l).1 = .ok (some cost)
        ↔ IsLeast {c | ∃ s ∈ getValidTilingStrategies l.device,
            (model.layer { call with strategy := s } l).1 = .ok c} cost)
    ∧ (∀ (call : LayerCall) (l : DPULayer) (cost : ℕ) (strategies : List VPUTilingStrategy),
      strategies.Perm (getValidTilingStrategies l.device) →
        ((model.bestOf call strategies l).1 = .ok (some cost)
          ↔ (model.bestLayer call l).1 = .ok (some cost)))
    ∧ ∀ (ι : Type) [DecidableEq ι] (layers : List ι) (elements : ι → LayerBatchElementInfo),
      (model.layerBatched layers elements).1.costs
        = layers.map fun i => elementCost model (elements i) := by
  refine ⟨fun calls l => ?_, fun call l cost => bestOf_iff call l cost (.refl _),
    fun call l cost strategies hperm => ?_, fun ι _ layers elements => layerBatched_costs _ _⟩
  · exact Runs.run_eq_map (fun l' => l'.sanitize = l.sanitize)
      (fun call _ _ h => layer_spec h call) rfl
  · rw [bestOf_iff call l cost hperm]
    exact (bestOf_iff call l cost (.refl _)).symm

/-- Two tiles of a convolution, with the strategies of its device from the last to the first. -/
theorem layer_changes_invisible_reverse :
    (steady.bestOf { strategy := .none, nDPU := 1, nTiles := 2 }
        (getValidTilingStrategies .npu_5_0).reverse convolution16).1 = .ok (some 1000)
      ↔ (steady.bestLayer { strategy := .none, nDPU := 1, nTiles := 2 } convolution16).1
        = .ok (some 1000) :=
  (layer_changes_invisible steady).2.2.1 { strategy := .none, nDPU := 1, nTiles := 2 } convolution16
    1000 (getValidTilingStrategies .npu_5_0).reverse (List.reverse_perm _)

end DPULayerCostModel

end Vpunn
