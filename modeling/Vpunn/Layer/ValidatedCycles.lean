import Vpunn.Layer.LayerCycles
import Vpunn.Validation.CheckAndSanitize

/-! The checks of layers with the tables of the devices (`layer_sanitizer.h`), and their part in the
    cost of a layer.

    A whole layer is checked by one list of tables, and the layers on a tile by another. A layer has
    cycles only if both accept, and then the checks have no part in them. -/

namespace Vpunn

/-- An unsplit layer has invalid content. -/
def Cycles.errorInvalidLayerConfiguration : ℕ := maxV - 8

open Cycles DPUWorkload

/-! ### The tables of layers -/

namespace SanitizerConfig

/-- The tables of `VPU4_0_LayerValidValues`. -/
def vpu4Layer : SanitizerConfig := { vpu4 with validValues := VPU4.layerValidValues }

/-- The tables of `VPU4_0_LayerOnTileValidValues`. -/
def vpu4LayerOnTile : SanitizerConfig := { vpu4 with validValues := VPU4.layerOnTileValidValues }

variable (config : SanitizerConfig) (layer : DPULayer)

/-- The tests before a report, which refuse an engine in different ways. -/
def checkAhead (engineProblem report : ℕ) : ℕ :=
  if layer.op ∉ config.validValues.validOperations then errorInvalidInputOperation
  else if layer.mpeEngine ∉ config.validValues.validMpeEngines then engineProblem
  else report

/-- The report on a layer of a device that the tables know. No check reads the extents of the
    weights, but an operation that has none is not known. -/
def completeLayerReport (presumedStrategy : ISIStrategy) (nTiles : ℕ)
    (strategy : VPUTilingStrategy) : ℕ :=
  config.checkAhead layer errorInvalidLayerConfiguration <|
    match CmxOperation.ofDPUWorkload config layer with
    | none => errorInvalidInputOperation
    | some _ =>
      if checkCompleteLayerConsistency config.validValues layer presumedStrategy nTiles strategy then
        0
      else errorInvalidLayerConfiguration

/-- The report on a layer on a tile of a device that the tables know. -/
def splitLayerReport : ℕ :=
  config.checkAhead layer errorInvalidInputConfiguration (config.report layer)

/-- The device has the operation and the engine, and the layer is consistent. -/
structure AcceptsLayer (presumedStrategy : ISIStrategy) (nTiles : ℕ) (strategy : VPUTilingStrategy) :
    Prop where
  operation : layer.op ∈ config.validValues.validOperations
  engine : layer.mpeEngine ∈ config.validValues.validMpeEngines
  weights : ∃ w, CmxOperation.ofDPUWorkload config layer = some w
  consistent : checkCompleteLayerConsistency config.validValues layer presumedStrategy nTiles strategy

variable {config layer}

theorem checkAhead_eq_zero_iff {engineProblem report : ℕ} (hproblem : engineProblem ≠ 0) :
    config.checkAhead layer engineProblem report = 0
      ↔ layer.op ∈ config.validValues.validOperations
        ∧ layer.mpeEngine ∈ config.validValues.validMpeEngines ∧ report = 0 := by
  have hunknown : errorInvalidInputOperation ≠ 0 := by decide
  by_cases hop : layer.op ∈ config.validValues.validOperations
  · by_cases hengine : layer.mpeEngine ∈ config.validValues.validMpeEngines
    · simp [checkAhead, hop, hengine]
    · simp [checkAhead, hop, hengine, hproblem]
  · simp [checkAhead, hop, hunknown]

theorem isErrorCode_checkAhead {engineProblem report : ℕ} (hproblem : isErrorCode engineProblem)
    (hreport : report ≠ 0 → isErrorCode report)
    (h : config.checkAhead layer engineProblem report ≠ 0) :
    isErrorCode (config.checkAhead layer engineProblem report) := by
  have hunknown : isErrorCode errorInvalidInputOperation := by decide
  by_cases hop : layer.op ∈ config.validValues.validOperations
  · by_cases hengine : layer.mpeEngine ∈ config.validValues.validMpeEngines
    · simp only [checkAhead, hop, hengine, not_true_eq_false, if_false] at h ⊢
      exact hreport h
    · simpa [checkAhead, hop, hengine] using hproblem
  · simpa [checkAhead, hop] using hunknown

theorem completeLayerReport_eq_zero_iff {presumedStrategy : ISIStrategy} {nTiles : ℕ}
    {strategy : VPUTilingStrategy} :
    config.completeLayerReport layer presumedStrategy nTiles strategy = 0
      ↔ config.AcceptsLayer layer presumedStrategy nTiles strategy := by
  rw [completeLayerReport, checkAhead_eq_zero_iff (by decide)]
  constructor
  · rintro ⟨hop, hengine, hreport⟩
    rcases hw : CmxOperation.ofDPUWorkload config layer with _ | w
    · rw [hw] at hreport
      exact absurd hreport (by decide : errorInvalidInputOperation ≠ 0)
    · simp only [hw] at hreport
      split_ifs at hreport with hclean
      · exact ⟨hop, hengine, ⟨w, hw⟩, hclean⟩
      · exact absurd hreport (by decide)
  · rintro ⟨hop, hengine, ⟨w, hw⟩, hclean⟩
    simp [hop, hengine, hw, hclean]

theorem splitLayerReport_eq_zero_iff :
    config.splitLayerReport layer = 0 ↔ ∃ w, config.Accepts layer w := by
  rw [splitLayerReport, checkAhead_eq_zero_iff (by decide), config.report_eq_zero_iff]
  constructor
  · rintro ⟨hop, hengine, w, hw, hfits, hclean⟩
    exact ⟨w, hop, hengine, hw, hfits, hclean⟩
  · rintro ⟨w, hop, hengine, hw, hfits, hclean⟩
    exact ⟨hop, hengine, w, hw, hfits, hclean⟩

theorem isErrorCode_completeLayerReport {presumedStrategy : ISIStrategy} {nTiles : ℕ}
    {strategy : VPUTilingStrategy}
    (h : config.completeLayerReport layer presumedStrategy nTiles strategy ≠ 0) :
    isErrorCode (config.completeLayerReport layer presumedStrategy nTiles strategy) := by
  refine isErrorCode_checkAhead (by decide) ?_ h
  rcases CmxOperation.ofDPUWorkload config layer with _ | w
  · intro _
    exact (by decide : isErrorCode errorInvalidInputOperation)
  · simp only
    split_ifs with hclean
    · intro hreport
      exact absurd rfl hreport
    · intro _
      exact (by decide : isErrorCode errorInvalidLayerConfiguration)

theorem isErrorCode_splitLayerReport (h : config.splitLayerReport layer ≠ 0) :
    isErrorCode (config.splitLayerReport layer) :=
  isErrorCode_checkAhead (by decide) isErrorCode_report h

end SanitizerConfig

/-! ### The checks -/

/-- `LayersValidation`: the tables for whole layers, and those for layers on a tile. -/
structure LayersValidation where
  layerConfigs : List SanitizerConfig
  tileConfigs : List SanitizerConfig

namespace LayersValidation

variable (validation : LayersValidation)

def checkCompleteLayerConsistency (layer : DPULayer) (presumedStrategy : ISIStrategy) (nTiles : ℕ)
    (strategy : VPUTilingStrategy) : ℕ :=
  match getConfig validation.layerConfigs layer.device with
  | none => errorInvalidInputDevice
  | some config => config.completeLayerReport layer presumedStrategy nTiles strategy

def checkSplitLayerConsistency (layer : DPULayer) : ℕ :=
  match getConfig validation.tileConfigs layer.device with
  | none => errorInvalidInputDevice
  | some config => config.splitLayerReport layer

/-- The tables of its device accept a layer, and every tile that it is split into. -/
structure Admits (layer : DPULayer) (strategy : VPUTilingStrategy) (nTiles : ℕ) : Prop where
  complete : ∃ config, getConfig validation.layerConfigs layer.device = some config
    ∧ config.AcceptsLayer layer (mapTilingStrategiesToWorkload strategy) nTiles strategy
  split : ∃ tiles, layer.splitAcrossTiles strategy nTiles = .ok tiles ∧ tiles ≠ []
    ∧ ∀ tile ∈ tiles, Accepted validation.tileConfigs tile

variable {validation}

theorem checkCompleteLayerConsistency_eq_zero_iff {layer : DPULayer} {presumedStrategy : ISIStrategy}
    {nTiles : ℕ} {strategy : VPUTilingStrategy} :
    validation.checkCompleteLayerConsistency layer presumedStrategy nTiles strategy = 0
      ↔ ∃ config, getConfig validation.layerConfigs layer.device = some config
        ∧ config.AcceptsLayer layer presumedStrategy nTiles strategy := by
  unfold checkCompleteLayerConsistency
  rcases getConfig validation.layerConfigs layer.device with _ | config
  · simp [errorInvalidInputDevice, maxV]
  · simp only [Option.some.injEq, exists_eq_left']
    exact SanitizerConfig.completeLayerReport_eq_zero_iff

theorem checkSplitLayerConsistency_eq_zero_iff {layer : DPULayer} :
    validation.checkSplitLayerConsistency layer = 0 ↔ Accepted validation.tileConfigs layer := by
  unfold checkSplitLayerConsistency Accepted
  rcases getConfig validation.tileConfigs layer.device with _ | config
  · simp [errorInvalidInputDevice, maxV]
  · simp only [Option.some.injEq, exists_and_left, exists_eq_left']
    exact SanitizerConfig.splitLayerReport_eq_zero_iff

end LayersValidation

/-! ### The cost of a layer -/

namespace DPULayerCostModel

/-- Every problem that a check reports is an error code. -/
structure ReportsErrors (model : DPULayerCostModel) : Prop where
  layer : ∀ layer isi nTiles strategy,
    model.checkCompleteLayerConsistency layer isi nTiles strategy ≠ 0 →
      isErrorCode (model.checkCompleteLayerConsistency layer isi nTiles strategy)
  tile : ∀ tile, model.checkSplitLayerConsistency tile ≠ 0 →
    isErrorCode (model.checkSplitLayerConsistency tile)

/-- The model with the tables of the devices. -/
def withValidation (model : DPULayerCostModel) (validation : LayersValidation) :
    DPULayerCostModel :=
  { model with
    checkCompleteLayerConsistency := validation.checkCompleteLayerConsistency
    checkSplitLayerConsistency := validation.checkSplitLayerConsistency }

/-- The model in which every layer is usable. -/
def unchecked (model : DPULayerCostModel) : DPULayerCostModel :=
  { model with
    checkCompleteLayerConsistency := fun _ _ _ _ => 0
    checkSplitLayerConsistency := fun _ => 0 }

theorem reportsErrors_withValidation (model : DPULayerCostModel) (validation : LayersValidation) :
    (model.withValidation validation).ReportsErrors := by
  constructor
  · intro layer isi nTiles strategy
    simp only [withValidation, LayersValidation.checkCompleteLayerConsistency]
    rcases getConfig validation.layerConfigs layer.device with _ | config
    · intro _
      exact (by decide : isErrorCode errorInvalidInputDevice)
    · exact SanitizerConfig.isErrorCode_completeLayerReport
  · intro tile
    simp only [withValidation, LayersValidation.checkSplitLayerConsistency]
    rcases getConfig validation.tileConfigs tile.device with _ | config
    · intro _
      exact (by decide : isErrorCode errorInvalidInputDevice)
    · exact SanitizerConfig.isErrorCode_splitLayerReport

section Checks

variable {model : DPULayerCostModel}

theorem ReportsErrors.checkTiles (hreports : model.ReportsErrors) {tiles : List DPULayer}
    (h : model.checkTiles tiles ≠ 0) : isErrorCode (model.checkTiles tiles) := by
  induction tiles with
  | nil => exact absurd rfl h
  | cons tile tiles ih =>
    rw [DPULayerCostModel.checkTiles] at h ⊢
    split_ifs at h ⊢ with htile
    · exact ih h
    · exact hreports.tile tile htile

/-- A split layer has cycles only if every check was passed. -/
theorem ReportsErrors.checked_of_cycles (hreports : model.ReportsErrors) {layer : DPULayer}
    {strategy : VPUTilingStrategy} {nDPU nTiles : ℕ} {inputInDdr outputInDdr prefetching : Bool}
    {cycles : ℕ} (h : model.sanitizedLayerCycles layer strategy nDPU nTiles inputInDdr outputInDdr
      prefetching = .ok cycles) (hcycles : ¬ isErrorCode cycles) :
    model.checkCompleteLayerConsistency layer (mapTilingStrategiesToWorkload strategy) nTiles strategy
        = 0
      ∧ ∃ tiles, layer.splitAcrossTiles strategy nTiles = .ok tiles ∧ tiles ≠ []
        ∧ ∀ tile ∈ tiles, model.checkSplitLayerConsistency tile = 0 := by
  have hlayer : model.checkCompleteLayerConsistency layer (mapTilingStrategiesToWorkload strategy)
      nTiles strategy = 0 := by
    by_contra hproblem
    have hanswer : model.checkCompleteLayerConsistency layer
        (mapTilingStrategiesToWorkload strategy) nTiles strategy = cycles := by
      simpa [sanitizedLayerCycles, hproblem, pure, Except.pure] using h
    exact hcycles (hanswer ▸ hreports.layer _ _ _ _ hproblem)
  refine ⟨hlayer, ?_⟩
  rcases hsplit : layer.splitAcrossTiles strategy nTiles with e | tiles
  · simp [sanitizedLayerCycles, hlayer, hsplit, bind, Except.bind] at h
  · simp only [sanitizedLayerCycles, hlayer, hsplit, ne_eq, not_true_eq_false, if_false, bind,
      Except.bind, pure, Except.pure] at h
    have hne : tiles ≠ [] := by
      rintro rfl
      have hanswer : errorTileOutput = cycles := Except.ok.inj h
      exact hcycles (hanswer ▸ by decide)
    refine ⟨tiles, rfl, hne, (model.checkTiles_eq_zero_iff tiles).mp ?_⟩
    by_contra hproblem
    simp only [hne, if_false, hproblem, not_false_eq_true, if_true] at h
    have hanswer : model.checkTiles tiles = cycles := Except.ok.inj h
    exact hcycles (hanswer ▸ hreports.checkTiles hproblem)

/-- Checks that are passed leave no trace in the answer. -/
theorem sanitizedLayerCycles_unchecked {layer : DPULayer} {strategy : VPUTilingStrategy}
    {nDPU nTiles : ℕ} {inputInDdr outputInDdr prefetching : Bool} {tiles : List DPULayer}
    (hlayer : model.checkCompleteLayerConsistency layer (mapTilingStrategiesToWorkload strategy)
      nTiles strategy = 0)
    (hsplit : layer.splitAcrossTiles strategy nTiles = .ok tiles)
    (htiles : ∀ tile ∈ tiles, model.checkSplitLayerConsistency tile = 0) :
    model.sanitizedLayerCycles layer strategy nDPU nTiles inputInDdr outputInDdr prefetching
      = model.unchecked.sanitizedLayerCycles layer strategy nDPU nTiles inputInDdr outputInDdr
        prefetching := by
  have hchecked : model.checkTiles tiles = 0 := (model.checkTiles_eq_zero_iff tiles).mpr htiles
  have hunchecked : model.unchecked.checkTiles tiles = 0 :=
    (model.unchecked.checkTiles_eq_zero_iff tiles).mpr fun _ _ => rfl
  have hcomplete : model.unchecked.checkCompleteLayerConsistency layer
      (mapTilingStrategiesToWorkload strategy) nTiles strategy = 0 := rfl
  simp only [sanitizedLayerCycles, hlayer, hsplit, hchecked, hunchecked, hcomplete, ne_eq,
    not_true_eq_false, if_false, bind, Except.bind]
  rfl

end Checks

variable (model : DPULayerCostModel) (validation : LayersValidation) (layer : DPULayer)
  (strategy : VPUTilingStrategy) (nDPU nTiles : ℕ) (inputInDdr outputInDdr prefetching : Bool)

theorem layerCycles_fst (hn : nTiles ≠ 0) :
    (model.layerCycles layer strategy nDPU nTiles inputInDdr outputInDdr prefetching).1
      = model.sanitizedLayerCycles layer.sanitize strategy nDPU nTiles inputInDdr outputInDdr
        prefetching := by
  rw [layerCycles, if_neg hn]
  rfl

/-- A layer has cycles only if the tables of its device accept it and all its tiles. All tiles are
    looked up in the same table, and a convolution finds room in the CMX memory for what each tile
    stores of it. The cycles of an accepted layer are those without any check. -/
theorem layerCycles_validated :
    (∀ cycles, ((model.withValidation validation).layerCycles layer strategy nDPU nTiles inputInDdr
          outputInDdr prefetching).1 = .ok cycles → ¬ isErrorCode cycles →
        validation.Admits layer.sanitize strategy nTiles
          ∧ ∃ config tiles, getConfig validation.tileConfigs layer.device = some config
            ∧ layer.sanitize.splitAcrossTiles strategy nTiles = .ok tiles
            ∧ ∀ tile ∈ tiles, ∃ w, config.Accepts tile w
              ∧ (w.hasWeights →
                MemoryOperation.SufficientSizes config.alignments w.toMemoryOperation →
                w.requiredInput0 + w.requiredInput1 + w.requiredOutput0
                  ≤ config.getCmxSize layer.device))
      ∧ (validation.Admits layer.sanitize strategy nTiles →
        ((model.withValidation validation).layerCycles layer strategy nDPU nTiles inputInDdr
            outputInDdr prefetching).1
          = (model.unchecked.layerCycles layer strategy nDPU nTiles inputInDdr outputInDdr
            prefetching).1) := by
  by_cases hn : nTiles = 0
  · subst hn
    constructor
    · intro cycles h hcycles
      have hanswer : errorL2InvalidParameters = cycles := Except.ok.inj h
      exact absurd (hanswer ▸ by decide) hcycles
    · intro _; rfl
  · rw [layerCycles_fst _ _ _ _ _ _ _ _ hn, layerCycles_fst _ _ _ _ _ _ _ _ hn]
    constructor
    · intro cycles h hcycles
      obtain ⟨hlayer, tiles, hsplit, hne, htiles⟩ :=
        (model.reportsErrors_withValidation validation).checked_of_cycles h hcycles
      have haccepted : ∀ tile ∈ tiles, Accepted validation.tileConfigs tile := by
        intro tile htile
        exact LayersValidation.checkSplitLayerConsistency_eq_zero_iff.mp (htiles tile htile)
      have hdevice : ∀ tile ∈ tiles, tile.device = layer.device := by
        intro tile htile
        rw [(sanitizesAlike_splitAcrossTiles hsplit tile htile).device, sanitize_eq]
      refine ⟨⟨LayersValidation.checkCompleteLayerConsistency_eq_zero_iff.mp hlayer,
        tiles, hsplit, hne, haccepted⟩, ?_⟩
      -- the first tile finds the table of all
      obtain ⟨first, hfirst⟩ := List.exists_mem_of_ne_nil tiles hne
      obtain ⟨config, -, hconfig, -⟩ := haccepted first hfirst
      rw [hdevice first hfirst] at hconfig
      refine ⟨config, tiles, hconfig, hsplit, ?_⟩
      intro tile htile
      obtain ⟨config', w, hconfig', hw⟩ := haccepted tile htile
      rw [hdevice tile htile, hconfig, Option.some.injEq] at hconfig'
      subst hconfig'
      refine ⟨w, hw, ?_⟩
      intro hweights hsizes
      rw [← hdevice tile htile]
      exact hw.required_le hweights hsizes
    · rintro ⟨hlayer, tiles, hsplit, -, htiles⟩
      refine sanitizedLayerCycles_unchecked
        (LayersValidation.checkCompleteLayerConsistency_eq_zero_iff.mpr hlayer) hsplit ?_
      intro tile htile
      exact LayersValidation.checkSplitLayerConsistency_eq_zero_iff.mpr (htiles tile htile)

/-- A convolution of `VPU_4_0` that is accepted and takes the cycles of its tiles. -/
example :
    ((steady.withValidation ⟨[.vpu4Layer], [.vpu4LayerOnTile]⟩).layerCycles
        { convolution16 with device := .vpu_4_0 } .sohOverlapped 1 2 false false true).1
      = .ok 1000 := by decide +kernel

/-- Tiles that come split have cycles only if the tables of their devices accept all of them. -/
theorem layerPreSplitCycles_validated (layersPreSplit : List DPULayer) :
    (¬ isErrorCode ((model.withValidation validation).layerPreSplitCycles layersPreSplit nDPU
          inputInDdr outputInDdr prefetching) →
        layersPreSplit ≠ []
          ∧ ∀ tile ∈ layersPreSplit, Accepted validation.tileConfigs tile.sanitize)
      ∧ ((∀ tile ∈ layersPreSplit, Accepted validation.tileConfigs tile.sanitize) →
        (model.withValidation validation).layerPreSplitCycles layersPreSplit nDPU inputInDdr
            outputInDdr prefetching
          = model.unchecked.layerPreSplitCycles layersPreSplit nDPU inputInDdr outputInDdr
            prefetching) := by
  have hiff := (model.withValidation validation).checkTiles_eq_zero_iff
    (layersPreSplit.map sanitize)
  simp only [List.forall_mem_map, withValidation,
    LayersValidation.checkSplitLayerConsistency_eq_zero_iff] at hiff
  rcases eq_or_ne layersPreSplit [] with rfl | hne
  · exact ⟨fun h => absurd (by decide : isErrorCode errorL2InvalidParameters) h, fun _ => rfl⟩
  · constructor
    · intro h
      refine ⟨hne, hiff.mp ?_⟩
      by_contra hproblem
      have herror :=
        (model.reportsErrors_withValidation validation).checkTiles hproblem
      refine h ?_
      rw [layerPreSplitCycles]
      simpa [hne, hproblem, withValidation] using herror
    · intro haccepted
      have hchecked := hiff.mpr haccepted
      have hunchecked : model.unchecked.checkTiles (layersPreSplit.map sanitize) = 0 :=
        (model.unchecked.checkTiles_eq_zero_iff _).mpr fun _ _ => rfl
      simp only [layerPreSplitCycles, hne, if_false, withValidation, hchecked, hunchecked]
      rfl

end DPULayerCostModel

end Vpunn
