import Vpunn.Dpu.NNCostProvider
import Vpunn.Layer.Sanitize
import Vpunn.Lib.Runs
import Vpunn.Tiling.TilingPrimitives

/-! The cost of a DPU workload (`vpu_cost_model.cpp`).

    A workload is sanitized, and one with sparse inputs and sparse weights is asked for twice, with
    one of the two each time. A hint says where the cost comes from. Without a preference the cache
    is asked, then the profiling service, the network and the theory, and the cycles that were found
    go into the cache if it has no answer of its own. -/

namespace Vpunn
open Cycles Std.Do

set_option mvcgen.warning false

/-! ### Extrapolation -/

namespace Cycles

/-- `toCycleInterfaceType` of a `float`. -/
def toCycleInterfaceType (conversionNumber : ℚ) : ℕ :=
  if conversionNumber < 0 then errorInvalidConversionToCycles
  else if toFloat startErrorRange < conversionNumber then errorInvalidConversionToCycles
  else ⌈conversionNumber⌉.toNat

/-- The line through two points, in `float`. -/
def extrapolateCost (x x1 y1 x2 y2 : ℕ) : ℕ :=
  let slope := roundFloat (roundFloat (toFloat y2 - toFloat y1) / toFloat (x2 - x1 : ℕ))
  let intercept := roundFloat (toFloat y1 - roundFloat (slope * toFloat x1))
  toCycleInterfaceType (roundFloat (roundFloat (slope * toFloat x) + intercept))

end Cycles

/-! ### Changes of a workload -/

namespace DPUWorkload

/-- `is_dualsparsity_active` -/
def isDualsparsityActive (wl : DPUWorkload) : Bool := wl.inputs.sparsity && wl.weightSparsityEnabled

def cloneDeactivateActSparsity (wl : DPUWorkload) : DPUWorkload :=
  { wl with actSparsity := 0, inputs := { wl.inputs with sparsity := false } }

def cloneDeactivateWeightSParsity (wl : DPUWorkload) : DPUWorkload :=
  { wl with weightSparsity := 0, weightSparsityEnabled := false }

def cloneAndChangeInOutChannels (wl : DPUWorkload) (channels : ℕ) : DPUWorkload :=
  let inputShape : Shape := ⟨wl.inputs.width, wl.inputs.height, channels, wl.inputs.batches⟩
  let outputShape : Shape := ⟨wl.outputs.width, wl.outputs.height, channels, wl.outputs.batches⟩
  { wl with inputs := wl.inputs.setShape inputShape, outputs := wl.outputs.setShape outputShape }

/-- `channels_preserving_operations_consistency_check` -/
def channelsPreservingOperationsConsistencyCheck (wl : DPUWorkload) : DPUWorkload :=
  if (wl.op.isDwconvFamilyOperation ∨ wl.op = .eltwise)
      ∧ ¬ wl.isOutputAutopad ∧ 16 ≤ wl.outputs.channels
      ∧ wl.inputs.channels ≠ wl.outputs.channels then
    let t := wl.inputs
    { wl with inputs := t.setShape ⟨t.width, t.height, wl.outputs.channels, t.batches⟩ }
  else wl

end DPUWorkload

/-! ### The cost model -/

/-- The network with what the cost model asks beside it: the profiling service, if there is one, the
    theory, and the check of a workload, which changes it and says if it is usable. -/
structure VPUCostModel where
  dpuNnCostProvider : NNCostProvider
  /-- The network was trained for depthwise operations with more than 64 channels. -/
  supportsMoreThan64Ch : Bool
  profilingAutoHintEnabled : Bool
  httpDpuCostProvider : Option (DPUWorkload → ℕ)
  dpuTheoreticalCycles : DPUWorkload → ℕ
  checkAndSanitize : DPUWorkload → DPUWorkload × ℕ

namespace VPUCostModel

variable (model : VPUCostModel)

def isLinearlyExtrapolationNecessary (wl : DPUWorkload) : Bool :=
  if wl.op.isDwconvFamilyOperation && 64 < wl.inputs.channels then !model.supportsMoreThan64Ch
  else false

def getCostLinearlyExtrapolated (workload : DPUWorkload) : CostM ℕ := do
  let cost32ch ← model.dpuNnCostProvider.getCost (workload.cloneAndChangeInOutChannels 32)
  let cost64ch ← model.dpuNnCostProvider.getCost (workload.cloneAndChangeInOutChannels 64)
  if isErrorCode cost32ch then return cost32ch
  else if isErrorCode cost64ch then return cost64ch
  else return extrapolateCost workload.outputs.channels 32 cost32ch 64 cost64ch

def tryProfiling (workload : DPUWorkload) : ℕ :=
  match model.httpDpuCostProvider with
  | some getCost => getCost workload
  | none => errorProfilingService

def tryNn (workload : DPUWorkload) : CostM ℕ := do
  if model.dpuNnCostProvider.isInitialized then
    if model.isLinearlyExtrapolationNecessary workload then
      model.getCostLinearlyExtrapolated workload
    else model.dpuNnCostProvider.getCost workload
  else return errorInferenceNotPossible

/-- The `unsigned long` is cut to 32 bits. -/
def tryTheoretical (workload : DPUWorkload) : ℕ := model.dpuTheoreticalCycles workload % 4294967296

/-- The profiling service, if it is enabled, then the network and the theory. -/
def tryFallbacks (workload : DPUWorkload) : CostM ℕ := do
  let cycles := if model.profilingAutoHintEnabled then model.tryProfiling workload else 0
  if isErrorCode cycles ∨ cycles = 0 then
    let cycles ← model.tryNn workload
    if isErrorCode cycles then return model.tryTheoretical workload else return cycles
  else return cycles

/-- Cycles go into the cache if it had no valid entry. -/
def shareWithCache (workload : DPUWorkload) (cycles : ℕ) : CostM Unit := do
  let cached ← model.dpuNnCostProvider.getCached workload
  if isErrorCode cached ∧ ¬ isErrorCode cycles then
    model.dpuNnCostProvider.addToCache workload (toFloat cycles)

/-- The branch of `run_cost_providers` without a preference. -/
def runAuto (workload : DPUWorkload) : CostM ℕ := do
  let cached ← model.dpuNnCostProvider.getCached workload
  if isErrorCode cached then
    let cycles ← model.tryFallbacks workload
    model.shareWithCache workload cycles
    return cycles
  else return cached

def runCostProviders (workload : DPUWorkload) : CostM ℕ :=
  match workload.costSourceHint with
  | .auto => model.runAuto workload
  | .profilingService => return model.tryProfiling workload
  | .nn => model.tryNn workload
  | .theoretical => return model.tryTheoretical workload
  | .__size => return 0

def getCostDualsparsity (workload : DPUWorkload) : CostM ℕ := do
  let actOff ← model.runCostProviders workload.cloneDeactivateActSparsity
  let wtOff ← model.runCostProviders workload.cloneDeactivateWeightSParsity
  if isErrorCode actOff then return actOff
  else if isErrorCode wtOff then return wtOff
  else return min actOff wtOff

def getCost (workload : DPUWorkload) : CostM ℕ :=
  if workload.isDualsparsityActive then model.getCostDualsparsity workload
  else model.runCostProviders workload

/-- `swizzling_turn_OFF` and `sanitize_workload`: the workload that is asked for and the problems that
    were found with it, of which `0` is none. -/
def sanitizeWorkload (workload : DPUWorkload) : DPUWorkload × ℕ :=
  let wl := workload.swizzlingTurnOff.avgpoolReplaceBy.compressConvReplaceByCmConvVpu27
  model.checkAndSanitize wl.channelsPreservingOperationsConsistencyCheck

/-- `DPU` -/
def dpu (workload : DPUWorkload) : CostM ℕ :=
  let (wl, problems) := model.sanitizeWorkload workload
  if problems = 0 then model.getCost wl else return problems

end VPUCostModel

end Vpunn
