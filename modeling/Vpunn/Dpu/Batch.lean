import Vpunn.Dpu.Transparency
import Vpunn.Inference.Batches

/-! The cost of many DPU workloads at once (`vpu_cost_model.cpp`, `nn_cost_provider.h`).

    The descriptors are put one after the other, filled up with zeros to whole batches, and given to
    the network batch by batch. Neither a cache nor a hint is looked at, and what the network gives is
    processed twice. -/

namespace Vpunn
open Cycles InferenceExecutionData

namespace NNCostProvider

variable (nn : NNCostProvider)

/-- The descriptor of a workload, or zeros where there is no workload. -/
def oneDescriptor (workloads : List DPUWorkload) (idx : ℕ) : Option (List ℚ) :=
  match workloads[idx]? with
  | some workload => nn.transformSingle workload
  | none => some (.replicate nn.outputSize 0)

/-- The processing of a value, which leaves NaN as it is. -/
def process (workload : DPUWorkload) (rawValue : RawValue) : RawValue :=
  rawValue.map (PostProcess.process nn.outputVersion workload)

variable {nn} {network : List ℚ → List RawValue} {workloads : List DPUWorkload}

/-- The descriptor of a workload, or zeros. -/
def paddedDescriptor (nn : NNCostProvider) (workloads : List DPUWorkload) (idx : ℕ) : List ℚ :=
  (nn.oneDescriptor workloads idx).getD []

/-- All descriptors, one after the other. -/
def descriptors (nn : NNCostProvider) (workloads : List DPUWorkload) (pad : ℕ) : List ℚ :=
  ((List.range (roundUp workloads.length pad)).map (nn.paddedDescriptor workloads)).flatten

end NNCostProvider

/-! ### Many workloads -/

namespace VPUCostModel

variable (model : VPUCostModel)

variable {model}

end VPUCostModel

end Vpunn
