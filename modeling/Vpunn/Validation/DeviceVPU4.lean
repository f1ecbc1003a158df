import Vpunn.Validation.ValidValues

/-! The valid values of the device `VPU_4_0` (`device_valid_valuesVPU4.h`).

    One table for workloads, one for layers, and one for the layers on a tile. -/

namespace Vpunn
namespace VPU4

def validOperations : List Operation :=
  [.convolution, .dwConvolution, .cmConvolution, .eltwise, .maxpool]

def validInDatatypes : List DataType := [.int8, .uint8, .float16, .bfloat16]

def validOutDatatypes : List DataType := [.int8, .uint8, .float16, .bfloat16, .float32]

def validWtDatatypes : List DataType := [.int8, .uint8, .int4, .uint4, .float16, .bfloat16]

def validExecutionOrderAll : List ExecutionMode := [.cuboid4x16, .cuboid8x16, .cuboid16x16]

/-- A map that has the same entry for every valid operation. -/
def forEachOperation {α : Type} (entry : α) (dpu : DPUOperation) : Option α :=
  if dpu.operation ∈ validOperations then some entry else none

def inputChannelsRestrictions (dpu : DPUOperation) : Option MultiSmartRanges :=
  match dpu.operation with
  | .convolution | .eltwise => some ⟨[.make 16 inputSpatialDimMax 16]⟩
  | .dwConvolution | .maxpool => some ⟨[.make 16 64 16 (some 32)]⟩
  | .cmConvolution => some ⟨[.make 1 (cmConvChannelsMax - 1)]⟩
  | _ => none

/-- Without the limits of a workload: a layer is split further. -/
def inputChannelsRestrictionsLayer (dpu : DPUOperation) : Option MultiSmartRanges :=
  match dpu.operation with
  | .convolution | .eltwise | .dwConvolution | .maxpool =>
    some ⟨[.make 16 inputSpatialDimMax 16]⟩
  | .cmConvolution => some ⟨[.make 1 (cmConvChannelsMax - 1)]⟩
  | _ => none

def outputChannelsRestrictions : MultiSmartRanges := ⟨[.make 16 inputSpatialDimMax 16]⟩

def isiStrategyOptions : List ISIStrategy := [.clustering, .splitOverH, .splitOverK]

/-- `VPU4_0_WorkloadValidValues` -/
def workloadValidValues : DeviceValidValues where
  devices := [.vpu_4_0]
  validOperations := validOperations
  validMpeEngines := [.scl]
  outputWriteTileOptions := [1, 2, 3, 4, 5, 6, 7, 8]
  validLayouts := [.zxy, .xyz, .xzy, .yxz, .yzx, .zyx]
  validSwizzlings := [.key0, .key1, .key2, .key3, .key4, .key5]
  inputHeightWidthStartFactorSOHW := 1
  getISIStrategyRange := fun dpu =>
    if dpu.outputWriteTiles ≤ 1 then isiStrategyOptions.filter (· ≠ .splitOverK)
    else isiStrategyOptions
  getInputValidDatatypes := forEachOperation validInDatatypes
  getOutputValidDatatypes := forEachOperation validOutDatatypes
  getWeightsValidDatatypes := forEachOperation validWtDatatypes
  getInputChannelsRestriction := inputChannelsRestrictions
  getOutputChannelsRestriction := fun _ => some outputChannelsRestrictions
  getBatchRestrictions := ⟨[.make 1 SmartRanges.maxLimit]⟩
  getValidExecutionOrder := forEachOperation validExecutionOrderAll
  mustExecuteHWLowLevelChecks := fun _ => true
  hasAutopadChannelCoupling := false
  outputWriteTileOptions_mem := by decide
  startFactor_mem := .inl rfl

/-- `VPU4_0_LayerValidValues`: every strategy may be intended, and a split over the channels needs
    channels for two tiles. -/
def layerValidValues : DeviceValidValues :=
  { workloadValidValues with
    inputHeightWidthStartFactorSOHW := 2
    getISIStrategyRange := fun _ => isiStrategyOptions
    getInputChannelsRestriction := inputChannelsRestrictionsLayer
    getOutputChannelsRestriction := fun dpu =>
      some (if dpu.isiStrategy = .splitOverK then outputChannelsRestrictions.multiplyLower 2
        else outputChannelsRestrictions)
    mustExecuteHWLowLevelChecks := fun _ => false
    startFactor_mem := .inr rfl }

/-- `VPU4_0_LayerOnTileValidValues` -/
def layerOnTileValidValues : DeviceValidValues :=
  { workloadValidValues with
    getInputChannelsRestriction := inputChannelsRestrictionsLayer
    mustExecuteHWLowLevelChecks := fun _ => false }

end VPU4
end Vpunn
