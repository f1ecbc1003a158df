import Vpunn.Types

/-! The SHAVE workload (`shave_workload.h`): an operator with its tensors and parameters. -/

namespace Vpunn

inductive ShaveParam where
  | int (value : ℤ) | float (value : ℚ) | string (value : String) | bool (value : Bool)
  deriving DecidableEq, Repr

structure SHAVEWorkload where
  name : String
  device : VPUDevice
  inputs : List VPUTensor
  outputs : List VPUTensor
  callParams : List ShaveParam := []
  extraParams : List (String × ShaveParam) := []
  profilingServiceBackendHint : ProfilingServiceBackend := .__size
  locName : String := ""
  includeCodePrefetch : Bool := false
  deriving DecidableEq, Repr

end Vpunn
