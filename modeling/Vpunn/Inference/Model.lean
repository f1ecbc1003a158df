import Vpunn.Inference.Kernels

/-! The inference of the network (`model.cpp`, `inference_execution_data.h`, `vpunn_runtime.h`).

    A model lists its tensors and its layers. The tensors live in an execution context that outlasts
    the inference: a layer writes its output over what an earlier inference has left there. -/

namespace Vpunn

/-- A tensor of the schema. Buffer `0` says that its elements are not stored in the model. -/
structure TensorDescriptor where
  shape : List ℕ
  buffer : ℕ
  deriving DecidableEq, Repr

inductive LayerType where
  | none
  | fullyConnectedLayer
  | l2NormalizationLayer
  | kNNLayer (nNeighbors : ℕ)
  deriving DecidableEq, Repr

inductive ActivationFunctionType where
  | noop
  | relu
  | sigmoid
  deriving DecidableEq, Repr

structure Layer where
  inputs : List ℤ
  outputs : List ℤ
  implementation : LayerType
  activationFunction : ActivationFunctionType
  deriving DecidableEq, Repr

structure InferenceModel (α : Type) where
  tensors : List TensorDescriptor
  inputs : List ℤ
  outputs : List ℤ
  operators : List Layer
  buffers : List (List α)

/-- The memory of an inference. -/
structure InferenceExecutionData (α : Type) where
  tensorMap : List (Tensor α)
  bias : BiasOpBuffer α
  inputBufferCachedIdx : ℤ
  outputBufferCachedIdx : ℤ

namespace InferenceExecutionData

/-- `parse_vector`: a first dimension of one is replaced. -/
def parseVector (vector : List ℕ) (forcedFirstDim : ℕ) : List ℕ :=
  match vector with
  | [] => []
  | dim :: dims => (if dim = 1 ∧ 1 < forcedFirstDim then forcedFirstDim else dim) :: dims

variable {α : Type} [MachineNumber α]

/-- A tensor of the model with the elements that are stored, or filled with zeros. -/
def allocateTensor (model : InferenceModel α) (batch address : ℕ) (d : TensorDescriptor) :
    Option (Tensor α) :=
  if d.buffer ≠ 0 then do
    let tensor : Tensor α := ⟨parseVector d.shape 1, ⟨address, .replicate _ 0⟩⟩
    tensor.assign (← model.buffers[d.buffer]?)
  else some ⟨parseVector d.shape batch, ⟨address, .replicate _ 0⟩⟩

def maxBatchInTensors (tensorMap : List (Tensor α)) : Option ℕ :=
  tensorMap.foldlM (fun maxDimZero t => do return max maxDimZero (← t.dimensions[0]?)) 0

/-- The execution data of a model with one input and one output, for tensors at given addresses. -/
def create (model : InferenceModel α) (batch : ℕ) (address : ℕ → ℕ) :
    Option (InferenceExecutionData α) := do
  let input ← model.inputs[0]?
  let output ← model.outputs[0]?
  let tensorMap ← model.tensors.zipIdx.mapM fun e => allocateTensor model batch (address e.2) e.1
  if model.inputs.length = 1 ∧ model.outputs.length = 1 then
    return {
      tensorMap
      bias := .reserveBiasSpace (← maxBatchInTensors tensorMap)
      inputBufferCachedIdx := input
      outputBufferCachedIdx := output }
  else none

end InferenceExecutionData

/-- The element of a list at a signed index. -/
def getInt {β : Type} (l : List β) (i : ℤ) : Option β := if 0 ≤ i then l[i.toNat]? else none

namespace InferenceModel

variable {α : Type} [MachineNumber α] [DecidableEq α] [DecidableLT α]

/-- `get_ro_tensors_from_index`: indices that are out of range are left out. -/
def tensorsFromIndex (tensorMap : List (Tensor α)) (tensors : List ℤ) : List ℕ :=
  tensors.filterMap fun i : ℤ =>
    if 0 ≤ i ∧ i < tensorMap.length then some i.toNat else none

/-- The implementation of a layer, which does not write a tensor that it reads. -/
def runImplementation (simd : Bool) (implementation : LayerType) (inputs outputs : List ℕ)
    (biasBuf : BiasOpBuffer α) (tensorMap : List (Tensor α)) : Option (List (Tensor α)) :=
  match implementation with
  | .fullyConnectedLayer => do
    let output ← outputs[0]?
    if output ∈ inputs then none
    let activations ← tensorMap[← inputs[0]?]?
    let weights ← tensorMap[← inputs[1]?]?
    let result ← Kernels.dense simd weights activations (← tensorMap[output]?)
    match inputs[2]? with
    | some bias => return tensorMap.set output (← Kernels.bias simd (← tensorMap[bias]?) result biasBuf)
    | none => return tensorMap.set output result
  | .l2NormalizationLayer => do
    let output ← outputs[0]?
    if output ∈ inputs then none
    let activations ← tensorMap[← inputs[0]?]?
    return tensorMap.set output (← Kernels.l2Normalization simd activations (← tensorMap[output]?))
  | .kNNLayer nNeighbors => do
    let output ← outputs[0]?
    if output ∈ inputs then none
    let activations ← tensorMap[← inputs[0]?]?
    let weights ← tensorMap[← inputs[1]?]?
    let targets ← tensorMap[← inputs[2]?]?
    return tensorMap.set output
      (← Kernels.kNN simd weights targets activations (← tensorMap[output]?) nNeighbors)
  | .none => some tensorMap

def runActivation (activationFunction : ActivationFunctionType) (outputs : List ℕ)
    (tensorMap : List (Tensor α)) : Option (List (Tensor α)) :=
  match activationFunction with
  | .noop => some tensorMap
  | .relu => do
    let output ← outputs[0]?
    return tensorMap.set output (← Kernels.mapInPlace Kernels.relu (← tensorMap[output]?))
  | .sigmoid => do
    let output ← outputs[0]?
    return tensorMap.set output (← Kernels.mapInPlace Kernels.sigmoid (← tensorMap[output]?))

def runLayer (simd : Bool) (layer : Layer) (executionMemory : InferenceExecutionData α) :
    Option (InferenceExecutionData α) := do
  let tensorMap := executionMemory.tensorMap
  let inputs := tensorsFromIndex tensorMap layer.inputs
  let outputs := tensorsFromIndex tensorMap layer.outputs
  let tensorMap ← runImplementation simd layer.implementation inputs outputs executionMemory.bias
    tensorMap
  let tensorMap ← runActivation layer.activationFunction outputs tensorMap
  return { executionMemory with tensorMap }

def predict (model : InferenceModel α) (simd : Bool)
    (executionMemory : InferenceExecutionData α) : Option (InferenceExecutionData α) :=
  model.operators.foldlM (fun memory layer => runLayer simd layer memory) executionMemory

end InferenceModel

/-! ### The runtime -/

inductive InferenceError where
  | wrongSize
  | undefined
  deriving DecidableEq, Repr

namespace Runtime

variable {α : Type} [MachineNumber α] [DecidableEq α] [DecidableLT α]

def setInputs (inputs : List α) (data : InferenceExecutionData α) :
    Except InferenceError (InferenceExecutionData α) :=
  match getInt data.tensorMap data.inputBufferCachedIdx with
  | none => .error .undefined
  | some tensor =>
    match tensor.assign inputs with
    | none => .error .wrongSize
    | some tensor => .ok { data with
        tensorMap := data.tensorMap.set data.inputBufferCachedIdx.toNat tensor }

def getOutputs (data : InferenceExecutionData α) : Except InferenceError (List α) :=
  match getInt data.tensorMap data.outputBufferCachedIdx with
  | none => .error .undefined
  | some tensor => .ok tensor.buffer.data.toList

/-- An inference in a context, with the context that it leaves. -/
def predict (model : InferenceModel α) (simd : Bool) (inputArray : List α)
    (data : InferenceExecutionData α) :
    Except InferenceError (List α) × InferenceExecutionData α :=
  match setInputs inputArray data with
  | .error e => (.error e, data)
  | .ok data =>
    match model.predict simd data with
    | none => (.error .undefined, data)
    | some data => (getOutputs data, data)

end Runtime

end Vpunn
