import Vpunn.Inference.Model

/-! The network as a function on rows.

    A model whose layers read only what was computed before them stands for a function from a row of
    its input to a row of its output. An inference applies it to each row of the batch, whatever the
    execution context held before. -/

namespace Vpunn
open Blas InferenceExecutionData

/-! ### Models that are in order -/

/-- Rows of `k` elements, one for each member of the batch. -/
def TensorDescriptor.IsActivation (d : TensorDescriptor) (k : ℕ) : Prop :=
  d.buffer = 0 ∧ ∃ rest, d.shape = 1 :: k :: rest ∧ rest.prod = 1

/-- Elements that are stored in the model. -/
def TensorDescriptor.IsConstant (d : TensorDescriptor) (n : ℕ) : Prop :=
  d.buffer ≠ 0 ∧ d.shape.prod = n

namespace InferenceModel

variable {α : Type} (model : InferenceModel α)

def Activation (t k : ℕ) : Prop := ∃ d, model.tensors[t]? = some d ∧ d.IsActivation k

def Constant (t n : ℕ) : Prop := ∃ d, model.tensors[t]? = some d ∧ d.IsConstant n

/-- A layer with known activations as its input, and the tensor that it writes. -/
inductive LayerOk (known : List ℕ) : Layer → ℕ → Prop
  | fullyConnected {x w y n k : ℕ} {f : ActivationFunctionType} (hx : x ∈ known)
      (activation : model.Activation x k) (weights : model.Constant w (n * k))
      (output : model.Activation y n) (hne : y ≠ x) :
      LayerOk known ⟨[x, w], [y], .fullyConnectedLayer, f⟩ y
  | fullyConnectedBias {x w b y n k : ℕ} {f : ActivationFunctionType} (hx : x ∈ known)
      (activation : model.Activation x k) (weights : model.Constant w (n * k))
      (bias : model.Constant b n) (output : model.Activation y n) (hne : y ≠ x) :
      LayerOk known ⟨[x, w, b], [y], .fullyConnectedLayer, f⟩ y
  | l2Normalization {x y k : ℕ} {f : ActivationFunctionType} (hx : x ∈ known)
      (activation : model.Activation x k) (output : model.Activation y k) (hne : y ≠ x) :
      LayerOk known ⟨[x], [y], .l2NormalizationLayer, f⟩ y

/-- Layers that each read what is known before them, and what is known after them. -/
inductive LayersOk : List ℕ → List Layer → List ℕ → Prop
  | nil {known : List ℕ} : LayersOk known [] known
  | cons {known known' : List ℕ} {layer : Layer} {layers : List Layer} {y : ℕ}
      (head : model.LayerOk known layer y) (tail : LayersOk (y :: known) layers known') :
      LayersOk known (layer :: layers) known'

structure WellFormed (input inputSize output outputSize : ℕ) : Prop where
  inputs : model.inputs = [(input : ℤ)]
  outputs : model.outputs = [(output : ℤ)]
  input_activation : model.Activation input inputSize
  output_activation : model.Activation output outputSize
  shape_ne_nil : ∀ d ∈ model.tensors, d.shape ≠ []
  stored : ∀ d ∈ model.tensors, d.buffer ≠ 0 →
    ∃ data, model.buffers[d.buffer]? = some data ∧ data.length = d.shape.prod
  layers : ∃ known, model.LayersOk [input] model.operators known ∧ output ∈ known

/-! ### The function on rows -/

/-- The elements of a constant tensor. -/
def constant (t i : ℕ) : Option α := do
  let d ← model.tensors[t]?
  (← model.buffers[d.buffer]?)[i]?

/-- The number of elements in a row. -/
def channels (t : ℕ) : ℕ := ((model.tensors[t]?).bind fun d => d.shape[1]?).getD 0

variable [MachineNumber α] [DecidableLT α]

/-- The dot product of rows that are all aligned, or all not. -/
def rowDot (vector : Bool) (x y : ℕ → Option α) (n : ℕ) : Option α :=
  if vector then dotSimd x y n else accumulate x y n 0

def activationFunction (f : ActivationFunctionType) (x : α) : α :=
  match f with
  | .noop => x
  | .relu => Kernels.relu x
  | .sigmoid => Kernels.sigmoid x

/-- An element of the row that an implementation computes from the rows of the known tensors. -/
def rowImplementation (vector : Bool) (layer : Layer) (rows : ℕ → ℕ → Option α) (i : ℕ) :
    Option α :=
  match layer.implementation, layer.inputs.map Int.toNat with
  | .fullyConnectedLayer, [x, w] =>
    let k := model.channels x
    rowDot vector (rows x) (fun j => model.constant w (j + i * k)) k
  | .fullyConnectedLayer, [x, w, b] => do
    let k := model.channels x
    let result ← rowDot vector (rows x) (fun j => model.constant w (j + i * k)) k
    return result * 1 + 1 * (0 + (← model.constant b i) * 1)
  | .l2NormalizationLayer, [x] => do
    let norm := MachineNumber.sqrtf (← rowDot vector (rows x) (rows x) (model.channels x))
    let value ← rows x i
    return if 0 < norm then value * (1 / norm) else value
  | _, _ => none

def rowLayer (vector : Bool) (layer : Layer) (rows : ℕ → ℕ → Option α) (i : ℕ) : Option α :=
  (model.rowImplementation vector layer rows i).map (activationFunction layer.activationFunction)

/-- The rows of the tensors after the layers. -/
def rowLayers (vector : Bool) (layers : List Layer) (rows : ℕ → ℕ → Option α) :
    ℕ → ℕ → Option α :=
  layers.foldl (fun rows layer => match layer.outputs.map Int.toNat with
    | [y] => Function.update rows y (model.rowLayer vector layer rows)
    | _ => rows) rows

/-- The row of the output for a row of the input. -/
def rowPredict (vector : Bool) (input output : ℕ) (row : List α) (i : ℕ) : Option α :=
  model.rowLayers vector model.operators
    (Function.update (fun _ _ => none) input fun i => row[i]?) output i

end InferenceModel

/-! ### Execution contexts of a model -/

namespace InferenceExecutionData

variable {α : Type}

/-- A tensor of an execution context for a batch of a given size. -/
structure TensorFits (model : InferenceModel α) (batch address : ℕ) (d : TensorDescriptor)
    (t : Tensor α) : Prop where
  dimensions : t.dimensions = parseVector d.shape (if d.buffer ≠ 0 then 1 else batch)
  address : t.buffer.address = address
  small : t.Small
  stored : d.buffer ≠ 0 → ∀ data, model.buffers[d.buffer]? = some data →
    ∀ i < t.dimensions.prod, t.buffer.read i = data[i]?

/-- A context of the model for a batch, with its tensors at given addresses. -/
structure ContextOf [One α] (model : InferenceModel α) (batch : ℕ) (address : ℕ → ℕ)
    (data : InferenceExecutionData α) : Prop where
  length : data.tensorMap.length = model.tensors.length
  tensor : ∀ i d, model.tensors[i]? = some d →
    ∃ t, data.tensorMap[i]? = some t ∧ TensorFits model batch (address i) d t
  ones : ∀ r < batch, data.bias.batchBuffer.read r = some 1

/-- What an element of a tensor is. -/
def read (data : InferenceExecutionData α) (t i : ℕ) : Option α :=
  (data.tensorMap[t]?).bind fun tensor => tensor.buffer.read i

/-- The known tensors hold given rows. -/
def Holds (model : InferenceModel α) (known : List ℕ) (r : ℕ) (data : InferenceExecutionData α)
    (rows : ℕ → ℕ → Option α) : Prop :=
  ∀ t ∈ known, ∀ k, model.Activation t k → ∀ i < k, data.read t (r * k + i) = rows t i

/-! ### Shapes -/

theorem parseVector_one (shape : List ℕ) : parseVector shape 1 = shape := by
  rcases shape with _ | ⟨d, ds⟩
  · rfl
  · rw [parseVector, if_neg fun h => absurd h.2 (by decide)]

theorem parseVector_activation {d : TensorDescriptor} {k batch : ℕ} (hd : d.IsActivation k)
    (hbatch : 1 ≤ batch) : ∃ rest, parseVector d.shape batch = batch :: k :: rest ∧ rest.prod = 1 := by
  obtain ⟨-, rest, hshape, hprod⟩ := hd
  refine ⟨rest, ?_, hprod⟩
  rw [hshape, parseVector]
  split_ifs with h
  · rfl
  · rw [show batch = 1 by omega]

/-- A context with another tensor. -/
def setTensor (data : InferenceExecutionData α) (y : ℕ) (t : Tensor α) : InferenceExecutionData α :=
  { data with tensorMap := data.tensorMap.set y t }

theorem read_setTensor_self {data : InferenceExecutionData α} {y : ℕ}
    (hy : y < data.tensorMap.length) (t : Tensor α) (i : ℕ) :
    (data.setTensor y t).read y i = t.buffer.read i := by
  rw [read, setTensor, List.getElem?_set_self hy, Option.bind_some]

theorem read_setTensor_of_ne {data : InferenceExecutionData α} {x y : ℕ} (h : x ≠ y) (t : Tensor α)
    (i : ℕ) : (data.setTensor y t).read x i = data.read x i := by
  rw [read, setTensor, List.getElem?_set_ne h.symm, read]

variable {model : InferenceModel α} {batch address k n : ℕ} {d : TensorDescriptor} {t : Tensor α}

/-- An activation may be replaced by another one of its shape and its place. -/
theorem ContextOf.setTensor [One α] {data : InferenceExecutionData α} {address : ℕ → ℕ} {y : ℕ}
    {t' : Tensor α} (h : ContextOf model batch address data) (output : model.Activation y n)
    (ht : data.tensorMap[y]? = some t) (hdims : t'.dimensions = t.dimensions)
    (haddress : t'.buffer.address = t.buffer.address) :
    ContextOf model batch address (data.setTensor y t') where
  length := (List.length_set ..).trans h.length
  ones := h.ones
  tensor i d hd := by
    obtain ⟨u, hu, hfits⟩ := h.tensor i d hd
    by_cases hi : i = y
    · subst hi
      obtain ⟨d', hd', hact⟩ := output
      rw [hd] at hd'
      cases hd'
      rw [ht] at hu
      cases hu
      refine ⟨t', List.getElem?_set_self (List.getElem?_eq_some_iff.mp ht).1, ?_⟩
      have hsmall : t'.Small := by
        rw [Tensor.Small, hdims]
        exact hfits.small
      exact ⟨hdims.trans hfits.dimensions, haddress.trans hfits.address, hsmall,
        fun hbuffer => absurd hact.1 hbuffer⟩
    · exact ⟨u, (List.getElem?_set_ne (Ne.symm hi)).trans hu, hfits⟩

/-- The dimensions of the rows of a batch. -/
structure IsBatch (batch k : ℕ) (t : Tensor α) : Prop where
  small : t.Small
  batch_eq : t.dimensions[0]? = some batch
  channels_eq : t.dimensions[1]? = some k
  prod_eq : t.dimensions.prod = batch * k

theorem TensorFits.isBatch (h : TensorFits model batch address d t) (hd : d.IsActivation k)
    (hbatch : 1 ≤ batch) : IsBatch batch k t := by
  obtain ⟨rest, hshape, hprod⟩ := parseVector_activation hd hbatch
  have hdims : t.dimensions = batch :: k :: rest := by
    rw [h.dimensions, if_neg (not_not.mpr hd.1), hshape]
  exact ⟨h.small, by rw [hdims]; rfl, by rw [hdims]; rfl,
    by rw [hdims, List.prod_cons, List.prod_cons, hprod, mul_one]⟩

theorem TensorFits.prod_eq (h : TensorFits model batch address d t) (hd : d.IsConstant n) :
    t.dimensions.prod = n := by
  rw [h.dimensions, if_pos hd.1, parseVector_one, hd.2]

end InferenceExecutionData

namespace InferenceModel

variable {α : Type} {model : InferenceModel α} {t k : ℕ}

theorem Activation.channels_eq (h : model.Activation t k) : model.channels t = k := by
  obtain ⟨d, hd, -, rest, hshape, -⟩ := h
  rw [channels, hd, Option.bind_some, hshape]
  rfl

theorem tensorsFromIndex_eq {tensorMap : List (Tensor α)} {ids : List ℤ}
    (h : ∀ i ∈ ids, 0 ≤ i ∧ i < tensorMap.length) :
    tensorsFromIndex tensorMap ids = ids.map Int.toNat := by
  induction ids with
  | nil => rfl
  | cons i ids ih =>
    rw [List.forall_mem_cons] at h
    rw [tensorsFromIndex] at ih ⊢
    rw [List.map_cons, List.filterMap_cons, if_pos h.1, ih h.2]

theorem Activation.lt (h : model.Activation t k) : t < model.tensors.length := by
  obtain ⟨d, hd, -⟩ := h
  exact (List.getElem?_eq_some_iff.mp hd).1

theorem Constant.lt (h : model.Constant t k) : t < model.tensors.length := by
  obtain ⟨d, hd, -⟩ := h
  exact (List.getElem?_eq_some_iff.mp hd).1

theorem LayerOk.outputs_eq {known : List ℕ} {layer : Layer} {y : ℕ}
    (h : model.LayerOk known layer y) : layer.outputs = [(y : ℤ)] := by
  rcases h with _ | _ | _ <;> rfl

theorem LayerOk.inputs_lt {known : List ℕ} {layer : Layer} {y : ℕ}
    (h : model.LayerOk known layer y) :
    ∀ i ∈ layer.inputs, 0 ≤ i ∧ i < (model.tensors.length : ℤ) := by
  rcases h with ⟨-, hx, hw, -, -⟩ | ⟨-, hx, hw, hb, -, -⟩ | ⟨-, hx, -, -⟩
  · have := hx.lt
    have := hw.lt
    simp
    omega
  · have := hx.lt
    have := hw.lt
    have := hb.lt
    simp
    omega
  · have := hx.lt
    simp
    omega

theorem Constant.ne {w y n k : ℕ} (h : model.Constant w n) (hy : model.Activation y k) : y ≠ w := by
  rintro rfl
  obtain ⟨d, hd, hbuffer, -⟩ := h
  obtain ⟨d', hd', hbuffer', -⟩ := hy
  rw [hd] at hd'
  cases hd'
  exact hbuffer hbuffer'

variable [MachineNumber α]

/-! ### Dot products -/

/-- Vector instructions make no difference. -/
def VectorExact (α : Type) [MachineNumber α] : Prop :=
  ∀ (u v : ℕ → α) (n : ℕ), dotSimd (fun k => some (u k)) (fun k => some (v k)) n
    = accumulate (fun k => some (u k)) (fun k => some (v k)) n 0

/-- The rows of a layer are computed in one way: vector instructions are not compiled in or make no
    difference, or all of the rows are aligned. -/
def SameArithmetic (model : InferenceModel α) (simd vector : Bool) (address : ℕ → ℕ)
    (layer : Layer) : Prop :=
  vector = false ∧ (simd = false ∨ VectorExact α)
    ∨ vector = true ∧ simd = true ∧ (∀ t, 4 ∣ address t)
      ∧ ∀ x ∈ layer.inputs, ∀ k, model.Activation x.toNat k → 4 ∣ k

theorem rowDot_congr {vector : Bool} {x y x' y' : ℕ → Option α} {n : ℕ} (hx : Agree x x' n)
    (hy : Agree y y' n) : rowDot vector x y n = rowDot vector x' y' n := by
  rw [rowDot, rowDot, dotSimd_congr hx hy, accumulate_congr hx hy]

theorem dot_eq_rowDot {simd vector : Bool} {a b n offsetA offsetB : ℕ} {A : Buffer α a}
    {B : Buffer α b} (hA : Defined (A.row offsetA) n) (hB : Defined (B.row offsetB) n)
    (h : vector = false ∧ (simd = false ∨ VectorExact α)
      ∨ vector = true ∧ simd = true ∧ A.Aligned 4 offsetA ∧ B.Aligned 4 offsetB) :
    dot A B simd n offsetA offsetB = rowDot vector (A.row offsetA) (B.row offsetB) n := by
  rcases h with ⟨rfl, rfl | hexact⟩ | ⟨rfl, rfl, haligned⟩
  · rfl
  · obtain ⟨u, hu⟩ := hA.agree
    obtain ⟨v, hv⟩ := hB.agree
    rw [rowDot_congr hu hv, dot, dotSimd_congr hu hv, hexact, accumulate_congr hu hv, ite_self]
    rfl
  · exact if_pos ⟨rfl, haligned⟩

/-! ### Layers -/

section Layers

variable {simd vector : Bool} {batch : ℕ} {address : ℕ → ℕ} {data : InferenceExecutionData α}
  {known : List ℕ}

/-- The buffers of the model. -/
def Stored (model : InferenceModel α) : Prop :=
  ∀ d ∈ model.tensors, d.buffer ≠ 0 →
    ∃ data, model.buffers[d.buffer]? = some data ∧ data.length = d.shape.prod

/-- The tensor of an activation in a context. -/
theorem Activation.exists_tensor (h : model.Activation t k)
    (hcontext : ContextOf model batch address data) (hbatch : 1 ≤ batch) :
    ∃ T, data.tensorMap[t]? = some T ∧ IsBatch batch k T
      ∧ T.buffer.address = address t ∧ ∀ i, data.read t i = T.buffer.read i := by
  obtain ⟨d, hd, hact⟩ := h
  obtain ⟨T, hT, hTfits⟩ := hcontext.tensor t d hd
  refine ⟨T, hT, hTfits.isBatch hact hbatch, hTfits.address, fun i => ?_⟩
  rw [InferenceExecutionData.read, hT, Option.bind_some]

/-- The tensor of a constant in a context. -/
theorem Constant.exists_tensor {n : ℕ} (h : model.Constant t n) (hstored : model.Stored)
    (hcontext : ContextOf model batch address data) : ∃ T, data.tensorMap[t]? = some T
      ∧ T.dimensions.prod = n ∧ T.Small ∧ T.buffer.address = address t
      ∧ ∀ i, T.buffer.read i = model.constant t i := by
  obtain ⟨d, hd, hconst⟩ := h
  obtain ⟨T, hT, hTfits⟩ := hcontext.tensor t d hd
  obtain ⟨content, hcontent, hlength⟩ := hstored d (List.mem_of_getElem? hd) hconst.1
  have hprod := hTfits.prod_eq hconst
  have hconstant : ∀ i, model.constant t i = content[i]? := fun i => by
    simp [constant, hd, hcontent]
  refine ⟨T, hT, hprod, hTfits.small, hTfits.address, fun i => ?_⟩
  rw [hconstant]
  by_cases hi : i < T.dimensions.prod
  · exact hTfits.stored hconst.1 content hcontent i hi
  · rw [Buffer.read, Vector.getElem?_eq_none (by omega),
      List.getElem?_eq_none (by rw [hlength, hconst.2]; omega)]

/-- The dot product of a row of the batch and a row of the weights. -/
theorem dot_eq_rowDot_of_holds {x w n r i : ℕ} {layer : Layer} {X W : Tensor α}
    {rows : ℕ → ℕ → Option α} (h : SameArithmetic model simd vector address layer)
    (hmem : (x : ℤ) ∈ layer.inputs) (hx : x ∈ known) (activation : model.Activation x k)
    (hX : IsBatch batch k X) (hXaddress : X.buffer.address = address x)
    (hXread : ∀ i, data.read x i = X.buffer.read i) (hW : W.dimensions.prod = n * k)
    (hWaddress : W.buffer.address = address w) (hWread : ∀ i, W.buffer.read i = model.constant w i)
    (hr : r < batch) (hi : i < n) (hrows : Holds model known r data rows) :
    dot X.buffer W.buffer simd k (r * k) (i * k)
      = rowDot vector (rows x) (fun j => model.constant w (j + i * k)) k := by
  have hrowX : Agree (X.buffer.row (r * k)) (rows x) k := by
    intro j hj
    rw [Buffer.row, Nat.add_comm, ← hXread]
    exact hrows x hx k activation j hj
  have hrowW : W.buffer.row (i * k) = fun j => model.constant w (j + i * k) :=
    funext fun j => hWread _
  have harithmetic : vector = false ∧ (simd = false ∨ VectorExact α) ∨ vector = true ∧ simd = true
      ∧ X.buffer.Aligned 4 (r * k) ∧ W.buffer.Aligned 4 (i * k) := by
    refine h.imp_right ?_
    rintro ⟨hvector, hsimd, haddress, hchannels⟩
    refine ⟨hvector, hsimd, ?_⟩
    have hk := hchannels x hmem k activation
    exact ⟨Buffer.aligned_mul (hXaddress ▸ haddress x) hk,
      Buffer.aligned_mul (hWaddress ▸ haddress w) hk⟩
  rw [dot_eq_rowDot (defined_row _ ((row_le hr).trans_eq hX.prod_eq.symm))
    (defined_row _ ((row_le hi).trans_eq hW.symm)) harithmetic, hrowW]
  exact rowDot_congr hrowX fun _ _ => rfl

variable [DecidableLT α]

/-- The activation function is applied to the output. -/
theorem runActivation_writes (f : ActivationFunctionType) {y : ℕ} {tensorMap : List (Tensor α)}
    (hy : y < tensorMap.length) (T : Tensor α) :
    ∃ T', runActivation f [y] (tensorMap.set y T) = some (tensorMap.set y T')
      ∧ T'.dimensions = T.dimensions ∧ T'.buffer.address = T.buffer.address
      ∧ ∀ i < T.dimensions.prod,
        T'.buffer.read i = (T.buffer.read i).map (activationFunction f) := by
  rcases f with _ | _ | _
  · exact ⟨T, rfl, rfl, rfl, fun i _ => Option.map_id'.symm⟩
  · obtain ⟨T', hT', hdims, haddress, hread⟩ := Kernels.mapInPlace_writes Kernels.relu T
    exact ⟨T', by simp [runActivation, hy, hT', List.set_set], hdims, haddress, hread⟩
  · obtain ⟨T', hT', hdims, haddress, hread⟩ := Kernels.mapInPlace_writes Kernels.sigmoid T
    exact ⟨T', by simp [runActivation, hy, hT', List.set_set], hdims, haddress, hread⟩

variable [DecidableEq α]

/-- An implementation writes its output from the rows that it reads. -/
def Computes (model : InferenceModel α) (simd vector : Bool) (batch : ℕ)
    (data : InferenceExecutionData α) (known : List ℕ) (layer : Layer) (y : ℕ) : Prop :=
  ∃ T result n, data.tensorMap[y]? = some T ∧ IsBatch batch n T ∧ model.Activation y n
    ∧ runImplementation simd layer.implementation (layer.inputs.map Int.toNat) [y] data.bias
        data.tensorMap = some (data.tensorMap.set y result)
    ∧ result.dimensions = T.dimensions ∧ result.buffer.address = T.buffer.address
    ∧ ∀ r < batch, ∀ rows, Holds model known r data rows → ∀ i < n,
      result.buffer.read (r * n + i) = model.rowImplementation vector layer rows i

theorem fullyConnected_computes {x w y n : ℕ} {f : ActivationFunctionType}
    (hstored : model.Stored) (hbatch : 1 ≤ batch) (hcontext : ContextOf model batch address data)
    (hx : x ∈ known) (activation : model.Activation x k) (weights : model.Constant w (n * k))
    (output : model.Activation y n) (hne : y ≠ x)
    (h : SameArithmetic model simd vector address ⟨[x, w], [y], .fullyConnectedLayer, f⟩) :
    Computes model simd vector batch data known ⟨[x, w], [y], .fullyConnectedLayer, f⟩ y := by
  obtain ⟨X, hX, hXbatch, hXaddress, hXread⟩ := activation.exists_tensor hcontext hbatch
  obtain ⟨W, hW, hWprod, hWsmall, hWaddress, hWread⟩ := weights.exists_tensor hstored hcontext
  obtain ⟨T, hT, hTbatch, -, -⟩ := output.exists_tensor hcontext hbatch
  obtain ⟨result, hresult, hdims, haddress, hread⟩ := Kernels.dense_writes simd
    hXbatch.batch_eq hXbatch.channels_eq hTbatch.channels_eq hXbatch.prod_eq hWprod hTbatch.prod_eq
    hXbatch.small hWsmall hTbatch.small
  refine ⟨T, result, n, hT, hTbatch, output, ?_, hdims, haddress, fun r hr rows hrows i hi => ?_⟩
  · simp [runImplementation, hne, weights.ne output, hX, hW, hT, hresult]
  · rw [hread r hr i hi, dot_eq_rowDot_of_holds h (by simp) hx activation hXbatch hXaddress hXread
      hWprod hWaddress hWread hr hi hrows]
    simp [rowImplementation, activation.channels_eq]

theorem fullyConnectedBias_computes {x w b y n : ℕ} {f : ActivationFunctionType}
    (hstored : model.Stored) (hbatch : 1 ≤ batch) (hcontext : ContextOf model batch address data)
    (hx : x ∈ known) (activation : model.Activation x k) (weights : model.Constant w (n * k))
    (bias : model.Constant b n) (output : model.Activation y n) (hne : y ≠ x)
    (h : SameArithmetic model simd vector address ⟨[x, w, b], [y], .fullyConnectedLayer, f⟩) :
    Computes model simd vector batch data known ⟨[x, w, b], [y], .fullyConnectedLayer, f⟩ y := by
  obtain ⟨X, hX, hXbatch, hXaddress, hXread⟩ := activation.exists_tensor hcontext hbatch
  obtain ⟨W, hW, hWprod, hWsmall, hWaddress, hWread⟩ := weights.exists_tensor hstored hcontext
  obtain ⟨B, hB, hBprod, -, -, hBread⟩ := bias.exists_tensor hstored hcontext
  obtain ⟨T, hT, hTbatch, -, -⟩ := output.exists_tensor hcontext hbatch
  obtain ⟨T', hT', hdims, haddress, hread⟩ := Kernels.dense_writes simd
    hXbatch.batch_eq hXbatch.channels_eq hTbatch.channels_eq hXbatch.prod_eq hWprod hTbatch.prod_eq
    hXbatch.small hWsmall hTbatch.small
  obtain ⟨result, hresult, hdims', haddress', hread'⟩ := Kernels.bias_writes simd
    (hdims ▸ hTbatch.batch_eq) (hdims ▸ hTbatch.channels_eq) hBprod (hdims ▸ hTbatch.prod_eq)
    hcontext.ones
  refine ⟨T, result, n, hT, hTbatch, output, ?_, hdims'.trans hdims, haddress'.trans haddress,
    fun r hr rows hrows i hi => ?_⟩
  · simp [runImplementation, hne, weights.ne output, bias.ne output, hX, hW, hB, hT, hT', hresult]
  · rw [hread' r hr i hi, hread r hr i hi, dot_eq_rowDot_of_holds h (by simp) hx activation hXbatch
      hXaddress hXread hWprod hWaddress hWread hr hi hrows, hBread]
    simp [rowImplementation, activation.channels_eq]

theorem l2Normalization_computes {x y : ℕ} {f : ActivationFunctionType} (hbatch : 1 ≤ batch)
    (hcontext : ContextOf model batch address data) (hx : x ∈ known)
    (activation : model.Activation x k) (output : model.Activation y k) (hne : y ≠ x)
    (h : SameArithmetic model simd vector address ⟨[x], [y], .l2NormalizationLayer, f⟩) :
    Computes model simd vector batch data known ⟨[x], [y], .l2NormalizationLayer, f⟩ y := by
  obtain ⟨X, hX, hXbatch, -, hXread⟩ := activation.exists_tensor hcontext hbatch
  obtain ⟨T, hT, hTbatch, hTaddress, -⟩ := output.exists_tensor hcontext hbatch
  obtain ⟨copy, hcopyAddress, hcopy, result, hresult, hdims, haddress, hread⟩ :=
    Kernels.l2Normalization_writes simd hXbatch.batch_eq hXbatch.channels_eq
      hXbatch.prod_eq hTbatch.prod_eq hTbatch.small
  refine ⟨T, result, k, hT, hTbatch, output, ?_, hdims, haddress, fun r hr rows hrows i hi => ?_⟩
  · simp [runImplementation, hne, hX, hT, hresult]
  have hrow : Agree (copy.row (r * k)) (rows x) k := by
    intro j hj
    have hlt : j + r * k < batch * k := by
      have := row_le (k := k) hr
      omega
    rw [Buffer.row, hcopy _ hlt, Nat.add_comm, ← hXread]
    exact hrows x hx k activation j hj
  have hdefined : Defined (copy.row (r * k)) k :=
    defined_row copy ((row_le hr).trans_eq hTbatch.prod_eq.symm)
  have harithmetic : vector = false ∧ (simd = false ∨ VectorExact α) ∨ vector = true ∧ simd = true
      ∧ copy.Aligned 4 (r * k) ∧ copy.Aligned 4 (r * k) := by
    refine h.imp_right ?_
    rintro ⟨hvector, hsimd, haddress, hchannels⟩
    refine ⟨hvector, hsimd, ?_⟩
    have haligned := Buffer.aligned_mul (r := r) (b := copy)
      ((hcopyAddress.trans hTaddress) ▸ haddress y) (hchannels x (by simp) k activation)
    exact ⟨haligned, haligned⟩
  have hvalue : copy.read (r * k + i) = rows x i := by
    rw [← hrow i hi, Buffer.row, Nat.add_comm]
  rw [hread r hr i hi, Kernels.normalizedAt, Kernels.cblasSnrm2, Nat.mul_comm k r,
    dot_eq_rowDot hdefined hdefined harithmetic, rowDot_congr hrow hrow, hvalue]
  simp [rowImplementation, activation.channels_eq, Option.bind_assoc]

theorem LayerOk.computes {layer : Layer} {y : ℕ} (hlayer : model.LayerOk known layer y)
    (hstored : model.Stored) (hbatch : 1 ≤ batch) (hcontext : ContextOf model batch address data)
    (h : SameArithmetic model simd vector address layer) :
    Computes model simd vector batch data known layer y := by
  rcases hlayer with ⟨hx, activation, weights, output, hne⟩ |
    ⟨hx, activation, weights, bias, output, hne⟩ | ⟨hx, activation, output, hne⟩
  · exact fullyConnected_computes hstored hbatch hcontext hx activation weights output hne h
  · exact fullyConnectedBias_computes hstored hbatch hcontext hx activation weights bias output hne h
  · exact l2Normalization_computes hbatch hcontext hx activation output hne h

/-- One layer takes a context that holds rows to one that holds the row of its output, too. -/
theorem runLayer_spec {layer : Layer} {y : ℕ} (hlayer : model.LayerOk known layer y)
    (hstored : model.Stored) (hbatch : 1 ≤ batch) (hcontext : ContextOf model batch address data)
    (h : SameArithmetic model simd vector address layer) :
    ∃ T, runLayer simd layer data = some (data.setTensor y T)
      ∧ ContextOf model batch address (data.setTensor y T)
      ∧ ∀ r < batch, ∀ rows, Holds model known r data rows → Holds model (y :: known) r
        (data.setTensor y T) (Function.update rows y (model.rowLayer vector layer rows)) := by
  obtain ⟨T, T₁, n, hT, hTbatch, output, hrun, hdims, haddress, hread⟩ :=
    hlayer.computes hstored hbatch hcontext h
  obtain ⟨hy, -⟩ := List.getElem?_eq_some_iff.mp hT
  obtain ⟨T₂, hrun', hdims', haddress', hread'⟩ :=
    runActivation_writes layer.activationFunction hy T₁
  have hinputs := tensorsFromIndex_eq (hcontext.length ▸ hlayer.inputs_lt)
  have houtputs : tensorsFromIndex data.tensorMap layer.outputs = [y] := by
    rw [hlayer.outputs_eq, tensorsFromIndex_eq]
    · rfl
    · simpa using hy
  refine ⟨T₂, ?_, hcontext.setTensor output hT (hdims'.trans hdims) (haddress'.trans haddress),
    fun r hr rows hrows t ht k hk i hi => ?_⟩
  · simp only [runLayer, hinputs, houtputs, hrun, hrun', Option.bind_eq_bind, Option.bind_some]
    rfl
  · by_cases hty : t = y
    · subst hty
      obtain rfl : k = n := hk.channels_eq.symm.trans output.channels_eq
      have hlt : r * k + i < T₁.dimensions.prod := by
        rw [hdims, hTbatch.prod_eq]
        exact (Nat.add_lt_add_left hi _).trans_le (row_le hr)
      rw [read_setTensor_self hy, hread' _ hlt, hread r hr rows hrows i hi, Function.update_self]
      rfl
    · rw [read_setTensor_of_ne hty, Function.update_of_ne hty]
      exact hrows t ((List.mem_cons.mp ht).resolve_left hty) k hk i hi

end Layers

end InferenceModel

end Vpunn
