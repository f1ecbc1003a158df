import Vpunn.Inference.Rows
import Vpunn.Lib.Rows
import Vpunn.Lib.Runs

/-! Runs of inferences in one execution context.

    From its creation on, a context gives for each row of each batch what the model stands for, and it
    refuses input of another size. -/

namespace Vpunn
open Blas InferenceExecutionData Rows

variable {α : Type} {model : InferenceModel α}

/-! ### The context that is created -/

namespace InferenceExecutionData

theorem maxBatchInTensors_spec {tensorMap : List (Tensor α)}
    (h : ∀ t ∈ tensorMap, ∃ d, t.dimensions[0]? = some d) :
    ∃ m, maxBatchInTensors tensorMap = some m
      ∧ ∀ t ∈ tensorMap, ∀ d, t.dimensions[0]? = some d → d ≤ m := by
  have hrun : ∀ m₀, ∃ m, tensorMap.foldlM (fun m t => do return max m (← t.dimensions[0]?)) m₀ = some m
      ∧ m₀ ≤ m ∧ ∀ t ∈ tensorMap, ∀ d, t.dimensions[0]? = some d → d ≤ m := by
    induction tensorMap with
    | nil => exact fun m₀ => ⟨m₀, rfl, le_rfl, by simp⟩
    | cons t ts ih =>
      intro m₀
      rw [List.forall_mem_cons] at h
      obtain ⟨d, hd⟩ := h.1
      obtain ⟨m, hm, hle, hall⟩ := ih h.2 (max m₀ d)
      refine ⟨m, ?_, (le_max_left _ _).trans hle, List.forall_mem_cons.mpr ⟨fun d' hd' => ?_, hall⟩⟩
      · rw [List.foldlM_cons, hd]
        exact hm
      · rw [hd] at hd'
        cases hd'
        exact (le_max_right _ _).trans hle
  obtain ⟨m, hm, -, hall⟩ := hrun 0
  exact ⟨m, hm, hall⟩

variable [MachineNumber α]

/-- The bytes of every tensor can be counted in 32 bits. -/
def SmallTensors (model : InferenceModel α) (batch : ℕ) : Prop :=
  ∀ d ∈ model.tensors,
    (parseVector d.shape (if d.buffer ≠ 0 then 1 else batch)).prod < 1073741824

instance (model : InferenceModel α) (batch : ℕ) : Decidable (SmallTensors model batch) :=
  inferInstanceAs (Decidable (∀ d ∈ model.tensors, _))

theorem allocateTensor_spec (hstored : model.Stored) {batch : ℕ} (hsmall : SmallTensors model batch)
    (address : ℕ) {d : TensorDescriptor} (hd : d ∈ model.tensors) :
    ∃ t, allocateTensor model batch address d = some t ∧ TensorFits model batch address d t := by
  by_cases hbuffer : d.buffer ≠ 0
  · obtain ⟨content, hcontent, hlength⟩ := hstored d hd hbuffer
    let empty : Tensor α := ⟨parseVector d.shape 1, ⟨address, .replicate _ 0⟩⟩
    have hempty : empty.Small := by
      have := hsmall d hd
      rwa [if_pos hbuffer] at this
    have hcontentLength : content.length % 1073741824 = empty.dimensions.prod := by
      rw [hlength, ← parseVector_one d.shape]
      exact Nat.mod_eq_of_lt hempty
    obtain ⟨buffer, hassign, haddress, hread⟩ := Tensor.assign_of_length hempty hcontentLength
    refine ⟨{ empty with buffer }, ?_, ?_, haddress, hempty, ?_⟩
    · rw [allocateTensor, if_pos hbuffer, hcontent]
      exact hassign
    · rw [if_pos hbuffer]
    · rintro - data hdata i hi
      rw [hcontent] at hdata
      cases hdata
      exact hread i hi
  · have hsize := hsmall d hd
    rw [if_neg hbuffer] at hsize
    refine ⟨_, if_neg hbuffer, ?_, rfl, hsize, fun h => absurd h hbuffer⟩
    rw [if_neg hbuffer]

/-- A context of the model that knows where its input and its output are. -/
structure Ready (model : InferenceModel α) (input output batch : ℕ) (address : ℕ → ℕ)
    (data : InferenceExecutionData α) : Prop where
  context : ContextOf model batch address data
  input_eq : data.inputBufferCachedIdx = input
  output_eq : data.outputBufferCachedIdx = output

theorem dimensions_head {batch : ℕ} {shape : List ℕ} (h : shape ≠ []) :
    ∃ d, (parseVector shape batch)[0]? = some d := by
  rcases shape with _ | ⟨d, ds⟩
  · exact absurd rfl h
  · exact ⟨_, rfl⟩

theorem create_spec {input inputSize output outputSize batch : ℕ}
    (hmodel : model.WellFormed input inputSize output outputSize) (hbatch : 1 ≤ batch)
    (hsmall : SmallTensors model batch) (address : ℕ → ℕ) :
    ∃ data, create model batch address = some data ∧ Ready model input output batch address data := by
  obtain ⟨tensorMap, hmap, hlength, hget⟩ := Runs.mapM_getElem?
    (f := fun e : TensorDescriptor × ℕ => allocateTensor model batch (address e.2) e.1)
    (l := model.tensors.zipIdx) fun e he => by
      obtain ⟨t, ht, -⟩ := allocateTensor_spec hmodel.stored hsmall (address e.2)
        (List.fst_mem_of_mem_zipIdx he)
      exact ⟨t, ht⟩
  rw [List.length_zipIdx] at hlength
  have htensor : ∀ i d, model.tensors[i]? = some d →
      ∃ t, tensorMap[i]? = some t ∧ TensorFits model batch (address i) d t := by
    intro i d hd
    obtain ⟨t, ht, hallocate⟩ := hget i (d, i) (by simp [List.getElem?_zipIdx, hd])
    obtain ⟨t', hallocate', hfits⟩ := allocateTensor_spec hmodel.stored hsmall (address i)
      (List.mem_of_getElem? hd)
    rw [hallocate] at hallocate'
    cases hallocate'
    exact ⟨t, ht, hfits⟩
  have hhead : ∀ t ∈ tensorMap, ∃ d, t.dimensions[0]? = some d := by
    intro t ht
    obtain ⟨i, hi⟩ := List.mem_iff_getElem?.mp ht
    have hi' : i < model.tensors.length := hlength ▸ (List.getElem?_eq_some_iff.mp hi).1
    obtain ⟨t', ht', hfits⟩ := htensor i _ (List.getElem?_eq_getElem hi')
    rw [hi] at ht'
    cases ht'
    rw [hfits.dimensions]
    exact dimensions_head (hmodel.shape_ne_nil _ (List.getElem_mem hi'))
  obtain ⟨space, hspace, hle⟩ := maxBatchInTensors_spec hhead
  -- the rows of the input need that many ones
  have hbatchSpace : batch ≤ space := by
    obtain ⟨d, hd, hact⟩ := hmodel.input_activation
    obtain ⟨t, ht, hfits⟩ := htensor input d hd
    exact hle t (List.mem_of_getElem? ht) batch (hfits.isBatch hact hbatch).batch_eq
  refine ⟨⟨tensorMap, .reserveBiasSpace space, input, output⟩, ?_,
    ⟨hlength, htensor, fun r hr => ?_⟩, rfl, rfl⟩
  · simp [create, hmodel.inputs, hmodel.outputs, hmap, hspace]
  · exact (Vector.getElem?_eq_getElem (hr.trans_le hbatchSpace)).trans
      (congrArg some (Vector.getElem_replicate _))

end InferenceExecutionData

/-! ### One inference -/

section Predict

variable [MachineNumber α] [DecidableEq α] [DecidableLT α] {simd vector : Bool}
  {input inputSize output outputSize batch : ℕ} {address : ℕ → ℕ}
  {data : InferenceExecutionData α}

/-- The layers take the rows that a context holds to the rows that the model computes. -/
theorem foldlM_runLayer_spec {known known' : List ℕ} {layers : List Layer}
    (hlayers : model.LayersOk known layers known') (hstored : model.Stored) (hbatch : 1 ≤ batch)
    (hsame : ∀ layer ∈ layers, model.SameArithmetic simd vector address layer)
    (hready : Ready model input output batch address data) :
    ∃ data', layers.foldlM (fun memory layer => InferenceModel.runLayer simd layer memory) data
        = some data'
      ∧ Ready model input output batch address data'
      ∧ ∀ r < batch, ∀ rows, Holds model known r data rows →
        Holds model known' r data' (model.rowLayers vector layers rows) := by
  induction hlayers generalizing data with
  | nil => exact ⟨data, rfl, hready, fun r _ rows hrows => hrows⟩
  | @cons known known' layer layers y head tail ih =>
    rw [List.forall_mem_cons] at hsame
    obtain ⟨T, hrun, hcontext, hholds⟩ :=
      InferenceModel.runLayer_spec head hstored hbatch hready.context hsame.1
    obtain ⟨data', hrun', hready', hholds'⟩ :=
      ih hsame.2 ⟨hcontext, hready.input_eq, hready.output_eq⟩
    refine ⟨data', by rw [List.foldlM_cons, hrun]; exact hrun', hready', fun r hr rows hrows => ?_⟩
    have := hholds' r hr _ (hholds r hr rows hrows)
    simpa [InferenceModel.rowLayers, head.outputs_eq] using this

/-- What an inference returns for the elements of a batch. The number of elements is looked at in
    32 bits as a number of bytes, and where these are the right ones the first elements are taken. -/
structure IsAnswer (model : InferenceModel α) (vector : Bool)
    (input inputSize output outputSize batch : ℕ) (elements : List α)
    (result : Except InferenceError (List α)) : Prop where
  rows : elements.length % 1073741824 = batch * inputSize → ∃ outputs, result = .ok outputs
    ∧ outputs.length = batch * outputSize
    ∧ ∀ r < batch, ∀ i < outputSize, (rowOf outputSize r outputs)[i]?
      = model.rowPredict vector input output (rowOf inputSize r elements) i
  refused : elements.length % 1073741824 ≠ batch * inputSize → result = .error .wrongSize

theorem getInt_natCast {β : Type} (l : List β) (i : ℕ) : getInt l i = l[i]? := by
  rw [getInt, if_pos (Int.natCast_nonneg i), Int.toNat_natCast]

theorem predict_spec (hmodel : model.WellFormed input inputSize output outputSize)
    (hbatch : 1 ≤ batch)
    (hsame : ∀ layer ∈ model.operators, model.SameArithmetic simd vector address layer)
    (hready : Ready model input output batch address data) (elements : List α) :
    IsAnswer model vector input inputSize output outputSize batch elements
        (Runtime.predict model simd elements data).1
      ∧ Ready model input output batch address (Runtime.predict model simd elements data).2 := by
  obtain ⟨X, hX, hXbatch, -, -⟩ := hmodel.input_activation.exists_tensor hready.context hbatch
  have hget : getInt data.tensorMap data.inputBufferCachedIdx = some X := by
    rw [hready.input_eq, getInt_natCast, hX]
  by_cases hlength : elements.length % 1073741824 = batch * inputSize
  · obtain ⟨buffer, hassign, haddress, hread⟩ :=
      Tensor.assign_of_length hXbatch.small (hlength.trans hXbatch.prod_eq.symm)
    have hset : Runtime.setInputs elements data = .ok (data.setTensor input { X with buffer }) := by
      rw [Runtime.setInputs, hget, setTensor]
      simp only [hassign, hready.input_eq, Int.toNat_natCast]
    have hready' : Ready model input output batch address
        (data.setTensor input { X with buffer }) :=
      ⟨hready.context.setTensor hmodel.input_activation hX rfl haddress, hready.input_eq,
        hready.output_eq⟩
    have hholds : ∀ r < batch, Holds model [input] r (data.setTensor input { X with buffer })
        (Function.update (fun _ _ => none) input fun i => (rowOf inputSize r elements)[i]?) := by
      intro r hr t ht k hk i hi
      obtain rfl := List.mem_singleton.mp ht
      obtain rfl : k = inputSize := hk.channels_eq.symm.trans hmodel.input_activation.channels_eq
      have hlt : r * k + i < X.dimensions.prod := by
        have := row_le (k := k) hr
        rw [hXbatch.prod_eq]
        omega
      rw [read_setTensor_self (List.getElem?_eq_some_iff.mp hX).1, hread _ hlt,
        Function.update_self, rowOf_getElem? elements hi]
    obtain ⟨known, hlayers, houtput⟩ := hmodel.layers
    obtain ⟨data', hrun, hready'', hrows⟩ :=
      foldlM_runLayer_spec hlayers hmodel.stored hbatch hsame hready'
    obtain ⟨Y, hY, hYbatch, -, hYread⟩ :=
      hmodel.output_activation.exists_tensor hready''.context hbatch
    have hpredict : Runtime.predict model simd elements data
        = (.ok Y.buffer.data.toList, data') := by
      rw [Runtime.predict, hset]
      simp only [InferenceModel.predict, hrun, Runtime.getOutputs, hready''.output_eq,
        getInt_natCast, hY]
    rw [hpredict]
    refine ⟨⟨fun _ => ⟨_, rfl, ?_, fun r hr i hi => ?_⟩, fun h => absurd hlength h⟩, hready''⟩
    · rw [Vector.length_toList, hYbatch.prod_eq]
    · rw [rowOf_getElem? _ hi, Vector.getElem?_toList]
      exact (hYread _).symm.trans
        (hrows r hr _ (hholds r hr) output houtput outputSize hmodel.output_activation i hi)
  · have hrefused : Runtime.predict model simd elements data = (.error .wrongSize, data) := by
      rw [Runtime.predict, Runtime.setInputs, hget]
      simp only [Tensor.assign_of_ne hXbatch.small (hXbatch.prod_eq ▸ hlength)]
    rw [hrefused]
    exact ⟨⟨fun h => absurd h hlength, fun _ => rfl⟩, hready⟩

/-- From its creation on, a context whose tensors have fewer than `2 ^ 30` elements answers every input
    of the right size by what the model computes from each of its rows, and refuses every other, where
    sizes are looked at modulo `2 ^ 30`: nothing is read or written outside of a tensor, and neither the
    other rows of a batch, nor what earlier inferences have left, nor the batch size, nor where the
    tensors are makes a difference. -/
theorem runtime_predict_rows (hmodel : model.WellFormed input inputSize output outputSize)
    (hbatch : 1 ≤ batch) (hsmall : SmallTensors model batch)
    (hsame : ∀ layer ∈ model.operators, model.SameArithmetic simd vector address layer) :
    ∃ data, create model batch address = some data ∧ ∀ batches : List (List α),
      List.Forall₂ (IsAnswer model vector input inputSize output outputSize batch) batches
        (Runs.run (Runtime.predict model simd) batches data).1 := by
  obtain ⟨data, hcreate, hready⟩ := create_spec hmodel hbatch hsmall address
  refine ⟨data, hcreate, fun batches => ?_⟩
  exact Runs.run_forall₂ (Ready model input output batch address) _
    (fun elements _ data hready => predict_spec hmodel hbatch hsame hready elements) hready

end Predict

/-! ### A network on exact numbers -/

/-- Rational numbers, of which only sums, products and comparisons are the real ones. -/
@[reducible] def exactNumber : MachineNumber ℚ where
  sqrtf := fun x => x
  exp := fun x => x
  tiny := 0

theorem vectorExact_exactNumber : @InferenceModel.VectorExact ℚ exactNumber := fun u v n => by
  rw [Blas.dotSimd_eq_sum, Blas.accumulate_eq_sum, zero_add]

/-- `max (x - 2 y + 1) 0` for a row `x, y`. -/
def reluNetwork : InferenceModel ℚ where
  tensors := [⟨[1, 2], 0⟩, ⟨[1, 2], 1⟩, ⟨[1], 2⟩, ⟨[1, 1], 0⟩]
  inputs := [0]
  outputs := [3]
  operators := [⟨[0, 1, 2], [3], .fullyConnectedLayer, .relu⟩]
  buffers := [[], [1, -2], [1]]

theorem wellFormed_reluNetwork : reluNetwork.WellFormed 0 2 3 1 where
  inputs := rfl
  outputs := rfl
  input_activation := ⟨_, rfl, rfl, [], rfl, rfl⟩
  output_activation := ⟨_, rfl, rfl, [], rfl, rfl⟩
  shape_ne_nil := by decide
  stored := by
    intro d hd hne
    simp only [reluNetwork, List.mem_cons, List.not_mem_nil, or_false] at hd
    rcases hd with rfl | rfl | rfl | rfl
    · exact absurd rfl hne
    · exact ⟨_, rfl, rfl⟩
    · exact ⟨_, rfl, rfl⟩
    · exact absurd rfl hne
  layers := by
    have activation : reluNetwork.Activation 0 2 := ⟨_, rfl, rfl, [], rfl, rfl⟩
    have weights : reluNetwork.Constant 1 (1 * 2) := ⟨_, rfl, by decide, rfl⟩
    have bias : reluNetwork.Constant 2 1 := ⟨_, rfl, by decide, rfl⟩
    have output : reluNetwork.Activation 3 1 := ⟨_, rfl, rfl, [], rfl, rfl⟩
    have hlayer : reluNetwork.LayerOk [0] ⟨[0, 1, 2], [3], .fullyConnectedLayer, .relu⟩ 3 :=
      .fullyConnectedBias List.mem_cons_self activation weights bias output (by decide)
    exact ⟨[3, 0], .cons hlayer .nil, List.mem_cons_self⟩

theorem runtime_predict_rows_relu :
    letI := exactNumber
    ∃ data, create reluNetwork 2 (fun _ => 0) = some data ∧ ∀ batches : List (List ℚ),
      List.Forall₂ (IsAnswer reluNetwork false 0 2 3 1 2) batches
        (Runs.run (Runtime.predict reluNetwork true) batches data).1 :=
  letI := exactNumber
  runtime_predict_rows wellFormed_reluNetwork (by decide) (by decide)
    fun _ _ => .inl ⟨rfl, .inr vectorExact_exactNumber⟩

end Vpunn
