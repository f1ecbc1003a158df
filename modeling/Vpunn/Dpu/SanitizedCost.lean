import Vpunn.Dpu.Transparency
import Vpunn.Validation.CheckAndSanitize

/-! The cost of a workload with the tables of the devices (`VPUCostModel::sanitize_workload`).

    A workload is prepared for its device before it is checked. Neither step finds anything left to
    change in what both have made of it, so a sanitized workload is asked for as it is. A workload
    that is refused gets its problem as an answer and does not reach the cache. -/

namespace Vpunn
open Cycles

/-! ### Before the check -/

namespace DPUWorkload

/-- What is changed before the check. -/
def prepare (wl : DPUWorkload) : DPUWorkload :=
  wl.swizzlingTurnOff.avgpoolReplaceBy.compressConvReplaceByCmConvVpu27
    |>.channelsPreservingOperationsConsistencyCheck

/-- An operation that keeps the number of channels has another number of them in its input. -/
def LosesChannels (wl : DPUWorkload) (op : Operation) : Prop :=
  (op.isDwconvFamilyOperation ∨ op = .eltwise) ∧ ¬ wl.isOutputAutopad ∧ 16 ≤ wl.outputs.channels
    ∧ wl.inputs.channels ≠ wl.outputs.channels

instance (wl : DPUWorkload) (op : Operation) : Decidable (wl.LosesChannels op) :=
  inferInstanceAs (Decidable (_ ∧ _))

/-- The input tensor that an operation gets. -/
def preparedInputs (wl : DPUWorkload) (op : Operation) : VPUTensor :=
  let t := wl.inputs
  if wl.LosesChannels op then t.setShape ⟨t.width, t.height, wl.outputs.channels, t.batches⟩ else t

variable (wl : DPUWorkload)

theorem channelsPreservingOperationsConsistencyCheck_eq :
    wl.channelsPreservingOperationsConsistencyCheck
      = { wl with inputs := wl.preparedInputs wl.op } := by
  unfold channelsPreservingOperationsConsistencyCheck preparedInputs
  by_cases h : wl.LosesChannels wl.op
  · rw [if_pos h]
    exact if_pos h
  · rw [if_neg h]
    exact if_neg h

theorem prepare_eq :
    wl.prepare = { wl with
      op := wl.sanitizedOp
      inputs := wl.preparedInputs wl.sanitizedOp
      inputSwizzling0 := wl.swizzlingTurnOff.inputSwizzling0
      inputSwizzling1 := wl.swizzlingTurnOff.inputSwizzling1
      outputSwizzling := wl.swizzlingTurnOff.outputSwizzling } := by
  have hop := operationSanitisation_eq wl.swizzlingTurnOff
  rw [sanitizedOp_swizzlingTurnOff, operationSanitisation, swizzlingTurnOff_eq] at hop
  rw [prepare, swizzlingTurnOff_eq, hop, channelsPreservingOperationsConsistencyCheck_eq]
  rfl

/-- The operation after all changes depends on few members only. -/
theorem sanitizedOp_congr {tile layer : DPUWorkload} (hdevice : tile.device = layer.device)
    (hop : tile.op = layer.op) (hautopad : tile.inputAutopad = layer.inputAutopad)
    (hchannels : layer.op = .convolution → tile.inputs.channels = layer.inputs.channels) :
    tile.sanitizedOp = layer.sanitizedOp := by
  let same : DPUWorkload := { layer with
    inputSwizzling0 := tile.inputSwizzling0
    inputSwizzling1 := tile.inputSwizzling1
    outputSwizzling := tile.outputSwizzling }
  have halike : SanitizesAlike tile same := ⟨hdevice, hop, hautopad, hchannels, rfl, rfl, rfl⟩
  rw [halike.sanitizedOp_eq]
  unfold sanitizedOp operationSanitisation compressConvReplaceByCmConvVpu27 avgpoolReplaceBy
    isInputAutopad
  split_ifs <;> simp_all [same]

/-- Nothing is left to prepare. -/
structure Prepared (wl : DPUWorkload) : Prop where
  swizzlings : VPUDevice.npu_5_0.toNat ≤ wl.device.toNat →
    wl.inputSwizzling0 = .key0 ∧ wl.inputSwizzling1 = .key0 ∧ wl.outputSwizzling = .key0
  operation : wl.sanitizedOp = wl.op
  channels : ¬ wl.LosesChannels wl.op

variable {wl}

theorem Prepared.prepare_eq (h : wl.Prepared) : wl.prepare = wl := by
  have hoff : wl.swizzlingTurnOff = wl := by
    unfold swizzlingTurnOff
    split_ifs with hdevice
    · obtain ⟨h0, h1, hout⟩ := h.swizzlings hdevice
      clear h
      cases wl
      simp_all [setAllSwizzlings]
    · rfl
  rw [DPUWorkload.prepare_eq, hoff, h.operation, preparedInputs, if_neg h.channels]

variable (wl)

/-- The preparation leaves nothing to prepare. Only operations that keep the number of channels get
    other channels, and a convolution is none of them. -/
theorem prepared_prepare : wl.prepare.Prepared := by
  have hconv : wl.sanitizedOp = .convolution →
      (wl.preparedInputs wl.sanitizedOp).channels = wl.inputs.channels := by
    intro hop
    have hkeep : ¬ wl.LosesChannels wl.sanitizedOp := by
      rw [hop]
      rintro ⟨hkeeps | hkeeps, -⟩
      · exact absurd hkeeps (by decide)
      · exact absurd hkeeps (by decide)
    rw [preparedInputs, if_neg hkeep]
  rw [prepare_eq]
  constructor
  · intro hdevice
    have hoff : wl.swizzlingTurnOff = wl.setAllSwizzlings .key0 := if_pos hdevice
    simp only [hoff]
    exact ⟨rfl, rfl, rfl⟩
  · refine Eq.trans (sanitizedOp_congr (?_ : _ = wl.sanitize.device) ?_ ?_ ?_)
      (sanitizedOp_sanitize wl)
    all_goals rw [sanitize_eq]
    exact hconv
  · rw [preparedInputs]
    split_ifs with hlose
    · exact fun h => h.2.2.2 rfl
    · exact hlose

variable {wl}

/-- What the check changes does not have to be prepared again. -/
theorem Prepared.sanitize (h : wl.Prepared) (config : SanitizerConfig) :
    (config.sanitize wl).Prepared := by
  have hinputs : (config.sanitize wl).inputs.channels = wl.inputs.channels :=
    congrArg Shape.z (config.shape_sanitizeTensor wl.inputs)
  have houtputs : (config.sanitize wl).outputs.channels = wl.outputs.channels :=
    congrArg Shape.z (config.shape_sanitizeTensor wl.outputs)
  constructor
  · intro hdevice
    obtain ⟨h0, h1, hout⟩ := h.swizzlings hdevice
    simp only [SanitizerConfig.sanitize, h0, h1, hout, config.adaptSwizzling_key0, and_self]
  · have hop : (config.sanitize wl).sanitizedOp = wl.sanitizedOp :=
      sanitizedOp_congr rfl rfl rfl fun _ => hinputs
    rw [hop, h.operation]
    rfl
  · intro hlose
    rw [LosesChannels, hinputs, houtputs] at hlose
    exact h.channels hlose

end DPUWorkload

/-! ### Queries -/

namespace VPUCostModel

/-- The model with the tables of the devices. -/
def withSanitizer (model : VPUCostModel) (configs : List SanitizerConfig) : VPUCostModel :=
  { model with checkAndSanitize := Vpunn.checkAndSanitize configs }

variable (model : VPUCostModel) (configs : List SanitizerConfig)

theorem sanitizeWorkload_withSanitizer (wl : DPUWorkload) :
    (model.withSanitizer configs).sanitizeWorkload wl
      = Vpunn.checkAndSanitize configs wl.prepare := rfl

theorem sanitizeWorkload_idem (wl : DPUWorkload) :
    (model.withSanitizer configs).sanitizeWorkload
        ((model.withSanitizer configs).sanitizeWorkload wl).1
      = (model.withSanitizer configs).sanitizeWorkload wl := by
  have hprepared : (Vpunn.checkAndSanitize configs wl.prepare).1.Prepared := by
    obtain h | ⟨config, h⟩ := checkAndSanitize_fst configs wl.prepare
    · rw [h]
      exact wl.prepared_prepare
    · rw [h]
      exact wl.prepared_prepare.sanitize config
  simp only [sanitizeWorkload_withSanitizer]
  rw [hprepared.prepare_eq, checkAndSanitize_idem]

/-- The sanitized workload is not changed any more, and its query does the same as the one of the
    workload that it was made of. -/
theorem dpu_sanitizeWorkload (wl : DPUWorkload) :
    let asked := ((model.withSanitizer configs).sanitizeWorkload wl).1
    (model.withSanitizer configs).sanitizeWorkload asked
        = (model.withSanitizer configs).sanitizeWorkload wl
      ∧ (model.withSanitizer configs).dpu asked = (model.withSanitizer configs).dpu wl := by
  refine ⟨sanitizeWorkload_idem model configs wl, ?_⟩
  rw [dpu, sanitizeWorkload_idem, ← dpu]

/-- A workload that the tables of its device accept. -/
def Asked (wl : DPUWorkload) : Prop :=
  Accepted configs ((model.withSanitizer configs).sanitizeWorkload wl).1

variable {model configs}

theorem asked_iff {wl : DPUWorkload} :
    model.Asked configs wl ↔ ((model.withSanitizer configs).sanitizeWorkload wl).2 = 0 :=
  (checkAndSanitize_snd_eq_zero_iff configs wl.prepare).symm

/-- A query that is refused returns its problem and leaves the cache as it is. -/
theorem query_of_not_asked {wl : DPUWorkload} (h : ¬ model.Asked configs wl)
    (cache : NNCostCacheManager) :
    (model.withSanitizer configs).query wl cache
      = (.ok ((model.withSanitizer configs).sanitizeWorkload wl).2, cache) := by
  rw [query, dpu]
  simp only [mt asked_iff.mpr h, if_false]
  rfl

/-- A workload has cycles only if it was accepted. -/
theorem asked_of_query {wl : DPUWorkload} {cache : NNCostCacheManager} {cycles : ℕ}
    (h : ((model.withSanitizer configs).query wl cache).1 = .ok cycles)
    (hcycles : ¬ isErrorCode cycles) : model.Asked configs wl := by
  by_contra hrefused
  rw [query_of_not_asked hrefused] at h
  obtain rfl : ((model.withSanitizer configs).sanitizeWorkload wl).2 = cycles :=
    Except.ok.inj h
  exact hcycles (isErrorCode_checkAndSanitize (mt asked_iff.mpr hrefused))

theorem accepts_of_query {wl : DPUWorkload} {cache : NNCostCacheManager} {cycles : ℕ}
    (h : ((model.withSanitizer configs).query wl cache).1 = .ok cycles)
    (hcycles : ¬ isErrorCode cycles) :
    ∃ config w, getConfig configs wl.device = some config
      ∧ config.Accepts ((model.withSanitizer configs).sanitizeWorkload wl).1 w
      ∧ (w.hasWeights → MemoryOperation.SufficientSizes config.alignments w.toMemoryOperation →
        w.requiredInput0 + w.requiredInput1 + w.requiredOutput0 ≤ config.getCmxSize wl.device) := by
  have hdevice : ((model.withSanitizer configs).sanitizeWorkload wl).1.device = wl.device := by
    rw [sanitizeWorkload_withSanitizer, device_checkAndSanitize, DPUWorkload.prepare_eq]
  obtain ⟨config, w, hconfig, hw⟩ := asked_of_query h hcycles
  rw [hdevice] at hconfig
  refine ⟨config, w, hconfig, hw, fun hweights hsizes => ?_⟩
  rw [← hdevice]
  exact hw.required_le hweights hsizes

variable (model configs)

/-- What the answer to a query says about its workload. One that has cycles is accepted by the tables
    of its device, and a convolution finds room in the CMX memory for its tensors, their sparsity
    maps and its weight table, where the sizes are sufficient. -/
structure Answers (wl : DPUWorkload) (answer : Except CostError ℕ) : Prop where
  refused : ¬ model.Asked configs wl → ∃ problem, isErrorCode problem ∧ answer = .ok problem
  accepted : ∀ cycles, answer = .ok cycles → ¬ isErrorCode cycles →
    ∃ config w, getConfig configs wl.device = some config
      ∧ config.Accepts ((model.withSanitizer configs).sanitizeWorkload wl).1 w
      ∧ (w.hasWeights → MemoryOperation.SufficientSizes config.alignments w.toMemoryOperation →
        w.requiredInput0 + w.requiredInput1 + w.requiredOutput0 ≤ config.getCmxSize wl.device)

/-- In every sequence of queries an answer with cycles is one to an accepted workload, and those that
    are refused leave no trace: the others get the same answers without them. -/
theorem run_query_answers (queries : List DPUWorkload) (cache : NNCostCacheManager) :
    let run := Runs.run (model.withSanitizer configs).query
    let usable := fun wl => decide (((model.withSanitizer configs).sanitizeWorkload wl).2 = 0)
    List.Forall₂ (model.Answers configs) queries (run queries cache).1
      ∧ run (queries.filter usable) cache
        = (((queries.zip (run queries cache).1).filter fun p => usable p.1).map Prod.snd,
          (run queries cache).2) := by
  constructor
  · refine Runs.run_forall₂ (fun _ => True) (model.Answers configs) ?_ trivial
    intro wl _ cache _
    refine ⟨⟨fun hrefused => ?_, fun cycles => accepts_of_query⟩, trivial⟩
    rw [query_of_not_asked hrefused]
    exact ⟨_, isErrorCode_checkAndSanitize (mt asked_iff.mpr hrefused), rfl⟩
  · refine Runs.run_filter _ ?_ cache
    intro wl _ hunusable cache
    have hrefused : ¬ model.Asked configs wl :=
      fun h => absurd (asked_iff.mp h) (of_decide_eq_false hunusable)
    rw [query_of_not_asked hrefused]

end VPUCostModel

end Vpunn
