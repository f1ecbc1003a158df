import Vpunn.Dpu.CostModel

/-! What the cache does to the cost of DPU workloads.

    The cache holds the values that the network gave, to be processed for each workload that reads
    them. It also takes cycles that are an answer already, from the profiling service or from an
    extrapolation, and those are processed again when they are read. -/

namespace Vpunn
open Cycles Std.Do

set_option mvcgen.warning false

namespace VPUCostModel

variable (model : VPUCostModel)

/-! ### Without a cache -/

def extrapolatedCost (workload : DPUWorkload) : ℕ :=
  let cost32ch := model.dpuNnCostProvider.cost (workload.cloneAndChangeInOutChannels 32)
  let cost64ch := model.dpuNnCostProvider.cost (workload.cloneAndChangeInOutChannels 64)
  if isErrorCode cost32ch then cost32ch
  else if isErrorCode cost64ch then cost64ch
  else extrapolateCost workload.outputs.channels 32 cost32ch 64 cost64ch

/-- What `try_nn` gives. -/
def nnCost (workload : DPUWorkload) : ℕ :=
  if model.dpuNnCostProvider.isInitialized then
    if model.isLinearlyExtrapolationNecessary workload then model.extrapolatedCost workload
    else model.dpuNnCostProvider.cost workload
  else errorInferenceNotPossible

/-- The cycles that the profiling service gives to a query without a preference. -/
def profiledCost (workload : DPUWorkload) : ℕ :=
  if model.profilingAutoHintEnabled then model.tryProfiling workload else 0

/-- The profiling service answers such a query. -/
def IsProfiled (workload : DPUWorkload) : Prop :=
  ¬ (isErrorCode (model.profiledCost workload) ∨ model.profiledCost workload = 0)

instance (workload : DPUWorkload) : Decidable (model.IsProfiled workload) :=
  inferInstanceAs (Decidable (¬ _))

def fallbackCost (workload : DPUWorkload) : ℕ :=
  if model.IsProfiled workload then model.profiledCost workload
  else if isErrorCode (model.nnCost workload) then model.tryTheoretical workload
  else model.nnCost workload

def autoCost (workload : DPUWorkload) : ℕ :=
  let preloaded := model.dpuNnCostProvider.preloadedCost workload
  if isErrorCode preloaded then model.fallbackCost workload else preloaded

def providersCost (workload : DPUWorkload) : ℕ :=
  match workload.costSourceHint with
  | .auto => model.autoCost workload
  | .profilingService => model.tryProfiling workload
  | .nn => model.nnCost workload
  | .theoretical => model.tryTheoretical workload
  | .__size => 0

/-- The workloads that the network is asked for. -/
def networkQueries (workload : DPUWorkload) : List DPUWorkload :=
  if model.isLinearlyExtrapolationNecessary workload then
    [workload.cloneAndChangeInOutChannels 32, workload.cloneAndChangeInOutChannels 64]
  else [workload]

/-- The workloads that the network is asked for, if it comes to that. -/
def evaluated (workload : DPUWorkload) : List DPUWorkload :=
  match workload.costSourceHint with
  | .auto => if model.IsProfiled workload then [] else model.networkQueries workload
  | .nn => model.networkQueries workload
  | .profilingService | .theoretical | .__size => []

/-- The workloads that get a descriptor, if it comes to that. The cache is asked with one. -/
def transformed (workload : DPUWorkload) : List DPUWorkload :=
  if workload.costSourceHint = .auto then workload :: model.evaluated workload
  else model.evaluated workload

/-- Nothing is thrown where a loaded network is given the descriptors of a workload. -/
def HasDescriptors (workload : DPUWorkload) : Prop :=
  model.dpuNnCostProvider.isInitialized = true →
    ∀ wl ∈ model.transformed workload, model.dpuNnCostProvider.Described wl

instance (workload : DPUWorkload) : Decidable (model.HasDescriptors workload) :=
  inferInstanceAs (Decidable (_ → ∀ wl ∈ model.transformed workload, _))

/-- The network is asked for the workload itself, if it comes to that. -/
def AsksForItself (workload : DPUWorkload) : Prop :=
  ¬ model.IsProfiled workload ∧ model.isLinearlyExtrapolationNecessary workload = false

instance (workload : DPUWorkload) : Decidable (model.AsksForItself workload) :=
  inferInstanceAs (Decidable (_ ∧ _))

/-- A query whose cycles go into the cache as they are. -/
def StoresCycles (workload : DPUWorkload) : Prop :=
  workload.costSourceHint = .auto ∧ ¬ model.AsksForItself workload

instance (workload : DPUWorkload) : Decidable (model.StoresCycles workload) :=
  inferInstanceAs (Decidable (_ ∧ _))

/-- What is found in the cache does not change the answer to a workload. -/
structure ReadsExactly (Found Stored : List ℚ → RawValue → Prop) (workload : DPUWorkload) :
    Prop where
  described : workload.costSourceHint = .auto → model.dpuNnCostProvider.Described workload
  evaluable : ∀ wl ∈ model.evaluated workload, model.dpuNnCostProvider.Evaluable Found Stored wl
  read : workload.costSourceHint = .auto →
    ∀ value, Found (model.dpuNnCostProvider.descriptor workload) value →
      isErrorCode (model.dpuNnCostProvider.cyclesOf workload value)
        ∨ model.dpuNnCostProvider.cyclesOf workload value = model.autoCost workload
  store : model.StoresCycles workload → ¬ isErrorCode (model.fallbackCost workload) →
    Stored (model.dpuNnCostProvider.descriptor workload)
      (some (toFloat (model.fallbackCost workload)))

variable {model}

theorem HasDescriptors.evaluated {workload : DPUWorkload} (h : model.HasDescriptors workload)
    (hinit : model.dpuNnCostProvider.isInitialized = true) {wl : DPUWorkload}
    (hwl : wl ∈ model.evaluated workload) : model.dpuNnCostProvider.Described wl := by
  refine h hinit wl ?_
  rw [transformed]
  split_ifs
  · exact List.mem_cons_of_mem _ hwl
  · exact hwl

theorem HasDescriptors.itself {workload : DPUWorkload} (h : model.HasDescriptors workload)
    (hinit : model.dpuNnCostProvider.isInitialized = true)
    (hauto : workload.costSourceHint = .auto) : model.dpuNnCostProvider.Described workload := by
  refine h hinit workload ?_
  rw [transformed, if_pos hauto]
  exact List.mem_cons_self

variable {Inv : NNCostCacheManager → Prop} {Held : List ℚ → NNCostCacheManager → Prop}
  {Found Stored : List ℚ → RawValue → Prop}
  (laws : model.dpuNnCostProvider.CacheLaws Inv Held Found Stored)

include laws

theorem getCostLinearlyExtrapolated_spec {workload : DPUWorkload}
    (h32 : model.dpuNnCostProvider.Evaluable Found Stored (workload.cloneAndChangeInOutChannels 32))
    (h64 : model.dpuNnCostProvider.Evaluable Found Stored
      (workload.cloneAndChangeInOutChannels 64)) :
    ⦃fun c => ⌜Inv c⌝⦄ model.getCostLinearlyExtrapolated workload
    ⦃⇓ cycles c => ⌜cycles = model.extrapolatedCost workload ∧ Inv c⌝⦄ := by
  have hcost32 := NNCostProvider.getCost_spec laws fun _ => h32
  have hcost64 := NNCostProvider.getCost_spec laws fun _ => h64
  mvcgen [getCostLinearlyExtrapolated, hcost32, hcost64]
  case vc2 h => exact h.2.1
  case vc3 h _ herror _ h' =>
    rw [extrapolatedCost, ← h.1, if_pos herror]
    exact ⟨rfl, h'.2.1⟩
  case vc4 h _ hok herror _ h' =>
    rw [extrapolatedCost, ← h.1, ← h'.1, if_neg hok, if_pos herror]
    exact ⟨rfl, h'.2.1⟩
  case vc5 h _ hok hok' _ h' =>
    rw [extrapolatedCost, ← h.1, ← h'.1, if_neg hok, if_neg hok']
    exact ⟨rfl, h'.2.1⟩

/-- The network's cycles; without an extrapolation they leave the descriptor held. -/
theorem tryNn_spec (workload : DPUWorkload)
    (heval : model.dpuNnCostProvider.isInitialized = true →
      ∀ wl ∈ model.networkQueries workload, model.dpuNnCostProvider.Evaluable Found Stored wl) :
    ⦃fun c => ⌜Inv c⌝⦄ model.tryNn workload
    ⦃⇓ cycles c => ⌜cycles = model.nnCost workload ∧ Inv c
      ∧ (model.dpuNnCostProvider.isInitialized = true →
        model.isLinearlyExtrapolationNecessary workload = false →
        Held (model.dpuNnCostProvider.descriptor workload) c)⌝⦄ := by
  rw [networkQueries] at heval
  by_cases hinit : model.dpuNnCostProvider.isInitialized = true
  · specialize heval hinit
    by_cases hex : model.isLinearlyExtrapolationNecessary workload = true
    · rw [if_pos hex] at heval
      have hcost := getCostLinearlyExtrapolated_spec laws (heval _ List.mem_cons_self)
        (heval _ (by simp))
      mvcgen [tryNn, hcost]
      case vc2 =>
        intro hcycles hc
        refine ⟨?_, hc, fun _ hno => absurd hex (by simp [hno])⟩
        rw [hcycles, nnCost, if_pos hinit, if_pos hex]
    · rw [if_neg hex] at heval
      have hcost := NNCostProvider.getCost_spec laws fun _ => heval workload List.mem_cons_self
      mvcgen [tryNn, hcost]
      case vc3 =>
        intro hcycles hc hheld
        refine ⟨?_, hc, fun h _ => hheld h⟩
        rw [hcycles, nnCost, if_pos hinit, if_neg hex]
  · mvcgen [tryNn]
    case vc3 c hc =>
      refine ⟨?_, hc, fun h => absurd h hinit⟩
      rw [nnCost, if_neg hinit]

/-- The cycles of the fallbacks, and the descriptor is held if they are those of the network for the
    workload itself. -/
theorem tryFallbacks_spec (workload : DPUWorkload)
    (heval : ¬ model.IsProfiled workload → model.dpuNnCostProvider.isInitialized = true →
      ∀ wl ∈ model.networkQueries workload, model.dpuNnCostProvider.Evaluable Found Stored wl) :
    ⦃fun c => ⌜Inv c⌝⦄ model.tryFallbacks workload
    ⦃⇓ cycles c => ⌜cycles = model.fallbackCost workload ∧ Inv c
      ∧ (model.dpuNnCostProvider.isInitialized = true → model.AsksForItself workload →
        Held (model.dpuNnCostProvider.descriptor workload) c)⌝⦄ := by
  by_cases hprofiled : model.IsProfiled workload
  · mvcgen [tryFallbacks]
    case vc2 c hc =>
      refine ⟨?_, hc, fun _ h => absurd hprofiled h.1⟩
      rw [fallbackCost, if_pos hprofiled]
      rfl
  · have hnn := tryNn_spec laws workload (heval hprofiled)
    mvcgen [tryFallbacks, hnn]
    case vc2 herror c h =>
      obtain ⟨rfl, hc, hheld⟩ := h
      refine ⟨?_, hc, fun hinit hasks => hheld hinit hasks.2⟩
      rw [fallbackCost, if_neg hprofiled, if_pos herror]
    case vc3 hok c h =>
      obtain ⟨rfl, hc, hheld⟩ := h
      refine ⟨?_, hc, fun hinit hasks => hheld hinit hasks.2⟩
      rw [fallbackCost, if_neg hprofiled, if_neg hok]

/-- Cycles are shared if the cache may store them, or has a value that stays. -/
theorem shareWithCache_spec {workload : DPUWorkload}
    (hdescribed : model.dpuNnCostProvider.isInitialized = true →
      model.dpuNnCostProvider.Described workload) (K : Prop) (cycles : ℕ) :
    ⦃fun c => ⌜(Inv c ∧ (K → Held (model.dpuNnCostProvider.descriptor workload) c))
      ∧ (model.dpuNnCostProvider.isInitialized = true → ¬ isErrorCode cycles →
        K ∨ Stored (model.dpuNnCostProvider.descriptor workload) (some (toFloat cycles)))⌝⦄
    model.shareWithCache workload cycles
    ⦃⇓ _ c => ⌜Inv c⌝⦄ := by
  have hget := NNCostProvider.getCached_spec laws hdescribed K
  by_cases hstore : model.dpuNnCostProvider.isInitialized = true → ¬ isErrorCode cycles →
      K ∨ Stored (model.dpuNnCostProvider.descriptor workload) (some (toFloat cycles))
  · by_cases hok : isErrorCode cycles
    · mvcgen [shareWithCache, hget]
      case vc1 h => exact h.1
      case vc2 h => exact absurd hok h.2
      case vc3 h => exact h.1
    · have hadd := NNCostProvider.addToCache_spec laws hdescribed (toFloat cycles) K
        fun hinit => hstore hinit hok
      mvcgen [shareWithCache, hget, hadd]
      case vc1 h => exact h.1
      case vc2 h => exact ⟨h.1, h.2.1⟩
      case vc3 h => exact h.1
  · exact fun c h => absurd h.2 hstore

/-- A query without a preference gives the cycles that it would without a cache. -/
theorem runAuto_spec {workload : DPUWorkload} (hauto : workload.costSourceHint = .auto)
    (h : model.dpuNnCostProvider.isInitialized = true → model.ReadsExactly Found Stored workload) :
    ⦃fun c => ⌜Inv c⌝⦄ model.runAuto workload
    ⦃⇓ cycles c => ⌜cycles = model.autoCost workload ∧ Inv c⌝⦄ := by
  have hdescribed := fun hinit => (h hinit).described hauto
  have hget := NNCostProvider.getCached_spec laws hdescribed False
  have hfallbacks := tryFallbacks_spec laws workload fun hno hinit => by
    have := (h hinit).evaluable
    rwa [evaluated, hauto, if_neg hno] at this
  have hshare := shareWithCache_spec laws hdescribed
    (model.dpuNnCostProvider.isInitialized = true ∧ model.AsksForItself workload)
  mvcgen [runAuto, hget, hfallbacks, hshare]
  case vc1 c hc => exact ⟨hc, False.elim⟩
  case vc2 c h => exact h.1
  case vc3 herror _ h' cycles c h =>
    obtain ⟨rfl, hc, hheld⟩ := h
    refine ⟨⟨hc, hheld⟩, fun hinit hok => ?_⟩
    by_cases hasks : model.AsksForItself workload
    · exact .inl ⟨hinit, hasks⟩
    · exact .inr ((h hinit).store ⟨hauto, hasks⟩ hok)
  case vc4 cached herror c h' cycles c' h'' _ c'' hc =>
    refine ⟨?_, hc⟩
    have hpreloaded : isErrorCode (model.dpuNnCostProvider.preloadedCost workload) := by
      rcases h'.2.2 with rfl | ⟨-, hmiss, -⟩
      · exact herror
      · exact hmiss
    rw [h''.1, autoCost, if_pos hpreloaded]
  case vc5 cached hok c h' =>
    refine ⟨?_, h'.1⟩
    rcases h'.2.2 with rfl | ⟨hinit, -, value, hfound, rfl⟩
    · rw [autoCost, if_neg hok]
    · exact ((h hinit).read hauto value hfound).resolve_left hok

/-- Whatever the hint of a query is. -/
theorem runCostProviders_spec (workload : DPUWorkload)
    (h : model.dpuNnCostProvider.isInitialized = true → model.ReadsExactly Found Stored workload) :
    ⦃fun c => ⌜Inv c⌝⦄ model.runCostProviders workload
    ⦃⇓ cycles c => ⌜cycles = model.providersCost workload ∧ Inv c⌝⦄ := by
  rw [runCostProviders, providersCost]
  rcases hhint : workload.costSourceHint with _ | _ | _ | _ | _
  · exact runAuto_spec laws hhint h
  · have hnn := tryNn_spec laws workload fun hinit => by
      have := (h hinit).evaluable
      rwa [evaluated, hhint] at this
    mvcgen [hnn]
    case vc2 => exact fun hcycles hc _ => ⟨hcycles, hc⟩
  all_goals mvcgen

end VPUCostModel

namespace VPUCostModel

/-! ### Queries -/

variable (model : VPUCostModel)

/-- The workloads that `get_cost` runs the providers for. -/
def providerQueries (workload : DPUWorkload) : List DPUWorkload :=
  if workload.isDualsparsityActive then
    [workload.cloneDeactivateActSparsity, workload.cloneDeactivateWeightSParsity]
  else [workload]

/-- The cost of a workload without a cache. -/
def plainCost (workload : DPUWorkload) : ℕ :=
  if workload.isDualsparsityActive then
    let actOff := model.providersCost workload.cloneDeactivateActSparsity
    let wtOff := model.providersCost workload.cloneDeactivateWeightSParsity
    if isErrorCode actOff then actOff else if isErrorCode wtOff then wtOff else min actOff wtOff
  else model.providersCost workload

/-- The workloads that a query runs the providers for. -/
def subqueries (workload : DPUWorkload) : List DPUWorkload :=
  if (model.sanitizeWorkload workload).2 = 0 then
    providerQueries (model.sanitizeWorkload workload).1
  else []

/-- What a query returns without a cache. -/
def plainDpu (workload : DPUWorkload) : ℕ :=
  if (model.sanitizeWorkload workload).2 = 0 then
    model.plainCost (model.sanitizeWorkload workload).1
  else (model.sanitizeWorkload workload).2

variable {model} {Inv : NNCostCacheManager → Prop} {Held : List ℚ → NNCostCacheManager → Prop}
  {Found Stored : List ℚ → RawValue → Prop}
  (laws : model.dpuNnCostProvider.CacheLaws Inv Held Found Stored)

include laws

theorem getCost_spec {workload : DPUWorkload} (h : model.dpuNnCostProvider.isInitialized = true →
      ∀ wl ∈ providerQueries workload, model.ReadsExactly Found Stored wl) :
    ⦃fun c => ⌜Inv c⌝⦄ model.getCost workload
    ⦃⇓ cycles c => ⌜cycles = model.plainCost workload ∧ Inv c⌝⦄ := by
  rw [providerQueries] at h
  rw [getCost, plainCost]
  by_cases hdual : workload.isDualsparsityActive = true
  · rw [if_pos hdual] at h ⊢
    rw [if_pos hdual]
    have hact := runCostProviders_spec laws workload.cloneDeactivateActSparsity
      fun hinit => h hinit _ List.mem_cons_self
    have hwt := runCostProviders_spec laws workload.cloneDeactivateWeightSParsity
      fun hinit => h hinit _ (by simp)
    mvcgen [getCostDualsparsity, hact, hwt]
    case vc2 c h => exact h.2
    case vc3 h _ herror c h' =>
      rw [← h.1, if_pos herror]
      exact ⟨rfl, h'.2⟩
    case vc4 h _ hok herror c h' =>
      rw [← h.1, ← h'.1, if_neg hok, if_pos herror]
      exact ⟨rfl, h'.2⟩
    case vc5 h _ hok hok' c h' =>
      rw [← h.1, ← h'.1, if_neg hok, if_neg hok']
      exact ⟨rfl, h'.2⟩
  · rw [if_neg hdual] at h ⊢
    rw [if_neg hdual]
    exact runCostProviders_spec laws workload fun hinit => h hinit _ List.mem_cons_self

/-- A query gives what it does without a cache, as long as the cache reads exactly. -/
theorem dpu_spec (workload : DPUWorkload) (h : model.dpuNnCostProvider.isInitialized = true →
      ∀ wl ∈ model.subqueries workload, model.ReadsExactly Found Stored wl) :
    ⦃fun c => ⌜Inv c⌝⦄ model.dpu workload
    ⦃⇓ cycles c => ⌜cycles = model.plainDpu workload ∧ Inv c⌝⦄ := by
  rw [subqueries] at h
  rw [dpu, plainDpu]
  by_cases husable : (model.sanitizeWorkload workload).2 = 0
  · rw [if_pos husable] at h ⊢
    simp only [husable, if_true]
    exact getCost_spec laws h
  · simp only [husable, if_false]
    mvcgen

end VPUCostModel

namespace VPUCostModel

variable (model : VPUCostModel)

/-- A query on a cache. -/
def query (workload : DPUWorkload) (cache : NNCostCacheManager) :
    Except CostError ℕ × NNCostCacheManager :=
  (model.dpu workload).call cache

/-- Every query of a sequence returns what a new model does whose cache has no place. -/
def Transparent (maxSize : ℕ) (queries : List DPUWorkload) : Prop :=
  (Runs.run model.query queries (model.dpuNnCostProvider.newCache maxSize)).1
    = queries.map fun workload => (model.query workload (model.dpuNnCostProvider.newCache 0)).1

/-- What the workloads of a list may have left in the cache: values of the network, and cycles. -/
def Leaves (workloads : List DPUWorkload) (descriptor : List ℚ) (value : RawValue) : Prop :=
  (∃ e ∈ workloads, ∃ wl ∈ model.evaluated e,
    descriptor = model.dpuNnCostProvider.descriptor wl
      ∧ value = model.dpuNnCostProvider.predict descriptor)
  ∨ ∃ e ∈ workloads, model.StoresCycles e ∧ ¬ isErrorCode (model.fallbackCost e)
    ∧ descriptor = model.dpuNnCostProvider.descriptor e
    ∧ value = some (toFloat (model.fallbackCost e))

/-- Cycles that are stored are kept apart from the values of the network, and are the answer to every
    query that reads them, after they have been processed once more. -/
structure CachesExactly (workloads : List DPUWorkload) : Prop where
  apart : ∀ e ∈ workloads, model.StoresCycles e → ∀ w ∈ workloads, ∀ wl ∈ model.evaluated w,
    model.dpuNnCostProvider.descriptor wl ≠ model.dpuNnCostProvider.descriptor e
  reread : ∀ e ∈ workloads, model.StoresCycles e → ¬ isErrorCode (model.fallbackCost e) →
    ∀ w ∈ workloads, w.costSourceHint = .auto →
    model.dpuNnCostProvider.descriptor w = model.dpuNnCostProvider.descriptor e →
    let cycles := model.dpuNnCostProvider.cyclesOf w (some (toFloat (model.fallbackCost e)))
    isErrorCode cycles ∨ cycles = model.fallbackCost w

variable {model}

theorem autoCost_of_not_preloaded {workload : DPUWorkload}
    (h : model.dpuNnCostProvider.preloaded.get
      (model.dpuNnCostProvider.descriptor workload) = none) :
    model.autoCost workload = model.fallbackCost workload := by
  have hmiss : isErrorCode (model.dpuNnCostProvider.preloadedCost workload) := by
    rw [NNCostProvider.preloadedCost, h, Option.map_none, Option.getD_none, ite_self]
    decide
  rw [autoCost, if_pos hmiss]

/-- What is preloaded is read exactly. -/
theorem autoCost_of_preloaded {workload : DPUWorkload} {value : RawValue}
    (hinit : model.dpuNnCostProvider.isInitialized = true)
    (h : model.dpuNnCostProvider.preloaded.get
      (model.dpuNnCostProvider.descriptor workload) = some value) :
    isErrorCode (model.dpuNnCostProvider.cyclesOf workload value)
      ∨ model.dpuNnCostProvider.cyclesOf workload value = model.autoCost workload := by
  have hpreloaded : model.dpuNnCostProvider.preloadedCost workload
      = model.dpuNnCostProvider.cyclesOf workload value := by
    rw [NNCostProvider.preloadedCost, if_pos hinit, h, Option.map_some, Option.getD_some]
  rw [autoCost, hpreloaded]
  by_cases herror : isErrorCode (model.dpuNnCostProvider.cyclesOf workload value)
  · exact .inl herror
  · exact .inr (if_neg herror).symm

theorem readsExactly_of_preloaded (hnn : model.dpuNnCostProvider.Plain)
    (hinit : model.dpuNnCostProvider.isInitialized = true) {workload : DPUWorkload}
    (hdescribed : model.HasDescriptors workload) :
    model.ReadsExactly (fun descriptor value =>
      model.dpuNnCostProvider.preloaded.get descriptor = some value) (fun _ _ => True)
      workload where
  described := hdescribed.itself hinit
  evaluable wl hwl :=
    ⟨⟨hnn.batchSize, hdescribed.evaluated hinit hwl, hnn.predict _, trivial⟩,
      fun value hvalue => by rw [NNCostProvider.rawValue, hvalue, Option.getD_some]⟩
  read _ _ hvalue := autoCost_of_preloaded hinit hvalue
  store _ _ := trivial

/-- Without a place in the cache a query returns its plain cost. -/
theorem query_disabled (hnn : model.dpuNnCostProvider.Plain) {workload : DPUWorkload}
    (hdescribed : ∀ wl ∈ model.subqueries workload, model.HasDescriptors wl) :
    (model.query workload (model.dpuNnCostProvider.newCache 0)).1
      = .ok (model.plainDpu workload) := by
  obtain ⟨cycles, cache, hcall, rfl, -⟩ := CostM.call_of_triple
    (dpu_spec (NNCostProvider.disabled_laws hnn) workload fun hinit wl hwl =>
      readsExactly_of_preloaded hnn hinit (hdescribed wl hwl))
    (hnn.serves 0)
  rw [query, hcall]

/-- What the workloads of a list leave in the cache is read exactly by each of them. -/
theorem readsExactly_of_cachesExactly (hnn : model.dpuNnCostProvider.Plain)
    {workloads : List DPUWorkload} (h : model.CachesExactly workloads)
    (hinit : model.dpuNnCostProvider.isInitialized = true)
    {workload : DPUWorkload} (hdescribed : model.HasDescriptors workload)
    (hworkload : workload ∈ workloads) :
    model.ReadsExactly (model.dpuNnCostProvider.FoundIn (model.Leaves workloads))
      (fun descriptor value => model.dpuNnCostProvider.preloaded.get descriptor = none →
        model.Leaves workloads descriptor value) workload where
  described := hdescribed.itself hinit
  evaluable wl hwl := by
    refine ⟨⟨hnn.batchSize, hdescribed.evaluated hinit hwl, hnn.predict _,
      fun _ => .inl ⟨workload, hworkload, wl, hwl, rfl, rfl⟩⟩, ?_⟩
    rintro value (hvalue | ⟨hnone, ⟨-, -, -, -, -, rfl⟩ | ⟨e, he, hstores, -, heq, -⟩⟩)
    · rw [NNCostProvider.rawValue, hvalue, Option.getD_some]
    · rw [NNCostProvider.rawValue, hnone, Option.getD_none]
    · exact absurd heq (h.apart e he hstores workload hworkload wl hwl)
  read hauto value := by
    rintro (hvalue | ⟨hnone, ⟨e, he, wl, hwl, heq, rfl⟩ | ⟨e, he, hstores, hok, heq, rfl⟩⟩)
    · exact autoCost_of_preloaded hinit hvalue
    · by_cases hasks : model.AsksForItself workload
      · have hplain := Bool.eq_false_iff.mp hasks.2
        rw [autoCost_of_not_preloaded hnone, fallbackCost, if_neg hasks.1, nnCost, if_pos hinit,
          if_neg hplain, NNCostProvider.cost, if_pos hinit, NNCostProvider.rawValue, hnone,
          Option.getD_none]
        split_ifs with herror
        · exact .inl herror
        · exact .inr rfl
      · exact absurd heq.symm (h.apart workload hworkload ⟨hauto, hasks⟩ e he wl hwl)
    · rw [autoCost_of_not_preloaded hnone]
      exact h.reread e he hstores hok workload hworkload hauto heq
  store hstores hok _ := .inr ⟨workload, hworkload, hstores, hok, rfl, rfl⟩

/-- Without extrapolations and profiled cycles only values of the network are stored. -/
theorem cachesExactly_of_plain (hprofiling : model.profilingAutoHintEnabled = false)
    (hchannels : model.supportsMoreThan64Ch = true) (workloads : List DPUWorkload) :
    model.CachesExactly workloads := by
  have hno : ∀ e, ¬ model.StoresCycles e := by
    rintro e ⟨-, hasks⟩
    refine hasks ⟨?_, ?_⟩
    · intro hprofiled
      refine hprofiled (.inr ?_)
      rw [profiledCost, hprofiling, if_neg (by decide)]
    · rw [isLinearlyExtrapolationNecessary, hchannels]
      split_ifs <;> rfl
  constructor
  · intro e _ hstores
    exact absurd hstores (hno e)
  · intro e _ hstores
    exact absurd hstores (hno e)

theorem isSome_of_leaves (hnn : model.dpuNnCostProvider.Plain) {workloads : List DPUWorkload}
    (descriptor : List ℚ) (value : RawValue) (h : model.Leaves workloads descriptor value) :
    value.isSome := by
  rcases h with ⟨-, -, -, -, -, rfl⟩ | ⟨-, -, -, -, -, rfl⟩
  · exact hnn.predict _
  · rfl

/-- One query, on what the others of a list may have left. -/
theorem query_of_cachesExactly (hnn : model.dpuNnCostProvider.Plain) {queries : List DPUWorkload}
    (hdescribed : ∀ wl ∈ queries.flatMap model.subqueries, model.HasDescriptors wl)
    (h : model.CachesExactly (queries.flatMap model.subqueries)) {maxSize : ℕ}
    {workload : DPUWorkload} (hworkload : workload ∈ queries) {cache : NNCostCacheManager}
    (hcache : NNCostProvider.Serves maxSize (model.Leaves (queries.flatMap model.subqueries)) cache) :
    ∃ cache', model.query workload cache = (.ok (model.plainDpu workload), cache')
      ∧ NNCostProvider.Serves maxSize (model.Leaves (queries.flatMap model.subqueries)) cache' := by
  have hmem : ∀ wl ∈ model.subqueries workload, wl ∈ queries.flatMap model.subqueries :=
    fun wl hwl => List.mem_flatMap.mpr ⟨workload, hworkload, hwl⟩
  obtain ⟨cycles, cache', hcall, rfl, hcache'⟩ := CostM.call_of_triple
    (dpu_spec (NNCostProvider.serves_laws hnn (isSome_of_leaves hnn) maxSize) workload
      fun hinit wl hwl => readsExactly_of_cachesExactly hnn h hinit (hdescribed wl (hmem wl hwl))
        (hmem wl hwl))
    hcache
  exact ⟨cache', hcall, hcache'⟩

/-- A sequence whose cycles are cached exactly sees nothing of the cache. -/
theorem transparent_of_cachesExactly (hnn : model.dpuNnCostProvider.Plain)
    {queries : List DPUWorkload}
    (hdescribed : ∀ wl ∈ queries.flatMap model.subqueries, model.HasDescriptors wl)
    (h : model.CachesExactly (queries.flatMap model.subqueries)) (maxSize : ℕ) :
    model.Transparent maxSize queries := by
  refine Runs.run_eq_map
    (NNCostProvider.Serves maxSize (model.Leaves (queries.flatMap model.subqueries))) ?_
    (hnn.serves maxSize)
  intro workload hworkload cache hcache
  obtain ⟨cache', hquery, hcache'⟩ := query_of_cachesExactly hnn hdescribed h hworkload hcache
  rw [query_disabled hnn fun wl hwl =>
    hdescribed wl (List.mem_flatMap.mpr ⟨workload, hworkload, hwl⟩), hquery]
  exact ⟨rfl, hcache'⟩

variable (model)

/-- For a network that takes one workload at a time and answers with numbers, and a device up to
    NPU5.0: with a cache of any size, each query of a sequence of workloads that have descriptors
    returns what a new model does without one, if the cycles that are stored are kept apart from the
    values of the network and are read again as they were. For a network that needs no extrapolation
    and a profiling service that is not asked without a preference there are no such cycles, and this
    holds of all sequences. -/
theorem dpu_transparent (hnn : model.dpuNnCostProvider.Plain) (maxSize : ℕ)
    (queries : List DPUWorkload)
    (hdescribed : ∀ wl ∈ queries.flatMap model.subqueries, model.HasDescriptors wl) :
    (model.CachesExactly (queries.flatMap model.subqueries) → model.Transparent maxSize queries)
    ∧ (model.profilingAutoHintEnabled = false → model.supportsMoreThan64Ch = true →
      model.Transparent maxSize queries) := by
  refine ⟨fun h => transparent_of_cachesExactly hnn hdescribed h maxSize, ?_⟩
  intro hprofiling hchannels
  exact transparent_of_cachesExactly hnn hdescribed (cachesExactly_of_plain hprofiling hchannels _)
    maxSize

end VPUCostModel

namespace VPUCostModel

/-- A network for VPU2.7 that gives ten cycles for each channel and knows no more than 64. -/
def tenPerChannel : VPUCostModel where
  dpuNnCostProvider := {
    modelDevice := .vpu_4_0
    isInitialized := true
    outputVersion := .outCyclesNPU27
    batchSize := 1
    outputSize := 1
    transformSingle := fun w => some [w.inputs.channels]
    predict := fun descriptor => some (descriptor.sum * 10)
    preloaded := .empty fun _ => 0
    length_transformSingle := by
      rintro w - ⟨⟩
      rfl }
  supportsMoreThan64Ch := false
  profilingAutoHintEnabled := false
  httpDpuCostProvider := none
  dpuTheoreticalCycles := fun _ => 1
  checkAndSanitize := fun w => (w, 0)

def depthwise (channels : ℕ) : DPUWorkload where
  device := .vpu_4_0
  op := .dwConvolution
  inputs := { shape := ⟨16, 16, channels, 1⟩ }
  outputs := { shape := ⟨14, 14, channels, 1⟩ }
  kernels := ⟨3, 3⟩
  strides := ⟨1, 1⟩
  padding := {}
  executionOrder := .cuboid16x16

theorem plain_tenPerChannel : tenPerChannel.dpuNnCostProvider.Plain where
  device := by decide
  batchSize := rfl
  predict _ := rfl
  preloaded _ _ h := by cases h

/-- The extrapolated cycles of 128 channels are read again as they are. -/
theorem dpu_transparent_depthwise :
    tenPerChannel.Transparent 1 [depthwise 128, depthwise 64, depthwise 128]
      ∧ tenPerChannel.plainDpu (depthwise 128) = 1044 := by
  have hsub : [depthwise 128, depthwise 64, depthwise 128].flatMap tenPerChannel.subqueries
      = [depthwise 128, depthwise 64, depthwise 128] := by decide +kernel
  refine ⟨(dpu_transparent tenPerChannel plain_tenPerChannel 1 _ ?_).1 ?_, by decide +kernel⟩
  · rw [hsub]
    decide +kernel
  · rw [hsub]
    exact ⟨by decide +kernel, by decide +kernel⟩

end VPUCostModel

/-! ### Whatever the cache holds -/

namespace VPUCostModel

section Completes

variable {model : VPUCostModel} {Inv : NNCostCacheManager → Prop}
  {Held : List ℚ → NNCostCacheManager → Prop} {Found Stored : List ℚ → RawValue → Prop}
  (laws : model.dpuNnCostProvider.CacheLaws Inv Held Found Stored)
  (hstored : ∀ descriptor value, value.isSome → Stored descriptor value)
  (hnn : model.dpuNnCostProvider.Plain)

include laws hstored hnn

theorem nnGetCost_completes {workload : DPUWorkload}
    (hdescribed : model.dpuNnCostProvider.isInitialized = true →
      model.dpuNnCostProvider.Described workload) :
    ⦃fun c => ⌜Inv c⌝⦄ model.dpuNnCostProvider.getCost workload ⦃⇓ _ c => ⌜Inv c⌝⦄ :=
  NNCostProvider.getCost_completes laws fun hinit =>
    ⟨hnn.batchSize, hdescribed hinit, hnn.predict _, hstored _ _ (hnn.predict _)⟩

theorem tryNn_completes {workload : DPUWorkload}
    (hdescribed : model.dpuNnCostProvider.isInitialized = true →
      ∀ wl ∈ model.networkQueries workload, model.dpuNnCostProvider.Described wl) :
    ⦃fun c => ⌜Inv c⌝⦄ model.tryNn workload ⦃⇓ _ c => ⌜Inv c⌝⦄ := by
  rw [networkQueries] at hdescribed
  by_cases hex : model.isLinearlyExtrapolationNecessary workload = true
  · rw [if_pos hex] at hdescribed
    have hcost32 := nnGetCost_completes laws hstored hnn fun hinit =>
      hdescribed hinit (workload.cloneAndChangeInOutChannels 32) List.mem_cons_self
    have hcost64 := nnGetCost_completes laws hstored hnn fun hinit =>
      hdescribed hinit (workload.cloneAndChangeInOutChannels 64) (by simp)
    mvcgen [tryNn, getCostLinearlyExtrapolated, hcost32, hcost64]
  · rw [if_neg hex] at hdescribed
    have hcost := nnGetCost_completes laws hstored hnn fun hinit =>
      hdescribed hinit workload List.mem_cons_self
    mvcgen [tryNn, hcost]

theorem runAuto_completes {workload : DPUWorkload} (hauto : workload.costSourceHint = .auto)
    (hdescribed : model.HasDescriptors workload) :
    ⦃fun c => ⌜Inv c⌝⦄ model.runAuto workload ⦃⇓ _ c => ⌜Inv c⌝⦄ := by
  have hitself := fun hinit => hdescribed.itself hinit hauto
  have hget := NNCostProvider.getCached_spec laws hitself False
  have hshare := shareWithCache_spec laws hitself False
  by_cases hprofiled : model.IsProfiled workload
  · mvcgen [runAuto, tryFallbacks, hget, hshare] <;> simp_all
  · have hnn := tryNn_completes laws hstored hnn fun hinit wl hwl =>
      hdescribed.evaluated hinit (by rwa [evaluated, hauto, if_neg hprofiled])
    mvcgen [runAuto, tryFallbacks, hget, hnn, hshare] <;> simp_all

theorem runCostProviders_completes {workload : DPUWorkload}
    (hdescribed : model.HasDescriptors workload) :
    ⦃fun c => ⌜Inv c⌝⦄ model.runCostProviders workload ⦃⇓ _ c => ⌜Inv c⌝⦄ := by
  rw [runCostProviders]
  rcases hhint : workload.costSourceHint with _ | _ | _ | _ | _
  · exact runAuto_completes laws hstored hnn hhint hdescribed
  · exact tryNn_completes laws hstored hnn fun hinit wl hwl =>
      hdescribed.evaluated hinit (by rwa [evaluated, hhint])
  all_goals mvcgen

theorem getCost_completes {workload : DPUWorkload}
    (hdescribed : ∀ wl ∈ providerQueries workload, model.HasDescriptors wl) :
    ⦃fun c => ⌜Inv c⌝⦄ model.getCost workload ⦃⇓ _ c => ⌜Inv c⌝⦄ := by
  rw [providerQueries] at hdescribed
  by_cases hdual : workload.isDualsparsityActive = true
  · rw [if_pos hdual] at hdescribed
    have hact := runCostProviders_completes laws hstored hnn (hdescribed _ List.mem_cons_self)
    have hwt := runCostProviders_completes laws hstored hnn
      (hdescribed workload.cloneDeactivateWeightSParsity (by simp))
    mvcgen [getCost, getCostDualsparsity, hact, hwt]
  · rw [if_neg hdual] at hdescribed
    have hproviders := runCostProviders_completes laws hstored hnn
      (hdescribed _ List.mem_cons_self)
    mvcgen [getCost, hproviders]

theorem dpu_completes {workload : DPUWorkload}
    (hdescribed : ∀ wl ∈ model.subqueries workload, model.HasDescriptors wl) :
    ⦃fun c => ⌜Inv c⌝⦄ model.dpu workload ⦃⇓ _ c => ⌜Inv c⌝⦄ := by
  rw [subqueries] at hdescribed
  by_cases husable : (model.sanitizeWorkload workload).2 = 0
  · rw [if_pos husable] at hdescribed
    have hcost := getCost_completes laws hstored hnn hdescribed
    mvcgen [dpu, hcost]
  · mvcgen [dpu]

end Completes

variable (model : VPUCostModel)

/-- For a network that takes one workload at a time and answers with numbers, and a device up to
    NPU5.0: every query of a sequence of workloads that have descriptors returns cycles or an error
    code. Nothing is thrown, every conversion from `float` is defined, and list and table of the cache
    stay in bijection and within the size, whatever the numbers, the service and the theory are. -/
theorem query_returns (hnn : model.dpuNnCostProvider.Plain) (maxSize : ℕ)
    (queries : List DPUWorkload)
    (hdescribed : ∀ wl ∈ queries.flatMap model.subqueries, model.HasDescriptors wl) :
    let run := Runs.run model.query queries (model.dpuNnCostProvider.newCache maxSize)
    (∀ result ∈ run.1, ∃ cycles, result = .ok cycles)
      ∧ ∃ cache, run.2 = .descriptorCache cache ∧ cache.Valid ∧ cache.maxSize = maxSize := by
  let Inv := NNCostProvider.Serves maxSize fun _ value => value.isSome
  have hstep : ∀ workload ∈ queries, ∀ cache, Inv cache →
      (∃ cycles, (model.query workload cache).1 = .ok cycles) ∧ Inv (model.query workload cache).2 := by
    intro workload hworkload cache hcache
    obtain ⟨cycles, cache', hcall, hcache'⟩ := CostM.call_of_triple
      (dpu_completes (NNCostProvider.serves_laws hnn (fun _ _ => id) maxSize)
        (fun _ _ hvalue _ => hvalue) hnn fun wl hwl =>
          hdescribed wl (List.mem_flatMap.mpr ⟨workload, hworkload, hwl⟩))
      hcache
    rw [query, hcall]
    exact ⟨⟨cycles, rfl⟩, hcache'⟩
  obtain ⟨hresults, hserves⟩ := Runs.run_forall Inv
    (fun result : Except CostError ℕ => ∃ cycles, result = .ok cycles) hstep (hnn.serves maxSize)
  exact ⟨hresults, hserves.exists_cache⟩

theorem query_returns_depthwise :
    let run := Runs.run tenPerChannel.query [depthwise 128, depthwise 64, depthwise 128]
      (tenPerChannel.dpuNnCostProvider.newCache 1)
    (∀ result ∈ run.1, ∃ cycles, result = .ok cycles)
      ∧ ∃ cache, run.2 = .descriptorCache cache ∧ cache.Valid ∧ cache.maxSize = 1 := by
  refine query_returns tenPerChannel plain_tenPerChannel 1 _ ?_
  have hsub : [depthwise 128, depthwise 64, depthwise 128].flatMap tenPerChannel.subqueries
      = [depthwise 128, depthwise 64, depthwise 128] := by decide +kernel
  rw [hsub]
  decide +kernel

end VPUCostModel

end Vpunn
