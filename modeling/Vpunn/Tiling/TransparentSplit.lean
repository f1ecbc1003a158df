import Vpunn.Tiling.AcceptedSplit

/-! What the cache does to the best split of a layer (`dpu_tiler_impl.cpp`).

    The search asks the cost model for one workload after the other, and all answers go through its
    cache. Where the cache reads exactly, each answer is a function of the workload alone, and so is
    the best split. -/

namespace Vpunn
open Cycles

/-! ### Answers without a state -/

namespace WorkloadCostEvaluator

/-- A cost model that has no state. -/
def stateless (answer : DPUWorkload → Option ℕ) (wl : DPUWorkload) (s : Unit) : Option ℕ × Unit :=
  (answer wl, s)

variable {S : Type*} {dpu : DPUWorkload → S → Option ℕ × S} {Inv : S → Prop}
  {answer : DPUWorkload → Option ℕ}

/-- For these workloads a cost model answers as one without a state, as long as an invariant holds. -/
def AnswersAs (dpu : DPUWorkload → S → Option ℕ × S) (Inv : S → Prop)
    (answer : DPUWorkload → Option ℕ) (workloads : List DPUWorkload) : Prop :=
  ∀ wl ∈ workloads, ∀ s, Inv s → (dpu wl s).1 = answer wl ∧ Inv (dpu wl s).2

theorem measure_stateless {workloads : List DPUWorkload} (h : AnswersAs dpu Inv answer workloads)
    (cycles : List ℕ) {s : S} (hs : Inv s) :
    (measure dpu workloads cycles s).1 = (measure (stateless answer) workloads cycles ()).1
      ∧ (measure dpu workloads cycles s).2.1 = (measure (stateless answer) workloads cycles ()).2.1
      ∧ Inv (measure dpu workloads cycles s).2.2 := by
  induction workloads generalizing cycles s with
  | nil => exact ⟨rfl, rfl, hs⟩
  | cons wl workloads ih =>
    obtain ⟨hwl, hrest⟩ := List.forall_mem_cons.mp h
    obtain ⟨hanswer, hs'⟩ := hwl s hs
    rcases hdpu : dpu wl s with ⟨_ | cost, s'⟩
    · rw [hdpu] at hanswer hs'
      simp only [measure, hdpu, stateless, ← hanswer]
      exact ⟨trivial, trivial, hs'⟩
    · rw [hdpu] at hanswer hs'
      obtain ⟨hok, hcycles, hend⟩ := ih hrest cycles.tail hs'
      simp only [measure, hdpu, stateless, ← hanswer]
      exact ⟨hok, congrArg (cost :: ·) hcycles, hend⟩

theorem computeSplitCycles_stateless {split : DPUWorkloadsWithCyclesSplit}
    (h : AnswersAs dpu Inv answer split.workloads) (runtimeOverhead : ℕ) {s : S} (hs : Inv s) :
    (computeSplitCycles dpu split runtimeOverhead s).1
        = (computeSplitCycles (stateless answer) split runtimeOverhead ()).1
      ∧ (computeSplitCycles dpu split runtimeOverhead s).2.1
        = (computeSplitCycles (stateless answer) split runtimeOverhead ()).2.1
      ∧ Inv (computeSplitCycles dpu split runtimeOverhead s).2.2 := by
  have hmeasure := measure_stateless h (resize split.cycles split.workloads.length) hs
  unfold computeSplitCycles computeWorkloadCycles
  generalize measure dpu split.workloads (resize split.cycles split.workloads.length) s = measured
    at hmeasure
  generalize measure (stateless answer) split.workloads
    (resize split.cycles split.workloads.length) () = plain at hmeasure
  obtain ⟨ok, cycles, s'⟩ := measured
  obtain ⟨rfl, rfl, hend⟩ := hmeasure
  by_cases hnone : split.workloads.length = 0
  · simp only [hnone, if_true]
    exact ⟨trivial, trivial, hs⟩
  · simp only [hnone, if_false]
    rcases plain.1 with _ | _
    · exact ⟨rfl, rfl, hend⟩
    · by_cases herror : 0 < countErrors plain.2.1
      · simp only [herror, if_true]
        exact ⟨rfl, rfl, hend⟩
      · simp only [herror, if_false]
        rcases getWorkloadsDevice split.workloads with _ | device
        · exact ⟨rfl, rfl, hend⟩
        · exact ⟨rfl, rfl, hend⟩

end WorkloadCostEvaluator

namespace DPUTilerImplementation
open WorkloadCostEvaluator

variable {S : Type*} {dpu : DPUWorkload → S → Option ℕ × S} {Inv : S → Prop}
  {answer : DPUWorkload → Option ℕ}

theorem measureVariants_stateless {variants : List DPUWorkloadsWithCyclesSplit}
    (h : ∀ split ∈ variants, AnswersAs dpu Inv answer split.workloads) (runtimeOverhead : ℕ)
    {s : S} (hs : Inv s) :
    (measureVariants dpu runtimeOverhead variants s).1
        = (measureVariants (stateless answer) runtimeOverhead variants ()).1
      ∧ Inv (measureVariants dpu runtimeOverhead variants s).2 := by
  induction variants generalizing s with
  | nil => exact ⟨rfl, hs⟩
  | cons split variants ih =>
    rw [List.forall_mem_cons] at h
    obtain ⟨hcost, hworkloads, hs'⟩ := computeSplitCycles_stateless h.1 runtimeOverhead hs
    obtain ⟨hothers, hend⟩ := ih h.2 hs'
    rw [measureVariants, measureVariants]
    exact ⟨by rw [hcost, hworkloads, hothers], hend⟩

/-- A search that has the time it needs finds the same splits. -/
theorem generateSplits_stateless {options : SplitOptions} (hlatency : options.maxLatencyUs = 0)
    {tried : List (ITilerAlgorithm × ExecutionMode × ℕ)}
    (h : ∀ split ∈ tried.flatMap fun t => t.1.splitTileInWorkloads t.2.1 t.2.2,
      AnswersAs dpu Inv answer split.workloads) (interval : S → ℕ) {s : S} (hs : Inv s) :
    (generateSplits dpu interval options tried s).1
      = (generateSplits (stateless answer) (fun _ => 0) options tried ()).1 := by
  induction tried generalizing s with
  | nil => rfl
  | cons t tried ih =>
    obtain ⟨algo, mode, nWorkloads⟩ := t
    rw [List.flatMap_cons, List.forall_mem_append] at h
    obtain ⟨hmeasured, hs'⟩ := measureVariants_stateless h.1 options.runtimeOverhead hs
    rw [generateSplits, generateSplits, if_neg (by omega), if_neg (by omega)]
    exact congrArg₂ (· ++ ·) hmeasured (ih h.2 hs')

theorem intraTileSplit_stateless {algorithms : List ITilerAlgorithm}
    {validExecutionModes : List ExecutionMode} {options : SplitOptions}
    (hlatency : options.maxLatencyUs = 0)
    (h : ∀ split ∈ generatedSplits algorithms validExecutionModes options.nDPU,
      AnswersAs dpu Inv answer split.workloads) (interval : S → ℕ)
    (completeOutputSplits : Option (List DPUWorkloadsWithCyclesSplit)) {s : S} (hs : Inv s) :
    intraTileSplit dpu interval algorithms validExecutionModes options completeOutputSplits s
      = intraTileSplit (stateless answer) (fun _ => 0) algorithms validExecutionModes options
        completeOutputSplits () := by
  rw [← flatMap_attempts] at h
  rw [intraTileSplit, intraTileSplit, generateSplits_stateless hlatency h interval hs]

end DPUTilerImplementation

/-! ### The cost model of the tiler -/

namespace VPUCostModel
open WorkloadCostEvaluator DPUTilerImplementation

variable {model : VPUCostModel}

/-- As long as the cache reads exactly, it gives the plain costs and goes on to do so. -/
theorem answersAs_splitQuery (hnn : model.dpuNnCostProvider.Plain) {queries : List DPUWorkload}
    (hdescribed : ∀ wl ∈ queries.flatMap model.subqueries, model.HasDescriptors wl)
    (h : model.CachesExactly (queries.flatMap model.subqueries)) (maxSize : ℕ) :
    AnswersAs model.splitQuery
      (NNCostProvider.Serves maxSize (model.Leaves (queries.flatMap model.subqueries)))
      (fun wl => some (model.plainDpu wl)) queries := by
  intro wl hwl cache hcache
  obtain ⟨cache', hquery, hcache'⟩ := query_of_cachesExactly hnn hdescribed h hwl hcache
  rw [splitQuery, hquery]
  exact ⟨rfl, hcache'⟩

/-- All workloads that the search asks for, split by split. -/
def searchQueries (algorithms : List ITilerAlgorithm) (validExecutionModes : List ExecutionMode)
    (nDPU : ℕ) : List DPUWorkload :=
  (generatedSplits algorithms validExecutionModes nDPU).flatMap (·.workloads)

/-- For a network that takes one workload at a time and answers with numbers, a device up to NPU5.0
    and workloads that have descriptors: after any queries and with a cache of any size, the best split
    is that of the plain costs, if nothing is profiled or extrapolated, or if the cycles that all these
    queries store are read again as they were. -/
theorem intraTileSplit_transparent (model : VPUCostModel) (hnn : model.dpuNnCostProvider.Plain)
    (interval : NNCostCacheManager → ℕ) (algorithms : List ITilerAlgorithm)
    (validExecutionModes : List ExecutionMode) (options : SplitOptions)
    (hlatency : options.maxLatencyUs = 0)
    (completeOutputSplits : Option (List DPUWorkloadsWithCyclesSplit)) (before : List DPUWorkload)
    (maxSize : ℕ)
    (hdescribed : ∀ wl ∈ (before ++ searchQueries algorithms validExecutionModes
      options.nDPU).flatMap model.subqueries, model.HasDescriptors wl)
    (h : model.profilingAutoHintEnabled = false ∧ model.supportsMoreThan64Ch = true
      ∨ model.CachesExactly
        ((before ++ searchQueries algorithms validExecutionModes options.nDPU).flatMap
          model.subqueries)) :
    intraTileSplit model.splitQuery interval algorithms validExecutionModes options
        completeOutputSplits
        (Runs.run model.query before (model.dpuNnCostProvider.newCache maxSize)).2
      = intraTileSplit (stateless fun wl => some (model.plainDpu wl)) (fun _ => 0) algorithms
        validExecutionModes options completeOutputSplits () := by
  let Inv := NNCostProvider.Serves maxSize (model.Leaves
    ((before ++ searchQueries algorithms validExecutionModes options.nDPU).flatMap
      model.subqueries))
  have hexact := h.elim (fun hplain => cachesExactly_of_plain hplain.1 hplain.2 _) id
  have hanswers := answersAs_splitQuery hnn hdescribed hexact maxSize
  have hstep : ∀ wl ∈ before, ∀ cache, Inv cache → Inv (model.query wl cache).2 := by
    intro wl hwl cache hcache
    exact (hanswers wl (List.mem_append_left _ hwl) cache hcache).2
  have hbefore := Runs.run_inv hstep (hnn.serves maxSize)
  refine intraTileSplit_stateless hlatency ?_ interval completeOutputSplits hbefore
  intro split hsplit wl hwl
  exact hanswers wl (List.mem_append_right _ (List.mem_flatMap.mpr ⟨split, hsplit, hwl⟩))

/-- The same best split is found when the layer itself and a depthwise operation were asked for. -/
theorem intraTileSplit_transparent_example :
    intraTileSplit tenPerChannel.splitQuery (fun _ => 0) [exampleAlgorithm] [.cuboid16x16] {} none
        (Runs.run tenPerChannel.query [HWTiling.exampleLayer, depthwise 64]
          (tenPerChannel.dpuNnCostProvider.newCache 2)).2
      = intraTileSplit (stateless fun wl => some (tenPerChannel.plainDpu wl)) (fun _ => 0)
        [exampleAlgorithm] [.cuboid16x16] {} none () :=
  intraTileSplit_transparent tenPerChannel plain_tenPerChannel (fun _ => 0) [exampleAlgorithm]
    [.cuboid16x16] {} rfl none [HWTiling.exampleLayer, depthwise 64] 2 (by decide +kernel)
    (.inr ⟨by decide +kernel, by decide +kernel⟩)

end VPUCostModel

end Vpunn
