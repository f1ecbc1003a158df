import Vpunn.Dpu.SanitizedCost
import Vpunn.Tiling.DPUTiler

/-! The best split of a layer with the cost model that the tiler asks (`dpu_tiler_impl.cpp`,
    `workload_cost_evaluator.cpp`).

    The cost model checks every workload before it has cycles, and the first problem in a split is the
    cost of the split. So a split that is best with cycles has accepted workloads only, whenever the
    search is stopped and whatever the cache holds. -/

namespace Vpunn
open Cycles MinElement

/-! ### An evaluated split -/

namespace WorkloadCostEvaluator

variable {S : Type*} {dpu : DPUWorkload → S → Option ℕ × S}

/-- The cost model has these cycles for a workload, in one of its states. -/
def HasCycles (dpu : DPUWorkload → S → Option ℕ × S) (wl : DPUWorkload) (cycles : ℕ) : Prop :=
  ¬ isErrorCode cycles ∧ ∃ s, (dpu wl s).1 = some cycles

theorem Answers.hasCycles {s s' : S} {workloads : List DPUWorkload} {cycles : List ℕ}
    (h : Answers dpu s workloads cycles s') (hno : ∀ c ∈ cycles, ¬ isErrorCode c) :
    List.Forall₂ (HasCycles dpu) workloads cycles := by
  induction h with
  | nil s => exact .nil
  | cons head tail ih =>
    rw [List.forall_mem_cons] at hno
    exact .cons ⟨hno.1, _, head⟩ (ih hno.2)

theorem exists_of_mem_forall₂ {α β : Type*} {R : α → β → Prop} {xs : List α} {ys : List β}
    (h : List.Forall₂ R xs ys) {x : α} (hx : x ∈ xs) : ∃ y ∈ ys, R x y := by
  induction h with
  | nil => exact absurd hx List.not_mem_nil
  | cons head tail ih =>
    rcases List.mem_cons.mp hx with rfl | hx
    · exact ⟨_, List.mem_cons_self, head⟩
    · obtain ⟨y, hy, hxy⟩ := ih hx
      exact ⟨y, List.mem_cons_of_mem _ hy, hxy⟩

/-- A cost that is neither zero nor an error is the time that all workloads of the split take, and
    each of them has cycles. -/
theorem IsEvaluated.scheduled {runtimeOverhead cost : ℕ} {split : DPUWorkloadsWithCyclesSplit}
    {evaluated : Option ℕ × DPUWorkloadsWithCyclesSplit}
    (h : IsEvaluated dpu runtimeOverhead split evaluated) (hcost : evaluated.1 = some cost)
    (hpos : cost ≠ 0) (hno : ¬ isErrorCode cost) :
    ∃ wl ∈ split.workloads.head?, ∃ cycles,
      List.Forall₂ (HasCycles dpu) split.workloads cycles
        ∧ cost = dpuSchedule (nDPUPerTile wl.device) cycles runtimeOverhead := by
  rcases hworkloads : split.workloads with _ | ⟨wl, workloads⟩
  · rw [h.nothing hworkloads] at hcost
    exact absurd (Option.some_injective _ hcost).symm hpos
  · have hhead : wl ∈ split.workloads.head? := by rw [hworkloads]; rfl
    obtain ⟨⟨s, s', hanswers⟩, hscheduled⟩ := h.cost wl hhead cost hcost
    rw [hworkloads] at hanswers
    rcases hfind : evaluated.2.cycles.find? (isErrorCode ·) with _ | problem
    · rw [scheduledCost, hfind, Option.getD_none] at hscheduled
      refine ⟨wl, rfl, evaluated.2.cycles, hanswers.hasCycles ?_, hscheduled⟩
      intro c hc herror
      exact List.find?_eq_none.mp hfind c hc (decide_eq_true herror)
    · rw [scheduledCost, hfind, Option.getD_some] at hscheduled
      have hproblem : isErrorCode problem := by simpa using List.find?_some hfind
      exact absurd (hscheduled ▸ hproblem) hno

end WorkloadCostEvaluator

/-! ### The search -/

namespace DPUTilerImplementation
open WorkloadCostEvaluator

variable {S : Type*} {dpu : DPUWorkload → S → Option ℕ × S} {interval : S → ℕ}

/-- Whatever the stop watch shows, what was kept comes from a split that was tried. -/
theorem isEvaluated_of_mem_generateSplits {options : SplitOptions}
    {tried : List (ITilerAlgorithm × ExecutionMode × ℕ)} {s : S}
    {best : ℕ × DPUWorkloadsWithCyclesSplit}
    (h : best ∈ (generateSplits dpu interval options tried s).1) :
    ∃ split ∈ tried.flatMap fun t => t.1.splitTileInWorkloads t.2.1 t.2.2,
      ∃ evaluated, IsEvaluated dpu options.runtimeOverhead split evaluated
        ∧ best = kept evaluated := by
  induction tried generalizing s with
  | nil => exact absurd h List.not_mem_nil
  | cons t tried ih =>
    obtain ⟨algo, mode, nWorkloads⟩ := t
    rw [generateSplits] at h
    split_ifs at h with hlate
    · exact absurd h List.not_mem_nil
    · rw [List.flatMap_cons]
      rcases List.mem_append.mp h with hmeasured | hothers
      · obtain ⟨evaluated, hkept, hevaluated⟩ := measureVariants_spec dpu options.runtimeOverhead
          (algo.splitTileInWorkloads mode nWorkloads) s
        rw [hkept] at hmeasured
        obtain ⟨e, he, rfl⟩ := List.mem_map.mp hmeasured
        obtain ⟨split, hsplit, hsplits⟩ := exists_of_mem_forall₂ hevaluated.flip he
        exact ⟨split, List.mem_append_left _ hsplit, e, hsplits, rfl⟩
      · obtain ⟨split, hsplit, rest⟩ := ih hothers
        exact ⟨split, List.mem_append_right _ hsplit, rest⟩

/-- A best split with cycles is one of the generated ones, and all its workloads have cycles. -/
theorem scheduled_of_intraTileSplit {algorithms : List ITilerAlgorithm}
    {validExecutionModes : List ExecutionMode} {options : SplitOptions}
    {completeOutputSplits complete : Option (List DPUWorkloadsWithCyclesSplit)} {s : S} {cost : ℕ}
    {workloads : List DPUWorkload}
    (h : intraTileSplit dpu interval algorithms validExecutionModes options completeOutputSplits s
      = some ((cost, workloads), complete)) (hno : ¬ isErrorCode cost) :
    ∃ split ∈ generatedSplits algorithms validExecutionModes options.nDPU,
      split.workloads = workloads ∧ ∃ wl ∈ workloads.head?, ∃ cycles,
        List.Forall₂ (HasCycles dpu) workloads cycles
          ∧ cost = dpuSchedule (nDPUPerTile wl.device) cycles options.runtimeOverhead := by
  unfold intraTileSplit at h
  rcases hsplits : (generateSplits dpu interval options
    (attempts algorithms validExecutionModes options.nDPU) s).1 with _ | ⟨first, others⟩
  · rw [hsplits] at h
    exact absurd h (by simp)
  · rw [hsplits] at h
    obtain ⟨⟨rfl, rfl⟩, -⟩ := Prod.mk.inj (Option.some_injective _ h) |>.imp_left Prod.mk.inj
    have hmem : minElement comp first others ∈ first :: others := minElement_mem
    rw [← hsplits] at hmem
    obtain ⟨split, hsplit, evaluated, hevaluated, hbest⟩ := isEvaluated_of_mem_generateSplits hmem
    rw [flatMap_attempts] at hsplit
    rw [hbest] at hno ⊢
    obtain ⟨hcost, hpos, -⟩ := isCandidate_kept hno
    have hworkloads : (kept evaluated).2.workloads = split.workloads := hevaluated.workloads
    refine ⟨split, hsplit, hworkloads.symm, ?_⟩
    rw [hworkloads]
    exact hevaluated.scheduled hcost hpos hno

end DPUTilerImplementation

/-! ### The cost model of the tiler -/

namespace VPUCostModel
open WorkloadCostEvaluator DPUTilerImplementation

/-- What the evaluation of a split asks, where an exception is no answer. -/
def splitQuery (model : VPUCostModel) (wl : DPUWorkload) (cache : NNCostCacheManager) :
    Option ℕ × NNCostCacheManager :=
  ((model.query wl cache).1.toOption, (model.query wl cache).2)

/-- The tables of its device accept a workload as it is asked for, and a convolution finds room in
    the CMX memory where the sizes are sufficient. -/
def Fits (model : VPUCostModel) (configs : List SanitizerConfig) (wl : DPUWorkload) : Prop :=
  ∃ config w, getConfig configs wl.device = some config
    ∧ config.Accepts ((model.withSanitizer configs).sanitizeWorkload wl).1 w
    ∧ (w.hasWeights → MemoryOperation.SufficientSizes config.alignments w.toMemoryOperation →
      w.requiredInput0 + w.requiredInput1 + w.requiredOutput0 ≤ config.getCmxSize wl.device)

theorem fits_of_hasCycles {model : VPUCostModel} {configs : List SanitizerConfig} {wl : DPUWorkload}
    {cycles : ℕ} (h : HasCycles (model.withSanitizer configs).splitQuery wl cycles) :
    model.Fits configs wl := by
  obtain ⟨hno, cache, hanswer⟩ := h
  rcases hquery : ((model.withSanitizer configs).query wl cache).1 with problem | answer
  · simp [splitQuery, hquery, Except.toOption] at hanswer
  · have hcycles : answer = cycles := by
      simpa [splitQuery, hquery, Except.toOption] using hanswer
    exact accepts_of_query (hcycles ▸ hquery) hno

/-- A best split with cycles is one of the generated ones, and its cost is the time that its
    workloads take on the DPUs of a tile. All of them are accepted by the tables of their device. -/
theorem intraTileSplit_fits (model : VPUCostModel) (configs : List SanitizerConfig)
    (interval : NNCostCacheManager → ℕ) (algorithms : List ITilerAlgorithm)
    (validExecutionModes : List ExecutionMode) (options : SplitOptions)
    (completeOutputSplits complete : Option (List DPUWorkloadsWithCyclesSplit))
    (cache : NNCostCacheManager) (cost : ℕ) (workloads : List DPUWorkload)
    (h : intraTileSplit (model.withSanitizer configs).splitQuery interval algorithms
      validExecutionModes options completeOutputSplits cache = some ((cost, workloads), complete))
    (hno : ¬ isErrorCode cost) :
    (∀ wl ∈ workloads, model.Fits configs wl)
      ∧ ∃ split ∈ generatedSplits algorithms validExecutionModes options.nDPU,
        split.workloads = workloads ∧ ∃ wl ∈ workloads.head?, ∃ cycles,
          List.Forall₂ (HasCycles (model.withSanitizer configs).splitQuery) workloads cycles
            ∧ cost = dpuSchedule (nDPUPerTile wl.device) cycles options.runtimeOverhead := by
  have hscheduled := scheduled_of_intraTileSplit h hno
  refine ⟨?_, hscheduled⟩
  obtain ⟨-, -, -, -, -, cycles, hcycles, -⟩ := hscheduled
  intro wl hwl
  obtain ⟨c, -, hc⟩ := exists_of_mem_forall₂ hcycles hwl
  exact fits_of_hasCycles hc

/-- The whole layer takes ten cycles for each channel, and two columns take twice the time. -/
theorem intraTileSplit_fits_example :
    ∃ workloads, (∀ wl ∈ workloads, tenPerChannel.Fits [.vpu4] wl)
      ∧ ∃ split ∈ generatedSplits [exampleAlgorithm] [.cuboid16x16] 0,
        split.workloads = workloads ∧ ∃ wl ∈ workloads.head?, ∃ cycles,
          List.Forall₂ (HasCycles (tenPerChannel.withSanitizer [.vpu4]).splitQuery) workloads cycles
            ∧ 160 = dpuSchedule (nDPUPerTile wl.device) cycles 0 := by
  have hcost : (intraTileSplit (tenPerChannel.withSanitizer [.vpu4]).splitQuery (fun _ => 0)
      [exampleAlgorithm] [.cuboid16x16] {} none (.descriptorCache { maxSize := 0 })).map (·.1.1)
        = some 160 := by
    decide +kernel
  obtain ⟨⟨⟨cost, workloads⟩, complete⟩, hbest, hcost⟩ := Option.map_eq_some_iff.mp hcost
  obtain rfl : cost = 160 := hcost
  exact ⟨workloads, intraTileSplit_fits tenPerChannel [.vpu4] (fun _ => 0) [exampleAlgorithm]
    [.cuboid16x16] {} none complete (.descriptorCache { maxSize := 0 }) 160 workloads hbest
    (by decide)⟩

end VPUCostModel

end Vpunn
