import Vpunn.Lib.MinElement
import Vpunn.Tiling.HWTiling
import Vpunn.Tiling.WorkloadCostEvaluator

/-! The choice of the best split of a layer (`dpu_tiler_impl.cpp`, `tiler.cpp`), for containers of
    algorithms without a `ZEffTiling`. -/

namespace Vpunn
open Cycles MinElement WorkloadCostEvaluator

/-- A tiling algorithm with its copy of the layer. -/
structure ITilerAlgorithm where
  layerOnTile : DPULayer
  generateSplitPool : ℕ → ExecutionMode → List ℕ
  tileMultipleWl : ExecutionMode → ℕ → List DPUWorkloadsWithCyclesSplit

/-- One workload is the layer itself. -/
def ITilerAlgorithm.splitTileInWorkloads (algo : ITilerAlgorithm) (mode : ExecutionMode)
    (nWorkloads : ℕ) : List DPUWorkloadsWithCyclesSplit :=
  if nWorkloads = 1 then
    [setWorkloadsModeAndInfereInputShape ⟨[0], [algo.layerOnTile]⟩ mode algo.layerOnTile]
  else algo.tileMultipleWl mode nWorkloads

/-- The options of a split that the search reads. -/
structure SplitOptions where
  maxLatencyUs : ℕ := 0
  nDPU : ℕ := 0
  runtimeOverhead : ℕ := 0

namespace DPUTilerImplementation

variable {S : Type*} (dpu : DPUWorkload → S → Option ℕ × S)

/-! ### The code -/

/-- The cost that is kept for a split: there is no zero, and an exception is an error. -/
def wlCost : Option ℕ → ℕ
  | none => errorTileSplitException
  | some cycles => if cycles ≤ 0 then errorTileSplitZeroCycOutput else cycles

/-- The splits of one attempt, one after the other, with their costs. -/
def measureVariants (runtimeOverhead : ℕ) :
    List DPUWorkloadsWithCyclesSplit → S → List (ℕ × DPUWorkloadsWithCyclesSplit) × S
  | [], s => ([], s)
  | workloads :: rest, s =>
    let computed := computeSplitCycles dpu workloads runtimeOverhead s
    let others := measureVariants runtimeOverhead rest computed.2.2
    ((wlCost computed.1, computed.2.1) :: others.1, others.2)

/-- The three loops in one: the algorithms, the modes and the numbers of workloads. -/
def attempts (algorithms : List ITilerAlgorithm) (validExecutionModes : List ExecutionMode)
    (nDPU : ℕ) : List (ITilerAlgorithm × ExecutionMode × ℕ) :=
  algorithms.flatMap fun algo => validExecutionModes.flatMap fun mode =>
    (algo.generateSplitPool nDPU mode).map fun nWorkloads => (algo, mode, nWorkloads)

/-- The attempts until the time is over; `interval` reads the stop watch. -/
def generateSplits (interval : S → ℕ) (options : SplitOptions) :
    List (ITilerAlgorithm × ExecutionMode × ℕ) → S → List (ℕ × DPUWorkloadsWithCyclesSplit) × S
  | [], s => ([], s)
  | (algo, mode, nWorkloads) :: rest, s =>
    if 0 < options.maxLatencyUs ∧ options.maxLatencyUs < interval s then ([], s)
    else
      let measured := measureVariants dpu options.runtimeOverhead
        (algo.splitTileInWorkloads mode nWorkloads) s
      let others := generateSplits interval options rest measured.2
      (measured.1 ++ others.1, others.2)

/-- The comparator: neither an error nor zero is smaller than anything, and both are larger than all
    other costs. -/
def comp (a b : ℕ × DPUWorkloadsWithCyclesSplit) : Bool :=
  if isErrorCode a.1 ∨ a.1 ≤ 0 then false
  else if isErrorCode b.1 ∨ b.1 ≤ 0 then true
  else a.1 < b.1

/-- The cost and the workloads of the best split, and the list that `completeOutputSplits` points to,
    if it does; an exception if there is no split. -/
def intraTileSplit (interval : S → ℕ) (algorithms : List ITilerAlgorithm)
    (validExecutionModes : List ExecutionMode) (options : SplitOptions)
    (completeOutputSplits : Option (List DPUWorkloadsWithCyclesSplit)) (s : S) :
    Option ((ℕ × List DPUWorkload) × Option (List DPUWorkloadsWithCyclesSplit)) :=
  match (generateSplits dpu interval options
    (attempts algorithms validExecutionModes options.nDPU) s).1 with
  | [] => none
  | first :: splitsCosts =>
    let minimumSplit := minElement comp first splitsCosts
    some ((minimumSplit.1, minimumSplit.2.workloads),
      completeOutputSplits.map (· ++ (first :: splitsCosts).map Prod.snd))

/-! ### The comparator -/

/-- The costs in the order of the comparator; those that are no candidates come last. -/
def rank (split : ℕ × DPUWorkloadsWithCyclesSplit) : WithTop ℕ :=
  if isErrorCode split.1 ∨ split.1 ≤ 0 then ⊤ else split.1

theorem compares_comp : Compares comp rank := by
  intro a b
  unfold comp rank
  split_ifs <;> simp_all

theorem comp_isStrictWeakOrder :
    IsStrictWeakOrder (ℕ × DPUWorkloadsWithCyclesSplit) fun a b => comp a b = true :=
  compares_comp.isStrictWeakOrder

/-! ### All splits -/

/-- The splits that the algorithms make, in the order of the loops. -/
def generatedSplits (algorithms : List ITilerAlgorithm) (validExecutionModes : List ExecutionMode)
    (nDPU : ℕ) : List DPUWorkloadsWithCyclesSplit :=
  algorithms.flatMap fun algo => validExecutionModes.flatMap fun mode =>
    (algo.generateSplitPool nDPU mode).flatMap (algo.splitTileInWorkloads mode)

/-- What is kept of an evaluated split. -/
def kept (evaluated : Option ℕ × DPUWorkloadsWithCyclesSplit) : ℕ × DPUWorkloadsWithCyclesSplit :=
  (wlCost evaluated.1, evaluated.2)

section

variable {dpu}

theorem measureVariants_spec (dpu : DPUWorkload → S → Option ℕ × S) (runtimeOverhead : ℕ)
    (variants : List DPUWorkloadsWithCyclesSplit) (s : S) :
    ∃ evaluated, (measureVariants dpu runtimeOverhead variants s).1 = evaluated.map kept
      ∧ List.Forall₂ (IsEvaluated dpu runtimeOverhead) variants evaluated := by
  induction variants generalizing s with
  | nil => exact ⟨[], rfl, .nil⟩
  | cons split variants ih =>
    obtain ⟨evaluated, hkept, hevaluated⟩ := ih (computeSplitCycles dpu split runtimeOverhead s).2.2
    refine ⟨_ :: evaluated, ?_, .cons (isEvaluated_computeSplitCycles split runtimeOverhead s)
      hevaluated⟩
    rw [measureVariants, List.map_cons, hkept, kept]

theorem generateSplits_spec (dpu : DPUWorkload → S → Option ℕ × S) (interval : S → ℕ)
    {options : SplitOptions} (hlatency : options.maxLatencyUs = 0)
    (tried : List (ITilerAlgorithm × ExecutionMode × ℕ)) (s : S) :
    ∃ evaluated, (generateSplits dpu interval options tried s).1 = evaluated.map kept
      ∧ List.Forall₂ (IsEvaluated dpu options.runtimeOverhead)
        (tried.flatMap fun t => t.1.splitTileInWorkloads t.2.1 t.2.2) evaluated := by
  induction tried generalizing s with
  | nil => exact ⟨[], rfl, .nil⟩
  | cons t tried ih =>
    obtain ⟨algo, mode, nWorkloads⟩ := t
    obtain ⟨evaluated, hkept, hevaluated⟩ := measureVariants_spec dpu options.runtimeOverhead
      (algo.splitTileInWorkloads mode nWorkloads) s
    obtain ⟨others, hkept', hevaluated'⟩ := ih (measureVariants dpu options.runtimeOverhead
      (algo.splitTileInWorkloads mode nWorkloads) s).2
    refine ⟨evaluated ++ others, ?_, ?_⟩
    · rw [generateSplits, if_neg (by omega), List.map_append, ← hkept, ← hkept']
    · rw [List.flatMap_cons]
      exact List.rel_append hevaluated hevaluated'

theorem flatMap_attempts (algorithms : List ITilerAlgorithm)
    (validExecutionModes : List ExecutionMode) (nDPU : ℕ) :
    (attempts algorithms validExecutionModes nDPU).flatMap
        (fun t => t.1.splitTileInWorkloads t.2.1 t.2.2)
      = generatedSplits algorithms validExecutionModes nDPU := by
  simp only [attempts, generatedSplits, List.flatMap_assoc, List.flatMap_map]

end

/-! ### The best split -/

/-- An evaluated split that may be the best one: it has a cost, which is neither zero nor an error. -/
def IsCandidate (evaluated : Option ℕ × DPUWorkloadsWithCyclesSplit) (cost : ℕ) : Prop :=
  evaluated.1 = some cost ∧ cost ≠ 0 ∧ ¬ isErrorCode cost

/-- The least cost of the candidates and the workloads of one that has it, or an error if there are
    no candidates. -/
structure IsBest (evaluated : List (Option ℕ × DPUWorkloadsWithCyclesSplit)) (cost : ℕ)
    (workloads : List DPUWorkload) : Prop where
  isErrorCode_iff : isErrorCode cost ↔ ∀ e ∈ evaluated, ∀ c, ¬ IsCandidate e c
  le : ¬ isErrorCode cost → ∀ e ∈ evaluated, ∀ c, IsCandidate e c → cost ≤ c
  exists_eq : ¬ isErrorCode cost → ∃ e ∈ evaluated, IsCandidate e cost ∧ e.2.workloads = workloads

section

variable {evaluated : Option ℕ × DPUWorkloadsWithCyclesSplit} {cost : ℕ}

theorem isErrorCode_errorTileSplitException : isErrorCode errorTileSplitException := by decide

theorem isErrorCode_errorTileSplitZeroCycOutput : isErrorCode errorTileSplitZeroCycOutput := by
  decide

theorem IsCandidate.kept_eq (h : IsCandidate evaluated cost) : (kept evaluated).1 = cost := by
  obtain ⟨hcost, hpos, -⟩ := h
  rw [kept, hcost, wlCost, if_neg (by omega)]

/-- What is kept is a candidate or an error. -/
theorem isCandidate_kept (h : ¬ isErrorCode (kept evaluated).1) :
    IsCandidate evaluated (kept evaluated).1 := by
  obtain ⟨_ | cycles, split⟩ := evaluated
  · exact absurd isErrorCode_errorTileSplitException h
  · rw [kept, wlCost] at h ⊢
    by_cases hzero : cycles ≤ 0
    · rw [if_pos hzero] at h
      exact absurd isErrorCode_errorTileSplitZeroCycOutput h
    · rw [if_neg hzero] at h ⊢
      exact ⟨rfl, by omega, h⟩

theorem rank_eq_top (split : ℕ × DPUWorkloadsWithCyclesSplit) (h : isErrorCode split.1) :
    rank split = ⊤ := if_pos (.inl h)

theorem IsCandidate.rank_kept (h : IsCandidate evaluated cost) : rank (kept evaluated) = cost := by
  obtain ⟨-, hpos, herror⟩ := id h
  rw [rank, h.kept_eq, if_neg (not_or_intro herror (by omega))]

end

/-- A smallest split, as the comparator has it, is the best one. -/
theorem isBest_of_rank_le {evaluated : List (Option ℕ × DPUWorkloadsWithCyclesSplit)}
    {best : ℕ × DPUWorkloadsWithCyclesSplit} (hmem : best ∈ evaluated.map kept)
    (hle : ∀ e ∈ evaluated, rank best ≤ rank (kept e)) :
    IsBest evaluated best.1 best.2.workloads := by
  obtain ⟨e, he, rfl⟩ := List.mem_map.mp hmem
  refine ⟨⟨fun herror e' he' c hc => ?_, fun hnone => ?_⟩, fun hno e' he' c hc => ?_, fun hno => ?_⟩
  · have htop := hle e' he'
    rw [rank_eq_top _ herror, hc.rank_kept] at htop
    exact absurd htop (not_le.mpr (WithTop.coe_lt_top c))
  · by_contra hno
    exact hnone e he _ (isCandidate_kept hno)
  · have hrank := hle e' he'
    rw [(isCandidate_kept hno).rank_kept, hc.rank_kept] at hrank
    exact WithTop.coe_le_coe.mp hrank
  · exact ⟨e, he, isCandidate_kept hno, rfl⟩

/-- The search throws exactly if there is no split. Otherwise it evaluates all of them in order, lists
    them with the cycles of their workloads and returns the best one. -/
theorem intraTileSplit_spec {S : Type*} (dpu : DPUWorkload → S → Option ℕ × S) (interval : S → ℕ)
    (algorithms : List ITilerAlgorithm) (validExecutionModes : List ExecutionMode)
    (options : SplitOptions) (completeOutputSplits : Option (List DPUWorkloadsWithCyclesSplit))
    (s : S) (hlatency : options.maxLatencyUs = 0) :
    (intraTileSplit dpu interval algorithms validExecutionModes options completeOutputSplits s = none
        ↔ generatedSplits algorithms validExecutionModes options.nDPU = [])
      ∧ ∀ cost workloads complete, intraTileSplit dpu interval algorithms validExecutionModes options
          completeOutputSplits s = some ((cost, workloads), complete) →
        ∃ evaluated, List.Forall₂ (IsEvaluated dpu options.runtimeOverhead)
            (generatedSplits algorithms validExecutionModes options.nDPU) evaluated
          ∧ complete = completeOutputSplits.map (· ++ evaluated.map Prod.snd)
          ∧ IsBest evaluated cost workloads := by
  obtain ⟨evaluated, hkept, hevaluated⟩ := generateSplits_spec dpu interval hlatency
    (attempts algorithms validExecutionModes options.nDPU) s
  rw [flatMap_attempts] at hevaluated
  have hsnd : evaluated.map Prod.snd = (evaluated.map kept).map Prod.snd := by
    rw [List.map_map]
    rfl
  have hlength := hevaluated.length_eq
  unfold intraTileSplit
  rw [hkept]
  cases evaluated with
  | nil =>
    rw [List.length_eq_zero_iff.mp hlength]
    exact ⟨iff_of_true rfl rfl, by simp⟩
  | cons e evaluated =>
    refine ⟨iff_of_false (by simp) fun hnil => ?_, ?_⟩
    · rw [hnil] at hlength
      exact absurd hlength (by simp)
    · rintro cost workloads complete hsome
      obtain ⟨⟨rfl, rfl⟩, rfl⟩ := Prod.mk.inj (Option.some_injective _ hsome) |>.imp_left Prod.mk.inj
      refine ⟨e :: evaluated, hevaluated, by rw [hsnd]; rfl, ?_⟩
      have hmem : minElement comp (kept e) (evaluated.map kept) ∈ (e :: evaluated).map kept :=
        minElement_mem
      refine isBest_of_rank_le hmem fun e' he' => ?_
      exact compares_comp.key_minElement_le (List.mem_map_of_mem he')

/-- One workload or two columns. -/
def exampleAlgorithm : ITilerAlgorithm where
  layerOnTile := HWTiling.exampleLayer
  generateSplitPool _ _ := [1, 2]
  tileMultipleWl mode nWorkloads := HWTiling.splitOverHW HWTiling.exampleLayer [] nWorkloads 1 mode

/-- A cost model that counts its answers, with the width as the cost. -/
def exampleDpu (wl : DPUWorkload) (answers : ℕ) : Option ℕ × ℕ :=
  (some wl.outputs.width, answers + 1)

theorem intraTileSplit_spec_example :
    ∃ cost workloads complete, intraTileSplit exampleDpu (fun _ => 0) [exampleAlgorithm]
        [.cuboid16x16] {} (some []) 0 = some ((cost, workloads), complete)
      ∧ ∃ evaluated, List.Forall₂ (IsEvaluated exampleDpu 0)
          (generatedSplits [exampleAlgorithm] [.cuboid16x16] 0) evaluated
        ∧ IsBest evaluated cost workloads := by
  obtain ⟨hnone, hsome⟩ := intraTileSplit_spec exampleDpu (fun _ => 0) [exampleAlgorithm]
    [.cuboid16x16] {} (some []) 0 rfl
  rcases hresult : intraTileSplit exampleDpu (fun _ => 0) [exampleAlgorithm] [.cuboid16x16] {}
    (some []) 0 with _ | ⟨⟨cost, workloads⟩, complete⟩
  · exact absurd (hnone.mp hresult) (List.cons_ne_nil _ _)
  · obtain ⟨evaluated, hevaluated, -, hbest⟩ := hsome cost workloads complete hresult
    exact ⟨cost, workloads, complete, rfl, evaluated, hevaluated, hbest⟩

end DPUTilerImplementation

end Vpunn
