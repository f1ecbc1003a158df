import Vpunn.Schedule
import Vpunn.Tiling.TilingPrimitives

/-! The cost of a split (`workload_cost_evaluator.cpp`).

    The cost model answers with cycles, which may be zero or an error code, or with an exception
    (`none`). It has a state that an answer may depend on and change, such as its cache. -/

namespace Vpunn
open Cycles

/-- `nDPU_per_tile` of the characteristics of a device, the same in all sets of them. -/
def nDPUPerTile : VPUDevice → ℕ
  | .vpu_2_0 | .vpu_2_1 => 5
  | _ => 1

namespace WorkloadCostEvaluator

variable {S : Type*} (dpu : DPUWorkload → S → Option ℕ × S)

/-! ### The code -/

/-- `resize` of the vector of cycles. -/
def resize (cycles : List ℕ) (n : ℕ) : List ℕ :=
  cycles.take n ++ List.replicate (n - cycles.length) 0

/-- The loop over the workloads and their cycles, which ends early with an exception. -/
def measure : List DPUWorkload → List ℕ → S → Bool × List ℕ × S
  | [], cycles, s => (true, cycles, s)
  | wl :: workloads, cycles, s =>
    match dpu wl s with
    | (none, s) => (false, cycles, s)
    | (some cost, s) =>
      let rest := measure workloads cycles.tail s
      (rest.1, cost :: rest.2.1, rest.2.2)

def computeWorkloadCycles (split : DPUWorkloadsWithCyclesSplit) (s : S) :
    Bool × DPUWorkloadsWithCyclesSplit × S :=
  let measured := measure dpu split.workloads (resize split.cycles split.workloads.length) s
  (measured.1, { split with cycles := measured.2.1 }, measured.2.2)

/-- No workloads, or workloads of more than one device, are an exception. -/
def getWorkloadsDevice : List DPUWorkload → Option VPUDevice
  | [] => none
  | wl :: workloads => if workloads.all (·.device = wl.device) then some wl.device else none

def countErrors (workloadsCycles : List ℕ) : ℕ := workloadsCycles.countP (isErrorCode ·)

def firstErrorIndex (workloadsCycles : List ℕ) : ℤ :=
  if 0 < countErrors workloadsCycles then workloadsCycles.findIdx (isErrorCode ·) else -1

/-- The cost of the split, and the split with the cycles of its workloads. -/
def computeSplitCycles (split : DPUWorkloadsWithCyclesSplit) (runtimeOverhead : ℕ) (s : S) :
    Option ℕ × DPUWorkloadsWithCyclesSplit × S :=
  if split.workloads.length = 0 then (some 0, split, s)
  else
    let computed := computeWorkloadCycles dpu split s
    if !computed.1 then (none, computed.2)
    else
      let cycles := computed.2.1.cycles
      if 0 < countErrors cycles then
        let errIndex := if 0 ≤ firstErrorIndex cycles then firstErrorIndex cycles else 0
        (some (cycles.getD errIndex.toNat 0), computed.2)
      else
        (getWorkloadsDevice split.workloads).elim (none, computed.2) fun device =>
          (some (dpuSchedule (nDPUPerTile device) cycles runtimeOverhead), computed.2)

/-! ### What an evaluation should give -/

/-- The cost model answers for the workloads one after the other. -/
inductive Answers : S → List DPUWorkload → List ℕ → S → Prop where
  | nil (s : S) : Answers s [] [] s
  | cons {s s' : S} {wl : DPUWorkload} {workloads : List DPUWorkload} {cost : ℕ} {cycles : List ℕ}
    (head : (dpu wl s).1 = some cost) (tail : Answers (dpu wl s).2 workloads cycles s') :
    Answers s (wl :: workloads) (cost :: cycles) s'

/-- The first error, or what the list schedule takes. -/
def scheduledCost (device : VPUDevice) (cycles : List ℕ) (runtimeOverhead : ℕ) : ℕ :=
  (cycles.find? (isErrorCode ·)).getD (dpuSchedule (nDPUPerTile device) cycles runtimeOverhead)

/-- The evaluation of a split throws: the cost model does for one of the workloads, or they are
    scheduled although they are for several devices. -/
def Throws (split : DPUWorkloadsWithCyclesSplit) : Prop :=
  (∃ s s' before wl after cycles, split.workloads = before ++ wl :: after
      ∧ Answers dpu s before cycles s' ∧ (dpu wl s').1 = none)
    ∨ ∃ wl ∈ split.workloads, ∃ wl' ∈ split.workloads, wl.device ≠ wl'.device

/-- A split after its evaluation, and its cost unless the evaluation threw. -/
structure IsEvaluated (runtimeOverhead : ℕ) (split : DPUWorkloadsWithCyclesSplit)
    (evaluated : Option ℕ × DPUWorkloadsWithCyclesSplit) : Prop where
  workloads : evaluated.2.workloads = split.workloads
  nothing : split.workloads = [] → evaluated = (some 0, split)
  cost : ∀ wl ∈ split.workloads.head?, ∀ cost, evaluated.1 = some cost →
    (∃ s s', Answers dpu s split.workloads evaluated.2.cycles s')
      ∧ cost = scheduledCost wl.device evaluated.2.cycles runtimeOverhead
  throws : evaluated.1 = none → Throws dpu split

section

variable {dpu} {s : S} {workloads : List DPUWorkload} {cycles : List ℕ}

/-! ### The loop -/

/-- The loop either gets an answer for each workload or stops at one for which there is none. -/
theorem measure_spec (dpu : DPUWorkload → S → Option ℕ × S) (s : S)
    (h : cycles.length = workloads.length) :
    ((measure dpu workloads cycles s).1 = true
        ∧ Answers dpu s workloads (measure dpu workloads cycles s).2.1
          (measure dpu workloads cycles s).2.2)
      ∨ ((measure dpu workloads cycles s).1 = false ∧ ∃ s' before wl after answered,
        workloads = before ++ wl :: after ∧ Answers dpu s before answered s'
          ∧ (dpu wl s').1 = none) := by
  induction workloads generalizing cycles s with
  | nil =>
    rw [List.length_eq_zero_iff.mp h]
    exact .inl ⟨rfl, .nil s⟩
  | cons wl workloads ih =>
    have htail : cycles.tail.length = workloads.length := by
      rw [List.length_tail, h, List.length_cons, Nat.add_sub_cancel]
    rw [measure]
    rcases hdpu : dpu wl s with ⟨_ | cost, s'⟩
    · exact .inr ⟨rfl, s, [], wl, workloads, [], rfl, .nil s, congrArg Prod.fst hdpu⟩
    · have hs' : (dpu wl s).2 = s' := congrArg Prod.snd hdpu
      have hcost : (dpu wl s).1 = some cost := congrArg Prod.fst hdpu
      simp only
      rcases ih s' htail with ⟨hok, hanswers⟩ | ⟨hok, s'', before, wl', after, answered, h⟩
      · exact .inl ⟨hok, .cons hcost (hs' ▸ hanswers)⟩
      · obtain ⟨rfl, hanswers, hnone⟩ := h
        exact .inr ⟨hok, s'', wl :: before, wl', after, cost :: answered, rfl,
          .cons hcost (hs' ▸ hanswers), hnone⟩

theorem length_resize (cycles : List ℕ) (n : ℕ) : (resize cycles n).length = n := by
  rw [resize, List.length_append, List.length_take, List.length_replicate]
  omega

/-! ### The cost -/

theorem getD_firstErrorIndex (h : 0 < countErrors cycles) :
    some (cycles.getD (if 0 ≤ firstErrorIndex cycles then firstErrorIndex cycles else 0).toNat 0)
      = cycles.find? (isErrorCode ·) := by
  have hindex : firstErrorIndex cycles = (cycles.findIdx (isErrorCode ·) : ℤ) := if_pos h
  have hlt : cycles.findIdx (isErrorCode ·) < cycles.length :=
    List.findIdx_lt_length_of_exists (List.countP_pos_iff.mp h)
  rw [hindex, if_pos (Int.natCast_nonneg _), Int.toNat_natCast, List.find?_eq_getElem?_findIdx,
    List.getD_eq_getElem?_getD, List.getElem?_eq_getElem hlt, Option.getD_some]

theorem find?_eq_none_of_countErrors (h : ¬ 0 < countErrors cycles) :
    cycles.find? (isErrorCode ·) = none := by
  rw [List.find?_eq_none]
  intro c hc herror
  exact h (List.countP_pos_iff.mpr ⟨c, hc, herror⟩)

theorem getWorkloadsDevice_cons (wl : DPUWorkload) (workloads : List DPUWorkload) :
    getWorkloadsDevice (wl :: workloads) = some wl.device
      ∨ (getWorkloadsDevice (wl :: workloads) = none
        ∧ ∃ wl' ∈ wl :: workloads, wl.device ≠ wl'.device) := by
  rw [getWorkloadsDevice]
  by_cases hall : workloads.all (·.device = wl.device) = true
  · exact .inl (if_pos hall)
  · refine .inr ⟨if_neg hall, ?_⟩
    simp only [List.all_eq_true, decide_eq_true_eq, not_forall] at hall
    obtain ⟨wl', hwl', hne⟩ := hall
    exact ⟨wl', List.mem_cons_of_mem wl hwl', fun heq => hne heq.symm⟩

/-- An evaluation is as it should be. -/
theorem isEvaluated_computeSplitCycles (split : DPUWorkloadsWithCyclesSplit) (runtimeOverhead : ℕ)
    (s : S) : IsEvaluated dpu runtimeOverhead split
      ((computeSplitCycles dpu split runtimeOverhead s).1,
        (computeSplitCycles dpu split runtimeOverhead s).2.1) := by
  obtain ⟨cycles, workloads⟩ := split
  cases workloads with
  | nil => exact ⟨rfl, fun _ => rfl, by simp, fun h => absurd h (by simp [computeSplitCycles])⟩
  | cons wl workloads =>
    have hmeasure := measure_spec dpu s
      (length_resize cycles (wl :: workloads).length)
    unfold computeSplitCycles computeWorkloadCycles
    generalize measure dpu (wl :: workloads) (resize cycles (wl :: workloads).length) s = measured
      at hmeasure
    obtain ⟨ok, answered, s'⟩ := measured
    rw [if_neg (by simp)]
    rcases hmeasure with ⟨rfl, hanswers⟩ | ⟨rfl, s'', before, wl', after, answered', hthrows⟩
    · simp only [Bool.not_true, Bool.false_eq_true, if_false]
      by_cases herror : 0 < countErrors answered
      · rw [if_pos herror]
        refine ⟨rfl, by simp, fun wl' hwl' cost hcost => ⟨⟨s, s', hanswers⟩, ?_⟩, by simp⟩
        rw [scheduledCost, ← getD_firstErrorIndex herror, Option.getD_some]
        exact (Option.some_injective _ hcost).symm
      · rw [if_neg herror]
        rcases getWorkloadsDevice_cons wl workloads with hdevice | ⟨hdevice, h⟩
        · rw [hdevice, Option.elim_some]
          refine ⟨rfl, by simp, fun wl' hwl' cost hcost => ⟨⟨s, s', hanswers⟩, ?_⟩, by simp⟩
          obtain rfl : wl = wl' := Option.some_injective _ hwl'
          rw [scheduledCost, find?_eq_none_of_countErrors herror, Option.getD_none]
          exact (Option.some_injective _ hcost).symm
        · rw [hdevice, Option.elim_none]
          exact ⟨rfl, by simp, by simp, fun _ => .inr ⟨wl, List.mem_cons_self, h⟩⟩
    · refine ⟨rfl, by simp, by simp, fun _ => .inl ?_⟩
      exact ⟨s, s'', before, wl', after, answered', hthrows⟩

end

end WorkloadCostEvaluator

end Vpunn
