import Mathlib.Algebra.Order.Floor.Ring
import Mathlib.Algebra.Order.Floor.Semiring
import Mathlib.Tactic.FieldSimp
import Mathlib.Data.List.MinMax
import Vpunn.Cycles
import Vpunn.Lib.ListSchedule

/-! List scheduling of costs on processors (`dpu_schedule<CyclesInterfaceType>` of `utils.h`).

    Additions saturate into the error codes. As long as no error comes up the schedule is the exact
    one of the tasks with the overhead added to each, and an error that comes up is kept, so the
    bounds of list scheduling carry over. -/

namespace Vpunn
open Cycles ListSchedule

/-- The time when the last of the processors is done; each task goes to one that is free first. -/
def dpuSchedule (nProcessors : ℕ) (tasksCost : List ℕ) (runtimeOverhead : ℕ) : ℕ :=
  (run (fun smallestTime cost => costAdder (costAdder smallestTime cost) runtimeOverhead)
    (List.replicate nProcessors 0) tasksCost).getLastD 0

/-- What a task takes together with the overhead. -/
def effectiveCosts (tasksCost : List ℕ) (runtimeOverhead : ℕ) : List ℕ :=
  tasksCost.map (· + runtimeOverhead)

/-- The schedule in which nothing saturates. -/
def exactSchedule (nProcessors : ℕ) (tasksCost : List ℕ) : ℕ :=
  (run (· + ·) (List.replicate nProcessors 0) tasksCost).getLastD 0

section Queue

variable (nProcessors : ℕ)

theorem pairwise_replicate_zero : (List.replicate nProcessors 0).Pairwise (· ≤ ·) :=
  List.pairwise_replicate.mpr (.inr le_rfl)

theorem lt_run_getLastD_iff (add : ℕ → ℕ → ℕ) (tasks : List ℕ) {bound : ℕ} :
    bound < (run add (List.replicate nProcessors 0) tasks).getLastD 0
      ↔ ∃ x ∈ run add (List.replicate nProcessors 0) tasks, bound < x :=
  lt_getLastD_iff (pairwise_run tasks (pairwise_replicate_zero nProcessors))

theorem le_exactSchedule_of_mem {tasks : List ℕ} {x : ℕ}
    (h : ∃ y ∈ run (· + ·) (List.replicate nProcessors 0) tasks, x ≤ y) :
    x ≤ exactSchedule nProcessors tasks := by
  obtain ⟨y, hy, hle⟩ := h
  by_contra hlt
  exact hlt (hle.trans (not_lt.mp fun hlast => by
    have := (lt_run_getLastD_iff nProcessors (· + ·) tasks).mpr ⟨y, hy, hlast⟩
    exact absurd this (lt_irrefl _)))

end Queue

/-- The saturating schedule has the times of the exact one until an error comes up, which it keeps. -/
theorem dpuSchedule_eq_exactSchedule {nProcessors : ℕ} (hn : 1 ≤ nProcessors) (costs : List ℕ)
    {overhead : ℕ} (hoverhead : ¬ isErrorCode overhead) :
    (isErrorCode (dpuSchedule nProcessors costs overhead)
        ↔ (∃ c ∈ costs, isErrorCode c)
          ∨ startErrorRange < exactSchedule nProcessors (effectiveCosts costs overhead))
      ∧ (¬ isErrorCode (dpuSchedule nProcessors costs overhead) →
        dpuSchedule nProcessors costs overhead
          = exactSchedule nProcessors (effectiveCosts costs overhead)) := by
  have hkeep : ∀ x t, startErrorRange < x →
      startErrorRange < costAdder (costAdder x t) overhead := by
    intro x t hx
    rw [costAdder_of_isErrorCode hx, costAdder_of_isErrorCode hx]
    exact hx
  have hiff : ∀ x t, x ≤ startErrorRange →
      (startErrorRange < costAdder (costAdder x t) overhead
        ↔ startErrorRange < t ∨ startErrorRange < x + (t + overhead)) := by
    intro x t hx
    obtain ⟨hcost, hsum⟩ := costAdder_spec (not_lt.mpr hx) t
    by_cases herror : isErrorCode (costAdder x t)
    · rw [costAdder_of_isErrorCode herror]
      refine ⟨fun _ => (hcost.mp herror).imp_right fun h => by omega, fun _ => herror⟩
    · have ht : ¬ startErrorRange < t := fun ht => herror (hcost.mpr (.inl ht))
      have := (costAdder_spec herror overhead).1
      rw [or_iff_right hoverhead, hsum herror, add_assoc] at this
      rw [or_iff_right ht, hsum herror]
      exact this
  have heq : ∀ x t, x ≤ startErrorRange → costAdder (costAdder x t) overhead ≤ startErrorRange →
      costAdder (costAdder x t) overhead = x + (t + overhead) := by
    intro x t hx hle
    have herror : ¬ isErrorCode (costAdder x t) := fun herror => by
      rw [costAdder_of_isErrorCode herror] at hle
      exact absurd herror (not_lt.mpr hle)
    rw [(costAdder_spec herror overhead).2 (not_lt.mpr hle),
      (costAdder_spec (not_lt.mpr hx) t).2 herror, add_assoc]
  have hqueue : ∀ x ∈ List.replicate nProcessors 0, x ≤ startErrorRange :=
    fun x hx => (List.eq_of_mem_replicate hx).trans_le (by decide)
  obtain ⟨hrunIff, hrun⟩ := run_spec costs hkeep
    (fun x t hx => lt_of_lt_of_le hx (Nat.le_add_right x _)) hiff heq hqueue
    (List.ne_nil_of_length_pos (by rw [List.length_replicate]; exact hn))
  unfold dpuSchedule exactSchedule effectiveCosts isErrorCode
  rw [run_map]
  refine ⟨by rw [lt_run_getLastD_iff, lt_run_getLastD_iff]; exact hrunIff, fun hno => ?_⟩
  rw [lt_run_getLastD_iff, not_exists] at hno
  exact congrArg (List.getLastD · 0) (hrun fun x hx => not_lt.mp fun hlt => hno x ⟨hx, hlt⟩)

/-- Without an overhead the exact schedule is any in which each task goes to a processor that is
    free first. -/
theorem dpuSchedule_spec {ι : Type} [Fintype ι] [DecidableEq ι] [Nonempty ι] {costs : List ℕ}
    {finish : ι → ℕ} (h : Schedules (fun _ => 0) costs finish) :
    (isErrorCode (dpuSchedule (Fintype.card ι) costs 0)
        ↔ (∃ c ∈ costs, isErrorCode c) ∨ startErrorRange < Finset.univ.sup finish)
      ∧ (¬ isErrorCode (dpuSchedule (Fintype.card ι) costs 0) →
        dpuSchedule (Fintype.card ι) costs 0 = Finset.univ.sup finish) := by
  have hsup : Finset.univ.sup finish = exactSchedule (Fintype.card ι) costs := Schedules.sup_eq h
  have hzero : effectiveCosts costs 0 = costs := List.map_id' costs
  have := dpuSchedule_eq_exactSchedule (Fintype.card_pos : 1 ≤ Fintype.card ι) costs
    (show ¬ isErrorCode 0 by decide)
  rwa [hzero, ← hsup] at this

/-- A task that is an error makes the schedule an error. -/
theorem isErrorCode_dpuSchedule {nProcessors : ℕ} (hn : 1 ≤ nProcessors) {costs : List ℕ}
    (overhead : ℕ) (h : ∃ c ∈ costs, isErrorCode c) :
    isErrorCode (dpuSchedule nProcessors costs overhead) := by
  refine (lt_run_getLastD_iff nProcessors _ costs).mpr (exists_lt_run_of_mem
    (List.ne_nil_of_length_pos (by rw [List.length_replicate]; exact hn)) (fun x t hx => ?_)
    (fun x t ht => ?_) h)
  · rw [costAdder_of_isErrorCode hx, costAdder_of_isErrorCode hx]
    exact hx
  · have herror : isErrorCode (costAdder x t) := by
      by_cases hx : isErrorCode x
      · rwa [costAdder_of_isErrorCode hx]
      · exact (costAdder_spec hx t).1.mpr (.inl ht)
    rw [costAdder_of_isErrorCode herror]
    exact herror

/-! ### The bounds of list scheduling -/

/-- What holds of a schedule on `nProcessors` of tasks that are no errors, whose total is none. -/
structure BoundedSchedule (nProcessors : ℕ) (tasksCost : List ℕ) (runtimeOverhead : ℕ) : Prop where
  largest_le : (effectiveCosts tasksCost runtimeOverhead).foldr max 0
    ≤ dpuSchedule nProcessors tasksCost runtimeOverhead
  ceil_average_le : ⌈((effectiveCosts tasksCost runtimeOverhead).sum / nProcessors : ℚ)⌉₊
    ≤ dpuSchedule nProcessors tasksCost runtimeOverhead
  le_graham : (dpuSchedule nProcessors tasksCost runtimeOverhead : ℚ)
    ≤ (effectiveCosts tasksCost runtimeOverhead).sum / nProcessors
      + (1 - 1 / nProcessors) * (effectiveCosts tasksCost runtimeOverhead).foldr max 0
  increase : ∀ (before after : List ℕ) (cost cost' : ℕ), tasksCost = before ++ cost :: after →
    cost ≤ cost' → dpuSchedule nProcessors tasksCost runtimeOverhead
      ≤ dpuSchedule nProcessors (before ++ cost' :: after) runtimeOverhead
  insert : ∀ (before after : List ℕ) (cost : ℕ), tasksCost = before ++ after →
    dpuSchedule nProcessors tasksCost runtimeOverhead
      ≤ dpuSchedule nProcessors (before ++ cost :: after) runtimeOverhead
  add_processor : dpuSchedule (nProcessors + 1) tasksCost runtimeOverhead
    ≤ dpuSchedule nProcessors tasksCost runtimeOverhead

section Bounds

variable {nProcessors : ℕ}

theorem mem_run_exactSchedule (hn : 1 ≤ nProcessors) (tasks : List ℕ) :
    exactSchedule nProcessors tasks ∈ run (· + ·) (List.replicate nProcessors 0) tasks := by
  have hlength := length_run (· + ·) (List.replicate nProcessors 0) tasks
  unfold exactSchedule
  rcases List.eq_nil_or_concat (run (· + ·) (List.replicate nProcessors 0) tasks)
    with hnil | ⟨init, last, heq⟩
  · rw [hnil, List.length_replicate] at hlength
    exact absurd hlength (by simp; omega)
  · rw [heq, List.concat_eq_append, List.getLastD_concat]
    simp

theorem le_exactSchedule {tasks : List ℕ} (hn : 1 ≤ nProcessors) {task : ℕ} (h : task ∈ tasks) :
    task ≤ exactSchedule nProcessors tasks :=
  le_exactSchedule_of_mem nProcessors
    (exists_le_run (List.ne_nil_of_length_pos (by rw [List.length_replicate]; exact hn))
      (fun x _ => Nat.zero_le x) (fun t _ => Nat.zero_le t) h)

/-- No processor works longer than the last one. -/
theorem sum_le_mul_exactSchedule (hn : 1 ≤ nProcessors) (tasks : List ℕ) :
    tasks.sum ≤ nProcessors * exactSchedule nProcessors tasks := by
  have hne : List.replicate nProcessors 0 ≠ [] :=
    List.ne_nil_of_length_pos (by rw [List.length_replicate]; exact hn)
  have hsum := sum_run tasks hne
  have hlength := length_run (· + ·) (List.replicate nProcessors 0) tasks
  have hle := List.sum_le_card_nsmul (run (· + ·) (List.replicate nProcessors 0) tasks)
    (exactSchedule nProcessors tasks)
    fun x hx => le_exactSchedule_of_mem nProcessors ⟨x, hx, le_rfl⟩
  rw [hsum, hlength] at hle
  simpa using hle

theorem mul_exactSchedule_le (hn : 1 ≤ nProcessors) {tasks : List ℕ} {largest : ℕ}
    (hlargest : ∀ t ∈ tasks, t ≤ largest) :
    nProcessors * exactSchedule nProcessors tasks
      ≤ tasks.sum + (nProcessors - 1) * largest := by
  have hne : List.replicate nProcessors 0 ≠ [] :=
    List.ne_nil_of_length_pos (by rw [List.length_replicate]; exact hn)
  have := nsmul_le_of_mem_run tasks (pairwise_replicate_zero nProcessors) hne
    (fun t _ => Nat.zero_le t) hlargest
    (fun x hx => by rw [List.eq_of_mem_replicate hx]; simp) _ (mem_run_exactSchedule hn tasks)
  simpa using this

theorem exactSchedule_le_sum (hn : 1 ≤ nProcessors) (tasks : List ℕ) :
    exactSchedule nProcessors tasks ≤ tasks.sum := by
  have hmem := List.single_le_sum (fun _ _ => Nat.zero_le _) _ (mem_run_exactSchedule hn tasks)
  rw [sum_run tasks (List.ne_nil_of_length_pos (by rw [List.length_replicate]; exact hn))] at hmem
  simpa using hmem

theorem exactSchedule_mono {tasks tasks' : List ℕ} (h : List.Forall₂ (· ≤ ·) tasks tasks') :
    exactSchedule nProcessors tasks ≤ exactSchedule nProcessors tasks' :=
  getLastD_le_of_forall₂
    (forall₂_run (List.forall₂_same.mpr fun _ _ => le_rfl) (pairwise_replicate_zero nProcessors)
      (pairwise_replicate_zero nProcessors) h) le_rfl

theorem exactSchedule_insert (before after : List ℕ) (task : ℕ) :
    exactSchedule nProcessors (before ++ after)
      ≤ exactSchedule nProcessors (before ++ task :: after) := by
  have hsorted : (run (· + ·) (List.replicate nProcessors 0) before).Pairwise (· ≤ ·) :=
    pairwise_run before (pairwise_replicate_zero nProcessors)
  unfold exactSchedule run
  rw [List.foldl_append, List.foldl_append, List.foldl_cons]
  exact getLastD_le_of_forall₂
    (forall₂_run (forall₂_assign hsorted (Nat.zero_le task)) hsorted (pairwise_assign hsorted task)
      (List.forall₂_same.mpr fun _ _ => le_rfl)) le_rfl

theorem exactSchedule_succ_le (hn : 1 ≤ nProcessors) (tasks : List ℕ) :
    exactSchedule (nProcessors + 1) tasks ≤ exactSchedule nProcessors tasks := by
  have hne : List.replicate nProcessors 0 ≠ [] :=
    List.ne_nil_of_length_pos (by rw [List.length_replicate]; exact hn)
  have hqueue : List.Forall₂ (· ≤ ·) (List.replicate (nProcessors + 1) 0).tail
      (List.replicate nProcessors 0) := by
    rw [List.replicate_succ, List.tail_cons]
    exact List.forall₂_same.mpr fun _ _ => le_rfl
  have htail := forall₂_tail_run tasks (fun t _ => Nat.zero_le t) hqueue
    (pairwise_replicate_zero _) (pairwise_replicate_zero _) hne
  have hlength := length_run (· + ·) (List.replicate (nProcessors + 1) 0) tasks
  rw [List.length_replicate] at hlength
  unfold exactSchedule
  cases hrun : run (· + ·) (List.replicate (nProcessors + 1) 0) tasks with
  | nil => rw [hrun] at hlength; simp at hlength
  | cons first rest =>
    rw [hrun, List.tail_cons] at htail
    rw [hrun, List.length_cons] at hlength
    rw [List.getLastD_cons]
    exact getLastD_le_of_forall₂_of_ne_nil htail (List.ne_nil_of_length_pos (by omega)) _ _

/-- Where the total is no error the schedule is the exact one. -/
theorem dpuSchedule_eq_of_sum (hn : 1 ≤ nProcessors) {costs : List ℕ} {overhead : ℕ}
    (hcosts : ∀ c ∈ costs, ¬ isErrorCode c) (hoverhead : ¬ isErrorCode overhead)
    (hsum : ¬ isErrorCode (effectiveCosts costs overhead).sum) :
    dpuSchedule nProcessors costs overhead
      = exactSchedule nProcessors (effectiveCosts costs overhead) := by
  obtain ⟨hiff, heq⟩ := dpuSchedule_eq_exactSchedule hn costs hoverhead
  refine heq fun herror => ?_
  rcases hiff.mp herror with ⟨c, hc, hbad⟩ | hlarge
  · exact hcosts c hc hbad
  · exact hsum (hlarge.trans_le (exactSchedule_le_sum hn _))

/-- An exact schedule that is no error is at most any schedule that is exact or an error. -/
theorem exactSchedule_le_dpuSchedule (hn : 1 ≤ nProcessors) {costs : List ℕ} {overhead bound : ℕ}
    (hoverhead : ¬ isErrorCode overhead) (hbound : ¬ isErrorCode bound)
    (hle : bound ≤ exactSchedule nProcessors (effectiveCosts costs overhead)) :
    bound ≤ dpuSchedule nProcessors costs overhead := by
  by_cases herror : isErrorCode (dpuSchedule nProcessors costs overhead)
  · exact (not_lt.mp hbound).trans herror.le
  · rw [(dpuSchedule_eq_exactSchedule hn costs hoverhead).2 herror]
    exact hle

theorem boundedSchedule (hn : 1 ≤ nProcessors) {costs : List ℕ} {overhead : ℕ}
    (hcosts : ∀ c ∈ costs, ¬ isErrorCode c) (hoverhead : ¬ isErrorCode overhead)
    (hsum : ¬ isErrorCode (effectiveCosts costs overhead).sum) :
    BoundedSchedule nProcessors costs overhead := by
  have heq := dpuSchedule_eq_of_sum hn hcosts hoverhead hsum
  have hno : ¬ isErrorCode (dpuSchedule nProcessors costs overhead) := by
    rw [heq]
    exact fun herror => hsum (herror.trans_le (exactSchedule_le_sum hn _))
  have hpos : (0 : ℚ) < nProcessors := by exact_mod_cast hn
  refine ⟨?_, ?_, ?_, ?_, ?_, ?_⟩
  · rw [heq]
    exact List.max_le_of_forall_le _ _ fun c hc => le_exactSchedule hn hc
  · rw [heq, Nat.ceil_le, div_le_iff₀ hpos, mul_comm]
    exact_mod_cast sum_le_mul_exactSchedule hn _
  · have hlargest : ∀ t ∈ effectiveCosts costs overhead,
        t ≤ (effectiveCosts costs overhead).foldr max 0 := fun t ht => List.le_max_of_le ht le_rfl
    have hle := mul_exactSchedule_le hn hlargest
    have hcast : (nProcessors : ℚ) * exactSchedule nProcessors (effectiveCosts costs overhead)
        ≤ (effectiveCosts costs overhead).sum
          + (nProcessors - 1) * (effectiveCosts costs overhead).foldr max 0 := by
      have : ((nProcessors - 1 : ℕ) : ℚ) = nProcessors - 1 := by push_cast [hn]; ring
      rw [← this]
      exact_mod_cast hle
    rw [heq]
    refine le_of_mul_le_mul_left (hcast.trans_eq ?_) hpos
    field_simp
  · rintro before after cost cost' rfl hle
    refine exactSchedule_le_dpuSchedule hn hoverhead hno ?_
    rw [heq]
    refine exactSchedule_mono ?_
    unfold effectiveCosts
    rw [List.map_append, List.map_append, List.map_cons, List.map_cons]
    exact List.rel_append (List.forall₂_same.mpr fun _ _ => le_rfl)
      (.cons (by omega) (List.forall₂_same.mpr fun _ _ => le_rfl))
  · rintro before after cost rfl
    refine exactSchedule_le_dpuSchedule hn hoverhead hno ?_
    rw [heq]
    unfold effectiveCosts
    rw [List.map_append, List.map_append, List.map_cons]
    exact exactSchedule_insert _ _ _
  · rw [heq, dpuSchedule_eq_of_sum (Nat.le_add_left 1 _) hcosts hoverhead hsum]
    exact exactSchedule_succ_le hn _

/-- A schedule obeys the bounds of list scheduling unless its tasks, the overhead or the total are
    errors, and does not lose the error of a task. -/
theorem dpuSchedule_bounds (hn : 1 ≤ nProcessors) (tasksCost : List ℕ) (runtimeOverhead : ℕ) :
    ((∀ c ∈ tasksCost, ¬ isErrorCode c) → ¬ isErrorCode runtimeOverhead →
        ¬ isErrorCode (effectiveCosts tasksCost runtimeOverhead).sum →
        BoundedSchedule nProcessors tasksCost runtimeOverhead)
      ∧ ((∃ c ∈ tasksCost, isErrorCode c) →
        isErrorCode (dpuSchedule nProcessors tasksCost runtimeOverhead)) :=
  ⟨fun hcosts hoverhead hsum => boundedSchedule hn hcosts hoverhead hsum,
    fun h => isErrorCode_dpuSchedule hn runtimeOverhead h⟩

/-- Three tasks on two processors, and one of them with an error. -/
theorem dpuSchedule_bounds_three_tasks : BoundedSchedule 2 [7, 5, 4] 1
    ∧ isErrorCode (dpuSchedule 2 [7, errorTileOutput, 4] 1) :=
  ⟨(dpuSchedule_bounds (by decide) [7, 5, 4] 1).1 (by decide) (by decide) (by decide),
    (dpuSchedule_bounds (by decide) [7, errorTileOutput, 4] 1).2 (by decide)⟩

end Bounds

end Vpunn
