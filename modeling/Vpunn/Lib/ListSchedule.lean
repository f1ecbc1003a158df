import Mathlib.Data.Finset.Max
import Mathlib.Data.Finset.Lattice.Fold
import Mathlib.Data.Fintype.Card
import Mathlib.Order.Lattice.Nat
import Mathlib.Data.List.Sort
import Mathlib.Algebra.Order.BigOperators.Group.List
import Mathlib.Algebra.Order.Monoid.Unbundled.Pow

/-! List scheduling on identical processors.

    Tasks are given out in order, each to a processor that is free first. A sorted queue of the
    times when the processors are free is all that has to be kept: the choice among processors that
    are free at the same time does not matter. The addition of a task is a parameter of the queue, so
    that a saturating one can be compared with the exact one. -/

namespace ListSchedule

/-! ### The queue -/

section Queue

variable {α : Type*} [LinearOrder α]

/-- Gives a task to the processor at the head of the queue. -/
def assign (add : α → α → α) (queue : List α) (task : α) : List α :=
  match queue with
  | [] => []
  | smallest :: rest => rest.orderedInsert (· ≤ ·) (add smallest task)

/-- Gives out the tasks in their order. -/
def run (add : α → α → α) (queue : List α) (tasks : List α) : List α :=
  tasks.foldl (assign add) queue

variable {add : α → α → α} {queue : List α}

theorem mem_assign_cons {x smallest task : α} {rest : List α} :
    x ∈ assign add (smallest :: rest) task ↔ x = add smallest task ∨ x ∈ rest :=
  List.mem_orderedInsert _

theorem pairwise_assign (h : queue.Pairwise (· ≤ ·)) (task : α) :
    (assign add queue task).Pairwise (· ≤ ·) := by
  cases queue with
  | nil => exact List.Pairwise.nil
  | cons smallest rest => exact (List.pairwise_cons.mp h).2.orderedInsert _ _

theorem pairwise_run (tasks : List α) (h : queue.Pairwise (· ≤ ·)) :
    (run add queue tasks).Pairwise (· ≤ ·) := by
  induction tasks generalizing queue with
  | nil => exact h
  | cons task tasks ih => exact ih (pairwise_assign h task)

/-- Changing every task before it is given out is part of the addition. -/
theorem run_map (f : α → α) (tasks : List α) :
    run add queue (tasks.map f) = run (fun x t => add x (f t)) queue tasks := by
  induction tasks generalizing queue with
  | nil => rfl
  | cons task tasks ih =>
    rw [List.map_cons, run, run, List.foldl_cons, List.foldl_cons]
    have hstep : assign add queue (f task) = assign (fun x t => add x (f t)) queue task := by
      cases queue <;> rfl
    rw [hstep]
    exact ih

/-- A time past a bound is never lost, if adding to such a time keeps it past the bound. -/
theorem exists_lt_run (tasks : List α) {bound : α} (hadd : ∀ x t, bound < x → bound < add x t)
    (h : ∃ x ∈ queue, bound < x) : ∃ x ∈ run add queue tasks, bound < x := by
  induction tasks generalizing queue with
  | nil => exact h
  | cons task tasks ih =>
    apply ih
    obtain ⟨x, hx, hlt⟩ := h
    cases queue with
    | nil => simp at hx
    | cons smallest rest =>
      rcases List.mem_cons.mp hx with rfl | hx
      · exact ⟨_, mem_assign_cons.mpr (.inl rfl), hadd _ _ hlt⟩
      · exact ⟨x, mem_assign_cons.mpr (.inr hx), hlt⟩

/-- A task past a bound takes a processor past it. -/
theorem exists_lt_run_of_mem {tasks : List α} {bound : α} (hne : queue ≠ [])
    (hadd : ∀ x t, bound < x → bound < add x t) (htask : ∀ x t, bound < t → bound < add x t)
    (h : ∃ t ∈ tasks, bound < t) : ∃ x ∈ run add queue tasks, bound < x := by
  induction tasks generalizing queue with
  | nil => simp at h
  | cons task tasks ih =>
    obtain ⟨smallest, rest, rfl⟩ := List.exists_cons_of_ne_nil hne
    rcases (by simpa using h : bound < task ∨ ∃ t ∈ tasks, bound < t) with hlt | h
    · exact exists_lt_run tasks hadd ⟨_, mem_assign_cons.mpr (.inl rfl), htask smallest task hlt⟩
    · exact ih (List.ne_nil_of_mem (mem_assign_cons.mpr (.inl rfl))) h

/-- Two additions give the same queue as long as they agree up to a bound, and the first time past
    the bound shows in both. -/
theorem run_spec {add' : α → α → α} {bound : α} (tasks : List α)
    (hkeep : ∀ x t, bound < x → bound < add x t) (hkeep' : ∀ x t, bound < x → bound < add' x t)
    (hiff : ∀ x t, x ≤ bound → (bound < add x t ↔ bound < t ∨ bound < add' x t))
    (heq : ∀ x t, x ≤ bound → add x t ≤ bound → add x t = add' x t)
    (hqueue : ∀ x ∈ queue, x ≤ bound) (hne : queue ≠ []) :
    ((∃ x ∈ run add queue tasks, bound < x)
        ↔ (∃ t ∈ tasks, bound < t) ∨ ∃ x ∈ run add' queue tasks, bound < x)
      ∧ ((∀ x ∈ run add queue tasks, x ≤ bound) → run add queue tasks = run add' queue tasks) := by
  induction tasks generalizing queue with
  | nil => simp [run]
  | cons task tasks ih =>
    obtain ⟨smallest, rest, rfl⟩ := List.exists_cons_of_ne_nil hne
    obtain ⟨hsmallest, hrest⟩ := List.forall_mem_cons.mp hqueue
    by_cases hlarge : bound < add smallest task
    · -- Here the bound is passed for the first time.
      have hleft : ∃ x ∈ run add (smallest :: rest) (task :: tasks), bound < x :=
        exists_lt_run tasks hkeep ⟨_, mem_assign_cons.mpr (.inl rfl), hlarge⟩
      refine ⟨⟨fun _ => ?_, fun _ => hleft⟩, fun hno => ?_⟩
      · rcases (hiff smallest task hsmallest).mp hlarge with htask | hlarge'
        · exact .inl ⟨task, List.mem_cons_self, htask⟩
        · exact .inr (exists_lt_run tasks hkeep' ⟨_, mem_assign_cons.mpr (.inl rfl), hlarge'⟩)
      · obtain ⟨x, hx, hlt⟩ := hleft
        exact absurd (hno x hx) (not_le.mpr hlt)
    · have hsame := heq smallest task hsmallest (not_lt.mp hlarge)
      have htask : ¬ bound < task := fun h => hlarge ((hiff smallest task hsmallest).mpr (.inl h))
      have hstep : assign add' (smallest :: rest) task = assign add (smallest :: rest) task := by
        simp only [assign, hsame]
      have hbounded : ∀ x ∈ assign add (smallest :: rest) task, x ≤ bound := by
        intro x hx
        rcases mem_assign_cons.mp hx with rfl | hx
        · exact not_lt.mp hlarge
        · exact hrest x hx
      have hne' : assign add (smallest :: rest) task ≠ [] :=
        List.ne_nil_of_mem (mem_assign_cons.mpr (.inl rfl))
      have ih := ih hbounded hne'
      simp only [run, List.foldl_cons, hstep, List.mem_cons, exists_eq_or_imp, htask,
        false_or] at ih ⊢
      exact ih

/-- The time when the last processor is free, in a queue that starts at the earliest time. -/
theorem lt_getLastD_iff [OrderBot α] (h : queue.Pairwise (· ≤ ·)) {bound : α} :
    bound < queue.getLastD ⊥ ↔ ∃ x ∈ queue, bound < x := by
  rcases List.eq_nil_or_concat queue with rfl | ⟨init, last, rfl⟩
  · simp
  · rw [List.concat_eq_append] at h ⊢
    rw [List.getLastD_concat]
    refine ⟨fun hlt => ⟨last, by simp, hlt⟩, ?_⟩
    rintro ⟨x, hx, hlt⟩
    rcases List.mem_append.mp hx with hx | hx
    · exact hlt.trans_le ((List.pairwise_append.mp h).2.2 x hx last (by simp))
    · rw [List.mem_singleton.mp hx] at hlt
      exact hlt

end Queue

/-! ### Comparing queues -/

section Compare

variable {α : Type*} [LinearOrder α]

theorem length_assign (add : α → α → α) (queue : List α) (task : α) :
    (assign add queue task).length = queue.length := by
  cases queue with
  | nil => rfl
  | cons smallest rest => exact List.orderedInsert_length _ _ _

theorem length_run (add : α → α → α) (queue tasks : List α) :
    (run add queue tasks).length = queue.length := by
  induction tasks generalizing queue with
  | nil => rfl
  | cons task tasks ih => exact (ih _).trans (length_assign add queue task)

theorem orderedInsert_of_forall_le {x : α} {xs : List α} (h : ∀ y ∈ xs, x ≤ y) :
    xs.orderedInsert (· ≤ ·) x = x :: xs := by
  cases xs with
  | nil => rfl
  | cons y ys => exact List.orderedInsert_cons_of_le _ _ (h y List.mem_cons_self)

/-- Inserting keeps two sorted lists in their order, entry by entry. -/
theorem forall₂_orderedInsert {xs ys : List α} (h : List.Forall₂ (· ≤ ·) xs ys)
    (hxs : xs.Pairwise (· ≤ ·)) (hys : ys.Pairwise (· ≤ ·)) {a b : α} (hab : a ≤ b) :
    List.Forall₂ (· ≤ ·) (xs.orderedInsert (· ≤ ·) a) (ys.orderedInsert (· ≤ ·) b) := by
  induction h generalizing a b with
  | nil => exact .cons hab .nil
  | @cons x y xs ys hxy h ih =>
    obtain ⟨hx, hxs'⟩ := List.pairwise_cons.mp hxs
    obtain ⟨hy, hys'⟩ := List.pairwise_cons.mp hys
    by_cases ha : a ≤ x
    · rw [List.orderedInsert_cons_of_le _ _ ha]
      by_cases hb : b ≤ y
      · rw [List.orderedInsert_cons_of_le _ _ hb]
        exact .cons hab (.cons hxy h)
      · -- The larger value goes behind `y`, and `x` takes its place in the shorter comparison.
        rw [List.orderedInsert_of_not_le _ _ hb]
        refine .cons (ha.trans hxy) ?_
        have := ih hxs' hys' (hxy.trans (le_of_not_ge hb))
        rwa [orderedInsert_of_forall_le hx] at this
    · rw [List.orderedInsert_of_not_le _ _ ha]
      have hxa : x ≤ a := le_of_not_ge ha
      by_cases hb : b ≤ y
      · rw [List.orderedInsert_cons_of_le _ _ hb]
        refine .cons (hxa.trans hab) ?_
        have := ih hxs' hys' (hab.trans hb)
        rwa [orderedInsert_of_forall_le hy] at this
      · rw [List.orderedInsert_of_not_le _ _ hb]
        exact .cons hxy (ih hxs' hys' hab)

theorem getLastD_le_of_forall₂ {xs ys : List α} (h : List.Forall₂ (· ≤ ·) xs ys) {a b : α}
    (hab : a ≤ b) : xs.getLastD a ≤ ys.getLastD b := by
  induction h generalizing a b with
  | nil => exact hab
  | cons hxy _ ih => rw [List.getLastD_cons, List.getLastD_cons]; exact ih hxy

theorem getLastD_le_of_forall₂_of_ne_nil {xs ys : List α} (h : List.Forall₂ (· ≤ ·) xs ys)
    (hne : xs ≠ []) (a b : α) : xs.getLastD a ≤ ys.getLastD b := by
  cases h with
  | nil => exact absurd rfl hne
  | cons hxy hrest =>
    rw [List.getLastD_cons, List.getLastD_cons]
    exact getLastD_le_of_forall₂ hrest hxy

end Compare

/-! ### Loads -/

section Loads

variable {α : Type*} [AddCommMonoid α] [LinearOrder α]

theorem sum_assign {queue : List α} (hne : queue ≠ []) (task : α) :
    (assign (· + ·) queue task).sum = queue.sum + task := by
  obtain ⟨smallest, rest, rfl⟩ := List.exists_cons_of_ne_nil hne
  rw [assign, (List.perm_orderedInsert _ _ _).sum_eq, List.sum_cons, List.sum_cons]
  ac_rfl

theorem ne_nil_assign {queue : List α} (hne : queue ≠ []) (task : α) :
    assign (· + ·) queue task ≠ [] := by
  rw [← List.length_pos_iff_ne_nil, length_assign]
  exact List.length_pos_iff_ne_nil.mpr hne

/-- No work is lost. -/
theorem sum_run {queue : List α} (tasks : List α) (hne : queue ≠ []) :
    (run (· + ·) queue tasks).sum = queue.sum + tasks.sum := by
  induction tasks generalizing queue with
  | nil => simp [run]
  | cons task tasks ih =>
    rw [List.sum_cons, ← add_assoc, ← sum_assign hne]
    exact ih (ne_nil_assign hne task)

variable [IsOrderedAddMonoid α]

/-- Two queues in order stay so when the tasks of the second take at least as long. -/
theorem forall₂_run {queue queue' tasks tasks' : List α} (hqueue : List.Forall₂ (· ≤ ·) queue queue')
    (hsorted : queue.Pairwise (· ≤ ·)) (hsorted' : queue'.Pairwise (· ≤ ·))
    (htasks : List.Forall₂ (· ≤ ·) tasks tasks') :
    List.Forall₂ (· ≤ ·) (run (· + ·) queue tasks) (run (· + ·) queue' tasks') := by
  induction htasks generalizing queue queue' with
  | nil => exact hqueue
  | @cons task task' tasks tasks' htask _ ih =>
    refine ih ?_ (pairwise_assign hsorted _) (pairwise_assign hsorted' _)
    cases hqueue with
    | nil => exact .nil
    | cons hsmallest hrest =>
      exact forall₂_orderedInsert hrest (List.pairwise_cons.mp hsorted).2
        (List.pairwise_cons.mp hsorted').2 (add_le_add hsmallest htask)

/-- One more processor: leaving out the one that is free first, the queue is ahead of the queue
    without it. -/
theorem forall₂_tail_run {queue queue' : List α} (tasks : List α) (hpos : ∀ t ∈ tasks, 0 ≤ t)
    (hqueue : List.Forall₂ (· ≤ ·) queue.tail queue') (hsorted : queue.Pairwise (· ≤ ·))
    (hsorted' : queue'.Pairwise (· ≤ ·)) (hne : queue' ≠ []) :
    List.Forall₂ (· ≤ ·) (run (· + ·) queue tasks).tail (run (· + ·) queue' tasks) := by
  induction tasks generalizing queue queue' with
  | nil => exact hqueue
  | cons task tasks ih =>
    obtain ⟨htask, htasks⟩ := List.forall_mem_cons.mp hpos
    refine ih htasks ?_ (pairwise_assign hsorted _) (pairwise_assign hsorted' _)
      (ne_nil_assign hne task)
    obtain ⟨first', rest', rfl⟩ := List.exists_cons_of_ne_nil hne
    cases queue with
    | nil => simp at hqueue
    | cons smallest rest =>
      obtain ⟨hsmallest, hrest⟩ := List.pairwise_cons.mp hsorted
      rw [List.tail_cons] at hqueue
      cases hqueue with
      | @cons first _ rest _ hfirst hqueue =>
        obtain ⟨hfirstRest, hrest⟩ := List.pairwise_cons.mp hrest
        have hrest' := (List.pairwise_cons.mp hsorted').2
        simp only [assign]
        by_cases hle : smallest + task ≤ first
        · rw [List.orderedInsert_cons_of_le _ _ hle, List.tail_cons]
          rw [← orderedInsert_of_forall_le hfirstRest]
          exact forall₂_orderedInsert hqueue hrest hrest'
            (hfirst.trans (le_add_of_nonneg_right htask))
        · rw [List.orderedInsert_of_not_le _ _ hle, List.tail_cons]
          have hfirst' : smallest ≤ first' := (hsmallest first List.mem_cons_self).trans hfirst
          exact forall₂_orderedInsert hqueue hrest hrest' (by gcongr)

/-- Giving out a task moves no entry of the queue forward. -/
theorem forall₂_assign {queue : List α} (hsorted : queue.Pairwise (· ≤ ·)) {task : α}
    (htask : 0 ≤ task) : List.Forall₂ (· ≤ ·) queue (assign (· + ·) queue task) := by
  cases queue with
  | nil => exact .nil
  | cons smallest rest =>
    obtain ⟨hsmallest, hrest⟩ := List.pairwise_cons.mp hsorted
    have := forall₂_orderedInsert (List.forall₂_same.mpr fun x _ => le_rfl) hrest hrest
      (le_add_of_nonneg_right htask : smallest ≤ smallest + task)
    rwa [orderedInsert_of_forall_le hsmallest] at this

/-- A time that has been reached is not lost. -/
theorem exists_le_run_of_mem {queue tasks : List α} (hpos : ∀ t ∈ tasks, 0 ≤ t) {x : α}
    (h : ∃ y ∈ queue, x ≤ y) : ∃ y ∈ run (· + ·) queue tasks, x ≤ y := by
  induction tasks generalizing queue with
  | nil => exact h
  | cons task tasks ih =>
    obtain ⟨htask, htasks⟩ := List.forall_mem_cons.mp hpos
    apply ih htasks
    obtain ⟨y, hy, hle⟩ := h
    cases queue with
    | nil => simp at hy
    | cons smallest rest =>
      rcases List.mem_cons.mp hy with rfl | hy
      · exact ⟨_, mem_assign_cons.mpr (.inl rfl), hle.trans (le_add_of_nonneg_right htask)⟩
      · exact ⟨y, mem_assign_cons.mpr (.inr hy), hle⟩

/-- Every task ends by the time of some processor. -/
theorem exists_le_run {queue tasks : List α} (hne : queue ≠ []) (hqueue : ∀ x ∈ queue, 0 ≤ x)
    (hpos : ∀ t ∈ tasks, 0 ≤ t) {task : α} (h : task ∈ tasks) :
    ∃ x ∈ run (· + ·) queue tasks, task ≤ x := by
  induction tasks generalizing queue with
  | nil => simp at h
  | cons first tasks ih =>
    obtain ⟨hfirst, htasks⟩ := List.forall_mem_cons.mp hpos
    obtain ⟨smallest, rest, rfl⟩ := List.exists_cons_of_ne_nil hne
    obtain ⟨hsmallest, hrest⟩ := List.forall_mem_cons.mp hqueue
    rcases List.mem_cons.mp h with rfl | h
    · exact exists_le_run_of_mem htasks
        ⟨_, mem_assign_cons.mpr (.inl rfl), le_add_of_nonneg_left hsmallest⟩
    · refine ih (ne_nil_assign hne first) (fun x hx => ?_) htasks h
      rcases mem_assign_cons.mp hx with rfl | hx
      · exact add_nonneg hsmallest hfirst
      · exact hrest x hx

/-- List scheduling keeps every processor below the average load and the largest task: when it got
    its last task it was free first. -/
theorem nsmul_le_of_mem_run {queue : List α} (tasks : List α) {largest : α}
    (hsorted : queue.Pairwise (· ≤ ·)) (hne : queue ≠ []) (hpos : ∀ t ∈ tasks, 0 ≤ t)
    (hlargest : ∀ t ∈ tasks, t ≤ largest)
    (hqueue : ∀ x ∈ queue, queue.length • x ≤ queue.sum + (queue.length - 1) • largest) :
    ∀ x ∈ run (· + ·) queue tasks,
      queue.length • x ≤ queue.sum + tasks.sum + (queue.length - 1) • largest := by
  induction tasks generalizing queue with
  | nil => simpa [run] using hqueue
  | cons task tasks ih =>
    obtain ⟨htask, htasks⟩ := List.forall_mem_cons.mp hpos
    obtain ⟨hle, hlargest⟩ := List.forall_mem_cons.mp hlargest
    have hsorted' : (assign (· + ·) queue task).Pairwise (· ≤ ·) := pairwise_assign hsorted task
    have hnext := ih hsorted' (ne_nil_assign hne task) htasks hlargest
    rw [length_assign, sum_assign hne] at hnext
    rw [List.sum_cons, ← add_assoc queue.sum]
    refine hnext fun x hx => ?_
    obtain ⟨smallest, rest, rfl⟩ := List.exists_cons_of_ne_nil hne
    have hlength : (smallest :: rest).length = rest.length + 1 := rfl
    rw [hlength, Nat.add_sub_cancel] at hqueue ⊢
    rcases mem_assign_cons.mp hx with rfl | hx
    · -- The processor that was free first has at most the average load.
      have haverage : (rest.length + 1) • smallest ≤ (smallest :: rest).sum := by
        refine List.card_nsmul_le_sum (smallest :: rest) smallest fun y hy => ?_
        rcases List.mem_cons.mp hy with rfl | hy
        · exact le_rfl
        · exact (List.pairwise_cons.mp hsorted).1 y hy
      calc (rest.length + 1) • (smallest + task)
          = (rest.length + 1) • smallest + task + rest.length • task := by
            rw [nsmul_add, succ_nsmul task, add_comm (rest.length • task), add_assoc]
        _ ≤ (smallest :: rest).sum + task + rest.length • largest := by
            gcongr
    · calc (rest.length + 1) • x
          ≤ (smallest :: rest).sum + rest.length • largest := hqueue x (List.mem_cons_of_mem _ hx)
        _ ≤ (smallest :: rest).sum + task + rest.length • largest := by
            gcongr; exact le_add_of_nonneg_right htask

end Loads

/-! ### Schedules -/

section Schedules

variable {ι α : Type*} [DecidableEq ι] [LinearOrder α]

/-- The times of all processors, without their order. -/
def times [Fintype ι] (free : ι → α) : Multiset α := Finset.univ.val.map free

theorem times_update [Fintype ι] (free : ι → α) (i : ι) (x : α) :
    times (Function.update free i x) = x ::ₘ (times free).erase (free i) := by
  have hsplit : ∀ f : ι → α, times f
      = f i ::ₘ ((Finset.univ : Finset ι).val.erase i).map f := by
    intro f
    rw [times, ← Multiset.map_cons, Multiset.cons_erase (Finset.mem_univ i)]
  rw [hsplit (Function.update free i x), hsplit free, Multiset.erase_cons_head,
    Function.update_self]
  congr 1
  refine Multiset.map_congr rfl fun j hj => Function.update_of_ne ?_ _ _
  rintro rfl
  exact Multiset.Nodup.notMem_erase Finset.univ.nodup hj

variable [Add α]

/-- The tasks are taken in order, each by one of the processors that are free first. -/
inductive Schedules : (ι → α) → List α → (ι → α) → Prop
  | nil (free : ι → α) : Schedules free [] free
  | cons {free finish : ι → α} {task : α} {tasks : List α} (i : ι) (hfirst : ∀ j, free i ≤ free j)
      (h : Schedules (Function.update free i (free i + task)) tasks finish) :
      Schedules free (task :: tasks) finish

variable [Fintype ι]

theorem exists_schedules [Nonempty ι] (free : ι → α) (tasks : List α) :
    ∃ finish, Schedules free tasks finish := by
  induction tasks generalizing free with
  | nil => exact ⟨free, .nil free⟩
  | cons task tasks ih =>
    obtain ⟨i, -, hfirst⟩ := Finset.exists_min_image Finset.univ free Finset.univ_nonempty
    obtain ⟨finish, h⟩ := ih (Function.update free i (free i + task))
    exact ⟨finish, .cons i (fun j => hfirst j (Finset.mem_univ j)) h⟩

/-- However ties are broken, the queue holds the times of a schedule. -/
theorem Schedules.times_eq {free finish : ι → α} {tasks queue : List α}
    (h : Schedules free tasks finish) (hsorted : queue.Pairwise (· ≤ ·))
    (hqueue : times free = queue) : times finish = run (· + ·) queue tasks := by
  induction h generalizing queue with
  | nil free => exact hqueue
  | @cons free finish task tasks i hfirst h ih =>
    refine ih (pairwise_assign hsorted task) ?_
    have hmem : free i ∈ (queue : Multiset α) :=
      hqueue ▸ Multiset.mem_map_of_mem free (Finset.mem_univ i)
    cases queue with
    | nil => simp at hmem
    | cons smallest rest =>
      have hhead : smallest = free i := by
        apply le_antisymm
        · rcases List.mem_cons.mp (Multiset.mem_coe.mp hmem) with heq | hmem
          · exact heq.ge
          · exact (List.pairwise_cons.mp hsorted).1 _ hmem
        · have : smallest ∈ times free := by
            rw [hqueue]; exact Multiset.mem_coe.mpr List.mem_cons_self
          obtain ⟨j, -, rfl⟩ := Multiset.mem_map.mp this
          exact hfirst j
      rw [times_update, hqueue, ← hhead, ← Multiset.cons_coe, Multiset.erase_cons_head, assign,
        Multiset.cons_coe]
      exact Multiset.coe_eq_coe.mpr (List.perm_orderedInsert _ _ _).symm

/-- The time when the last processor is free is the last entry of the queue. -/
theorem Schedules.sup_eq [OrderBot α] {finish : ι → α} {tasks : List α}
    (h : Schedules (fun _ : ι => (⊥ : α)) tasks finish) :
    Finset.univ.sup finish
      = (run (· + ·) (List.replicate (Fintype.card ι) ⊥) tasks).getLastD ⊥ := by
  have hsorted : (List.replicate (Fintype.card ι) (⊥ : α)).Pairwise (· ≤ ·) :=
    List.pairwise_replicate.mpr (.inr le_rfl)
  have htimes := h.times_eq hsorted (by
    rw [times, Multiset.map_const', Finset.card_val, Finset.card_univ, Multiset.coe_replicate])
  have hmem : ∀ x, x ∈ run (· + ·) (List.replicate (Fintype.card ι) ⊥) tasks ↔ ∃ i, finish i = x := by
    intro x
    rw [← Multiset.mem_coe, ← htimes, times]
    simp
  refine eq_of_forall_lt_iff fun bound => ?_
  rw [lt_getLastD_iff (pairwise_run tasks hsorted), Finset.lt_sup_iff]
  simp [hmem]

end Schedules

end ListSchedule
