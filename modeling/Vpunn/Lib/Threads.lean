import Mathlib.Data.List.Induction
import Mathlib.Logic.Function.Basic
import Vpunn.Lib.Runs

/-! Threads that call one object.

    A call runs as a sequence of sections, each of them atomic, and the threads take turns in any
    order. If every section but the last leaves the object alone and the last does what the whole
    call is specified to do, then every interleaving is a sequential run: of the completed calls, in
    the order in which they completed, and each thread's in the order of its program. -/

namespace Threads

variable {T C F S R : Type*}

/-- How the calls of an object run: where a call starts, and what a section does to the object and
    to the call, which goes on from another place or returns. -/
structure Sections (C F S R : Type*) where
  start : C → F
  advance : F → S → (F ⊕ R) × S

/-- A thread with the calls that it still has to make, and the one that it is in. -/
structure Thread (C F : Type*) where
  todo : List C
  current : Option (C × F) := none

/-- The calls of a thread that have not returned. -/
def Thread.pending (th : Thread C F) : List C := (th.current.map Prod.fst).toList ++ th.todo

/-- The object, the threads, and the calls that have returned, the latest one last. -/
structure Config (T C F S R : Type*) where
  shared : S
  threads : T → Thread C F
  log : List (T × C × R) := []

/-- No thread has made a call yet. -/
def Config.init (s : S) (programs : T → List C) : Config T C F S R where
  shared := s
  threads t := { todo := programs t }

variable [DecidableEq T] (o : Sections C F S R)

/-- One step of a thread: the next call is made, or the next section runs. -/
def step (g : Config T C F S R) (t : T) : Config T C F S R :=
  match (g.threads t).current, (g.threads t).todo with
  | none, [] => g
  | none, c :: cs => { g with threads := Function.update g.threads t ⟨cs, some (c, o.start c)⟩ }
  | some (c, f), cs =>
    match o.advance f g.shared with
    | (.inl f', s) =>
      { g with shared := s, threads := Function.update g.threads t ⟨cs, some (c, f')⟩ }
    | (.inr r, s) => { g with
        shared := s
        threads := Function.update g.threads t ⟨cs, none⟩
        log := g.log ++ [(t, c, r)] }

/-- The threads take their turns as scheduled. -/
def exec (schedule : List T) (g : Config T C F S R) : Config T C F S R := schedule.foldl (step o) g

/-- The calls of a thread that have returned, in their order. -/
def Config.returned (g : Config T C F S R) (t : T) : List C :=
  (g.log.filter (·.1 = t)).map fun e => e.2.1

/-- While the object is in order, sections before the last leave it alone, and the last one does
    what the call is specified to do. `Good` says where a call can be. -/
structure Sections.Atomic (o : Sections C F S R) (call : C → S → R × S) (Inv : S → Prop)
    (Good : C → F → Prop) : Prop where
  start : ∀ c, Good c (o.start c)
  goOn : ∀ {c f s f' s'}, Inv s → Good c f → o.advance f s = (.inl f', s') → s' = s ∧ Good c f'
  finish : ∀ {c f s r s'}, Inv s → Good c f → o.advance f s = (.inr r, s') → call c s = (r, s')
  inv : ∀ {s} c, Inv s → Inv (call c s).2

/-- What holds in all interleavings of the programs. -/
structure Linearized (call : C → S → R × S) (Inv : S → Prop) (Good : C → F → Prop) (s₀ : S)
    (programs : T → List C) (g : Config T C F S R) : Prop where
  run_eq : Runs.run call (g.log.map fun e => e.2.1) s₀ = (g.log.map fun e => e.2.2, g.shared)
  order : ∀ t, g.returned t ++ (g.threads t).pending = programs t
  inv : Inv g.shared
  good : ∀ t c f, (g.threads t).current = some (c, f) → Good c f

variable {o : Sections C F S R} {call : C → S → R × S} {Inv : S → Prop} {Good : C → F → Prop} {s₀ : S}
  {programs : T → List C}

theorem linearized_init (h : Inv s₀) :
    Linearized call Inv Good s₀ programs (.init s₀ programs : Config T C F S R) where
  run_eq := rfl
  order _ := rfl
  inv := h
  good _ _ _ hcurrent := by cases hcurrent

/-- The thread that moved has what is said of it, the others what they had. -/
theorem forall_update {P : T → Thread C F → Prop} {threads : T → Thread C F} {t : T}
    {th : Thread C F} (ht : P t th) (h : ∀ t', t' ≠ t → P t' (threads t')) (t' : T) :
    P t' (Function.update threads t th t') := by
  by_cases heq : t' = t
  · subst heq
    rwa [Function.update_self]
  · rw [Function.update_of_ne heq]
    exact h t' heq

/-- What one step can be: nothing, a new call, a section before the last of a call, or the last. -/
theorem step_cases (o : Sections C F S R) (g : Config T C F S R) (t : T) :
    (g.threads t = ⟨[], none⟩ ∧ step o g t = g)
    ∨ (∃ c cs, g.threads t = ⟨c :: cs, none⟩
      ∧ step o g t = { g with
        threads := Function.update g.threads t ⟨cs, some (c, o.start c)⟩ })
    ∨ (∃ c f cs f' s, g.threads t = ⟨cs, some (c, f)⟩ ∧ o.advance f g.shared = (.inl f', s)
      ∧ step o g t = { g with
        shared := s, threads := Function.update g.threads t ⟨cs, some (c, f')⟩ })
    ∨ ∃ c f cs r s, g.threads t = ⟨cs, some (c, f)⟩ ∧ o.advance f g.shared = (.inr r, s)
      ∧ step o g t = { g with
        shared := s
        threads := Function.update g.threads t ⟨cs, none⟩
        log := g.log ++ [(t, c, r)] } := by
  rcases hthread : g.threads t with ⟨_ | ⟨c, cs⟩, _ | ⟨c', f⟩⟩
  · exact .inl ⟨rfl, by simp only [step, hthread]⟩
  · rcases hadvance : o.advance f g.shared with ⟨f' | r, s⟩
    · exact .inr (.inr (.inl ⟨c', f, [], f', s, rfl, hadvance, by
        simp only [step, hthread, hadvance]⟩))
    · exact .inr (.inr (.inr ⟨c', f, [], r, s, rfl, hadvance, by
        simp only [step, hthread, hadvance]⟩))
  · exact .inr (.inl ⟨c, cs, rfl, by simp only [step, hthread]⟩)
  · rcases hadvance : o.advance f g.shared with ⟨f' | r, s⟩
    · exact .inr (.inr (.inl ⟨c', f, c :: cs, f', s, rfl, hadvance, by
        simp only [step, hthread, hadvance]⟩))
    · exact .inr (.inr (.inr ⟨c', f, c :: cs, r, s, rfl, hadvance, by
        simp only [step, hthread, hadvance]⟩))

/-- One step keeps it: a section before the last changes nothing that counts, and the last one adds
    its call to the end of the sequential run. -/
theorem Linearized.step (ho : o.Atomic call Inv Good) {g : Config T C F S R}
    (h : Linearized call Inv Good s₀ programs g) (t : T) :
    Linearized call Inv Good s₀ programs (step o g t) := by
  obtain ⟨hrun, horder, hinv, hgood⟩ := h
  have hothers : ∀ t', t' ≠ t → g.returned t' ++ (g.threads t').pending = programs t' :=
    fun t' _ => horder t'
  have hothers' : ∀ t', t' ≠ t → ∀ c f, (g.threads t').current = some (c, f) → Good c f :=
    fun t' _ => hgood t'
  rcases step_cases o g t with ⟨-, hstep⟩ | ⟨c, cs, hthread, hstep⟩
    | ⟨c, f, cs, f', s, hthread, hadvance, hstep⟩ | ⟨c, f, cs, r, s, hthread, hadvance, hstep⟩
  · rw [hstep]
    exact ⟨hrun, horder, hinv, hgood⟩
  · have hpending : g.returned t ++ c :: cs = programs t := by
      rw [← horder t, hthread]
      rfl
    rw [hstep]
    refine ⟨hrun, fun t' => ?_, hinv, fun t' => ?_⟩
    · exact forall_update (P := fun t th => g.returned t ++ th.pending = programs t) hpending
        hothers t'
    · refine forall_update (P := fun _ th => ∀ c f, th.current = some (c, f) → Good c f) ?_
        hothers' t'
      rintro _ _ ⟨⟩
      exact ho.start c
  · have hpending : g.returned t ++ c :: cs = programs t := by
      rw [← horder t, hthread]
      rfl
    obtain ⟨rfl, hf'⟩ := ho.goOn hinv (hgood t c f (by rw [hthread])) hadvance
    rw [hstep]
    refine ⟨hrun, fun t' => ?_, hinv, fun t' => ?_⟩
    · exact forall_update (P := fun t th => g.returned t ++ th.pending = programs t) hpending
        hothers t'
    · refine forall_update (P := fun _ th => ∀ c f, th.current = some (c, f) → Good c f) ?_
        hothers' t'
      rintro _ _ ⟨⟩
      exact hf'
  · have hpending : g.returned t ++ c :: cs = programs t := by
      rw [← horder t, hthread]
      rfl
    have hcall := ho.finish hinv (hgood t c f (by rw [hthread])) hadvance
    rw [hstep]
    refine ⟨?_, fun t' => ?_, ?_, fun t' => ?_⟩
    · simp only [List.map_append, List.map_cons, List.map_nil, Runs.run_concat, hrun, hcall]
    · -- the call moves from the front of what is pending to the end of what has returned
      by_cases heq : t = t'
      · subst heq
        simp [Config.returned, Thread.pending, ← hpending]
      · rw [← horder t']
        simp [Config.returned, heq, Function.update_of_ne (Ne.symm heq)]
    · have hs := ho.inv c hinv
      rwa [hcall] at hs
    · refine forall_update (P := fun _ th => ∀ c f, th.current = some (c, f) → Good c f) ?_
        hothers' t'
      rintro _ _ ⟨⟩

/-- Every interleaving is a sequential run of the calls in the order in which they returned. -/
theorem linearized_exec (ho : o.Atomic call Inv Good) (hs : Inv s₀) (schedule : List T) :
    Linearized call Inv Good s₀ programs (exec o schedule (.init s₀ programs)) := by
  induction schedule using List.reverseRecOn with
  | nil => exact linearized_init hs
  | append_singleton schedule t ih =>
    rw [exec, List.foldl_append]
    exact ih.step ho t

/-! ### Completion -/

/-- A call has at most `bound + 1` sections, counted by what is left of it. -/
structure Sections.Bounded (o : Sections C F S R) (rank : F → ℕ) (bound : ℕ) : Prop where
  start : ∀ c, rank (o.start c) ≤ bound
  goOn : ∀ {f s f' s'}, o.advance f s = (.inl f', s') → rank f' < rank f

/-- How many steps a thread needs at most. -/
def Thread.left (rank : F → ℕ) (bound : ℕ) (th : Thread C F) : ℕ :=
  (bound + 2) * th.todo.length + ((th.current.map fun e => rank e.2 + 1).getD 0)

variable {rank : F → ℕ} {bound : ℕ}

/-- A step of a thread takes one from what it needs, and nothing from what the others need. -/
theorem left_step (ho : o.Bounded rank bound) (g : Config T C F S R) (t t' : T) :
    ((step o g t).threads t').left rank bound
      ≤ (g.threads t').left rank bound - if t = t' then 1 else 0 := by
  by_cases heq : t = t'
  · subst heq
    rw [if_pos rfl]
    rcases step_cases o g t with ⟨hthread, hstep⟩ | ⟨c, cs, hthread, hstep⟩
      | ⟨c, f, cs, f', s, hthread, hadvance, hstep⟩ | ⟨c, f, cs, r, s, hthread, -, hstep⟩
    · simp [hstep, hthread, Thread.left]
    · have hstart := ho.start c
      simp only [hstep, hthread, Thread.left, Function.update_self, List.length_cons,
        Option.map_some, Option.getD_some, Option.map_none, Option.getD_none]
      rw [Nat.mul_add]
      omega
    · have hgoOn := ho.goOn hadvance
      simp only [hstep, hthread, Thread.left, Function.update_self, Option.map_some,
        Option.getD_some]
      omega
    · simp only [hstep, hthread, Thread.left, Function.update_self, Option.map_some,
        Option.getD_some, Option.map_none, Option.getD_none]
      omega
  · have hthreads : (step o g t).threads t' = g.threads t' := by
      rcases step_cases o g t with ⟨-, hstep⟩ | ⟨_, _, -, hstep⟩ | ⟨_, _, _, _, _, -, -, hstep⟩
        | ⟨_, _, _, _, _, -, -, hstep⟩ <;>
      simp [hstep, Function.update_of_ne (Ne.symm heq)]
    simp [hthreads, heq]

theorem left_exec (ho : o.Bounded rank bound) (schedule : List T) (g : Config T C F S R) (t : T) :
    ((exec o schedule g).threads t).left rank bound
      ≤ (g.threads t).left rank bound - schedule.count t := by
  induction schedule generalizing g with
  | nil => exact Nat.le_refl _
  | cons t' schedule ih =>
    have hstep := left_step ho g t' t
    have hrest := ih (step o g t')
    rw [List.count_cons]
    simp only [beq_iff_eq]
    calc ((exec o schedule (step o g t')).threads t).left rank bound
        ≤ ((step o g t').threads t).left rank bound - schedule.count t := hrest
      _ ≤ (g.threads t).left rank bound - (schedule.count t + if t' = t then 1 else 0) := by omega

/-- A thread that gets enough turns completes its program, whatever turns the others get. -/
theorem pending_exec (ho : o.Bounded rank bound) {schedule : List T} {t : T}
    (h : (bound + 2) * (programs t).length ≤ schedule.count t) :
    ((exec o schedule (.init s₀ programs)).threads t).pending = [] := by
  have hleft := left_exec ho schedule (.init s₀ programs) t
  have hinit : ((Config.init s₀ programs : Config T C F S R).threads t).left rank bound
      = (bound + 2) * (programs t).length := rfl
  rw [hinit, Nat.sub_eq_zero_of_le h, Nat.le_zero] at hleft
  rcases hthread : (exec o schedule (.init s₀ programs)).threads t with ⟨_ | ⟨c, cs⟩, _ | e⟩
  · rfl
  all_goals
    rw [hthread] at hleft
    simp [Thread.left] at hleft

end Threads
