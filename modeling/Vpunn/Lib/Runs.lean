import Mathlib.Data.List.Basic

/-! Runs of calls on an object with a state.

    A call returns something and leaves the object in another state. If every call returns what a
    specification says as long as an invariant holds, and keeps the invariant, then so does every
    run. -/

namespace Runs

variable {C S R : Type*} (call : C → S → R × S)

/-- What the calls return, one after the other, and the state at the end. -/
def run : List C → S → List R × S
  | [], s => ([], s)
  | c :: cs, s =>
    let (r, s) := call c s
    let (rs, s) := run cs s
    (r :: rs, s)

@[simp] theorem run_nil (s : S) : run call [] s = ([], s) := rfl

@[simp] theorem run_cons (c : C) (cs : List C) (s : S) :
    run call (c :: cs) s
      = ((call c s).1 :: (run call cs (call c s).2).1, (run call cs (call c s).2).2) := rfl

theorem run_concat (cs : List C) (c : C) (s : S) :
    run call (cs ++ [c]) s
      = ((run call cs s).1 ++ [(call c (run call cs s).2).1], (call c (run call cs s).2).2) := by
  induction cs generalizing s with
  | nil => rfl
  | cons c' cs ih => simp only [List.cons_append, run_cons, ih]

variable {call} {cs : List C}

/-- An invariant that every call keeps holds at the end of a run. -/
theorem run_inv {Inv : S → Prop} (h : ∀ c ∈ cs, ∀ s, Inv s → Inv (call c s).2) {s : S}
    (hs : Inv s) : Inv (run call cs s).2 := by
  induction cs generalizing s with
  | nil => exact hs
  | cons c cs ih =>
    rw [List.forall_mem_cons] at h
    exact ih h.2 (h.1 s hs)

/-- What every call returns while the invariant holds, all calls of a run return. -/
theorem run_forall (Inv : S → Prop) (Good : R → Prop)
    (h : ∀ c ∈ cs, ∀ s, Inv s → Good (call c s).1 ∧ Inv (call c s).2) {s : S} (hs : Inv s) :
    (∀ r ∈ (run call cs s).1, Good r) ∧ Inv (run call cs s).2 := by
  induction cs generalizing s with
  | nil => exact ⟨by simp, hs⟩
  | cons c cs ih =>
    rw [List.forall_mem_cons] at h
    obtain ⟨hgood, hs'⟩ := h.1 s hs
    obtain ⟨hrest, hend⟩ := ih h.2 hs'
    rw [run_cons]
    exact ⟨List.forall_mem_cons.mpr ⟨hgood, hrest⟩, hend⟩

/-- What every call returns for its argument while the invariant holds, all calls of a run return. -/
theorem run_forall₂ (Inv : S → Prop) (Good : C → R → Prop)
    (h : ∀ c ∈ cs, ∀ s, Inv s → Good c (call c s).1 ∧ Inv (call c s).2) {s : S} (hs : Inv s) :
    List.Forall₂ Good cs (run call cs s).1 := by
  induction cs generalizing s with
  | nil => exact .nil
  | cons c cs ih =>
    rw [List.forall_mem_cons] at h
    obtain ⟨hgood, hs'⟩ := h.1 s hs
    exact .cons hgood (ih h.2 hs')

/-- Calls that leave the state as it is can be taken out of a run. -/
theorem run_filter (keep : C → Bool) (h : ∀ c ∈ cs, keep c = false → ∀ s, (call c s).2 = s) (s : S) :
    run call (cs.filter keep) s
      = (((cs.zip (run call cs s).1).filter fun p => keep p.1).map Prod.snd, (run call cs s).2) := by
  induction cs generalizing s with
  | nil => rfl
  | cons c cs ih =>
    rw [List.forall_mem_cons] at h
    cases hkeep : keep c with
    | true =>
      rw [List.filter_cons_of_pos hkeep, run_cons, ih h.2]
      simp [hkeep]
    | false =>
      rw [List.filter_cons_of_neg (by simp [hkeep]), ih h.2]
      simp [hkeep, h.1 hkeep s]

/-- Calls that return what is specified, by an invariant that may speak of the calls so far. -/
theorem run_eq_map_of_history (Inv : List C → S → Prop) (past : List C) {spec : C → R}
    (h : ∀ past' c future, past ++ cs = past' ++ c :: future → ∀ s, Inv past' s →
      (call c s).1 = spec c ∧ Inv (past' ++ [c]) (call c s).2) {s : S} (hs : Inv past s) :
    (run call cs s).1 = cs.map spec := by
  induction cs generalizing past s with
  | nil => rfl
  | cons c cs ih =>
    obtain ⟨hresult, hs'⟩ := h past c cs rfl s hs
    have hrest := ih (past ++ [c])
      (fun past' c' future heq => h past' c' future (by rw [← heq, List.append_assoc]; rfl)) hs'
    rw [run_cons, List.map_cons, hresult, hrest]

/-- Calls that return what is specified while the invariant holds do so throughout a run. -/
theorem run_eq_map (Inv : S → Prop) {spec : C → R}
    (h : ∀ c ∈ cs, ∀ s, Inv s → (call c s).1 = spec c ∧ Inv (call c s).2) {s : S} (hs : Inv s) :
    (run call cs s).1 = cs.map spec := by
  refine run_eq_map_of_history (fun _ => Inv) [] ?_ hs
  intro past' c future heq s hs
  exact h c (by rw [show cs = past' ++ c :: future from heq]; simp) s hs

/-- A loop over `0, …, n - 1`, by an invariant that may speak of the number of iterations. -/
theorem foldl_range {S : Type*} {f : S → ℕ → S} {n : ℕ} (Inv : ℕ → S → Prop)
    (h : ∀ i < n, ∀ s, Inv i s → Inv (i + 1) (f s i)) {s : S} (hs : Inv 0 s) :
    Inv n ((List.range n).foldl f s) := by
  induction n with
  | zero => exact hs
  | succ n ih =>
    rw [List.range_succ, List.foldl_append]
    exact h n n.lt_succ_self _ (ih fun i hi => h i (by omega))

/-- A loop over `0, …, n - 1` that may fail does not if each iteration does not. -/
theorem foldlM_range {m : Type → Type*} [Monad m] [LawfulMonad m] {S : Type} {f : S → ℕ → m S}
    {n : ℕ} (Inv : ℕ → S → Prop)
    (h : ∀ i < n, ∀ s, Inv i s → ∃ s', f s i = pure s' ∧ Inv (i + 1) s') {s : S} (hs : Inv 0 s) :
    ∃ s', (List.range n).foldlM f s = pure s' ∧ Inv n s' := by
  induction n with
  | zero => exact ⟨s, rfl, hs⟩
  | succ n ih =>
    obtain ⟨s', hrun, hinv⟩ := ih fun i hi => h i (by omega)
    obtain ⟨s'', hstep, hinv'⟩ := h n n.lt_succ_self s' hinv
    refine ⟨s'', ?_, hinv'⟩
    rw [List.range_succ, List.foldlM_append, hrun, pure_bind, List.foldlM_cons, hstep, pure_bind,
      List.foldlM_nil]

/-- A function that gives something for each element of a list. -/
theorem mapM_getElem? {β γ : Type*} {f : β → Option γ} {l : List β} (h : ∀ e ∈ l, ∃ t, f e = some t) :
    ∃ ts, l.mapM f = some ts ∧ ts.length = l.length
      ∧ ∀ (i : ℕ) e, l[i]? = some e → ∃ t, ts[i]? = some t ∧ f e = some t := by
  induction l with
  | nil => exact ⟨[], rfl, rfl, by simp⟩
  | cons e l ih =>
    rw [List.forall_mem_cons] at h
    obtain ⟨t, ht⟩ := h.1
    obtain ⟨ts, hts, hlength, hget⟩ := ih h.2
    refine ⟨t :: ts, by rw [List.mapM_cons, ht, hts]; rfl, by simp [hlength], fun i e' hi => ?_⟩
    rcases i with _ | i
    · rw [List.getElem?_cons_zero] at hi ⊢
      cases hi
      exact ⟨t, rfl, ht⟩
    · rw [List.getElem?_cons_succ] at hi ⊢
      exact hget i e' hi

end Runs
