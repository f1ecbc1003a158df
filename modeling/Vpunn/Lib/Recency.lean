import Mathlib.Data.List.Nodup

/-! Least-recently-used stores.

    A history lists operations with the most recent one first. An `add` or a successful `get` uses
    its key. A store of size `n` holds the `n` keys used most recently, each with the value of the
    `add` that brought it in, and can be kept as one list in order of use. Keys that `shadow` names
    are answered elsewhere and leave the store alone. -/

namespace Recency

variable {K V : Type*} [DecidableEq K]

/-! ### The most recently used keys -/

/-- The elements of a list without repetition, in the order of their first occurrence. -/
def distinct : List K → List K
  | [] => []
  | k :: ks => k :: (distinct ks).filter (· ≠ k)

/-- The `n` keys used most recently. -/
def recent (n : ℕ) (ks : List K) : List K := (distinct ks).take n

theorem nodup_distinct (ks : List K) : (distinct ks).Nodup := by
  induction ks with
  | nil => exact List.nodup_nil
  | cons a ks ih => exact List.nodup_cons.mpr ⟨by simp, ih.filter _⟩

theorem nodup_recent (n : ℕ) (ks : List K) : (recent n ks).Nodup :=
  (nodup_distinct ks).sublist (List.take_sublist _ _)

/-- Filtering out a key behind the first `n` elements does not change them. -/
theorem take_filter_of_not_mem {k : K} {l : List K} {m : ℕ} (h : k ∉ l.take m) :
    (l.filter (· ≠ k)).take m = l.take m := by
  induction l generalizing m with
  | nil => simp
  | cons a l ih =>
    cases m with
    | zero => simp
    | succ m =>
      simp only [List.take_succ_cons, List.mem_cons, not_or] at h
      rw [List.filter_cons_of_pos (by simpa using Ne.symm h.1), List.take_succ_cons,
        List.take_succ_cons, ih h.2]

/-- Filtering out a key among the first `m + 1` elements leaves `m` of them. -/
theorem take_filter_of_mem {k : K} {l : List K} (hl : l.Nodup) {m : ℕ} (h : k ∈ l.take (m + 1)) :
    (l.filter (· ≠ k)).take m = (l.take (m + 1)).filter (· ≠ k) := by
  induction l generalizing m with
  | nil => simp
  | cons a l ih =>
    obtain ⟨ha, hl⟩ := List.nodup_cons.mp hl
    rw [List.take_succ_cons, List.mem_cons] at h
    by_cases hak : k = a
    · subst hak
      have hnot : ∀ m, k ∉ l.take m := fun m hm => ha (List.mem_of_mem_take hm)
      simp only [List.take_succ_cons]
      rw [List.filter_cons_of_neg (by simp), List.filter_cons_of_neg (by simp),
        take_filter_of_not_mem (hnot m), List.filter_eq_self.mpr]
      intro x hx
      simpa using ne_of_mem_of_not_mem hx (hnot m)
    · have hmem := h.resolve_left hak
      cases m with
      | zero => simp at hmem
      | succ m =>
        rw [List.filter_cons_of_pos (by simpa using Ne.symm hak), List.take_succ_cons,
          List.take_succ_cons, List.filter_cons_of_pos (by simpa using Ne.symm hak), ih hl hmem]

/-- Using a key that is held moves it to the front. -/
theorem recent_cons_of_mem {n : ℕ} {k : K} {ks : List K} (h : k ∈ recent n ks) :
    recent n (k :: ks) = k :: (recent n ks).filter (· ≠ k) := by
  cases n with
  | zero => simp [recent] at h
  | succ m =>
    simp only [recent, distinct, List.take_succ_cons]
    rw [take_filter_of_mem (nodup_distinct ks) h]

/-- Using a key that is not held pushes the last one out. -/
theorem recent_cons_of_not_mem {n : ℕ} {k : K} {ks : List K} (h : k ∉ recent n ks) :
    recent n (k :: ks) = (k :: recent n ks).take n := by
  cases n with
  | zero => simp [recent]
  | succ m =>
    simp only [recent, distinct, List.take_succ_cons, List.take_take]
    rw [take_filter_of_not_mem fun hm => h ?_, Nat.min_eq_left (Nat.le_succ m)]
    exact (List.take_subset_take_left _ (Nat.le_succ m)) hm

/-! ### Histories -/

/-- The operations on a store. -/
inductive Op (K V : Type*) where
  | add (k : K) (v : V)
  | get (k : K)

variable (n : ℕ) (shadow : K → Bool)

/-- The keys that a history uses, the most recent one first. -/
def uses : List (Op K V) → List K
  | [] => []
  | .add k _ :: h => if shadow k then uses h else k :: uses h
  | .get k :: h => if shadow k = false ∧ k ∈ recent n (uses h) then k :: uses h else uses h

/-- The value of the `add` that last brought a key in. -/
def insertedBy : List (Op K V) → K → Option V
  | [], _ => none
  | .add k v :: h, k' =>
    if k = k' ∧ shadow k = false ∧ k ∉ recent n (uses n shadow h) then some v
    else insertedBy h k'
  | .get _ :: h, k' => insertedBy h k'

/-- What a store of size `n` holds after a history, in order of use. -/
structure Content (h : List (Op K V)) (es : List (K × V)) : Prop where
  keys : es.map Prod.fst = recent n (uses n shadow h)
  values : ∀ p ∈ es, insertedBy n shadow h p.1 = some p.2

/-! ### The store as a list -/

def lookup (k : K) (es : List (K × V)) : Option V := (es.find? (·.1 = k)).map Prod.snd

/-- Moves a key to the front. -/
def touch (k : K) (es : List (K × V)) : List (K × V) :=
  es.filter (·.1 = k) ++ es.filter (·.1 ≠ k)

/-- Brings a key in, or moves it to the front with the value it has. -/
def insert (k : K) (v : V) (es : List (K × V)) : List (K × V) :=
  if k ∈ es.map Prod.fst then touch k es else ((k, v) :: es).take n

def step (op : Op K V) (es : List (K × V)) : List (K × V) :=
  match op with
  | .add k v => if shadow k then es else insert n k v es
  | .get k => if shadow k then es else touch k es

theorem mem_touch {k : K} {es : List (K × V)} {p : K × V} : p ∈ touch k es ↔ p ∈ es := by
  simp only [touch, List.mem_append, List.mem_filter, decide_eq_true_eq]
  tauto

theorem touch_of_not_mem {k : K} {es : List (K × V)} (h : k ∉ es.map Prod.fst) :
    touch k es = es := by
  have hne : ∀ p ∈ es, p.1 ≠ k := fun p hp heq => h (heq ▸ List.mem_map_of_mem hp)
  rw [touch, List.filter_eq_nil_iff.mpr (by simpa using hne),
    List.filter_eq_self.mpr (by simpa using hne), List.nil_append]

theorem fst_touch_of_mem {k : K} {es : List (K × V)} (hes : (es.map Prod.fst).Nodup)
    (h : k ∈ es.map Prod.fst) :
    (touch k es).map Prod.fst = k :: (es.map Prod.fst).filter (· ≠ k) := by
  have hfirst : (es.map Prod.fst).filter (· = k) = [k] := by
    rw [List.filter_eq, List.count_eq_one_of_mem hes h, List.replicate_one]
  rw [touch, List.map_append, ← List.singleton_append, ← hfirst, List.filter_map, List.filter_map]
  rfl

theorem lookup_eq_some_iff {k : K} {v : V} {es : List (K × V)} (hes : (es.map Prod.fst).Nodup) :
    lookup k es = some v ↔ (k, v) ∈ es := by
  induction es with
  | nil => simp [lookup]
  | cons p es ih =>
    obtain ⟨hp, hes⟩ := List.nodup_cons.mp hes
    by_cases hk : p.1 = k
    · obtain ⟨a, b⟩ := p
      obtain rfl : a = k := hk
      have hnot : (a, v) ∉ es := fun hm => hp (List.mem_map.mpr ⟨_, hm, rfl⟩)
      simp [lookup, hnot, eq_comm]
    · have hne : (k, v) ≠ p := fun heq => hk (by rw [← heq])
      simpa [lookup, hk, hne] using ih hes

theorem lookup_eq_none_iff {k : K} {es : List (K × V)} :
    lookup k es = none ↔ k ∉ es.map Prod.fst := by
  simp only [lookup, Option.map_eq_none_iff, List.find?_eq_none, decide_eq_true_eq, List.mem_map,
    not_exists, not_and]

/-! ### The list holds what the history says -/

variable {n shadow} {h : List (Op K V)} {es : List (K × V)}

theorem Content.nodup (hc : Content n shadow h es) : (es.map Prod.fst).Nodup := by
  rw [hc.keys]; exact nodup_recent _ _

theorem Content.nil : Content n shadow ([] : List (Op K V)) [] where
  keys := by simp [uses, recent, distinct]
  values := by simp

/-- Looking a key up finds the value of the `add` that brought it in, if it is held. -/
theorem Content.lookup_eq (hc : Content n shadow h es) (k : K) : lookup k es
    = if k ∈ recent n (uses n shadow h) then insertedBy n shadow h k else none := by
  rw [← hc.keys]
  split
  · next hmem =>
    obtain ⟨p, hp, rfl⟩ := List.mem_map.mp hmem
    rw [hc.values p hp]
    exact (lookup_eq_some_iff hc.nodup).mpr hp
  · next hmem => exact lookup_eq_none_iff.mpr hmem

/-- Moving a held key to the front is what one more use of it asks for. -/
theorem Content.touch (hc : Content n shadow h es) {k : K} (hk : k ∈ recent n (uses n shadow h)) :
    (touch k es).map Prod.fst = recent n (k :: uses n shadow h) := by
  rw [fst_touch_of_mem hc.nodup (hc.keys ▸ hk), recent_cons_of_mem hk, hc.keys]

/-- One operation keeps the list in step with the history. -/
theorem Content.step (hc : Content n shadow h es) (op : Op K V) :
    Content n shadow (op :: h) (step n shadow op es) := by
  cases op with
  | add k v =>
    cases hs : shadow k with
    | true =>
      simp only [Recency.step, hs, if_true]
      exact ⟨by simpa [uses, hs] using hc.keys, fun p hp => by
        simpa [insertedBy, hs] using hc.values p hp⟩
    | false =>
      simp only [Recency.step, hs, Bool.false_eq_true, if_false, insert, hc.keys]
      by_cases hk : k ∈ recent n (uses n shadow h)
      · rw [if_pos hk]
        refine ⟨by simpa [uses, hs] using hc.touch hk, fun p hp => ?_⟩
        rw [insertedBy, if_neg (fun hcond => hcond.2.2 hk)]
        exact hc.values p (mem_touch.mp hp)
      · rw [if_neg hk]
        refine ⟨?_, fun p hp => ?_⟩
        · rw [List.map_take, List.map_cons, hc.keys]
          simpa [uses, hs] using (recent_cons_of_not_mem hk).symm
        · rcases List.mem_cons.mp (List.mem_of_mem_take hp) with rfl | hold
          · rw [insertedBy, if_pos ⟨rfl, hs, hk⟩]
          · have hne : k ≠ p.1 := by
              rintro rfl
              exact hk (hc.keys ▸ List.mem_map_of_mem hold)
            rw [insertedBy, if_neg (fun hcond => hne hcond.1)]
            exact hc.values p hold
  | get k =>
    cases hs : shadow k with
    | true =>
      simp only [Recency.step, hs, if_true]
      exact ⟨by simpa [uses, hs] using hc.keys, hc.values⟩
    | false =>
      simp only [Recency.step, hs, Bool.false_eq_true, if_false]
      by_cases hk : k ∈ recent n (uses n shadow h)
      · exact ⟨by simpa [uses, hs, hk] using hc.touch hk,
          fun p hp => hc.values p (mem_touch.mp hp)⟩
      · rw [touch_of_not_mem (hc.keys ▸ hk)]
        exact ⟨by simpa [uses, hs, hk] using hc.keys, hc.values⟩

/-! ### Membership -/

theorem mem_fst_touch {k k' : K} {es : List (K × V)} :
    k ∈ (touch k' es).map Prod.fst ↔ k ∈ es.map Prod.fst := by
  simp only [List.mem_map, mem_touch]

/-- An addition brings in its own key and value at most, and only a key that was not held. -/
theorem mem_step_add {k : K} {v : V} {es : List (K × V)} {p : K × V}
    (h : p ∈ step n shadow (.add k v) es) :
    p ∈ es ∨ p = (k, v) ∧ shadow k = false ∧ k ∉ es.map Prod.fst ∧ n ≠ 0 := by
  rw [step] at h
  split_ifs at h with hshadow
  · exact .inl h
  · rw [insert] at h
    split_ifs at h with hmem
    · exact .inl (mem_touch.mp h)
    · rcases List.mem_cons.mp (List.mem_of_mem_take h) with rfl | hp
      · refine .inr ⟨rfl, by simpa using hshadow, hmem, ?_⟩
        rintro rfl
        simp at h
      · exact .inl hp

/-- After an addition the key is held, unless another table has it or there is no place. -/
theorem mem_fst_step_add (k : K) (v : V) (es : List (K × V)) :
    n = 0 ∨ shadow k = true ∨ k ∈ (step n shadow (.add k v) es).map Prod.fst := by
  rcases Nat.eq_zero_or_eq_succ_pred n with hzero | hsucc
  · exact .inl hzero
  · by_cases hshadow : shadow k = true
    · exact .inr (.inl hshadow)
    · refine .inr (.inr ?_)
      rw [step, if_neg hshadow, insert]
      split_ifs with hmem
      · exact mem_fst_touch.mpr hmem
      · rw [hsucc]
        exact List.mem_cons_self

theorem mem_step_get {k : K} {es : List (K × V)} {p : K × V} :
    p ∈ step n shadow (.get k) es ↔ p ∈ es := by
  rw [step]
  split_ifs
  · rfl
  · exact mem_touch

end Recency
