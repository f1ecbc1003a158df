import Mathlib.Algebra.Order.Ring.Nat
import Mathlib.Data.List.Nodup
import Mathlib.Data.List.ProdSigma
import Mathlib.Data.Nat.Notation

/-! Buffers of a fixed size, and loops that write them.

    What is read or written outside of a buffer has no meaning. A loop that writes distinct
    positions, each by what was there, leaves the other positions as they were. -/

/-- Values one after the other. The address counts values. -/
structure Buffer (α : Type*) (n : ℕ) where
  address : ℕ
  data : Vector α n

namespace Buffer

variable {α : Type*} {n : ℕ}

def read (b : Buffer α n) (i : ℕ) : Option α := b.data[i]?

def write (b : Buffer α n) (i : ℕ) (a : α) : Option (Buffer α n) :=
  if h : i < n then some { b with data := b.data.set i a h } else none

/-- The values from a position on. -/
def row (b : Buffer α n) (start k : ℕ) : Option α := b.read (k + start)

/-- The position is a multiple of `k` values away from the address zero. -/
def Aligned (b : Buffer α n) (k i : ℕ) : Prop := k ∣ b.address + i

instance (b : Buffer α n) (k i : ℕ) : Decidable (b.Aligned k i) :=
  inferInstanceAs (Decidable (k ∣ _))

theorem aligned_mul {b : Buffer α n} {k m r : ℕ} (haddress : k ∣ b.address) (hm : k ∣ m) :
    b.Aligned k (r * m) := Nat.dvd_add haddress (Dvd.dvd.mul_left hm r)

variable {b b' : Buffer α n} {i : ℕ} {a : α}

theorem exists_read (b : Buffer α n) (h : i < n) : ∃ a, b.read i = some a :=
  ⟨b.data[i], Vector.getElem?_eq_getElem h⟩

theorem exists_write (b : Buffer α n) (h : i < n) (a : α) : ∃ b', b.write i a = some b' :=
  ⟨_, dif_pos h⟩

theorem write_inv (h : b.write i a = some b') :
    b'.address = b.address ∧ b'.read i = some a ∧ ∀ j, j ≠ i → b'.read j = b.read j := by
  rw [write] at h
  split_ifs at h with hi
  cases h
  exact ⟨rfl, Vector.getElem?_set_self hi, fun j hj => Vector.getElem?_set_ne hi hj.symm⟩

/-! ### Loops -/

/-- A loop over `0, …, n - 1` succeeds if each iteration does, by an invariant that may speak of the
    number of iterations. -/
theorem foldlM_range {S : Type*} {f : S → ℕ → Option S} {n : ℕ} (Inv : ℕ → S → Prop)
    (h : ∀ i < n, ∀ s, Inv i s → ∃ s', f s i = some s' ∧ Inv (i + 1) s') {s : S} (hs : Inv 0 s) :
    ∃ s', (List.range n).foldlM f s = some s' ∧ Inv n s' := by
  induction n with
  | zero => exact ⟨s, rfl, hs⟩
  | succ n ih =>
    obtain ⟨s', hrun, hinv⟩ := ih fun i hi => h i (by omega)
    obtain ⟨s'', hstep, hinv'⟩ := h n n.lt_succ_self s' hinv
    refine ⟨s'', ?_, hinv'⟩
    rw [List.range_succ, List.foldlM_append, hrun]
    simpa using hstep

/-- Loops that do the same in each iteration do the same. -/
theorem foldlM_congr {ι S : Type*} {f g : S → ι → Option S} {ps : List ι}
    (h : ∀ p ∈ ps, ∀ s, f s p = g s p) (s : S) : ps.foldlM f s = ps.foldlM g s := by
  induction ps generalizing s with
  | nil => rfl
  | cons p ps ih =>
    rw [List.forall_mem_cons] at h
    simp only [List.foldlM_cons, h.1, ih h.2]

/-- A loop in a loop is a loop over the pairs. -/
theorem foldlM_product {ι κ S : Type*} (f : S → ι → κ → Option S) (ps : List ι) (qs : List κ)
    (s : S) :
    ps.foldlM (fun s p => qs.foldlM (fun s q => f s p q) s) s
      = (ps ×ˢ qs).foldlM (fun s e => f s e.1 e.2) s := by
  induction ps generalizing s with
  | nil => rfl
  | cons p ps ih =>
    simp only [List.foldlM_cons, List.product_cons, List.foldlM_append, List.foldlM_map, ih]

variable {ι : Type*} {idx : ι → ℕ} {val : ι → α → α} {ps : List ι}

/-- The positions of the indices hold what was written there, by what had been there. -/
structure Updated (ps : List ι) (idx : ι → ℕ) (val : ι → α → α) (b b' : Buffer α n) : Prop where
  address : b'.address = b.address
  written : ∀ p ∈ ps, b'.read (idx p) = (b.read (idx p)).map (val p)
  frame : ∀ i, (∀ p ∈ ps, idx p ≠ i) → b'.read i = b.read i

theorem Updated.nil : Updated [] idx val b b where
  address := rfl
  written := by simp
  frame _ _ := rfl

theorem Updated.cons {b'' : Buffer α n} {p : ι} {a : α} (hp : ∀ q ∈ ps, idx p ≠ idx q)
    (hread : b.read (idx p) = some a) (hwrite : b.write (idx p) (val p a) = some b')
    (h : Updated ps idx val b' b'') : Updated (p :: ps) idx val b b'' := by
  obtain ⟨haddress, hself, hother⟩ := write_inv hwrite
  refine ⟨h.address.trans haddress, ?_, ?_⟩
  · rw [List.forall_mem_cons]
    constructor
    · rw [h.frame (idx p) fun q hq => (hp q hq).symm, hself, hread, Option.map_some]
    · intro q hq
      rw [h.written q hq, hother _ (hp q hq).symm]
  · intro i hi
    rw [List.forall_mem_cons] at hi
    rw [h.frame i hi.2, hother i hi.1.symm]

/-- A loop whose iterations write one position each, all of them different, from what is there. -/
theorem foldlM_update {step : Buffer α n → ι → Option (Buffer α n)}
    (hstep : ∀ p ∈ ps, ∀ b a, b.read (idx p) = some a → step b p = b.write (idx p) (val p a))
    (hidx : ps.Pairwise fun p q => idx p ≠ idx q) (hlt : ∀ p ∈ ps, idx p < n) (b : Buffer α n) :
    ∃ b', ps.foldlM step b = some b' ∧ Updated ps idx val b b' := by
  induction ps generalizing b with
  | nil => exact ⟨b, rfl, .nil⟩
  | cons p ps ih =>
    rw [List.forall_mem_cons] at hstep hlt
    rw [List.pairwise_cons] at hidx
    obtain ⟨a, hread⟩ := b.exists_read hlt.1
    obtain ⟨b₁, hwrite⟩ := b.exists_write hlt.1 (val p a)
    obtain ⟨b', hrun, hupdated⟩ := ih hstep.2 hidx.2 hlt.2 b₁
    refine ⟨b', ?_, .cons hidx.1 hread hwrite hupdated⟩
    rw [List.foldlM_cons, hstep.1 b a hread, hwrite]
    exact hrun

theorem mem_rectangle {m n i j : ℕ} : (i, j) ∈ List.range m ×ˢ List.range n ↔ i < m ∧ j < n :=
  List.pair_mem_product.trans (and_congr List.mem_range List.mem_range)

/-- A loop in a loop whose iterations write one position each, all of them different. -/
theorem foldlM_update_rectangle {m k : ℕ} {step : Buffer α n → ℕ → ℕ → Option (Buffer α n)}
    {idx : ℕ × ℕ → ℕ} {val : ℕ × ℕ → α → α}
    (hstep : ∀ i < m, ∀ j < k, ∀ b a, b.read (idx (i, j)) = some a →
      step b i j = b.write (idx (i, j)) (val (i, j) a))
    (hidx : ∀ i < m, ∀ j < k, ∀ i' < m, ∀ j' < k, idx (i, j) = idx (i', j') → i = i' ∧ j = j')
    (hlt : ∀ i < m, ∀ j < k, idx (i, j) < n) (b : Buffer α n) :
    ∃ b', (List.range m).foldlM (fun b i => (List.range k).foldlM (fun b j => step b i j) b) b
        = some b'
      ∧ Updated (List.range m ×ˢ List.range k) idx val b b' := by
  rw [foldlM_product]
  refine foldlM_update ?_ ?_ ?_ b
  · rintro ⟨i, j⟩ hp b a hread
    obtain ⟨hi, hj⟩ := mem_rectangle.mp hp
    exact hstep i hi j hj b a hread
  · refine List.Pairwise.imp_of_mem ?_ (List.Nodup.product List.nodup_range List.nodup_range)
    rintro ⟨i, j⟩ ⟨i', j'⟩ hp hq hne heq
    obtain ⟨hi, hj⟩ := mem_rectangle.mp hp
    obtain ⟨hi', hj'⟩ := mem_rectangle.mp hq
    obtain ⟨rfl, rfl⟩ := hidx i hi j hj i' hi' j' hj' heq
    exact hne rfl
  · rintro ⟨i, j⟩ hp
    obtain ⟨hi, hj⟩ := mem_rectangle.mp hp
    exact hlt i hi j hj

end Buffer
