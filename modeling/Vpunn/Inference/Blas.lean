import Mathlib.Data.Matrix.Mul
import Mathlib.Data.Fin.VecNotation
import Mathlib.Algebra.BigOperators.Fin
import Mathlib.Tactic.Abel
import Mathlib.Tactic.Ring
import Vpunn.Lib.Buffer

/-! The matrix product of the network (`blas.cpp`).

    The loops only add and multiply. On numbers that add in any order the vector instructions give
    what the plain loop does, and a product is a product of matrices. On machine numbers they differ,
    and the address of a row decides which of the two is run. -/

namespace Vpunn

inductive CblasLayout where
  | rowMajor
  | colMajor
  deriving DecidableEq, Repr

inductive CblasTranspose where
  | noTrans
  | trans
  | conjTrans
  deriving DecidableEq, Repr

namespace Blas

variable {α : Type}

section Dot

variable [Zero α] [Add α] [Mul α]

/-- `result += x[k] * y[k]` for each `k` below `n`. -/
def accumulate (x y : ℕ → Option α) (n : ℕ) (result : α) : Option α :=
  (List.range n).foldlM (fun result k => do return result + (← x k) * (← y k)) result

/-- The `k`-th four values. -/
def load (x : ℕ → Option α) (k : ℕ) : Option (Fin 4 → α) := do
  return ![← x (4 * k), ← x (4 * k + 1), ← x (4 * k + 2), ← x (4 * k + 3)]

/-- The products of two fours, added. -/
def mulAdd (x y : ℕ → Option α) (k : ℕ) : Option (Fin 4 → α) := do
  return (← load x k) * (← load y k) + (← load x (k + 1)) * (← load y (k + 1))

/-- The loop of `dot` that takes 32 values at a time. -/
def dotVector (x y : ℕ → Option α) (nSimdLoops : ℕ) : Option (Fin 4 → α) :=
  (List.range nSimdLoops).foldlM (fun res idx => do
    let base := 8 * idx
    let v1 ← mulAdd x y base
    let v2 ← mulAdd x y (base + 2)
    let v3 ← mulAdd x y (base + 4)
    let v4 ← mulAdd x y (base + 6)
    return res + (v1 + v2 + (v3 + v4))) 0

/-- The vector instructions, and the scalar loop for what is left over. -/
def dotSimd (x y : ℕ → Option α) (n : ℕ) : Option α := do
  let nSimdLoops := n / 32
  let res ← dotVector x y nSimdLoops
  accumulate (fun k => x (k + nSimdLoops * 32)) (fun k => y (k + nSimdLoops * 32)) (n % 32)
    (res 0 + res 1 + (res 2 + res 3))

/-- The vector instructions, where they are compiled in, need both rows to be aligned. The positions
    `k + offset` are of type `int`. -/
def dot {a b : ℕ} (A : Buffer α a) (B : Buffer α b) (simd : Bool) (n offsetA offsetB : ℕ) :
    Option α :=
  if simd = true ∧ A.Aligned 4 offsetA ∧ B.Aligned 4 offsetB then
    dotSimd (A.row offsetA) (B.row offsetB) n
  else accumulate (A.row offsetA) (B.row offsetB) n 0

end Dot

section Sgemm

variable [Zero α] [One α] [Add α] [Mul α] [DecidableEq α] {a b c : ℕ}

/-- The value of an `int` expression, which has none if it overflows. -/
def intValue (n : ℕ) : Option ℕ := if n < 2147483648 then some n else none

/-- `cblas_sgemm_rm_ntt_10` -/
def cblasSgemmRmNtt10 (simd : Bool) (M N K : ℕ) (A : Buffer α a) (lda : ℕ) (B : Buffer α b)
    (ldb : ℕ) (C : Buffer α c) (ldc : ℕ) : Option (Buffer α c) :=
  (List.range N).foldlM (fun C i => do
    let bIdx ← intValue (i * ldb)
    (List.range M).foldlM (fun C j => do
      let aIdx ← intValue (j * lda)
      C.write (← intValue (i + j * ldc)) (← dot A B simd K aIdx bIdx)) C) C

/-- Where the naive implementation finds an element of an operand, in `long int`. -/
def naiveIndex (t : CblasTranspose) (ld row col : ℕ) : ℕ :=
  if t = .noTrans then row + col * ld else row * ld + col

/-- The naive implementation, after the operands have been swapped for row major. -/
def sgemmNaive (transA transB : CblasTranspose) (M N K : ℕ) (alpha : α) (A : Buffer α a) (lda : ℕ)
    (B : Buffer α b) (ldb : ℕ) (beta : α) (C : Buffer α c) (ldc : ℕ) : Option (Buffer α c) :=
  (List.range M).foldlM (fun C i =>
    (List.range N).foldlM (fun C j => do
      let result ← accumulate (fun k => A.read (naiveIndex transA lda i k))
        (fun k => B.read (naiveIndex transB ldb k j)) K 0
      C.write (i + j * ldc) ((← C.read (i + j * ldc)) * beta + alpha * result)) C) C

def cblasSgemm (simd : Bool) (layout : CblasLayout) (transA transB : CblasTranspose) (M N K : ℕ)
    (alpha : α) (A : Buffer α a) (lda : ℕ) (B : Buffer α b) (ldb : ℕ) (beta : α) (C : Buffer α c)
    (ldc : ℕ) : Option (Buffer α c) :=
  if layout = .rowMajor ∧ transA = .noTrans ∧ transB = .trans ∧ alpha = 1 ∧ beta = 0 then
    cblasSgemmRmNtt10 simd M N K A lda B ldb C ldc
  else
    match layout with
    | .rowMajor => sgemmNaive transB transA N M K alpha B ldb A lda beta C ldc
    | .colMajor => sgemmNaive transA transB M N K alpha A lda B ldb beta C ldc

end Sgemm

/-! ### What the loops read -/

section Reads

/-- The first `n` values are there. -/
def Defined (x : ℕ → Option α) (n : ℕ) : Prop := ∀ k < n, ∃ u, x k = some u

/-- The first `n` values are the same. -/
def Agree (x x' : ℕ → Option α) (n : ℕ) : Prop := ∀ k < n, x k = x' k

variable {x y x' y' : ℕ → Option α} {n : ℕ}

theorem Agree.shift {m d : ℕ} (h : Agree x x' n) (hm : m + d ≤ n) :
    Agree (fun k => x (k + d)) (fun k => x' (k + d)) m :=
  fun k hk => h (k + d) (by omega)

theorem Defined.agree [Zero α] (h : Defined x n) : ∃ u : ℕ → α, Agree x (fun k => some (u k)) n := by
  refine ⟨fun k => (x k).getD 0, fun k hk => ?_⟩
  obtain ⟨u, hu⟩ := h k hk
  simp only [hu, Option.getD_some]

theorem defined_row {s start : ℕ} (b : Buffer α s) (h : start + n ≤ s) : Defined (b.row start) n :=
  fun k hk => b.exists_read (i := k + start) (by omega)

/-- The last element of a row is in the last row at most. -/
theorem row_le {r m k : ℕ} (h : r < m) : r * k + k ≤ m * k :=
  (Nat.succ_mul r k).symm.trans_le (Nat.mul_le_mul_right k h)

theorem load_congr {k : ℕ} (h : Agree x x' n) (hk : 4 * k + 4 ≤ n) : load x k = load x' k := by
  simp only [load, h (4 * k) (by omega), h (4 * k + 1) (by omega), h (4 * k + 2) (by omega),
    h (4 * k + 3) (by omega)]

variable [Add α] [Mul α]

theorem accumulate_congr (hx : Agree x x' n) (hy : Agree y y' n) (result : α) :
    accumulate x y n result = accumulate x' y' n result :=
  Buffer.foldlM_congr (fun k hk s => by
    rw [List.mem_range] at hk
    rw [hx k hk, hy k hk]) result

theorem mulAdd_congr {k : ℕ} (hx : Agree x x' n) (hy : Agree y y' n) (hk : 4 * k + 8 ≤ n) :
    mulAdd x y k = mulAdd x' y' k := by
  simp only [mulAdd, load_congr hx (show 4 * k + 4 ≤ n by omega),
    load_congr hy (show 4 * k + 4 ≤ n by omega), load_congr hx (show 4 * (k + 1) + 4 ≤ n by omega),
    load_congr hy (show 4 * (k + 1) + 4 ≤ n by omega)]

variable [Zero α]

theorem dotVector_congr {nSimdLoops : ℕ} (hx : Agree x x' n) (hy : Agree y y' n)
    (hn : nSimdLoops * 32 ≤ n) : dotVector x y nSimdLoops = dotVector x' y' nSimdLoops := by
  refine Buffer.foldlM_congr (fun idx hidx res => ?_) _
  rw [List.mem_range] at hidx
  simp only [mulAdd_congr hx hy (show 4 * (8 * idx) + 8 ≤ n by omega),
    mulAdd_congr hx hy (show 4 * (8 * idx + 2) + 8 ≤ n by omega),
    mulAdd_congr hx hy (show 4 * (8 * idx + 4) + 8 ≤ n by omega),
    mulAdd_congr hx hy (show 4 * (8 * idx + 6) + 8 ≤ n by omega)]

theorem dotSimd_congr (hx : Agree x x' n) (hy : Agree y y' n) : dotSimd x y n = dotSimd x' y' n := by
  simp only [dotSimd, dotVector_congr hx hy (Nat.div_mul_le_self n 32)]
  have hrest : n % 32 + n / 32 * 32 ≤ n := by omega
  congr
  funext res
  exact accumulate_congr (hx.shift hrest) (hy.shift hrest) _

variable {a b a' b' : ℕ} {A : Buffer α a} {B : Buffer α b} {A' : Buffer α a'} {B' : Buffer α b'}
  {offsetA offsetB offsetA' offsetB' : ℕ}

/-- Rows with the same values and the same alignment have the same dot product. -/
theorem dot_congr {simd : Bool} (hx : Agree (A.row offsetA) (A'.row offsetA') n)
    (hy : Agree (B.row offsetB) (B'.row offsetB') n)
    (hA : A.Aligned 4 offsetA ↔ A'.Aligned 4 offsetA')
    (hB : B.Aligned 4 offsetB ↔ B'.Aligned 4 offsetB') :
    dot A B simd n offsetA offsetB = dot A' B' simd n offsetA' offsetB' := by
  simp only [dot, hA, hB, dotSimd_congr hx hy, accumulate_congr hx hy]

theorem exists_accumulate (hx : Defined x n) (hy : Defined y n) (result : α) :
    ∃ r, accumulate x y n result = some r := by
  obtain ⟨u, hu⟩ := hx.agree
  obtain ⟨v, hv⟩ := hy.agree
  rw [accumulate_congr hu hv]
  exact ⟨_, List.foldlM_pure⟩

theorem exists_dotVector (u v : ℕ → α) (nSimdLoops : ℕ) :
    ∃ w, dotVector (fun k => some (u k)) (fun k => some (v k)) nSimdLoops = some w :=
  ⟨_, List.foldlM_pure⟩

theorem exists_dot (simd : Bool) (hx : Defined (A.row offsetA) n)
    (hy : Defined (B.row offsetB) n) :
    ∃ r, dot A B simd n offsetA offsetB = some r := by
  rw [dot]
  split_ifs
  · obtain ⟨u, hu⟩ := hx.agree
    obtain ⟨v, hv⟩ := hy.agree
    obtain ⟨w, hw⟩ := exists_dotVector u v (n / 32)
    rw [dotSimd_congr hu hv]
    simp only [dotSimd, hw]
    exact ⟨_, List.foldlM_pure⟩
  · exact exists_accumulate hx hy 0

end Reads

/-! ### Numbers that add in any order -/

section Exact

variable [AddCommMonoid α]

/-- The four sums of a vector, added as `_mm_hadd_ps` does twice. -/
def hsum (w : Fin 4 → α) : α := w 0 + w 1 + (w 2 + w 3)

theorem hsum_add (w z : Fin 4 → α) : hsum (w + z) = hsum w + hsum z := by
  simp only [hsum, Pi.add_apply]
  abel

variable [Mul α] (u v : ℕ → α)

theorem accumulate_eq_sum (n : ℕ) (result : α) :
    accumulate (fun k => some (u k)) (fun k => some (v k)) n result
      = some (result + ∑ k ∈ Finset.range n, u k * v k) := by
  induction n with
  | zero => simp [accumulate]
  | succ n ih =>
    rw [accumulate] at ih ⊢
    rw [List.range_succ, List.foldlM_append, ih, Finset.sum_range_succ, ← add_assoc]
    rfl

theorem mulAdd_eq_sum (k : ℕ) : ∃ w, mulAdd (fun k => some (u k)) (fun k => some (v k)) k = some w
    ∧ hsum w = ∑ i ∈ Finset.range 8, u (4 * k + i) * v (4 * k + i) := by
  refine ⟨_, rfl, ?_⟩
  have h4 : 4 * (k + 1) = 4 * k + 4 := by ring
  rw [hsum_add, h4]
  simp only [hsum, Pi.mul_apply, Matrix.cons_val, Finset.sum_range_succ, Finset.sum_range_zero]
  simp only [add_assoc, Nat.reduceAdd, add_zero, zero_add]

theorem dotVector_eq_sum (n : ℕ) :
    ∃ w, dotVector (fun k => some (u k)) (fun k => some (v k)) n = some w
      ∧ hsum w = ∑ k ∈ Finset.range (n * 32), u k * v k := by
  refine Buffer.foldlM_range (fun idx res => hsum res = ∑ k ∈ Finset.range (idx * 32), u k * v k)
    (fun idx _ res hres => ?_) (by simp [hsum])
  obtain ⟨w1, h1, hsum1⟩ := mulAdd_eq_sum u v (8 * idx)
  obtain ⟨w2, h2, hsum2⟩ := mulAdd_eq_sum u v (8 * idx + 2)
  obtain ⟨w3, h3, hsum3⟩ := mulAdd_eq_sum u v (8 * idx + 4)
  obtain ⟨w4, h4, hsum4⟩ := mulAdd_eq_sum u v (8 * idx + 6)
  refine ⟨res + (w1 + w2 + (w3 + w4)), by simp only [h1, h2, h3, h4]; rfl, ?_⟩
  have hsplit : (idx + 1) * 32 = idx * 32 + 8 + 8 + 8 + 8 := by ring
  rw [hsplit, Finset.sum_range_add, Finset.sum_range_add, Finset.sum_range_add,
    Finset.sum_range_add]
  have h1 : 4 * (8 * idx) = idx * 32 := by ring
  have h2 : 4 * (8 * idx + 2) = idx * 32 + 8 := by ring
  have h3 : 4 * (8 * idx + 4) = idx * 32 + 8 + 8 := by ring
  have h4 : 4 * (8 * idx + 6) = idx * 32 + 8 + 8 + 8 := by ring
  simp only [hsum_add, hres, hsum1, hsum2, hsum3, hsum4, h1, h2, h3, h4, add_assoc]

theorem dotSimd_eq_sum (n : ℕ) :
    dotSimd (fun k => some (u k)) (fun k => some (v k)) n
      = some (∑ k ∈ Finset.range n, u k * v k) := by
  obtain ⟨w, hw, hsum_w⟩ := dotVector_eq_sum u v (n / 32)
  have hrest := accumulate_eq_sum (fun k => u (k + n / 32 * 32)) (fun k => v (k + n / 32 * 32))
    (n % 32) (hsum w)
  simp only [dotSimd, hw]
  refine hrest.trans (congrArg some ?_)
  have hn : n = n / 32 * 32 + n % 32 := by omega
  conv_rhs => rw [hn, Finset.sum_range_add]
  rw [hsum_w]
  simp only [add_comm]

end Exact

/-! ### The product -/

section Loops

theorem position_inj {ld i j i' j' : ℕ} (hi : i < ld) (hi' : i' < ld)
    (h : i + j * ld = i' + j' * ld) : i = i' ∧ j = j' := by
  have hmod := congrArg (· % ld) h
  simp only [Nat.add_mul_mod_self_right, Nat.mod_eq_of_lt hi, Nat.mod_eq_of_lt hi'] at hmod
  subst hmod
  exact ⟨rfl, Nat.eq_of_mul_eq_mul_right (Nat.zero_lt_of_lt hi) (Nat.add_left_cancel h)⟩

/-- The rows of the factors and the places of the product are in the range of `int`. -/
structure IntIndices (M N K lda ldb ldc : ℕ) : Prop where
  a : ∀ j < M, j * lda + K < 2147483648
  b : ∀ i < N, i * ldb + K < 2147483648
  c : ∀ i < N, ∀ j < M, i + j * ldc < 2147483648

variable [Zero α] [Add α] [Mul α] {a b c M N K lda ldb ldc : ℕ} {A : Buffer α a} {B : Buffer α b}
  (C : Buffer α c) (hlt : ∀ i < M, ∀ j < N, i + j * ldc < c) (hldc : M ≤ ldc)

/-- In the range of `int` the indices are the plain ones. -/
theorem cblasSgemmRmNtt10_eq (simd : Bool) (h : IntIndices M N K lda ldb ldc) :
    cblasSgemmRmNtt10 simd M N K A lda B ldb C ldc
      = (List.range N).foldlM (fun C i => (List.range M).foldlM (fun C j => do
          C.write (i + j * ldc) (← dot A B simd K (j * lda) (i * ldb))) C) C := by
  refine Buffer.foldlM_congr (fun i hi C => ?_) C
  rw [List.mem_range] at hi
  have hb := h.b i hi
  rw [intValue, if_pos (by omega)]
  refine Buffer.foldlM_congr (fun j hj C => ?_) C
  rw [List.mem_range] at hj
  have ha := h.a j hj
  rw [intValue, if_pos (by omega), intValue, if_pos (h.c i hi j hj)]
  rfl

include hlt hldc

theorem sgemmNaive_updated (alpha beta : α) {transA transB : CblasTranspose} {s : ℕ × ℕ → α}
    (hs : ∀ i < M, ∀ j < N, accumulate (fun k => A.read (naiveIndex transA lda i k))
      (fun k => B.read (naiveIndex transB ldb k j)) K 0 = some (s (i, j))) :
    ∃ C', sgemmNaive transA transB M N K alpha A lda B ldb beta C ldc = some C'
      ∧ Buffer.Updated (List.range M ×ˢ List.range N) (fun p => p.1 + p.2 * ldc)
        (fun p x => x * beta + alpha * s p) C C' := by
  refine Buffer.foldlM_update_rectangle (fun i hi j hj C x hread => ?_)
    (fun i hi j _ i' hi' j' _ => position_inj (hi.trans_le hldc) (hi'.trans_le hldc)) hlt C
  rw [hs i hi j hj, hread]
  rfl

theorem cblasSgemmRmNtt10_updated {simd : Bool} {s : ℕ × ℕ → α}
    (hint : IntIndices N M K lda ldb ldc)
    (hs : ∀ i < M, ∀ j < N, dot A B simd K (j * lda) (i * ldb) = some (s (i, j))) :
    ∃ C', cblasSgemmRmNtt10 simd N M K A lda B ldb C ldc = some C'
      ∧ Buffer.Updated (List.range M ×ˢ List.range N) (fun p => p.1 + p.2 * ldc)
        (fun p _ => s p) C C' := by
  rw [cblasSgemmRmNtt10_eq C simd hint]
  refine Buffer.foldlM_update_rectangle (fun i hi j hj C x hread => ?_)
    (fun i hi j _ i' hi' j' _ => position_inj (hi.trans_le hldc) (hi'.trans_le hldc)) hlt C
  rw [hs i hi j hj]
  rfl

end Loops

section Product

variable {a b c : ℕ}

/-- Where an element of a matrix is stored. -/
def position (layout : CblasLayout) (ld row col : ℕ) : ℕ :=
  match layout with
  | .rowMajor => row * ld + col
  | .colMajor => row + col * ld

/-- The matrix that a buffer stores. -/
def matrix [Zero α] (layout : CblasLayout) (A : Buffer α a) (ld m n : ℕ) :
    Matrix (Fin m) (Fin n) α :=
  Matrix.of fun i j => (A.read (position layout ld i j)).getD 0

/-- The buffer has a place for each element of the matrix. -/
def Fits (layout : CblasLayout) (size ld m n : ℕ) : Prop :=
  ∀ i < m, ∀ j < n, position layout ld i j < size

instance (layout : CblasLayout) (size ld m n : ℕ) : Decidable (Fits layout size ld m n) :=
  inferInstanceAs (Decidable (∀ i < m, ∀ j < n, position layout ld i j < size))

def OperandFits (layout : CblasLayout) (t : CblasTranspose) (size ld m n : ℕ) : Prop :=
  if t = .noTrans then Fits layout size ld m n else Fits layout size ld n m

instance (layout : CblasLayout) (t : CblasTranspose) (size ld m n : ℕ) :
    Decidable (OperandFits layout t size ld m n) :=
  inferInstanceAs (Decidable (if t = .noTrans then Fits layout size ld m n
    else Fits layout size ld n m))

/-- Row major stores the transposed matrix of column major. -/
def operandIndex (layout : CblasLayout) (t : CblasTranspose) (ld row col : ℕ) : ℕ :=
  match layout with
  | .rowMajor => naiveIndex t ld col row
  | .colMajor => naiveIndex t ld row col

theorem operandIndex_eq (layout : CblasLayout) (t : CblasTranspose) (ld row col : ℕ) :
    operandIndex layout t ld row col
      = if t = .noTrans then position layout ld row col else position layout ld col row := by
  rcases layout with _ | _ <;> rw [operandIndex, naiveIndex] <;> split_ifs <;>
    simp only [position, Nat.add_comm]

theorem OperandFits.lt {layout : CblasLayout} {t : CblasTranspose} {ld m n : ℕ}
    (h : OperandFits layout t a ld m n) {i j : ℕ} (hi : i < m) (hj : j < n) :
    operandIndex layout t ld i j < a := by
  rw [operandIndex_eq]
  rw [OperandFits] at h
  split_ifs at h ⊢
  · exact h i hi j hj
  · exact h j hj i hi

variable [CommSemiring α] {A : Buffer α a} {B : Buffer α b} {C : Buffer α c} {M N K lda ldb ldc : ℕ}

/-- The loops have put `alpha * P + beta * C` into the places of the matrix and left the others. -/
structure Computes (layout : CblasLayout) (alpha : α) (P : Matrix (Fin M) (Fin N) α) (beta : α)
    (ldc : ℕ) (C C' : Buffer α c) : Prop where
  written : ∀ (i : Fin M) (j : Fin N), C'.read (position layout ldc i j)
    = (C.read (position layout ldc i j)).map fun x => x * beta + alpha * P i j
  frame : ∀ p, (∀ i < M, ∀ j < N, position layout ldc i j ≠ p) → C'.read p = C.read p

variable [DecidableEq α]

end Product

end Blas

end Vpunn
