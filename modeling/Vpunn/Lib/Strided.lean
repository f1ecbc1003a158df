import Mathlib.Algebra.BigOperators.Group.List.Basic
import Mathlib.Algebra.Order.Ring.Abs
import Mathlib.Tactic.Linarith
import Mathlib.Tactic.Ring
import Mathlib.Tactic.SplitIfs

/-! Strided blocks of memory.

    A block of `c` bytes is repeated along dimensions, listed from the innermost one outward, each
    with a count and a stride. A dimension is packed when its stride is the size of what it repeats;
    a dimension of count one is never stepped along. Sizes are multiplied with an operation `mul`
    that may wrap around. -/

namespace Strided

/-- How often something is repeated, and at what distance. -/
structure Dim (R : Type*) where
  count : R
  stride : R
  deriving DecidableEq, Repr

variable {R : Type*} (mul : R → R → R)

/-- The number of bytes without the gaps. -/
def total (c : R) (ds : List (Dim R)) : R := ds.foldl (fun t d => mul t d.count) c

@[simp] theorem total_cons (c : R) (d : Dim R) (ds : List (Dim R)) :
    total mul c (d :: ds) = total mul (mul c d.count) ds := rfl

variable [DecidableEq R] (one : R)

/-- The size of the packed block that begins with `c` bytes. -/
def run : R → List (Dim R) → R
  | c, [] => c
  | c, d :: ds =>
    if d.count = one then run c ds
    else if d.stride = c then run (mul c d.count) ds
    else c

/-- The packed block and the dimensions from the first gap on. -/
def peel : R → List (Dim R) → R × List (Dim R)
  | c, [] => (c, [])
  | c, d :: ds =>
    if d.count = one then peel c ds
    else if d.stride = c then peel (mul c d.count) ds
    else (c, d :: ds)

/-- The dimensions that are stepped along. -/
def proper (ds : List (Dim R)) : List (Dim R) := ds.filter (·.count ≠ one)

/-- Nothing to skip, and a gap right after the block. -/
structure Normal (c : R) (ds : List (Dim R)) : Prop where
  proper : ∀ d ∈ ds, d.count ≠ one
  gap : ∀ d, ds.head? = some d → d.stride ≠ c

variable {mul one}

theorem run_eq_peel (c : R) (ds : List (Dim R)) : run mul one c ds = (peel mul one c ds).1 := by
  induction ds generalizing c with
  | nil => rfl
  | cons d ds ih => unfold run peel; split_ifs <;> first | exact ih _ | rfl

/-- A value of the operation, on which `one` is neutral. -/
def Stable (mul : R → R → R) (one c : R) : Prop := mul c one = c

section Total

variable (hmul : ∀ a b, Stable mul one (mul a b))
include hmul

theorem total_peel {c : R} (hc : Stable mul one c) (ds : List (Dim R)) :
    total mul (peel mul one c ds).1 (peel mul one c ds).2 = total mul c ds := by
  induction ds generalizing c with
  | nil => rfl
  | cons d ds ih =>
    unfold peel
    split_ifs with hone hstride
    · rw [ih hc]
      simp only [total, List.foldl_cons, hone]
      rw [show mul c one = c from hc]
    · rw [ih (hmul _ _)]; rfl
    · rfl

theorem total_proper {c : R} (hc : Stable mul one c) (ds : List (Dim R)) :
    total mul c (proper one ds) = total mul c ds := by
  induction ds generalizing c with
  | nil => rfl
  | cons d ds ih =>
    by_cases hone : d.count = one
    · rw [proper, List.filter_cons_of_neg (by simpa using hone), ← proper, ih hc]
      simp only [total, List.foldl_cons, hone]
      rw [show mul c one = c from hc]
    · rw [proper, List.filter_cons_of_pos (by simpa using hone), ← proper]
      exact ih (hmul _ _)

end Total

theorem proper_append (ds es : List (Dim R)) :
    proper one (ds ++ es) = proper one ds ++ proper one es := List.filter_append ..

theorem run_proper (c : R) (ds : List (Dim R)) :
    run mul one c (proper one ds) = run mul one c ds := by
  induction ds generalizing c with
  | nil => rfl
  | cons d ds ih =>
    by_cases hone : d.count = one
    · rw [proper, List.filter_cons_of_neg (by simpa using hone), ← proper, ih]
      simp only [run, if_pos hone]
    · rw [proper, List.filter_cons_of_pos (by simpa using hone), ← proper]
      simp only [run, if_neg hone, ih]

/-- Peeling commutes with leaving out what is not stepped along. -/
theorem proper_peel (c : R) (ds : List (Dim R)) :
    proper one (peel mul one c ds).2 = (peel mul one c (proper one ds)).2 := by
  induction ds generalizing c with
  | nil => rfl
  | cons d ds ih =>
    by_cases hone : d.count = one
    · rw [proper, proper, List.filter_cons_of_neg (by simpa using hone), peel, if_pos hone]
      exact ih c
    · have hcons : proper one (d :: ds) = d :: proper one ds :=
        List.filter_cons_of_pos (by simpa using hone)
      rw [hcons, peel, peel, if_neg hone, if_neg hone]
      split_ifs with hstride
      · exact ih _
      · exact hcons

/-- What remains after peeling begins with a gap, or is empty. -/
theorem head_peel (mul : R → R → R) (one c : R) (ds : List (Dim R)) :
    ∀ d, (peel mul one c ds).2.head? = some d → d.count ≠ one ∧ d.stride ≠ (peel mul one c ds).1 := by
  induction ds generalizing c with
  | nil => intro d hd; simp [peel] at hd
  | cons e ds ih =>
    unfold peel
    split_ifs with hone hstride
    · exact ih c
    · exact ih _
    · intro d hd
      obtain rfl : e = d := by simpa using hd
      exact ⟨hone, hstride⟩

/-- A peeled block, without what is not stepped along, is normal. -/
theorem normal_peel (mul : R → R → R) (one c : R) (ds : List (Dim R)) :
    Normal one (peel mul one c ds).1 (proper one (peel mul one c ds).2) where
  proper := fun d hd => by simpa using (List.mem_filter.mp hd).2
  gap := by
    have hhead := head_peel mul one c ds
    intro d hd
    cases hrest : (peel mul one c ds).2 with
    | nil => rw [hrest] at hd; simp [Strided.proper] at hd
    | cons e es =>
      obtain ⟨hone, hstride⟩ := hhead e (by rw [hrest]; rfl)
      rw [hrest, Strided.proper, List.filter_cons_of_pos (by simpa using hone)] at hd
      obtain rfl : e = d := by simpa using hd
      exact hstride

theorem Normal.peel_eq {c : R} {ds : List (Dim R)} (h : Normal one c ds) :
    peel mul one c ds = (c, ds) := by
  cases ds with
  | nil => rfl
  | cons d ds => rw [peel, if_neg (h.proper d (by simp)), if_neg (h.gap d rfl)]

theorem Normal.run_eq {c : R} {ds : List (Dim R)} (h : Normal one c ds) :
    run mul one c ds = c := by
  rw [run_eq_peel, h.peel_eq]

theorem Normal.proper_eq {c : R} {ds : List (Dim R)} (h : Normal one c ds) :
    Strided.proper one ds = ds :=
  List.filter_eq_self.mpr fun d hd => by simpa using h.proper d hd

theorem length_peel_le (mul : R → R → R) (one c : R) (ds : List (Dim R)) :
    (peel mul one c ds).2.length ≤ ds.length := by
  induction ds generalizing c with
  | nil => exact Nat.le_refl _
  | cons d ds ih =>
    unfold peel
    split_ifs
    · exact Nat.le_succ_of_le (ih _)
    · exact Nat.le_succ_of_le (ih _)
    · exact Nat.le_refl _

/-! ### Addresses

    The elements behind the dimensions in row-major order: the first dimension varies fastest. -/

section Address

/-- The distance of the `i`-th element from the first one. -/
def address : List (Dim ℤ) → ℕ → ℤ
  | [], _ => 0
  | d :: ds, i => (i % d.count.toNat : ℕ) * d.stride + address ds (i / d.count.toNat)

/-- How many elements there are. -/
def elements (ds : List (Dim ℤ)) : ℕ := (ds.map (·.count.toNat)).prod

/-- The largest distance between two elements. -/
def reach (ds : List (Dim ℤ)) : ℤ := (ds.map fun d => (d.count - 1) * |d.stride|).sum

@[simp] theorem address_zero (ds : List (Dim ℤ)) : address ds 0 = 0 := by
  induction ds with
  | nil => rfl
  | cons d ds ih => simp [address, ih]

@[simp] theorem elements_cons (d : Dim ℤ) (ds : List (Dim ℤ)) :
    elements (d :: ds) = d.count.toNat * elements ds := by
  simp [elements]

@[simp] theorem reach_cons (d : Dim ℤ) (ds : List (Dim ℤ)) :
    reach (d :: ds) = (d.count - 1) * |d.stride| + reach ds := by
  simp [reach]

theorem elements_pos {ds : List (Dim ℤ)} (h : ∀ d ∈ ds, 1 ≤ d.count) : 0 < elements ds := by
  induction ds with
  | nil => simp [elements]
  | cons d ds ih =>
    obtain ⟨hd, hds⟩ := List.forall_mem_cons.mp h
    rw [elements_cons]
    exact Nat.mul_pos (by omega) (ih hds)

theorem total_eq_mul_elements (c : ℤ) {ds : List (Dim ℤ)} (h : ∀ d ∈ ds, 1 ≤ d.count) :
    total (· * ·) c ds = c * elements ds := by
  induction ds generalizing c with
  | nil => simp [total, elements]
  | cons d ds ih =>
    obtain ⟨hd, hds⟩ := List.forall_mem_cons.mp h
    rw [total_cons, ih _ hds, elements_cons]
    push_cast
    rw [Int.toNat_of_nonneg (by omega), mul_assoc]

theorem le_total {c : ℤ} (hc : 0 ≤ c) {ds : List (Dim ℤ)} (h : ∀ d ∈ ds, 1 ≤ d.count) :
    c ≤ total (· * ·) c ds := by
  rw [total_eq_mul_elements c h]
  have : (1 : ℤ) ≤ elements ds := by exact_mod_cast elements_pos h
  exact le_mul_of_one_le_right hc this

/-- A packed block of `c`-byte pieces holds `p` of them back to back, and no more: either these are
    all there are, or the next one is somewhere else. -/
theorem run_eq_mul (c : ℤ) {ds : List (Dim ℤ)} (h : ∀ d ∈ ds, 1 ≤ d.count) :
    ∃ p : ℕ, run (· * ·) 1 c ds = p * c ∧ 0 < p ∧ p ∣ elements ds
      ∧ (∀ i < p, address ds i = i * c) ∧ (p = elements ds ∨ address ds p ≠ p * c) := by
  induction ds generalizing c with
  | nil => exact ⟨1, by simp [run], one_pos, by simp [elements], by simp, .inl rfl⟩
  | cons d ds ih =>
    obtain ⟨hd, hds⟩ := List.forall_mem_cons.mp h
    unfold run
    split_ifs with hone hstride
    · obtain ⟨p, hrun, hpos, hdvd, haddr, hlast⟩ := ih c hds
      have hcount : d.count.toNat = 1 := by omega
      refine ⟨p, hrun, hpos, by simpa [hcount] using hdvd, ?_, ?_⟩
      · simpa [address, hcount, Nat.mod_one] using haddr
      · simpa [address, hcount, Nat.mod_one] using hlast
    · -- A packed dimension: the pieces of the rest are `d.count` pieces each.
      obtain ⟨p, hrun, hpos, hdvd, haddr, hlast⟩ := ih (c * d.count) hds
      obtain ⟨k, hk⟩ := Int.eq_ofNat_of_zero_le (show 0 ≤ d.count by omega)
      have hcount : d.count.toNat = k := by omega
      have hkpos : 0 < k := by omega
      refine ⟨k * p, ?_, Nat.mul_pos hkpos hpos, ?_, ?_, ?_⟩
      · rw [hrun, hk]; push_cast; ring
      · rw [elements_cons, hcount]; exact Nat.mul_dvd_mul_left k hdvd
      · intro i hi
        rw [address, hcount, hstride, haddr _ ((Nat.div_lt_iff_lt_mul hkpos).mpr (by
          rwa [Nat.mul_comm] at hi)), hk]
        have hdiv : (i : ℤ) = (i % k : ℕ) + k * (i / k : ℕ) := by
          exact_mod_cast (Nat.mod_add_div i k).symm
        calc ((i % k : ℕ) : ℤ) * c + (i / k : ℕ) * (c * (k : ℕ))
            = ((i % k : ℕ) + k * (i / k : ℕ)) * c := by ring
          _ = i * c := by rw [← hdiv]
      · rw [elements_cons, hcount, address, hcount, Nat.mul_mod_right, Nat.mul_div_cancel_left p hkpos]
        rcases hlast with hall | hgap
        · exact .inl (by rw [hall])
        · refine .inr fun heq => hgap ?_
          rw [hk]
          push_cast at heq ⊢
          linarith
    · refine ⟨1, by simp, one_pos, one_dvd _, by simp, .inr ?_⟩
      have hcount : 1 < d.count.toNat := by omega
      rw [address, Nat.mod_eq_of_lt hcount, Nat.div_eq_of_lt hcount]
      simpa using hstride

theorem address_sub_le {ds : List (Dim ℤ)} (h : ∀ d ∈ ds, 1 ≤ d.count) {i j : ℕ}
    (hi : i < elements ds) (hj : j < elements ds) : address ds i - address ds j ≤ reach ds := by
  induction ds generalizing i j with
  | nil => simp [address, reach]
  | cons d ds ih =>
    obtain ⟨hd, hds⟩ := List.forall_mem_cons.mp h
    have hpos : 0 < d.count.toNat := by omega
    rw [elements_cons] at hi hj
    have hrest := ih hds (Nat.div_lt_of_lt_mul hi) (Nat.div_lt_of_lt_mul hj)
    have hstep : ((i % d.count.toNat : ℕ) : ℤ) * d.stride - (j % d.count.toNat : ℕ) * d.stride
        ≤ (d.count - 1) * |d.stride| := by
      have hi' := Nat.mod_lt i hpos
      have hj' := Nat.mod_lt j hpos
      rw [← sub_mul]
      refine (le_abs_self _).trans ?_
      rw [abs_mul]
      exact mul_le_mul_of_nonneg_right (abs_le.mpr ⟨by omega, by omega⟩) (abs_nonneg _)
    rw [address, address, reach_cons]
    linarith

/-- Where everything is packed, the elements fill what they reach over. -/
theorem add_reach_eq_total {c : ℤ} (hc : 0 < c) {ds : List (Dim ℤ)} (h : ∀ d ∈ ds, 1 ≤ d.count)
    (hrun : run (· * ·) 1 c ds = total (· * ·) c ds) : c + reach ds = total (· * ·) c ds := by
  induction ds generalizing c with
  | nil => simp [reach, total]
  | cons d ds ih =>
    obtain ⟨hd, hds⟩ := List.forall_mem_cons.mp h
    rw [run, total_cons] at hrun
    rw [total_cons, reach_cons]
    split_ifs at hrun with hone hstride
    · rw [hone, mul_one] at hrun ⊢
      rw [sub_self, zero_mul, zero_add]
      exact ih hc hds hrun
    · have hpos : 0 < c * d.count := Int.mul_pos hc (by omega)
      rw [← ih hpos hds hrun, hstride, abs_of_pos hc]
      ring
    · -- The count is at least two, so the packed block would have to be the whole.
      have hpos : 0 < c * d.count := Int.mul_pos hc (by omega)
      have hle := le_total hpos.le hds
      have : c * 2 ≤ c * d.count := by
        have : 2 ≤ d.count := by omega
        gcongr
      omega

end Address

end Strided
