import Mathlib.Algebra.BigOperators.Intervals
import Mathlib.Algebra.BigOperators.Ring.Finset
import Mathlib.Algebra.Order.BigOperators.Group.Finset
import Vpunn.Lib.Window

/-! The taps of all windows, along one axis and along two.

    With each step away from a padding a window covers less of it. The taps in the padding of one
    axis or the other are those of both axes, less the taps that lie in both. -/

/-! ### Loops that visit states -/

namespace Loop

variable {σ : Type*} (cond : σ → Bool) (next : σ → σ)

/-- The states in which the body of a loop is run, if it ends within the fuel. -/
def visited (fuel : ℕ) (s : σ) : Option (List σ) :=
  if cond s then
    match fuel with
    | 0 => none
    | fuel + 1 => (visited fuel (next s)).map (s :: ·)
  else some []

variable {cond next}

theorem visited_eq {n fuel : ℕ} {s : σ} (hfuel : n ≤ fuel) (hcond : ∀ t < n, cond (next^[t] s))
    (hstop : cond (next^[n] s) = false) :
    visited cond next fuel s = some ((List.range n).map fun t => next^[t] s) := by
  induction n generalizing s fuel with
  | zero =>
    rw [Function.iterate_zero_apply] at hstop
    rw [visited.eq_def, hstop]
    rfl
  | succ n ih =>
    obtain ⟨fuel, rfl⟩ := Nat.exists_eq_add_of_le' (Nat.one_le_of_lt hfuel)
    have htail := ih (s := next s) (Nat.le_of_succ_le_succ hfuel)
      (fun t ht => hcond (t + 1) (Nat.succ_lt_succ ht)) hstop
    have hfirst : cond s = true := hcond 0 n.succ_pos
    rw [visited, if_pos hfirst, htail, List.range_succ_eq_map]
    simp [Function.comp_def]

end Loop

namespace Window

open Finset

/-! ### One axis -/

/-- What `n` windows cover of `p` padding rows, the first of which covers them all. -/
def covered (p s n : ℕ) : ℕ := ∑ t ∈ range n, (p - t * s)

/-- Windows that are past the padding cover nothing of it. -/
theorem sum_range_of_past {f : ℕ → ℕ} {m n : ℕ} (hmn : m ≤ n) (hf : ∀ t, m ≤ t → f t = 0) :
    ∑ t ∈ range m, f t = ∑ t ∈ range n, f t := by
  refine sum_subset (range_subset_range.mpr hmn) fun t _ ht => hf t ?_
  rwa [mem_range, not_lt] at ht

theorem covered_eq {p s m n : ℕ} (hm : p ≤ m * s) (hn : p ≤ n * s) :
    covered p s m = covered p s n := by
  have hpast : ∀ k, p ≤ k * s → ∀ t, k ≤ t → p - t * s = 0 := by
    intro k hk t ht
    have := Nat.mul_le_mul_right s ht
    omega
  rcases le_total m n with h | h
  · exact sum_range_of_past h (hpast m hm)
  · exact (sum_range_of_past h (hpast n hn)).symm

theorem covered_le (p n : ℕ) {s : ℕ} (hs : 0 < s) : covered p s n ≤ p * p := by
  have hterm : ∀ t, p - t * s ≤ p := fun t => Nat.sub_le _ _
  have hp : p ≤ p * s := Nat.le_mul_of_pos_right p hs
  rcases le_total n p with h | h
  · calc covered p s n ≤ ∑ _t ∈ range n, p := sum_le_sum fun t _ => hterm t
      _ = n * p := by rw [sum_const_nat fun _ _ => rfl, card_range]
      _ ≤ p * p := Nat.mul_le_mul_right p h
  · calc covered p s n = covered p s p := covered_eq (hp.trans (Nat.mul_le_mul_right s h)) hp
      _ ≤ ∑ _t ∈ range p, p := sum_le_sum fun t _ => hterm t
      _ = p * p := by rw [sum_const_nat fun _ _ => rfl, card_range]

namespace Geometry

variable {g : Geometry}

/-- The taps of all windows that are rows of the input. -/
def realTaps (g : Geometry) : ℕ := ∑ o ∈ range g.out, (g.realRows o 1).card

/-- The rows of the end padding that the last window covers. -/
def overlap (g : Geometry) : ℕ := (g.out - 1) * g.s + g.k - (g.inp + g.padBegin)

/-- The taps that are no rows of the input. -/
def padTaps (g : Geometry) : ℕ := covered g.padBegin g.s g.out + covered g.overlap g.s g.out

/-- Each tap of a window is a row of the input, of the begin padding or of the end padding. -/
theorem Consistent.realTaps_add (h : g.Consistent) :
    g.realTaps + g.padTaps = g.k * g.out := by
  have hbelow : covered g.overlap g.s g.out
      = ∑ o ∈ range g.out, (o * g.s + g.k - (g.inp + g.padBegin)) := by
    rw [covered, ← sum_range_reflect]
    refine sum_congr rfl fun o ho => ?_
    have ho' : o < g.out := mem_range.mp ho
    have hsteps : (g.out - 1) * g.s = o * g.s + (g.out - 1 - o) * g.s := by
      rw [← Nat.add_mul]
      congr 1
      omega
    rw [overlap, hsteps]
    omega
  have hwindow : ∀ o ∈ range g.out, (g.realRows o 1).card
      + ((g.padBegin - o * g.s) + (o * g.s + g.k - (g.inp + g.padBegin))) = g.k := by
    intro o ho
    have ho' : o < g.out := mem_range.mp ho
    have hreal := h.realRows_card Nat.one_pos (show o + 1 ≤ g.out from ho')
    have hbegin := h.begin_lt ho'
    have hpad := h.padBegin_lt
    have hinp := h.inp_pos
    simp only [Nat.sub_self, Nat.zero_mul, Nat.zero_add] at hreal
    omega
  rw [realTaps, padTaps, hbelow, covered, ← sum_add_distrib, ← sum_add_distrib,
    sum_const_nat hwindow, card_range, Nat.mul_comm]

end Geometry

/-! ### Two axes -/

section Plane

variable (g g' : Geometry)

/-- The rows of the input. -/
def Geometry.IsInput (r : ℤ) : Prop := 0 ≤ r ∧ r < g.inp

instance (r : ℤ) : Decidable (g.IsInput r) := inferInstanceAs (Decidable (_ ∧ _))

/-- The taps of the windows of two axes that are an input row and an input column. -/
def insideTaps : ℕ := ∑ o ∈ range g.out ×ˢ range g'.out,
  ((g.window o.1 1 ×ˢ g'.window o.2 1).filter fun r => g.IsInput r.1 ∧ g'.IsInput r.2).card

/-- The taps that are not. -/
def outsideTaps : ℕ := ∑ o ∈ range g.out ×ˢ range g'.out,
  ((g.window o.1 1 ×ˢ g'.window o.2 1).filter fun r => ¬ (g.IsInput r.1 ∧ g'.IsInput r.2)).card

theorem insideTaps_eq : insideTaps g g' = g.realTaps * g'.realTaps := by
  have hwindow : ∀ o ∈ range g.out ×ˢ range g'.out,
      ((g.window o.1 1 ×ˢ g'.window o.2 1).filter fun r => g.IsInput r.1 ∧ g'.IsInput r.2).card
        = (g.realRows o.1 1).card * (g'.realRows o.2 1).card := by
    intro o _
    rw [filter_product, card_product]
    rfl
  rw [insideTaps, sum_congr rfl hwindow, sum_product, Geometry.realTaps, Geometry.realTaps,
    sum_mul_sum]

theorem card_window (o : ℕ) : (g.window o 1).card = g.k := by
  rw [Geometry.window_eq Nat.one_pos, card_rows]
  omega

theorem insideTaps_add_outsideTaps :
    insideTaps g g' + outsideTaps g g' = g.k * g.out * (g'.k * g'.out) := by
  have hwindow : ∀ o ∈ range g.out ×ˢ range g'.out,
      (g.window o.1 1 ×ˢ g'.window o.2 1).card = g.k * g'.k := by
    intro o _
    rw [card_product, card_window, card_window]
  rw [insideTaps, outsideTaps, ← sum_add_distrib]
  simp only [card_filter_add_card_filter_not]
  rw [sum_const_nat hwindow, card_product, card_range, card_range]
  ring

end Plane

/-- What the windows with equal numbers of steps along both axes cover of a corner. -/
def diagonal (p s q r n : ℕ) : ℕ := ∑ t ∈ range n, (p - t * s) * (q - t * r)

/-- What the other windows cover of it. -/
def offDiagonal (p s q r n : ℕ) : ℕ :=
  ∑ x ∈ (range n).offDiag, (p - x.1 * s) * (q - x.2 * r)

variable {p s q r n : ℕ}

theorem diagonal_add_offDiagonal :
    diagonal p s q r n + offDiagonal p s q r n = covered p s n * covered q r n := by
  rw [covered, covered, sum_mul_sum, ← sum_product', ← diag_union_offDiag,
    sum_union (disjoint_diag_offDiag _), sum_diag]
  rfl

theorem diagonal_eq {m : ℕ} (hm : p ≤ m * s ∨ q ≤ m * r) (hn : p ≤ n * s ∨ q ≤ n * r) :
    diagonal p s q r m = diagonal p s q r n := by
  have hpast : ∀ k, p ≤ k * s ∨ q ≤ k * r → ∀ t, k ≤ t → (p - t * s) * (q - t * r) = 0 := by
    rintro k hk t ht
    have hs := Nat.mul_le_mul_right s ht
    have hr := Nat.mul_le_mul_right r ht
    rw [Nat.mul_eq_zero]
    omega
  rcases le_total m n with h | h
  · exact sum_range_of_past h (hpast m hm)
  · exact (sum_range_of_past h (hpast n hn)).symm

/-- No other window covers anything of a corner that is empty, or that one step leaves. -/
theorem offDiagonal_eq_zero_iff (hp : p ≤ n * s) (hq : q ≤ n * r) :
    offDiagonal p s q r n = 0 ↔ p = 0 ∨ q = 0 ∨ p ≤ s ∧ q ≤ r := by
  rw [offDiagonal, sum_eq_zero_iff]
  constructor
  · intro h
    by_contra! hne
    obtain ⟨hp0, hq0, hstep⟩ := hne
    have hpos : ∀ m z : ℕ, z ≠ 0 → z ≤ n * m → 0 < n := by
      rintro m z hz hle
      rcases Nat.eq_zero_or_pos n with rfl | hn
      · omega
      · exact hn
    have hn := hpos s p hp0 hp
    have htwo : ∀ m z : ℕ, m < z → z ≤ n * m → 1 < n := by
      intro m z hz hle
      by_contra! hn1
      have hone : n * m ≤ 1 * m := Nat.mul_le_mul_right m hn1
      omega
    rcases Nat.lt_or_ge s p with hs | hs
    · have hzero := h (1, 0) (by simp [hn, htwo s p hs hp])
      simp only [Nat.one_mul, Nat.zero_mul, Nat.sub_zero, Nat.mul_eq_zero] at hzero
      omega
    · have hzero := h (0, 1) (by simp [hn, htwo r q (hstep hs) hq])
      simp only [Nat.one_mul, Nat.zero_mul, Nat.sub_zero, Nat.mul_eq_zero] at hzero
      have := hstep hs
      omega
  · rintro h ⟨t, t'⟩ hmem
    have hne : t ≠ t' := by
      rw [mem_offDiag] at hmem
      exact hmem.2.2
    have hs : 1 ≤ t → s ≤ t * s := Nat.le_mul_of_pos_left s
    have hr : 1 ≤ t' → r ≤ t' * r := Nat.le_mul_of_pos_left r
    rw [Nat.mul_eq_zero]
    rcases h with rfl | rfl | ⟨h, h'⟩
    · exact .inl (Nat.zero_sub _)
    · exact .inr (Nat.zero_sub _)
    · simp only
      omega

/-! ### Corners -/

section Corners

variable (g g' : Geometry)

/-- The sums along the diagonals of the four corners. -/
def cornerDiagonals : ℕ :=
  let n := max g.out g'.out
  diagonal g.padBegin g.s g'.padBegin g'.s n + diagonal g.padBegin g.s g'.overlap g'.s n
    + (diagonal g.overlap g.s g'.padBegin g'.s n + diagonal g.overlap g.s g'.overlap g'.s n)

/-- What is in the four corners besides. -/
def cornerExcess : ℕ :=
  let n := max g.out g'.out
  offDiagonal g.padBegin g.s g'.padBegin g'.s n + offDiagonal g.padBegin g.s g'.overlap g'.s n
    + (offDiagonal g.overlap g.s g'.padBegin g'.s n + offDiagonal g.overlap g.s g'.overlap g'.s n)

/-- Each corner is empty, or one step leaves it. -/
def SingleCorners : Prop :=
  ∀ p ∈ [g.padBegin, g.overlap], ∀ q ∈ [g'.padBegin, g'.overlap], p = 0 ∨ q = 0 ∨ p ≤ g.s ∧ q ≤ g'.s

instance : Decidable (SingleCorners g g') := inferInstanceAs (Decidable (∀ _ ∈ _, _))

/-- The paddings are not longer than the steps of all windows. -/
structure Geometry.Reached : Prop where
  padBegin_le : g.padBegin ≤ g.out * g.s
  overlap_le : g.overlap ≤ g.out * g.s

variable {g g'}

theorem Geometry.Reached.mono (h : g.Reached) {n : ℕ} (hn : g.out ≤ n) :
    g.padBegin ≤ n * g.s ∧ g.overlap ≤ n * g.s :=
  ⟨h.padBegin_le.trans (Nat.mul_le_mul_right _ hn), h.overlap_le.trans (Nat.mul_le_mul_right _ hn)⟩

theorem Geometry.Reached.padTaps_eq (h : g.Reached) {n : ℕ} (hn : g.out ≤ n) :
    g.padTaps = covered g.padBegin g.s n + covered g.overlap g.s n := by
  obtain ⟨hb, he⟩ := h.mono hn
  rw [Geometry.padTaps, covered_eq h.padBegin_le hb, covered_eq h.overlap_le he]

theorem cornerDiagonals_add_cornerExcess (h : g.Reached) (h' : g'.Reached) :
    cornerDiagonals g g' + cornerExcess g g' = g.padTaps * g'.padTaps := by
  rw [h.padTaps_eq (le_max_left g.out g'.out), h'.padTaps_eq (le_max_right g.out g'.out),
    Nat.add_mul, Nat.mul_add, Nat.mul_add, ← diagonal_add_offDiagonal, ← diagonal_add_offDiagonal,
    ← diagonal_add_offDiagonal, ← diagonal_add_offDiagonal, cornerDiagonals, cornerExcess]
  ring

/-- The taps outside of the input, from the taps in the paddings of each axis. -/
theorem outsideTaps_add_mul (h : g.Consistent) (h' : g'.Consistent) :
    outsideTaps g g' + g.padTaps * g'.padTaps
      = g.padTaps * (g'.k * g'.out) + g'.padTaps * (g.k * g.out) := by
  have hall := insideTaps_add_outsideTaps g g'
  rw [insideTaps_eq, ← h.realTaps_add, ← h'.realTaps_add] at hall
  rw [← h.realTaps_add, ← h'.realTaps_add]
  linarith

theorem cornerExcess_eq_zero_iff (h : g.Reached) (h' : g'.Reached) :
    cornerExcess g g' = 0 ↔ SingleCorners g g' := by
  obtain ⟨hb, he⟩ := h.mono (le_max_left g.out g'.out)
  obtain ⟨hb', he'⟩ := h'.mono (le_max_right g.out g'.out)
  simp only [cornerExcess, Nat.add_eq_zero_iff, offDiagonal_eq_zero_iff hb hb',
    offDiagonal_eq_zero_iff hb he', offDiagonal_eq_zero_iff he hb', offDiagonal_eq_zero_iff he he',
    SingleCorners, List.forall_mem_cons, List.not_mem_nil, false_implies, implies_true, and_true]

theorem cornerExcess_le (h : g.Consistent) (h' : g'.Consistent) (hr : g.Reached) (hr' : g'.Reached) :
    cornerExcess g g' ≤ g.k * g.out * (g'.k * g'.out) := by
  have hsum := cornerDiagonals_add_cornerExcess hr hr'
  have hreal := h.realTaps_add
  have hreal' := h'.realTaps_add
  have hmul : g.padTaps * g'.padTaps ≤ g.k * g.out * (g'.k * g'.out) :=
    Nat.mul_le_mul (by omega) (by omega)
  omega

end Corners

end Window
