import Mathlib.Data.Finset.Card
import Mathlib.Data.Finset.Range
import Mathlib.Tactic.Linarith
import Mathlib.Tactic.Ring

/-! Sliding windows along one axis.

    A window of `k` rows moves in steps of `s` over `inp` input rows with padding rows before and
    after them, and gives one output row a position. Input rows are numbered from `0`; padding
    rows have the numbers below `0` and from `inp` on. -/

namespace Window

/-- Numbers counted from `a`. -/
def countFrom (a : ℤ) : ℕ ↪ ℤ := ⟨fun i => a + i, fun i j h => by simpa using h⟩

theorem countFrom_apply (a : ℤ) (i : ℕ) : countFrom a i = a + i := rfl

/-- The rows from `a` up to `b`, without `b`. -/
def rows (a b : ℤ) : Finset ℤ := (Finset.range (b - a).toNat).map (countFrom a)

@[simp] theorem mem_rows {a b r : ℤ} : r ∈ rows a b ↔ a ≤ r ∧ r < b := by
  simp only [rows, Finset.mem_map, Finset.mem_range, countFrom_apply]
  constructor
  · rintro ⟨i, hi, rfl⟩; omega
  · rintro ⟨ha, hb⟩
    exact ⟨(r - a).toNat, by omega, by omega⟩

theorem card_rows (a b : ℤ) : (rows a b).card = (b - a).toNat := by
  rw [rows, Finset.card_map, Finset.card_range]

/-- The numbers that describe a sliding window along one axis. -/
structure Geometry where
  inp : ℕ
  k : ℕ
  s : ℕ
  padBegin : ℕ
  padEnd : ℕ
  out : ℕ
  deriving DecidableEq, Repr

namespace Geometry

/-- The convolution size formula, for paddings of at most half a window. -/
structure Consistent (g : Geometry) : Prop where
  inp_pos : 0 < g.inp
  s_pos : 0 < g.s
  k_pos : 0 < g.k
  padBegin_le : g.padBegin ≤ g.k / 2
  padEnd_le : g.padEnd ≤ g.k / 2
  k_le : g.k ≤ g.inp + g.padBegin + g.padEnd
  out_eq : g.out = (g.inp + g.padBegin + g.padEnd - g.k) / g.s + 1

instance (g : Geometry) : Decidable g.Consistent :=
  decidable_of_iff (0 < g.inp ∧ 0 < g.s ∧ 0 < g.k ∧ g.padBegin ≤ g.k / 2 ∧ g.padEnd ≤ g.k / 2 ∧
      g.k ≤ g.inp + g.padBegin + g.padEnd ∧
      g.out = (g.inp + g.padBegin + g.padEnd - g.k) / g.s + 1)
    ⟨fun ⟨h1, h2, h3, h4, h5, h6, h7⟩ => ⟨h1, h2, h3, h4, h5, h6, h7⟩,
      fun ⟨h1, h2, h3, h4, h5, h6, h7⟩ => ⟨h1, h2, h3, h4, h5, h6, h7⟩⟩

/-- The rows from the first to the last one that the `m` output rows from `o` on look at. -/
def window (g : Geometry) (o m : ℕ) : Finset ℤ :=
  rows ((o : ℤ) * g.s - g.padBegin) ((o + m - 1 : ℤ) * g.s + g.k - g.padBegin)

/-- The window rows that are rows of the input. -/
def realRows (g : Geometry) (o m : ℕ) : Finset ℤ :=
  (g.window o m).filter fun r => 0 ≤ r ∧ r < g.inp

/-- The first row of the window that is not above the input. -/
def firstReal (g : Geometry) (o : ℕ) : ℤ := max 0 (o * g.s - g.padBegin)

/-- One row past the last row of the window that is not below the input. -/
def stopReal (g : Geometry) (o m : ℕ) : ℤ :=
  min (g.inp : ℤ) ((o + m - 1 : ℤ) * g.s + g.k - g.padBegin)

/-- The window rows above the input. -/
def rowsAbove (g : Geometry) (o m : ℕ) : Finset ℤ := (g.window o m).filter (· < 0)

/-- The window rows below the input. -/
def rowsBelow (g : Geometry) (o m : ℕ) : Finset ℤ := (g.window o m).filter ((g.inp : ℤ) ≤ ·)

/-- The input rows that some output row looks at. -/
def needed (g : Geometry) : Set ℤ := {r | ∃ j < g.out, r ∈ g.realRows j 1}

/-- What is left of the axis for `m` output rows from `o` on: the real rows, and the padding rows
    the window still reaches. A cut that ends with the axis keeps the whole end padding, of which
    the window may leave the last rows unused. -/
def cut (g : Geometry) (o m : ℕ) : Geometry where
  inp := (g.realRows o m).card
  k := g.k
  s := g.s
  padBegin := (g.rowsAbove o m).card
  padEnd := if o + m = g.out then g.padEnd else (g.rowsBelow o m).card
  out := m

variable {g : Geometry} {o m : ℕ}

@[simp] theorem mem_window {r : ℤ} : r ∈ g.window o m ↔
    (o : ℤ) * g.s - g.padBegin ≤ r ∧ r < (o + m - 1 : ℤ) * g.s + g.k - g.padBegin := by
  simp [window]

@[simp] theorem mem_realRows {r : ℤ} :
    r ∈ g.realRows o m ↔ r ∈ g.window o m ∧ 0 ≤ r ∧ r < g.inp := by
  simp only [realRows, Finset.mem_filter]

theorem realRows_eq : g.realRows o m = rows (g.firstReal o) (g.stopReal o m) := by
  ext r
  simp only [mem_realRows, mem_window, firstReal, stopReal, mem_rows, max_le_iff, lt_min_iff]
  tauto

/-! ### Where windows end -/

theorem Consistent.padBegin_lt (h : g.Consistent) : g.padBegin < g.k := by
  have := h.padBegin_le; have := h.k_pos; omega

theorem Consistent.padEnd_lt (h : g.Consistent) : g.padEnd < g.k := by
  have := h.padEnd_le; have := h.k_pos; omega

theorem Consistent.out_pos (h : g.Consistent) : 0 < g.out := by
  rw [h.out_eq]; exact Nat.succ_pos _

/-- The last window ends within the end padding. -/
theorem Consistent.reach (h : g.Consistent) (ho : o < g.out) :
    o * g.s + g.k ≤ g.inp + g.padBegin + g.padEnd := by
  have hle : o ≤ (g.inp + g.padBegin + g.padEnd - g.k) / g.s := by
    have := h.out_eq; omega
  have := Nat.mul_le_of_le_div _ _ _ hle
  have := h.k_le
  omega

/-- Another step would leave the end padding. -/
theorem Consistent.reach_lt (h : g.Consistent) :
    g.inp + g.padBegin + g.padEnd < g.out * g.s + g.k := by
  have := Nat.lt_mul_div_succ (g.inp + g.padBegin + g.padEnd - g.k) h.s_pos
  rw [h.out_eq, Nat.mul_comm]
  omega

/-- Every window begins before the input ends. -/
theorem Consistent.begin_lt (h : g.Consistent) (ho : o < g.out) :
    o * g.s < g.inp + g.padBegin := by
  have := h.reach ho; have := h.padEnd_lt; omega

/-- A window of `m` output rows is `m - 1` steps longer than a window of one. -/
theorem window_eq (hm : 0 < m) : g.window o m =
    rows ((o * g.s : ℕ) - g.padBegin : ℤ)
      ((o * g.s + ((m - 1) * g.s + g.k) : ℕ) - g.padBegin : ℤ) := by
  obtain ⟨n, rfl⟩ := Nat.exists_eq_add_of_lt hm
  unfold window
  push_cast
  congr 1
  ring

/-- The padding rows above that a cut still reaches: none, once `o` steps have passed them. -/
theorem Consistent.rowsAbove_card (h : g.Consistent) (hm : 0 < m) :
    (g.rowsAbove o m).card = g.padBegin - o * g.s := by
  have hk := h.padBegin_lt
  have heq : g.rowsAbove o m = rows ((o * g.s : ℕ) - g.padBegin : ℤ) 0 := by
    ext r
    simp only [rowsAbove, Finset.mem_filter, window_eq hm, mem_rows]
    omega
  rw [heq, card_rows]; omega

theorem Consistent.rowsBelow_card (h : g.Consistent) (hm : 0 < m) (ho : o + m ≤ g.out) :
    (g.rowsBelow o m).card = o * g.s + ((m - 1) * g.s + g.k) - (g.inp + g.padBegin) := by
  have hbegin := h.begin_lt (o := o) (by omega)
  have heq : g.rowsBelow o m =
      rows (g.inp : ℤ) ((o * g.s + ((m - 1) * g.s + g.k) : ℕ) - g.padBegin : ℤ) := by
    ext r
    simp only [rowsBelow, Finset.mem_filter, window_eq hm, mem_rows]
    omega
  rw [heq, card_rows]; omega

/-- The real rows of a cut: its window without the padding rows on both ends. -/
theorem Consistent.realRows_card (h : g.Consistent) (hm : 0 < m) (ho : o + m ≤ g.out) :
    (g.realRows o m).card = (m - 1) * g.s + g.k - (g.padBegin - o * g.s)
      - (o * g.s + ((m - 1) * g.s + g.k) - (g.inp + g.padBegin)) := by
  have hbegin := h.begin_lt (o := o) (by omega)
  have hk := h.padBegin_lt
  have heq : g.realRows o m = rows (max 0 ((o * g.s : ℕ) - g.padBegin : ℤ))
      (min (g.inp : ℤ) ((o * g.s + ((m - 1) * g.s + g.k) : ℕ) - g.padBegin : ℤ)) := by
    ext r
    simp only [realRows, Finset.mem_filter, window_eq hm, mem_rows, max_le_iff, lt_min_iff]
    omega
  rw [heq, card_rows]; omega

/-- No cut consists of padding only. -/
theorem Consistent.realRows_pos (h : g.Consistent) (hm : 0 < m) (ho : o + m ≤ g.out) :
    0 < (g.realRows o m).card := by
  have hbegin := h.begin_lt (o := o) (by omega)
  have hk := h.padBegin_lt
  have hinp := h.inp_pos
  rw [h.realRows_card hm ho]; omega

theorem Consistent.realRows_le (h : g.Consistent) (hm : 0 < m) (ho : o + m ≤ g.out) :
    (g.realRows o m).card ≤ g.inp := by
  rw [h.realRows_card hm ho]; omega

/-! ### A cut is an axis of its own -/

/-- Cutting a consistent axis gives a consistent axis: the remainder of the size formula that a cut
    ends with is smaller than a step. -/
theorem Consistent.cut (h : g.Consistent) (hm : 0 < m) (ho : o + m ≤ g.out) :
    (g.cut o m).Consistent := by
  have hbegin := h.begin_lt (o := o) (by omega)
  have hk := h.padBegin_lt
  have hreach := h.reach (o := o + (m - 1)) (by omega)
  have hlt := h.reach_lt
  have hpb := h.padBegin_le
  have hpe := h.padEnd_le
  rw [Nat.add_mul] at hreach
  have hreal := h.realRows_card hm ho
  have habove := h.rowsAbove_card (o := o) hm
  have hbelow := h.rowsBelow_card hm ho
  have hlast : o + m = g.out → g.inp + g.padBegin + g.padEnd <
      o * g.s + ((m - 1) * g.s + g.k) + g.s := by
    intro hout
    have hsteps : g.out * g.s = o * g.s + (m - 1) * g.s + g.s := by
      obtain ⟨n, rfl⟩ := Nat.exists_eq_add_of_lt hm
      rw [← hout]; simp only [Nat.zero_add, Nat.add_sub_cancel]; ring
    omega
  -- the rows of a cut are those of its windows, and at the end of the axis less than a step more
  obtain ⟨r, hr, hrows⟩ : ∃ r < g.s, (g.cut o m).inp + (g.cut o m).padBegin + (g.cut o m).padEnd
      = (m - 1) * g.s + g.k + r := by
    simp only [Geometry.cut, hreal, habove, hbelow]
    split
    · next hout =>
      have := hlast hout
      refine ⟨g.padEnd - (o * g.s + ((m - 1) * g.s + g.k) - (g.inp + g.padBegin)), ?_, ?_⟩ <;> omega
    · exact ⟨0, h.s_pos, by omega⟩
  constructor
  case inp_pos => exact h.realRows_pos hm ho
  case s_pos => exact h.s_pos
  case k_pos => exact h.k_pos
  case padBegin_le => simp only [Geometry.cut, habove]; omega
  case padEnd_le => simp only [Geometry.cut, hbelow]; split <;> omega
  case k_le => simp only [hrows]; simp only [Geometry.cut]; omega
  case out_eq =>
    have hdiv : ((m - 1) * g.s + g.k + r - g.k) / g.s = m - 1 := by
      rw [Nat.add_right_comm, Nat.add_sub_cancel, Nat.mul_comm, Nat.mul_add_div h.s_pos,
        Nat.div_eq_of_lt hr, Nat.add_zero]
    rw [hrows]
    simp only [Geometry.cut]
    omega

/-! ### The rows between two windows -/

/-- A row that steps longer than the window skip between two of `m` output rows. -/
def Skipped (g : Geometry) (o m : ℕ) (r : ℤ) : Prop :=
  ∃ j : ℕ, o ≤ j ∧ j + 1 < o + m ∧ (j * g.s + g.k - g.padBegin : ℤ) ≤ r ∧
    r < ((j + 1) * g.s - g.padBegin : ℤ)

theorem Skipped.k_lt {r : ℤ} (h : g.Skipped o m r) : g.k < g.s := by
  obtain ⟨j, -, -, hlo, hhi⟩ := h
  rw [add_mul, one_mul] at hhi
  omega

/-- A row in the window of `m` output rows lies in the window of one of them, or is skipped. -/
theorem window_split {r : ℤ} (hr : r ∈ g.window o m) (hm : 0 < m) :
    (∃ j, o ≤ j ∧ j < o + m ∧ r ∈ g.window j 1) ∨ g.Skipped o m r := by
  induction m with
  | zero => omega
  | succ m ih =>
    rcases Nat.eq_zero_or_pos m with rfl | hm'
    · exact .inl ⟨o, le_refl _, by omega, hr⟩
    rw [mem_window] at hr
    push_cast at hr
    by_cases hlast : ((o + m : ℕ) * g.s - g.padBegin : ℤ) ≤ r
    · refine .inl ⟨o + m, by omega, by omega, mem_window.mpr ⟨hlast, ?_⟩⟩
      push_cast; linarith [hr.2]
    by_cases hprev : r ∈ g.window o m
    · rcases ih hprev hm' with ⟨j, h1, h2, h3⟩ | ⟨j, h1, h2, h3⟩
      · exact .inl ⟨j, h1, by omega, h3⟩
      · exact .inr ⟨j, h1, by omega, h3⟩
    · refine .inr ⟨o + m - 1, by omega, by omega, ?_, ?_⟩
      all_goals
        rw [mem_window] at hprev
        push_cast [Nat.cast_sub (show 1 ≤ o + m by omega)] at hlast hprev ⊢
        push Not at hlast hprev
        have := hprev hr.1
        linarith

/-- The windows of single output rows lie in the window of all of them. -/
theorem window_subset {j : ℕ} (hlo : o ≤ j) (hhi : j < o + m) : g.window j 1 ⊆ g.window o m := by
  intro r hr
  rw [mem_window] at hr ⊢
  have h1 : (o : ℤ) * g.s ≤ j * g.s := by gcongr
  have h2 : (j : ℤ) * g.s ≤ (o + m - 1) * g.s :=
    mul_le_mul_of_nonneg_right (by omega) (Int.natCast_nonneg _)
  push_cast at hr
  constructor <;> linarith [hr.1, hr.2]

end Geometry

end Window
