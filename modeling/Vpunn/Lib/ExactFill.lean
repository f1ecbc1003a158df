import Mathlib.Algebra.GroupWithZero.Nat
import Mathlib.Algebra.Order.BigOperators.Group.List
import Mathlib.Order.Bounds.Basic

/-! Filling a weight exactly, at the least cost.

    Items may be taken any number of times. A table over the weights from `0` on that is closed under
    adding an item, and whose entries come from adding an item to an earlier entry, holds the least
    costs. Where it also records the largest weight that an entry can come from, walking back gives
    one filling among the cheapest: the one that begins with the largest weight, and so on. -/

namespace ExactFill

variable {ι α : Type*}

/-- A list of items with a total weight. -/
structure Fill (items : List ι) (weight : ι → ℕ) (n : ℕ) (σ : List ι) : Prop where
  mem : ∀ b ∈ σ, b ∈ items
  weight_eq : (σ.map weight).sum = n

section Fill

variable {items : List ι} {weight : ι → ℕ} {n : ℕ} {b : ι} {σ : List ι}

theorem Fill.nil : Fill items weight 0 [] := ⟨by simp, rfl⟩

theorem fill_cons_iff : Fill items weight n (b :: σ)
    ↔ b ∈ items ∧ weight b ≤ n ∧ Fill items weight (n - weight b) σ := by
  constructor
  · rintro ⟨hmem, hweight⟩
    obtain ⟨hb, hσ⟩ := List.forall_mem_cons.mp hmem
    rw [List.map_cons, List.sum_cons] at hweight
    exact ⟨hb, by omega, ⟨hσ, by omega⟩⟩
  · rintro ⟨hb, hle, hmem, hweight⟩
    exact ⟨List.forall_mem_cons.mpr ⟨hb, hmem⟩, by rw [List.map_cons, List.sum_cons]; omega⟩

theorem Fill.eq_nil (hpos : ∀ b ∈ items, 0 < weight b) (h : Fill items weight 0 σ) : σ = [] := by
  cases σ with
  | nil => rfl
  | cons c τ =>
    obtain ⟨hc, hle, -⟩ := fill_cons_iff.mp h
    have := hpos c hc
    omega

end Fill

variable [AddCommMonoid α]

/-- The total price of a list of items. -/
def cost (price : ι → α) (σ : List ι) : α := (σ.map price).sum

@[simp] theorem cost_nil (price : ι → α) : cost price [] = 0 := rfl

@[simp] theorem cost_cons (price : ι → α) (b : ι) (σ : List ι) :
    cost price (b :: σ) = price b + cost price σ := by
  simp [cost]

variable [LinearOrder α]

/-- A filling that no other undercuts. -/
structure Cheapest (items : List ι) (weight : ι → ℕ) (price : ι → α) (n : ℕ) (σ : List ι) : Prop
    extends Fill items weight n σ where
  le : ∀ τ, Fill items weight n τ → cost price σ ≤ cost price τ

variable [IsOrderedCancelAddMonoid α] {items : List ι} {weight : ι → ℕ} {price : ι → α}

/-- What remains of a cheapest filling is a cheapest one of what remains. -/
theorem Cheapest.tail {n : ℕ} {b : ι} {σ : List ι} (h : Cheapest items weight price n (b :: σ)) :
    Cheapest items weight price (n - weight b) σ := by
  obtain ⟨hb, hle, hσ⟩ := fill_cons_iff.mp h.toFill
  refine ⟨hσ, fun τ hτ => ?_⟩
  have := h.le (b :: τ) (fill_cons_iff.mpr ⟨hb, hle, hτ⟩)
  rw [cost_cons, cost_cons] at this
  exact le_of_add_le_add_left this

theorem Cheapest.cons_of_tail {n : ℕ} {b : ι} {σ τ : List ι}
    (h : Cheapest items weight price n (b :: σ))
    (hτ : Cheapest items weight price (n - weight b) τ) :
    Cheapest items weight price n (b :: τ) := by
  obtain ⟨hb, hle, hσ⟩ := fill_cons_iff.mp h.toFill
  refine ⟨fill_cons_iff.mpr ⟨hb, hle, hτ.toFill⟩, fun υ hυ => ?_⟩
  refine le_trans ?_ (h.le υ hυ)
  rw [cost_cons, cost_cons]
  gcongr
  exact hτ.le σ hσ

/-! ### Largest first -/

/-- Some cheapest filling takes an item of weight `w`. -/
def StartsCheapest (items : List ι) (weight : ι → ℕ) (price : ι → α) (n w : ℕ) : Prop :=
  ∃ b σ, weight b = w ∧ Cheapest items weight price n (b :: σ)

/-- The weights of the cheapest filling that takes the largest possible weight at each step. -/
inductive LargestFirst (items : List ι) (weight : ι → ℕ) (price : ι → α) : ℕ → List ℕ → Prop
  | nil : LargestFirst items weight price 0 []
  | cons {n w : ℕ} {ws : List ℕ} (h : IsGreatest {w | StartsCheapest items weight price n w} w)
      (hrest : LargestFirst items weight price (n - w) ws) :
      LargestFirst items weight price n (w :: ws)

omit [IsOrderedCancelAddMonoid α] in
theorem not_startsCheapest_zero (hpos : ∀ b ∈ items, 0 < weight b) (w : ℕ) :
    ¬ StartsCheapest items weight price 0 w := by
  rintro ⟨b, σ, -, h⟩
  exact absurd (h.toFill.eq_nil hpos) (by simp)

omit [IsOrderedCancelAddMonoid α] in
theorem LargestFirst.unique (hpos : ∀ b ∈ items, 0 < weight b) {n : ℕ} {ws ws' : List ℕ}
    (h : LargestFirst items weight price n ws) (h' : LargestFirst items weight price n ws') :
    ws = ws' := by
  induction h generalizing ws' with
  | nil =>
    cases h' with
    | nil => rfl
    | cons hw _ => exact absurd hw.1 (not_startsCheapest_zero hpos _)
  | cons hw _ ih =>
    cases h' with
    | nil => exact absurd hw.1 (not_startsCheapest_zero hpos _)
    | cons hw' hrest' =>
      obtain rfl := hw.unique hw'
      rw [ih hrest']

theorem LargestFirst.exists_cheapest (hpos : ∀ b ∈ items, 0 < weight b) {n : ℕ} {ws : List ℕ}
    (h : LargestFirst items weight price n ws) :
    ∃ σ, Cheapest items weight price n σ ∧ σ.map weight = ws := by
  induction h with
  | nil =>
    refine ⟨[], ⟨.nil, fun τ hτ => ?_⟩, rfl⟩
    rw [hτ.eq_nil hpos]
  | cons hw _ ih =>
    obtain ⟨b, σ, rfl, hσ⟩ := hw.1
    obtain ⟨τ, hτ, rfl⟩ := ih
    exact ⟨b :: τ, hσ.cons_of_tail hτ, rfl⟩

theorem LargestFirst.sum_eq (hpos : ∀ b ∈ items, 0 < weight b) {n : ℕ} {ws : List ℕ}
    (h : LargestFirst items weight price n ws) : ws.sum = n := by
  obtain ⟨σ, hσ, rfl⟩ := h.exists_cheapest hpos
  exact hσ.weight_eq

/-! ### Tables of least costs -/

section Reach

/-- The weights that are reached are closed under adding an item, and each comes from an item on an
    earlier one, whose weight is recorded. -/
structure Reach (items : List ι) (weight : ι → ℕ) (bound : ℕ) (reached : ℕ → Prop)
    (pick : ℕ → Option ℕ) : Prop where
  zero : reached 0
  closed : ∀ i, ∀ b ∈ items, i + weight b ≤ bound → reached i → reached (i + weight b)
  picked : ∀ j, 0 < j → reached j → ∃ i, ∃ b ∈ items, i + weight b = j ∧
    pick j = some (weight b) ∧ reached i

omit [AddCommMonoid α] [LinearOrder α] [IsOrderedCancelAddMonoid α]

theorem Reach.reached_of_fill {bound : ℕ} {reached : ℕ → Prop} {pick : ℕ → Option ℕ}
    (h : Reach items weight bound reached pick) {n : ℕ} (hn : n ≤ bound) {σ : List ι}
    (hσ : Fill items weight n σ) : reached n := by
  induction σ generalizing n with
  | nil => rw [← hσ.weight_eq]; exact h.zero
  | cons b σ ih =>
    obtain ⟨hb, hle, hrest⟩ := fill_cons_iff.mp hσ
    have := h.closed _ b hb (by omega) (ih (by omega) hrest)
    rwa [Nat.sub_add_cancel hle] at this

end Reach

/-- Each entry comes from an earlier one and undercuts what comes from smaller ones, and no item
    leads from an entry below another. -/
structure Certificate (items : List ι) (weight : ι → ℕ) (price : ι → α) (bound : ℕ)
    (value : ℕ → Option α) (pick : ℕ → Option ℕ) : Prop where
  zero : value 0 = some 0
  relaxed : ∀ i, ∀ b ∈ items, i + weight b ≤ bound → ∀ v, value i = some v →
    ∃ v', value (i + weight b) = some v' ∧ v' ≤ v + price b
  picked : ∀ j v, 0 < j → value j = some v → ∃ i, ∃ b ∈ items, i + weight b = j ∧
    pick j = some (weight b) ∧ ∃ u, value i = some u ∧ v = u + price b ∧
      ∀ i' < i, ∀ b' ∈ items, i' + weight b' = j → ∀ u', value i' = some u' → v < u' + price b'

namespace Certificate

variable {bound : ℕ} {value : ℕ → Option α} {pick : ℕ → Option ℕ}
  (h : Certificate items weight price bound value pick)
include h

omit [IsOrderedCancelAddMonoid α] in
/-- Every entry is the cost of a filling. -/
theorem exists_fill (hpos : ∀ b ∈ items, 0 < weight b) {n : ℕ} {v : α} (hv : value n = some v) :
    ∃ σ, Fill items weight n σ ∧ cost price σ = v := by
  induction n using Nat.strong_induction_on generalizing v with
  | _ n ih =>
    rcases Nat.eq_zero_or_pos n with rfl | hn
    · rw [h.zero] at hv
      exact ⟨[], .nil, Option.some.inj hv⟩
    · obtain ⟨i, b, hb, rfl, -, u, hu, rfl, -⟩ := h.picked n v hn hv
      have := hpos b hb
      obtain ⟨σ, hσ, rfl⟩ := ih i (by omega) hu
      refine ⟨b :: σ, fill_cons_iff.mpr ⟨hb, by omega, by rwa [Nat.add_sub_cancel]⟩, ?_⟩
      rw [cost_cons, add_comm]

/-- Every filling has an entry, which does not exceed its cost. -/
theorem exists_le_cost {n : ℕ} (hn : n ≤ bound) {σ : List ι} (hσ : Fill items weight n σ) :
    ∃ v, value n = some v ∧ v ≤ cost price σ := by
  induction σ generalizing n with
  | nil => exact ⟨0, by rw [← hσ.weight_eq]; exact h.zero, le_rfl⟩
  | cons b σ ih =>
    obtain ⟨hb, hle, hrest⟩ := fill_cons_iff.mp hσ
    obtain ⟨u, hu, hule⟩ := ih (by omega) hrest
    obtain ⟨v, hv, hvle⟩ := h.relaxed _ b hb (by omega) u hu
    rw [Nat.sub_add_cancel hle] at hv
    refine ⟨v, hv, hvle.trans ?_⟩
    rw [cost_cons, add_comm]
    gcongr

theorem value_eq_cost (hpos : ∀ b ∈ items, 0 < weight b) {n : ℕ} (hn : n ≤ bound) {σ : List ι}
    (hσ : Cheapest items weight price n σ) : value n = some (cost price σ) := by
  obtain ⟨v, hv, hle⟩ := h.exists_le_cost hn hσ.toFill
  obtain ⟨τ, hτ, rfl⟩ := h.exists_fill hpos hv
  rw [hv, le_antisymm hle (hσ.le τ hτ)]

theorem exists_cheapest (hpos : ∀ b ∈ items, 0 < weight b) {n : ℕ} (hn : n ≤ bound) {v : α}
    (hv : value n = some v) : ∃ σ, Cheapest items weight price n σ ∧ cost price σ = v := by
  obtain ⟨σ, hσ, rfl⟩ := h.exists_fill hpos hv
  refine ⟨σ, ⟨hσ, fun τ hτ => ?_⟩, rfl⟩
  obtain ⟨u, hu, hle⟩ := h.exists_le_cost hn hτ
  rw [hv] at hu
  rwa [Option.some.inj hu]

/-- The recorded weight is the largest that a cheapest filling can take, and leaves an entry. -/
theorem isGreatest_pick (hpos : ∀ b ∈ items, 0 < weight b) {n : ℕ} (hn : n ≤ bound) (hn' : 0 < n)
    {v : α} (hv : value n = some v) :
    ∃ w u, pick n = some w ∧ 0 < w ∧ w ≤ n ∧ value (n - w) = some u ∧
      IsGreatest {w | StartsCheapest items weight price n w} w := by
  obtain ⟨i, b, hb, rfl, hpick, u, hu, rfl, hfirst⟩ := h.picked n v hn' hv
  have hwb := hpos b hb
  have hsub : i + weight b - weight b = i := Nat.add_sub_cancel ..
  refine ⟨weight b, u, hpick, hwb, by omega, by rwa [hsub], ?_, ?_⟩
  · obtain ⟨σ, hσ, rfl⟩ := h.exists_cheapest hpos (by omega : i ≤ bound) hu
    obtain ⟨τ, hτ, hcost⟩ := h.exists_cheapest hpos hn hv
    refine ⟨b, σ, rfl, ⟨fill_cons_iff.mpr ⟨hb, by omega, by rw [hsub]; exact hσ.toFill⟩, ?_⟩⟩
    intro υ hυ
    rw [cost_cons, add_comm, ← hcost]
    exact hτ.le υ hυ
  · rintro _ ⟨b', σ', rfl, hσ'⟩
    by_contra hlt
    obtain ⟨hb', hle, -⟩ := fill_cons_iff.mp hσ'.toFill
    have htail := h.value_eq_cost hpos (by omega) hσ'.tail
    have hall := h.value_eq_cost hpos hn hσ'
    rw [hv, cost_cons, add_comm (price b')] at hall
    have := hfirst _ (by omega) b' hb' (Nat.sub_add_cancel hle) _ htail
    rw [Option.some.inj hall] at this
    exact absurd this (lt_irrefl _)

end Certificate

end ExactFill
