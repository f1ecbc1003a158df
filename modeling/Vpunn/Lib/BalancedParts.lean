import Mathlib.Algebra.Order.BigOperators.Group.List
import Mathlib.Algebra.Order.Floor.Div
import Mathlib.Order.Bounds.Basic
import Mathlib.Order.Interval.Set.Defs

/-! Dividing a total into a number of parts from a set of sizes, greedily.

    Each part is the least size from the mean of what is left on. The parts never grow. Where the
    sizes are the multiples of one step in an interval and at most one larger multiple, the division
    succeeds whenever there is any. -/

namespace BalancedParts

/-- A list of a number of members with a total. -/
structure Parts (M : Set ℕ) (bins total : ℕ) (l : List ℕ) : Prop where
  mem : ∀ x ∈ l, x ∈ M
  length_eq : l.length = bins
  sum_eq : l.sum = total

/-- The members from the mean of a total on. -/
def fromMean (M : Set ℕ) (bins total : ℕ) : Set ℕ := {m | m ∈ M ∧ total ≤ bins * m}

/-- The parts that the greedy division makes. -/
inductive Greedy (M : Set ℕ) : ℕ → ℕ → List ℕ → Prop
  | nil : Greedy M 0 0 []
  | cons {bins total x : ℕ} {l : List ℕ} (htotal : 0 < total)
      (hx : IsLeast (fromMean M (bins + 1) total) x) (hle : x ≤ total)
      (hrest : Greedy M bins (total - x) l) : Greedy M (bins + 1) total (x :: l)

variable {M : Set ℕ} {bins total : ℕ} {l : List ℕ}

theorem Greedy.parts (h : Greedy M bins total l) : Parts M bins total l := by
  induction h with
  | nil => exact ⟨by simp, rfl, rfl⟩
  | cons htotal hx hle hrest ih =>
    refine ⟨List.forall_mem_cons.mpr ⟨hx.1.1, ih.mem⟩, by rw [List.length_cons, ih.length_eq], ?_⟩
    rw [List.sum_cons, ih.sum_eq]
    omega

/-- No part exceeds a member that is not below the mean. -/
theorem Greedy.le {y : ℕ} (h : Greedy M bins total l) (hy : y ∈ fromMean M bins total) :
    ∀ x ∈ l, x ≤ y := by
  induction h generalizing y with
  | nil => simp
  | @cons bins total x l htotal hx hle hrest ih =>
    have hxy : x ≤ y := hx.2 hy
    have hmean := hx.1.2
    rw [Nat.succ_mul] at hmean
    have hx' : x ∈ fromMean M bins (total - x) := ⟨hx.1.1, by omega⟩
    exact List.forall_mem_cons.mpr ⟨hxy, fun z hz => (ih hx' z hz).trans hxy⟩

theorem Greedy.pairwise_ge (h : Greedy M bins total l) : l.Pairwise (· ≥ ·) := by
  induction h with
  | nil => exact .nil
  | @cons bins total x l htotal hx hle hrest ih =>
    have hmean := hx.1.2
    rw [Nat.succ_mul] at hmean
    exact List.pairwise_cons.mpr ⟨hrest.le ⟨hx.1.1, by omega⟩, ih⟩

/-- If the greedy choice always leaves something that can be divided, it succeeds. -/
theorem exists_greedy (hpos : ∀ m ∈ M, 0 < m)
    (hstep : ∀ bins total l, Parts M (bins + 1) total l →
      ∃ x l', IsLeast (fromMean M (bins + 1) total) x ∧ x ≤ total ∧ Parts M bins (total - x) l')
    (h : Parts M bins total l) : ∃ l', Greedy M bins total l' := by
  induction bins generalizing total l with
  | zero =>
    obtain ⟨-, hlength, rfl⟩ := h
    rw [List.length_eq_zero_iff.mp hlength]
    exact ⟨[], .nil⟩
  | succ bins ih =>
    obtain ⟨x, l', hx, hle, hparts⟩ := hstep bins total l h
    obtain ⟨l'', hgreedy⟩ := ih hparts
    have := hpos x hx.1.1
    exact ⟨x :: l'', .cons (by omega) hx hle hgreedy⟩

/-! ### An interval and one larger member -/

/-- Every total between the least and the largest is made of members of an interval. -/
theorem exists_parts_Icc {lo hi : ℕ} (hlo : bins * lo ≤ total) (hhi : total ≤ bins * hi) :
    ∃ l, Parts (Set.Icc lo hi) bins total l := by
  induction bins generalizing total with
  | zero => exact ⟨[], by simp, rfl, by simp at hhi; simp [hhi]⟩
  | succ bins ih =>
    have hlohi : lo ≤ hi := Nat.le_of_mul_le_mul_left (hlo.trans hhi) bins.succ_pos
    have hmul : bins * lo ≤ bins * hi := Nat.mul_le_mul_left bins hlohi
    rw [Nat.succ_mul] at hlo hhi
    have hrest : bins * lo ≤ total - max lo (total - bins * hi) := by omega
    obtain ⟨l, hl⟩ := ih hrest (by omega)
    refine ⟨max lo (total - bins * hi) :: l, List.forall_mem_cons.mpr ⟨?_, hl.mem⟩, ?_, ?_⟩
    · exact ⟨le_max_left .., by omega⟩
    · rw [List.length_cons, hl.length_eq]
    · rw [List.sum_cons, hl.sum_eq]
      omega

theorem exists_mem_of_lt_sum {x : ℕ} (h : l.length * x < l.sum) : ∃ y ∈ l, x < y := by
  by_contra hall
  push Not at hall
  have := List.sum_le_card_nsmul l x hall
  rw [smul_eq_mul] at this
  omega

/-- Taking away one of the parts. -/
theorem Parts.erase {x : ℕ} (h : Parts M (bins + 1) total l) (hx : x ∈ l) :
    x ≤ total ∧ Parts M bins (total - x) (l.erase x) := by
  have hsum := List.sum_erase hx
  have hlength := List.length_erase_of_mem hx
  rw [h.length_eq] at hlength
  rw [h.sum_eq] at hsum
  exact ⟨by omega, fun y hy => h.mem y (List.mem_of_mem_erase hy), by omega, by omega⟩

section Interval

variable {lo hi : ℕ} {T : Set ℕ}

/-- The greedy choice from an interval and at most one member above it leaves something that can be
    divided: a mean in the interval leaves a total between the bounds, and a larger one needs the
    member above. -/
theorem Parts.exists_least (hT : T.Subsingleton) (hlo : 0 < lo) (hhi : ∀ t ∈ T, max lo (hi + 1) ≤ t)
    (h : Parts (Set.Icc lo hi ∪ T) (bins + 1) total l) :
    ∃ x l', IsLeast (fromMean (Set.Icc lo hi ∪ T) (bins + 1) total) x ∧ x ≤ total ∧
      Parts (Set.Icc lo hi ∪ T) bins (total - x) l' := by
  have hmem : ∀ y ∈ l, lo ≤ y := by
    intro y hy
    rcases h.mem y hy with hy | hy
    · exact hy.1
    · exact (le_max_left ..).trans (hhi y hy)
  have hlow : (bins + 1) * lo ≤ total := by
    have := List.card_nsmul_le_sum l lo hmem
    rwa [smul_eq_mul, h.length_eq, h.sum_eq] at this
  by_cases hmean : total ≤ (bins + 1) * hi
  · -- The mean is in the interval.
    have hlohi : lo ≤ hi := Nat.le_of_mul_le_mul_left (hlow.trans hmean) bins.succ_pos
    have hne : ∃ x, total ≤ (bins + 1) * x := ⟨hi, hmean⟩
    obtain ⟨x, hx, hleast⟩ : ∃ x, total ≤ (bins + 1) * x ∧ ∀ y, total ≤ (bins + 1) * y → x ≤ y :=
      ⟨Nat.find hne, Nat.find_spec hne, fun y hy => Nat.find_min' hne hy⟩
    have hxhi : x ≤ hi := hleast hi hmean
    have hlox : lo ≤ x := Nat.le_of_mul_le_mul_left (hlow.trans hx) bins.succ_pos
    have hbelow : (bins + 1) * (x - 1) < total := by
      by_contra hge
      have := hleast (x - 1) (by omega)
      omega
    have hmul := Nat.mul_le_mul_left bins hxhi
    have hmul' : bins * lo ≤ bins * x := Nat.mul_le_mul_left bins hlox
    have hxsub : (bins + 1) * (x - 1) + (bins + 1) = (bins + 1) * x := by
      rw [← Nat.mul_succ, Nat.succ_eq_add_one, Nat.sub_add_cancel (by omega)]
    rw [Nat.succ_mul] at hlow
    rw [Nat.succ_mul] at hx hxsub hbelow
    have hrest : bins * lo ≤ total - x := by
      rcases Nat.eq_or_lt_of_le hlox with rfl | hlt
      · omega
      · have : bins * lo ≤ bins * (x - 1) := Nat.mul_le_mul_left bins (by omega)
        omega
    obtain ⟨l', hl'⟩ := exists_parts_Icc hrest (by omega : total - x ≤ bins * hi)
    refine ⟨x, l', ⟨⟨.inl ⟨hlox, hxhi⟩, by rwa [Nat.succ_mul]⟩, fun y hy => hleast y hy.2⟩,
      by omega, ⟨fun y hy => .inl (hl'.mem y hy), hl'.length_eq, hl'.sum_eq⟩⟩
  · -- Only the member above the interval can carry the mean.
    have hlt : l.length * hi < l.sum := by rw [h.length_eq, h.sum_eq]; omega
    obtain ⟨t, ht, hhit⟩ := exists_mem_of_lt_sum hlt
    have htT : t ∈ T := (h.mem t ht).resolve_left fun htI => absurd htI.2 (by omega)
    have hall : ∀ y ∈ l, y ≤ t := by
      intro y hy
      rcases h.mem y hy with hy | hy
      · exact hy.2.trans hhit.le
      · exact (hT hy htT).le
    have htop : total ≤ (bins + 1) * t := by
      have := List.sum_le_card_nsmul l t hall
      rwa [smul_eq_mul, h.length_eq, h.sum_eq] at this
    obtain ⟨hle, hparts⟩ := h.erase ht
    refine ⟨t, l.erase t, ⟨⟨.inr htT, htop⟩, fun y hy => ?_⟩, hle, hparts⟩
    rcases hy.1 with hyI | hyT
    · have := Nat.mul_le_mul_left (bins + 1) hyI.2
      exact absurd hy.2 (by omega)
    · exact (hT htT hyT).le

theorem exists_greedy_interval (hT : T.Subsingleton) (hlo : 0 < lo)
    (hhi : ∀ t ∈ T, max lo (hi + 1) ≤ t) (h : Parts (Set.Icc lo hi ∪ T) bins total l) :
    ∃ l', Greedy (Set.Icc lo hi ∪ T) bins total l' := by
  refine exists_greedy (fun m hm => ?_) (fun _ _ _ h => h.exists_least hT hlo hhi) h
  rcases hm with hm | hm
  · exact hlo.trans_le hm.1
  · exact hlo.trans_le ((le_max_left ..).trans (hhi m hm))

end Interval

/-! ### Multiples of a step -/

section Scale

variable {step : ℕ}

theorem Greedy.scale (hstep : 0 < step) (h : Greedy M bins total l) :
    Greedy ((step * ·) '' M) bins (step * total) (l.map (step * ·)) := by
  have hmean : ∀ bins total m, step * total ≤ bins * (step * m) ↔ total ≤ bins * m := by
    intro bins total m
    rw [Nat.mul_left_comm]
    exact Nat.mul_le_mul_left_iff hstep
  induction h with
  | nil => exact .nil
  | @cons bins total x l htotal hx hle hrest ih =>
    refine .cons (Nat.mul_pos hstep htotal) ⟨⟨⟨x, hx.1.1, rfl⟩, (hmean ..).mpr hx.1.2⟩, ?_⟩
      (Nat.mul_le_mul_left step hle) (by rwa [← Nat.mul_sub])
    rintro _ ⟨⟨y, hy, rfl⟩, hymean⟩
    exact Nat.mul_le_mul_left step (hx.2 ⟨hy, (hmean ..).mp hymean⟩)

theorem Parts.exists_unscaled (h : Parts ((step * ·) '' M) bins total l) :
    ∃ total' l', total = step * total' ∧ Parts M bins total' l' := by
  induction l generalizing bins total with
  | nil =>
    obtain ⟨-, rfl, rfl⟩ := h
    exact ⟨0, [], by simp, by simp, rfl, rfl⟩
  | cons x l ih =>
    obtain ⟨hmem, rfl, rfl⟩ := h
    obtain ⟨⟨y, hy, rfl⟩, hrest⟩ := List.forall_mem_cons.mp hmem
    obtain ⟨total', l', hsum, hparts⟩ := ih ⟨hrest, rfl, rfl⟩
    refine ⟨y + total', y :: l', ?_, List.forall_mem_cons.mpr ⟨hy, hparts.mem⟩, ?_, ?_⟩
    · rw [List.sum_cons, hsum, Nat.mul_add]
    · rw [List.length_cons, List.length_cons, hparts.length_eq]
    · rw [List.sum_cons, hparts.sum_eq]

/-- The greedy division is complete for the multiples of a step in an interval and at most one larger
    multiple. -/
theorem exists_greedy_scaled {lo hi : ℕ} {T : Set ℕ} (hstep : 0 < step) (hT : T.Subsingleton)
    (hlo : 0 < lo) (hhi : ∀ t ∈ T, max lo (hi + 1) ≤ t)
    (hM : M = (step * ·) '' (Set.Icc lo hi ∪ T)) (h : Parts M bins total l) :
    ∃ l', Greedy M bins total l' := by
  subst hM
  obtain ⟨total', l', rfl, hparts⟩ := h.exists_unscaled
  obtain ⟨l'', hgreedy⟩ := exists_greedy_interval hT hlo hhi hparts
  exact ⟨_, hgreedy.scale hstep⟩

/-- The same, for a set that is given by the bounds. -/
theorem exists_greedy_of_mem_iff (lower upper : ℕ) {T : Set ℕ} (hstep : 0 < step)
    (hT : T.Subsingleton) (hT' : ∀ t ∈ T, lower ≤ t ∧ upper < t)
    (hM : ∀ m, m ∈ M ↔ 0 < m ∧ step ∣ m ∧ (lower ≤ m ∧ m ≤ upper ∨ m ∈ T))
    (h : Parts M bins total l) : ∃ l', Greedy M bins total l' := by
  have hlower : ∀ i, lower ⌈/⌉ step ≤ i ↔ lower ≤ step * i := fun i =>
    ceilDiv_le_iff_le_mul hstep
  have hupper : ∀ i, i ≤ upper / step ↔ step * i ≤ upper := fun i => by
    rw [Nat.le_div_iff_mul_le hstep, Nat.mul_comm]
  have hlo : 0 < max 1 (lower ⌈/⌉ step) := by omega
  have hhi : ∀ i ∈ {i | 0 < i ∧ step * i ∈ T},
      max (max 1 (lower ⌈/⌉ step)) (upper / step + 1) ≤ i := by
    rintro i ⟨hi, hiT⟩
    obtain ⟨hlo, hhi⟩ := hT' _ hiT
    have h1 := (hlower i).mpr hlo
    have h2 : ¬ i ≤ upper / step := fun hle => by
      have := (hupper i).mp hle
      omega
    omega
  have hM' : M = (step * ·) '' (Set.Icc (max 1 (lower ⌈/⌉ step)) (upper / step)
      ∪ {i | 0 < i ∧ step * i ∈ T}) := by
    ext m
    rw [hM]
    constructor
    · rintro ⟨hm, ⟨i, rfl⟩, hmem⟩
      have hi : 0 < i := Nat.pos_of_mul_pos_left hm
      refine ⟨i, ?_, rfl⟩
      rcases hmem with ⟨hlo, hhi⟩ | hmem
      · exact .inl ⟨max_le hi ((hlower i).mpr hlo), (hupper i).mpr hhi⟩
      · exact .inr ⟨hi, hmem⟩
    · rintro ⟨i, ⟨hlo, hhi⟩ | ⟨hi, hmem⟩, rfl⟩
      · have hi : 1 ≤ i := (le_max_left ..).trans hlo
        refine ⟨Nat.mul_pos hstep hi, Nat.dvd_mul_right .., .inl ⟨?_, (hupper i).mp hhi⟩⟩
        exact (hlower i).mp ((le_max_right ..).trans hlo)
      · exact ⟨Nat.mul_pos hstep hi, Nat.dvd_mul_right .., .inr hmem⟩
  refine exists_greedy_scaled hstep ?_ hlo hhi hM' h
  intro i hi j hj
  exact Nat.eq_of_mul_eq_mul_left hstep (hT hi.2 hj.2)

end Scale

end BalancedParts
