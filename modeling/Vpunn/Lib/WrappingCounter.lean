import Mathlib.Data.Int.GCD
import Mathlib.Tactic.Ring

/-! A counter that wraps around. It starts at its step and advances by it, modulo a power of two or
    any other positive number. Its values are the multiples of the greatest common divisor of the
    two, so it reaches a bound unless the largest of them stays below it. -/

namespace WrappingCounter

variable {step m b k : ℕ}

/-- The value after `k` steps. -/
def value (step m k : ℕ) : ℕ := (k + 1) * step % m

theorem value_succ (step m k : ℕ) : value step m (k + 1) = (value step m k + step) % m := by
  unfold value
  rw [Nat.mod_add_mod, ← Nat.succ_mul]

theorem gcd_dvd_value (step m k : ℕ) : Nat.gcd step m ∣ value step m k :=
  (Nat.dvd_mod_iff (Nat.gcd_dvd_right step m)).mpr
    (Dvd.dvd.mul_left (Nat.gcd_dvd_left step m) (k + 1))

/-- A multiple of a divisor that is below the modulus leaves room for one more. -/
theorem value_add_gcd_le (step : ℕ) (hm : 0 < m) (k : ℕ) : value step m k + Nat.gcd step m ≤ m := by
  obtain ⟨a, ha⟩ := gcd_dvd_value step m k
  obtain ⟨c, hc⟩ := Nat.gcd_dvd_right step m
  have hlt : value step m k < m := Nat.mod_lt _ hm
  generalize Nat.gcd step m = g at ha hc
  rw [ha] at hlt ⊢
  have hac : a < c := Nat.lt_of_mul_lt_mul_left (hc ▸ hlt)
  calc g * a + g = g * (a + 1) := by ring
    _ ≤ g * c := Nat.mul_le_mul_left g hac
    _ = m := hc.symm

/-- The largest multiple is reached. -/
theorem exists_value_add_gcd_eq (step : ℕ) (hm : 0 < m) : ∃ k, value step m k + Nat.gcd step m = m := by
  rcases (Nat.le_of_dvd hm (Nat.gcd_dvd_right step m)).eq_or_lt with heq | hlt
  · have hdvd : m ∣ value step m 0 := by
      have := gcd_dvd_value step m 0
      rwa [heq] at this
    have hzero : value step m 0 = 0 := Nat.eq_zero_of_dvd_of_lt hdvd (Nat.mod_lt _ hm)
    exact ⟨0, by omega⟩
  · obtain ⟨a, -, ha⟩ := Nat.exists_mul_mod_eq_gcd hlt
    obtain ⟨c, hc⟩ := Nat.gcd_dvd_right step m
    generalize Nat.gcd step m = g at *
    have hg : 0 < g := Nat.pos_of_ne_zero fun h => by simp [h] at hc; omega
    have hc2 : 2 ≤ c := by
      by_contra h
      have : g * c ≤ g * 1 := Nat.mul_le_mul_left g (by omega)
      omega
    have ha0 : 0 < a := Nat.pos_of_ne_zero fun h => by simp [h] at ha; omega
    have hpos : 0 < a * (c - 1) := Nat.mul_pos ha0 (by omega)
    have hsub : g * (c - 1) + g = m := by
      rw [hc, Nat.mul_sub_one]
      have := Nat.mul_le_mul_left g (show 1 ≤ c by omega)
      omega
    refine ⟨a * (c - 1) - 1, ?_⟩
    have hval : value step m (a * (c - 1) - 1) = g * (c - 1) := by
      unfold value
      calc (a * (c - 1) - 1 + 1) * step % m = step * a * (c - 1) % m := by
            rw [Nat.sub_add_cancel hpos]; congr 1; ring
        _ = g * (c - 1) % m := by rw [Nat.mul_mod, ha, Nat.mul_mod_mod]
        _ = g * (c - 1) := Nat.mod_eq_of_lt (by omega)
    rw [hval, hsub]

/-- The counter reaches a bound exactly if there is room for the divisor above it. -/
theorem exists_le_value_iff (step : ℕ) (hm : 0 < m) :
    (∃ k, b ≤ value step m k) ↔ b + Nat.gcd step m ≤ m := by
  constructor
  · rintro ⟨k, hk⟩
    have := value_add_gcd_le step hm k
    omega
  · intro h
    obtain ⟨k, hk⟩ := exists_value_add_gcd_eq step hm
    exact ⟨k, by omega⟩

/-- From a zero on the values repeat. -/
theorem exists_value_eq_of_value_eq_zero (h : value step m k = 0) (j : ℕ) :
    ∃ i ≤ k, value step m j = value step m i := by
  have hj : value step m j = (j + 1) % (k + 1) * step % m := by
    have hdvd : m ∣ (k + 1) * step := Nat.dvd_of_mod_eq_zero h
    unfold value
    conv_lhs => rw [← Nat.div_add_mod (j + 1) (k + 1), Nat.add_mul,
      Nat.mul_comm (k + 1), Nat.mul_assoc]
    rw [Nat.add_mod, Nat.mod_eq_zero_of_dvd (Dvd.dvd.mul_left hdvd _), Nat.zero_add, Nat.mod_mod]
  have hlt : (j + 1) % (k + 1) < k + 1 := Nat.mod_lt _ (Nat.succ_pos k)
  rcases Nat.eq_zero_or_pos ((j + 1) % (k + 1)) with hzero | hpos
  · exact ⟨k, le_refl k, by rw [hj, hzero, h, Nat.zero_mul, Nat.zero_mod]⟩
  · refine ⟨(j + 1) % (k + 1) - 1, by omega, ?_⟩
    rw [hj, value, Nat.sub_add_cancel hpos]

/-- Before a bound that it reaches the counter is positive. -/
theorem value_pos (hb : ∃ j, b ≤ value step m j) (h : ∀ i ≤ k, value step m i < b) :
    0 < value step m k := by
  obtain ⟨j, hj⟩ := hb
  refine Nat.pos_of_ne_zero fun hzero => ?_
  obtain ⟨i, hi, heq⟩ := exists_value_eq_of_value_eq_zero hzero j
  have := h i hi
  omega

end WrappingCounter
