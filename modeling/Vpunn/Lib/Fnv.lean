import Mathlib.Data.Int.ModEq
import Mathlib.Data.Nat.Bitwise
import Mathlib.Tactic.IntervalCases
import Mathlib.Tactic.Linarith
import Mathlib.Tactic.Ring

/-! The 32-bit FNV-1a hash of a sequence of 32-bit words.

    A step folds one byte into the state; for a given byte it is a permutation of the states. So two
    sequences that differ in one word only have different hashes if that word is a single byte, and
    the same holds for two single bytes in a row: the factor that carries the first one spreads it
    over more than the byte that the second one changes. -/

namespace Fnv

def prime : ℕ := 16777619

def offsetBasis : ℕ := 2166136261

/-- One byte. -/
def step (h byte : ℕ) : ℕ := (h ^^^ byte) * prime % 2 ^ 32

/-- One word, from its lowest byte on. -/
def word (h value : ℕ) : ℕ :=
  step (step (step (step h (value &&& 0xFF)) (value >>> 8 &&& 0xFF)) (value >>> 16 &&& 0xFF))
    (value >>> 24)

/-- The words one after the other. -/
def words (h : ℕ) (values : List ℕ) : ℕ := values.foldl word h

theorem step_lt (h byte : ℕ) : step h byte < 2 ^ 32 := Nat.mod_lt _ (by norm_num)

theorem word_lt (h value : ℕ) : word h value < 2 ^ 32 := step_lt _ _

@[simp] theorem words_nil (h : ℕ) : words h [] = h := rfl

@[simp] theorem words_cons (h value : ℕ) (values : List ℕ) :
    words h (value :: values) = words (word h value) values := rfl

theorem words_append (h : ℕ) (xs ys : List ℕ) : words h (xs ++ ys) = words (words h xs) ys :=
  List.foldl_append

/-! ### The state is not lost -/

/-- A power of the prime can be cancelled. -/
theorem mul_prime_pow_inj {x y : ℕ} (n : ℕ) (hx : x < 2 ^ 32) (hy : y < 2 ^ 32)
    (h : x * prime ^ n % 2 ^ 32 = y * prime ^ n % 2 ^ 32) : x = y := by
  have hcoprime : (2 ^ 32).gcd (prime ^ n) = 1 :=
    Nat.Coprime.pow _ _ (by decide)
  have hmod : x ≡ y [MOD 2 ^ 32] := Nat.ModEq.cancel_right_of_coprime hcoprime h
  rwa [Nat.ModEq, Nat.mod_eq_of_lt hx, Nat.mod_eq_of_lt hy] at hmod

theorem step_inj {h h' byte : ℕ} (hh : h < 2 ^ 32) (hh' : h' < 2 ^ 32) (hbyte : byte < 2 ^ 32)
    (heq : step h byte = step h' byte) : h = h' := by
  have hxor : h ^^^ byte = h' ^^^ byte := by
    refine mul_prime_pow_inj 1 (Nat.xor_lt_two_pow hh hbyte) (Nat.xor_lt_two_pow hh' hbyte) ?_
    simpa [step] using heq
  exact Nat.xor_left_injective hxor

theorem and_byte_lt (value : ℕ) : value &&& 0xFF < 2 ^ 32 :=
  Nat.lt_of_le_of_lt Nat.and_le_right (by norm_num)

theorem word_inj {h h' value : ℕ} (hh : h < 2 ^ 32) (hh' : h' < 2 ^ 32) (hvalue : value < 2 ^ 32)
    (heq : word h value = word h' value) : h = h' := by
  have h24 : value >>> 24 < 2 ^ 32 := lt_of_le_of_lt (Nat.shiftRight_le _ _) hvalue
  have h3 := step_inj (step_lt _ _) (step_lt _ _) h24 heq
  have h2 := step_inj (step_lt _ _) (step_lt _ _) (and_byte_lt _) h3
  have h1 := step_inj (step_lt _ _) (step_lt _ _) (and_byte_lt _) h2
  exact step_inj hh hh' (and_byte_lt _) h1

/-- What follows keeps two different states apart. -/
theorem words_inj {values : List ℕ} (hvalues : ∀ v ∈ values, v < 2 ^ 32) {h h' : ℕ}
    (hh : h < 2 ^ 32) (hh' : h' < 2 ^ 32) (heq : words h values = words h' values) : h = h' := by
  induction values generalizing h h' with
  | nil => exact heq
  | cons value values ih =>
    have hvalue : value < 2 ^ 32 := hvalues value List.mem_cons_self
    refine word_inj hh hh' hvalue ?_
    exact ih (fun v hv => hvalues v (List.mem_cons_of_mem value hv)) (word_lt _ _) (word_lt _ _) heq

/-! ### Words of one byte -/

theorem step_zero {h : ℕ} : step h 0 = h * prime % 2 ^ 32 := by rw [step, Nat.xor_zero]

/-- A word of one byte is one byte and three multiplications more. -/
theorem word_of_lt {h byte : ℕ} (hbyte : byte < 256) :
    word h byte = (h ^^^ byte) * prime ^ 4 % 2 ^ 32 := by
  have h0 : byte &&& 0xFF = byte := by
    have := Nat.and_two_pow_sub_one_eq_mod byte 8
    simpa [Nat.mod_eq_of_lt hbyte] using this
  have h8 : byte >>> 8 = 0 := by rw [Nat.shiftRight_eq_div_pow]; omega
  have h16 : byte >>> 16 = 0 := by rw [Nat.shiftRight_eq_div_pow]; omega
  have h24 : byte >>> 24 = 0 := by rw [Nat.shiftRight_eq_div_pow]; omega
  rw [word, h0, h8, h16, h24, Nat.zero_and, step_zero, step_zero, step_zero, step]
  generalize h ^^^ byte = x
  generalize prime = p
  have hpow : x * p ^ 4 = x * p * p * p * p := by ring
  simp only [hpow, Nat.mod_mul_mod]

/-- A byte leaves the higher bits of the state as they are. -/
theorem xor_byte_div {h byte : ℕ} (hbyte : byte < 256) : (h ^^^ byte) / 256 = h / 256 := by
  have hzero : byte / 2 ^ 8 = 0 := by omega
  have := Nat.xor_div_two_pow (a := h) (b := byte) (n := 8)
  rwa [hzero, Nat.xor_zero] at this

/-- Multiples of the factor of a word by less than a byte are not near each other. -/
theorem byte_mul_spread {d : ℕ} (h0 : 0 < d) (h256 : d < 256) :
    256 ≤ d * prime ^ 4 % 2 ^ 32 ∧ d * prime ^ 4 % 2 ^ 32 ≤ 2 ^ 32 - 256 := by
  have h : ∀ e : Fin 256, 0 < e.val →
      256 ≤ e.val * prime ^ 4 % 2 ^ 32 ∧ e.val * prime ^ 4 % 2 ^ 32 ≤ 2 ^ 32 - 256 := by
    decide +kernel
  exact h ⟨d, h256⟩ h0

/-- Two states in one block of 256 are in different blocks after a word of one byte. -/
theorem div_ne_of_ne {x y : ℕ} (hxy : x / 256 = y / 256) (hne : x ≠ y) :
    (x * prime ^ 4 % 2 ^ 32) / 256 ≠ (y * prime ^ 4 % 2 ^ 32) / 256 := by
  wlog hlt : x < y generalizing x y
  · exact (this hxy.symm hne.symm (by omega)).symm
  obtain ⟨d, rfl⟩ : ∃ d, y = x + d := ⟨y - x, by omega⟩
  obtain ⟨hlow, hhigh⟩ := byte_mul_spread (d := d) (by omega) (by omega)
  have hr : x * prime ^ 4 % 2 ^ 32 < 2 ^ 32 := Nat.mod_lt _ (by norm_num)
  rw [add_mul, Nat.add_mod]
  generalize x * prime ^ 4 % 2 ^ 32 = r at hr ⊢
  generalize d * prime ^ 4 % 2 ^ 32 = s at hlow hhigh ⊢
  omega

/-- Two words of one byte are both determined by the state that they lead to. -/
theorem word_word_inj {h p q p' q' : ℕ} (hp : p < 256) (hq : q < 256) (hp' : p' < 256)
    (hq' : q' < 256) (heq : word (word h p) q = word (word h p') q') :
    p = p' ∧ q = q' := by
  rw [word_of_lt hq, word_of_lt hq'] at heq
  have hxor : word h p ^^^ q = word h p' ^^^ q' :=
    mul_prime_pow_inj 4 (Nat.xor_lt_two_pow (word_lt h p) (by omega))
      (Nat.xor_lt_two_pow (word_lt h p') (by omega)) heq
  have hpp : p = p' := by
    by_contra hne
    have hstates : h ^^^ p ≠ h ^^^ p' := fun h' => hne (Nat.xor_right_injective h')
    have hblock : (h ^^^ p) / 256 = (h ^^^ p') / 256 := by
      rw [xor_byte_div hp, xor_byte_div hp']
    refine div_ne_of_ne hblock hstates ?_
    rw [← word_of_lt hp, ← word_of_lt hp', ← xor_byte_div (h := word h p) hq,
      ← xor_byte_div (h := word h p') hq', hxor]
  subst hpp
  exact ⟨rfl, Nat.xor_right_injective hxor⟩

theorem word_byte_inj {h p p' : ℕ} (hp : p < 256) (hp' : p' < 256) (heq : word h p = word h p') :
    p = p' :=
  (@word_word_inj h p 0 p' 0 hp (by norm_num) hp' (by norm_num) (by rw [heq])).1

end Fnv
