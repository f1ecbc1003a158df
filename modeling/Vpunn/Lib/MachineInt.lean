import Mathlib.Data.Int.ModEq
import Mathlib.Tactic.Ring
import Mathlib.Tactic.Linarith
import Mathlib.Tactic.SplitIfs

/-! 32-bit machine integers as mathematical integers reduced modulo `2^32`.

    `u32` is the value an expression of type `unsigned int` holds, `i32` the value an expression of
    type `int` holds, for an exact integer result `x`. Both depend on `x` only modulo `2^32`, so an
    expression built from `+`, `-` and `*` is computed exactly and reduced once. Signed overflow is
    read as two's-complement wrap-around. -/

namespace MachineInt

/-- The `unsigned int` that an exact result is stored as. -/
def u32 (x : ℤ) : ℕ := (x % 4294967296).toNat

/-- The `int` that an exact result is stored as. -/
def i32 (x : ℤ) : ℤ := (x + 2147483648) % 4294967296 - 2147483648

/-- The values an `int` can hold. -/
def InI32 (x : ℤ) : Prop := -2147483648 ≤ x ∧ x < 2147483648

instance (x : ℤ) : Decidable (InI32 x) := inferInstanceAs (Decidable (_ ∧ _))

theorem i32_inI32 (x : ℤ) : InI32 (i32 x) := by
  unfold InI32 i32; omega

theorem i32_of_inI32 {x : ℤ} (h : InI32 x) : i32 x = x := by
  unfold InI32 at h; unfold i32; omega

theorem i32_of_bounds {x : ℤ} (lo : -2147483648 ≤ x) (hi : x < 2147483648) : i32 x = x :=
  i32_of_inI32 ⟨lo, hi⟩

theorem u32_of_bounds {x : ℤ} (lo : 0 ≤ x) (hi : x < 4294967296) : (u32 x : ℤ) = x := by
  unfold u32; omega

theorem u32_natCast {x : ℕ} (hi : x < 4294967296) : u32 x = x := by
  unfold u32; omega

theorem i32_natCast {x : ℕ} (hi : x < 2147483648) : i32 x = x := by
  unfold i32; omega

theorem u32_lt (x : ℤ) : u32 x < 4294967296 := by
  unfold u32; omega

@[simp] theorem u32_zero : u32 0 = 0 := rfl

@[simp] theorem i32_zero : i32 0 = 0 := rfl

/-- An `int` result, or `none` where it overflows. -/
def checkedI32 (x : ℤ) : Option ℤ := if InI32 x then some x else none

theorem checkedI32_eq_some_iff {x y : ℤ} : checkedI32 x = some y ↔ InI32 x ∧ x = y := by
  unfold checkedI32
  split_ifs with h <;> simp [h]

/-! ### Reduction is compatible with the ring operations -/

theorem i32_modEq (x : ℤ) : i32 x ≡ x [ZMOD 4294967296] := by
  unfold Int.ModEq i32; omega

theorem i32_eq_iff {x y : ℤ} : i32 x = i32 y ↔ x ≡ y [ZMOD 4294967296] := by
  unfold Int.ModEq i32; omega

@[simp] theorem i32_i32 (x : ℤ) : i32 (i32 x) = i32 x := i32_of_inI32 (i32_inI32 x)

@[simp] theorem i32_i32_add (x y : ℤ) : i32 (i32 x + y) = i32 (x + y) :=
  i32_eq_iff.mpr ((i32_modEq x).add_right y)

@[simp] theorem i32_i32_mul (x y : ℤ) : i32 (i32 x * y) = i32 (x * y) :=
  i32_eq_iff.mpr ((i32_modEq x).mul_right y)

@[simp] theorem i32_mul_i32 (x y : ℤ) : i32 (x * i32 y) = i32 (x * y) :=
  i32_eq_iff.mpr ((i32_modEq y).mul_left x)

theorem u32_eq_iff {x y : ℤ} : u32 x = u32 y ↔ x ≡ y [ZMOD 4294967296] := by
  unfold Int.ModEq u32; omega

@[simp] theorem u32_i32_mul (x y : ℤ) : u32 (i32 x * y) = u32 (x * y) :=
  u32_eq_iff.mpr ((i32_modEq x).mul_right y)

@[simp] theorem i32_u32 (x : ℤ) : i32 (u32 x) = i32 x := by
  unfold i32 u32; omega

end MachineInt
