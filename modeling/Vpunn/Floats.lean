import Vpunn.Cycles

/-! Floating-point results of either sign: the machine gives the `float` or the `double` next to the
    exact one. -/

namespace Vpunn

/-- The `float` next to a number of either sign. -/
def roundFloat (x : ℚ) : ℚ := if x < 0 then -toFloat (-x) else toFloat x

/-- The `double` next to a number of either sign. -/
def roundDouble (x : ℚ) : ℚ := if x < 0 then -Rounding.round 53 (-x) else Rounding.round 53 x

theorem roundFloat_of_nonneg {x : ℚ} (h : 0 ≤ x) : roundFloat x = toFloat x :=
  if_neg (not_lt.mpr h)

theorem roundDouble_of_nonneg {x : ℚ} (h : 0 ≤ x) : roundDouble x = Rounding.round 53 x :=
  if_neg (not_lt.mpr h)

end Vpunn
