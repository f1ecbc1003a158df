import Mathlib.Data.List.Basic

/-! Rows of equal length, one after the other in a list. -/

namespace Rows

variable {β : Type*} {size : ℕ}

/-- The row at an index. -/
def rowOf (size r : ℕ) (elements : List β) : List β := (elements.drop (r * size)).take size

theorem rowOf_getElem? {r i : ℕ} (elements : List β) (hi : i < size) :
    (rowOf size r elements)[i]? = elements[r * size + i]? := by
  rw [rowOf, List.getElem?_take_of_lt hi, List.getElem?_drop]

variable {rows : List (List β)} (h : ∀ row ∈ rows, row.length = size)

include h

end Rows
