import Mathlib.Order.Defs.Unbundled
import Mathlib.Order.WithBot
import Mathlib.Data.List.Basic

/-! The first of the smallest elements, under a comparator that is given as a function
    (`std::min_element`). -/

namespace MinElement

variable {α β : Type*} {lt : α → α → Bool} {best : α} {xs : List α}

/-- Keeps the best element so far; a later one replaces it only if it is smaller. -/
def minElement (lt : α → α → Bool) : α → List α → α
  | best, [] => best
  | best, x :: xs => minElement lt (if lt x best then x else best) xs

theorem minElement_mem : minElement lt best xs ∈ best :: xs := by
  induction xs generalizing best with
  | nil => exact List.mem_cons_self
  | cons x xs ih =>
    rw [minElement]
    split_ifs
    · exact List.mem_cons_of_mem best ih
    · rcases List.mem_cons.mp ih with h | h
      · rw [h]
        exact List.mem_cons_self
      · exact List.mem_cons_of_mem best (List.mem_cons_of_mem x h)

/-- A comparator that compares keys. -/
def Compares [LT β] (lt : α → α → Bool) (key : α → β) : Prop :=
  ∀ a b, lt a b = true ↔ key a < key b

section Compares

variable [LinearOrder β] {key : α → β}

/-- Such a comparator is a strict weak order. -/
theorem Compares.isStrictWeakOrder (h : Compares lt key) :
    IsStrictWeakOrder α fun a b => lt a b = true where
  irrefl a ha := lt_irrefl _ ((h a a).mp ha)
  trans a b c hab hbc := (h a c).mpr (((h a b).mp hab).trans ((h b c).mp hbc))
  incomp_trans a b c := by
    simp only [h _ _, not_lt]
    rintro ⟨hba, hab⟩ ⟨hcb, hbc⟩
    exact ⟨hcb.trans hba, hab.trans hbc⟩

/-- No element has a smaller key than the one that is found. -/
theorem Compares.key_minElement_le (h : Compares lt key) {x : α} (hx : x ∈ best :: xs) :
    key (minElement lt best xs) ≤ key x := by
  induction xs generalizing best x with
  | nil => rw [List.mem_singleton.mp hx, minElement]
  | cons y xs ih =>
    have hbest : key (if lt y best then y else best) ≤ key best
        ∧ key (if lt y best then y else best) ≤ key y := by
      by_cases hlt : lt y best = true
      · rw [if_pos hlt]
        exact ⟨((h y best).mp hlt).le, le_rfl⟩
      · rw [if_neg hlt]
        exact ⟨le_rfl, not_lt.mp fun hkey => hlt ((h y best).mpr hkey)⟩
    rw [minElement]
    rcases List.mem_cons.mp hx with rfl | hx
    · exact (ih List.mem_cons_self).trans hbest.1
    · rcases List.mem_cons.mp hx with rfl | hx
      · exact (ih List.mem_cons_self).trans hbest.2
      · exact ih (List.mem_cons_of_mem _ hx)

end Compares

end MinElement
