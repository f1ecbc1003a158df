import Mathlib.Data.List.Forall2
import Mathlib.Order.RelClasses
import Mathlib.Order.Lattice
import Mathlib.Tactic.SplitIfs

/-! Orders on records that are written field by field.

    A chain `if (!(x == b.x)) return x < b.x;` asks two questions about each field: whether the field
    is equal, so that the next one decides, and which of the two is smaller. Nothing in such a chain
    makes the two answers fit together. They do when the fields are lawful, and then the whole chain
    is lawful again: a strict weak order whose equivalence is the equality of all fields. -/

namespace FieldOrder

/-- The two questions that are asked about one field. -/
structure RecordField (α : Type*) where
  eq : α → α → Bool
  lt : α → α → Bool

namespace RecordField

variable {α β : Type*}

/-- A field that is compared by a linearly ordered key. -/
def ofKey {κ : Type*} [LinearOrder κ] (key : α → κ) : RecordField α where
  eq a b := decide (key a = key b)
  lt a b := decide (key a < key b)

/-- A field of a part. -/
def on (f : RecordField β) (get : α → β) : RecordField α where
  eq a b := f.eq (get a) (get b)
  lt a b := f.lt (get a) (get b)

/-- All fields are equal. -/
def allEqual (fs : List (RecordField α)) (a b : α) : Bool := fs.all fun f => f.eq a b

/-- The first field that is not equal decides. -/
def firstDifference : List (RecordField α) → α → α → Bool
  | [], _, _ => false
  | f :: fs, a, b => if !f.eq a b then f.lt a b else firstDifference fs a b

/-- A chain of fields is a field of a larger record. -/
def chain (fs : List (RecordField α)) : RecordField α := ⟨allEqual fs, firstDifference fs⟩

/-- The order is transitive, and its incomparable pairs are the equal ones, which are an
    equivalence. -/
structure Lawful (f : RecordField α) : Prop where
  equiv : Equivalence fun a b => f.eq a b = true
  eq_iff : ∀ a b, f.eq a b = true ↔ f.lt a b = false ∧ f.lt b a = false
  trans : ∀ a b c, f.lt a b = true → f.lt b c = true → f.lt a c = true

@[simp] theorem ofKey_eq {κ : Type*} [LinearOrder κ] (key : α → κ) (a b : α) :
    (ofKey key).eq a b = decide (key a = key b) := rfl

@[simp] theorem ofKey_lt {κ : Type*} [LinearOrder κ] (key : α → κ) (a b : α) :
    (ofKey key).lt a b = decide (key a < key b) := rfl

@[simp] theorem on_eq (f : RecordField β) (get : α → β) (a b : α) :
    (f.on get).eq a b = f.eq (get a) (get b) := rfl

@[simp] theorem on_lt (f : RecordField β) (get : α → β) (a b : α) :
    (f.on get).lt a b = f.lt (get a) (get b) := rfl

namespace Lawful

variable {f : RecordField α}

theorem irrefl (h : f.Lawful) (a : α) : f.lt a a = false := ((h.eq_iff a a).mp (h.equiv.refl a)).1

theorem not_eq_of_lt (h : f.Lawful) {a b : α} (hab : f.lt a b = true) : ¬ f.eq a b = true := by
  intro heq
  rw [((h.eq_iff a b).mp heq).1] at hab
  exact Bool.noConfusion hab

/-- The order does not see the difference of equal values, on the right and on the left. -/
theorem lt_of_lt_of_eq (h : f.Lawful) {a b c : α} (hab : f.lt a b = true)
    (hbc : f.eq b c = true) : f.lt a c = true := by
  by_contra hac
  rw [Bool.not_eq_true] at hac
  by_cases hca : f.lt c a = true
  · have hcb := h.trans c a b hca hab
    rw [((h.eq_iff b c).mp hbc).2] at hcb
    exact Bool.noConfusion hcb
  · have heq : f.eq a c = true := (h.eq_iff a c).mpr ⟨hac, by simpa using hca⟩
    exact h.not_eq_of_lt hab (h.equiv.trans heq (h.equiv.symm hbc))

theorem lt_of_eq_of_lt (h : f.Lawful) {a b c : α} (hab : f.eq a b = true)
    (hbc : f.lt b c = true) : f.lt a c = true := by
  by_contra hac
  rw [Bool.not_eq_true] at hac
  by_cases hca : f.lt c a = true
  · have hba := h.trans b c a hbc hca
    rw [((h.eq_iff a b).mp hab).2] at hba
    exact Bool.noConfusion hba
  · have heq : f.eq a c = true := (h.eq_iff a c).mpr ⟨hac, by simpa using hca⟩
    exact h.not_eq_of_lt hbc (h.equiv.trans (h.equiv.symm hab) heq)

/-- Asking for the order in both directions is asking for equality first. -/
theorem ask_both (h : f.Lawful) (a b : α) (rest : Bool) :
    (if f.lt a b then true else if f.lt b a then false else rest)
      = if !f.eq a b then f.lt a b else rest := by
  by_cases heq : f.eq a b = true
  · obtain ⟨h1, h2⟩ := (h.eq_iff a b).mp heq
    simp [heq, h1, h2]
  · by_cases hlt : f.lt a b = true
    · simp [heq, hlt]
    · have hgt : f.lt b a = true := by
        by_contra hgt
        exact heq ((h.eq_iff a b).mpr ⟨by simpa using hlt, by simpa using hgt⟩)
      simp [heq, hlt, hgt]

theorem on (h : f.Lawful) (get : β → α) : (f.on get).Lawful where
  equiv := ⟨fun a => h.equiv.refl (get a), fun hab => h.equiv.symm hab,
    fun hab hbc => h.equiv.trans hab hbc⟩
  eq_iff a b := h.eq_iff (get a) (get b)
  trans a b c := h.trans (get a) (get b) (get c)

/-- On any selection of values the order is a strict weak order. -/
theorem isStrictWeakOrder (h : f.Lawful) (get : β → α) :
    IsStrictWeakOrder β fun a b => f.lt (get a) (get b) = true where
  irrefl a := by simp [h.irrefl (get a)]
  trans a b c := h.trans (get a) (get b) (get c)
  incomp_trans a b c := by
    simp only [Bool.not_eq_true, ← h.eq_iff]
    exact h.equiv.trans

end Lawful

theorem lawful_ofKey {κ : Type*} [LinearOrder κ] (key : α → κ) : (ofKey key).Lawful where
  equiv := ⟨fun a => by simp [ofKey], fun {a b} h => by simp_all [ofKey],
    fun {a b c} h h' => by simp_all [ofKey]⟩
  eq_iff a b := by
    simp only [ofKey, decide_eq_true_eq, decide_eq_false_iff_not, not_lt]
    exact ⟨fun h => ⟨h.ge, h.le⟩, fun h => le_antisymm h.2 h.1⟩
  trans a b c := by
    simp only [ofKey, decide_eq_true_eq]
    exact lt_trans

/-! ### Chains -/

@[simp] theorem chain_eq (fs : List (RecordField α)) (a b : α) :
    (chain fs).eq a b = allEqual fs a b := rfl

@[simp] theorem chain_lt (fs : List (RecordField α)) (a b : α) :
    (chain fs).lt a b = firstDifference fs a b := rfl

@[simp] theorem allEqual_nil (a b : α) : allEqual ([] : List (RecordField α)) a b = true := rfl

@[simp] theorem allEqual_cons (f : RecordField α) (fs : List (RecordField α)) (a b : α) :
    allEqual (f :: fs) a b = (f.eq a b && allEqual fs a b) := rfl

theorem firstDifference_cons_of_eq {f : RecordField α} (fs : List (RecordField α)) {a b : α}
    (h : f.eq a b = true) : firstDifference (f :: fs) a b = firstDifference fs a b := by
  rw [firstDifference, h]; rfl

theorem firstDifference_cons_of_ne {f : RecordField α} (fs : List (RecordField α)) {a b : α}
    (h : f.eq a b = false) : firstDifference (f :: fs) a b = f.lt a b := by
  rw [firstDifference, h]; rfl

/-- After the same field, only what happens when it is equal counts. -/
theorem firstDifference_cons_congr {f : RecordField α} {fs gs : List (RecordField α)} {a b : α}
    (h : f.eq a b = true → firstDifference fs a b = firstDifference gs a b) :
    firstDifference (f :: fs) a b = firstDifference (f :: gs) a b := by
  by_cases heq : f.eq a b = true
  · rw [firstDifference_cons_of_eq fs heq, firstDifference_cons_of_eq gs heq, h heq]
  · rw [Bool.not_eq_true] at heq
    rw [firstDifference_cons_of_ne fs heq, firstDifference_cons_of_ne gs heq]

theorem firstDifference_of_allEqual {fs : List (RecordField α)} {a b : α}
    (h : allEqual fs a b = true) : firstDifference fs a b = false := by
  induction fs with
  | nil => rfl
  | cons f fs ih =>
    rw [allEqual_cons, Bool.and_eq_true] at h
    rw [firstDifference_cons_of_eq fs h.1]
    exact ih h.2

/-- A chain of lawful fields is lawful. -/
theorem lawful_chain {fs : List (RecordField α)} (h : ∀ f ∈ fs, f.Lawful) : (chain fs).Lawful := by
  induction fs with
  | nil =>
    refine ⟨⟨fun _ => rfl, fun _ => rfl, fun _ _ => rfl⟩, fun _ _ => ?_, fun _ _ _ hab => ?_⟩
    · exact ⟨fun _ => ⟨rfl, rfl⟩, fun _ => rfl⟩
    · exact Bool.noConfusion hab
  | cons f fs ih =>
    have hf : f.Lawful := h f List.mem_cons_self
    have hfs : (chain fs).Lawful := ih fun g hg => h g (List.mem_cons_of_mem f hg)
    refine ⟨⟨fun a => ?_, fun {a b} hab => ?_, fun {a b c} hab hbc => ?_⟩, fun a b => ?_,
      fun a b c hab hbc => ?_⟩
    · exact Bool.and_eq_true_iff.mpr ⟨hf.equiv.refl a, hfs.equiv.refl a⟩
    · obtain ⟨h1, h2⟩ := Bool.and_eq_true_iff.mp hab
      exact Bool.and_eq_true_iff.mpr ⟨hf.equiv.symm h1, hfs.equiv.symm h2⟩
    · obtain ⟨h1, h2⟩ := Bool.and_eq_true_iff.mp hab
      obtain ⟨h3, h4⟩ := Bool.and_eq_true_iff.mp hbc
      exact Bool.and_eq_true_iff.mpr ⟨hf.equiv.trans h1 h3, hfs.equiv.trans h2 h4⟩
    · change (f.eq a b && allEqual fs a b) = true ↔ firstDifference (f :: fs) a b = false
        ∧ firstDifference (f :: fs) b a = false
      by_cases heq : f.eq a b = true
      · rw [firstDifference_cons_of_eq fs heq, firstDifference_cons_of_eq fs (hf.equiv.symm heq),
          heq, Bool.true_and]
        exact hfs.eq_iff a b
      · have hne : f.eq b a = false := by
          rw [← Bool.not_eq_true]
          exact fun hba => heq (hf.equiv.symm hba)
        rw [Bool.not_eq_true] at heq
        rw [firstDifference_cons_of_ne fs heq, firstDifference_cons_of_ne fs hne, ← hf.eq_iff, heq]
        simp
    · change firstDifference (f :: fs) a b = true at hab
      change firstDifference (f :: fs) b c = true at hbc
      change firstDifference (f :: fs) a c = true
      -- The pair that differs first decides for the outer pair; if both are equal, so is that one.
      by_cases heab : f.eq a b = true <;> by_cases hebc : f.eq b c = true
      · rw [firstDifference_cons_of_eq fs heab] at hab
        rw [firstDifference_cons_of_eq fs hebc] at hbc
        rw [firstDifference_cons_of_eq fs (hf.equiv.trans heab hebc)]
        exact hfs.trans a b c hab hbc
      · rw [firstDifference_cons_of_ne fs (by simpa using hebc)] at hbc
        have hac := hf.lt_of_eq_of_lt heab hbc
        rw [firstDifference_cons_of_ne fs (by simpa using hf.not_eq_of_lt hac)]
        exact hac
      · rw [firstDifference_cons_of_ne fs (by simpa using heab)] at hab
        have hac := hf.lt_of_lt_of_eq hab hebc
        rw [firstDifference_cons_of_ne fs (by simpa using hf.not_eq_of_lt hac)]
        exact hac
      · rw [firstDifference_cons_of_ne fs (by simpa using heab)] at hab
        rw [firstDifference_cons_of_ne fs (by simpa using hebc)] at hbc
        have hac := hf.trans a b c hab hbc
        rw [firstDifference_cons_of_ne fs (by simpa using hf.not_eq_of_lt hac)]
        exact hac

/-! ### Lists -/

/-- Lists are equal element by element. -/
def listEq (f : RecordField α) : List α → List α → Bool
  | [], [] => true
  | a :: as, b :: bs => f.eq a b && listEq f as bs
  | _, _ => false

/-- The lexicographic comparison, which asks for each pair of elements in both directions. -/
def listLt (f : RecordField α) : List α → List α → Bool
  | _, [] => false
  | [], _ :: _ => true
  | a :: as, b :: bs => if f.lt a b then true else if f.lt b a then false else listLt f as bs

/-- A field that is a list. -/
def list (f : RecordField α) : RecordField (List α) := ⟨listEq f, listLt f⟩

variable {f : RecordField α}

@[simp] theorem list_eq (as bs : List α) : (list f).eq as bs = listEq f as bs := rfl

@[simp] theorem list_lt (as bs : List α) : (list f).lt as bs = listLt f as bs := rfl

theorem listEq_iff {as bs : List α} :
    listEq f as bs = true ↔ List.Forall₂ (fun a b => f.eq a b = true) as bs := by
  induction as generalizing bs with
  | nil => cases bs <;> simp [listEq]
  | cons a as ih => cases bs <;> simp [listEq, ih]

/-- If elements are compared by a key, then so are lists. -/
theorem listEq_iff_map {κ : Type*} {key : α → κ} (h : ∀ a b, f.eq a b = true ↔ key a = key b)
    {as bs : List α} : listEq f as bs = true ↔ as.map key = bs.map key := by
  induction as generalizing bs with
  | nil => cases bs <;> simp [listEq]
  | cons a as ih => cases bs <;> simp [listEq, h, ih]

theorem Lawful.listLt_cons_of_eq (h : f.Lawful) {a b : α} (heq : f.eq a b = true)
    (as bs : List α) : listLt f (a :: as) (b :: bs) = listLt f as bs := by
  rw [listLt, h.ask_both, heq]; rfl

theorem Lawful.listLt_cons_of_ne (h : f.Lawful) {a b : α} (hne : ¬ f.eq a b = true)
    (as bs : List α) : listLt f (a :: as) (b :: bs) = f.lt a b := by
  rw [listLt, h.ask_both]; simp [hne]

theorem Lawful.listEq_iff_not_listLt (h : f.Lawful) (as bs : List α) :
    listEq f as bs = true ↔ listLt f as bs = false ∧ listLt f bs as = false := by
  induction as generalizing bs with
  | nil => cases bs <;> simp [listEq, listLt]
  | cons a as ih =>
    cases bs with
    | nil => simp [listEq, listLt]
    | cons b bs =>
      by_cases heq : f.eq a b = true
      · rw [h.listLt_cons_of_eq heq, h.listLt_cons_of_eq (h.equiv.symm heq), ← ih, listEq, heq,
          Bool.true_and]
      · have hne : ¬ f.eq b a = true := fun hba => heq (h.equiv.symm hba)
        rw [h.listLt_cons_of_ne heq, h.listLt_cons_of_ne hne, ← h.eq_iff, listEq]
        simp [heq]

theorem Lawful.listLt_trans (h : f.Lawful) (as bs cs : List α) (hab : listLt f as bs = true)
    (hbc : listLt f bs cs = true) : listLt f as cs = true := by
  induction as generalizing bs cs with
  | nil =>
    cases cs with
    | nil => cases bs <;> exact Bool.noConfusion hbc
    | cons c cs => rfl
  | cons a as ih =>
    cases bs with
    | nil => exact Bool.noConfusion hab
    | cons b bs =>
      cases cs with
      | nil => exact Bool.noConfusion hbc
      | cons c cs =>
        by_cases heab : f.eq a b = true <;> by_cases hebc : f.eq b c = true
        · rw [h.listLt_cons_of_eq heab] at hab
          rw [h.listLt_cons_of_eq hebc] at hbc
          rw [h.listLt_cons_of_eq (h.equiv.trans heab hebc)]
          exact ih bs cs hab hbc
        · rw [h.listLt_cons_of_ne hebc] at hbc
          have hac := h.lt_of_eq_of_lt heab hbc
          rwa [h.listLt_cons_of_ne (h.not_eq_of_lt hac)]
        · rw [h.listLt_cons_of_ne heab] at hab
          have hac := h.lt_of_lt_of_eq hab hebc
          rwa [h.listLt_cons_of_ne (h.not_eq_of_lt hac)]
        · rw [h.listLt_cons_of_ne heab] at hab
          rw [h.listLt_cons_of_ne hebc] at hbc
          have hac := h.trans a b c hab hbc
          rwa [h.listLt_cons_of_ne (h.not_eq_of_lt hac)]

/-- The lexicographic order of a lawful field is lawful. -/
theorem Lawful.list (h : f.Lawful) : (list f).Lawful where
  equiv := by
    simp only [list_eq, listEq_iff]
    refine ⟨fun as => List.forall₂_same.mpr fun a _ => h.equiv.refl a,
      fun hab => (hab.imp fun _ _ => h.equiv.symm).flip, fun {as bs cs} hab hbc => ?_⟩
    induction hab generalizing cs with
    | nil => exact hbc
    | cons hhead _ ih =>
      cases hbc with
      | cons hhead' htail => exact .cons (h.equiv.trans hhead hhead') (ih htail)
  eq_iff := h.listEq_iff_not_listLt
  trans := h.listLt_trans

/-- Asking for the order of two lists in both directions is asking for equality first. -/
theorem Lawful.listLt_ask_both (h : f.Lawful) (as bs : List α) (rest : Bool) :
    (if listLt f as bs then true else if listLt f bs as then false else rest)
      = if !listEq f as bs then listLt f as bs else rest :=
  h.list.ask_both as bs rest

/-- The same for the values of a key. -/
theorem ofKey_ask_both {κ : Type*} [LinearOrder κ] (x y : κ) (rest : Bool) :
    (if x < y then true else if y < x then false else rest)
      = if !decide (x = y) then decide (x < y) else rest := by
  have h := (lawful_ofKey fun z : κ => z).ask_both x y rest
  simp only [ofKey_lt, ofKey_eq, decide_eq_true_eq] at h
  exact h

end RecordField

end FieldOrder
