import Mathlib.Algebra.BigOperators.Group.List.Basic
import Vpunn.Lib.Rounding

/-! Cycle counts and error codes in one 32-bit type (`cycles_interface_types.h`), and the conversions
    between them and `float`. -/

namespace Vpunn

namespace Cycles

def maxV : ℕ := 4294967295

def errorInputTooBig : ℕ := maxV - 0
def errorInvalidInputConfiguration : ℕ := maxV - 1
def errorInvalidInputDevice : ℕ := maxV - 2
def errorInvalidInputOperation : ℕ := maxV - 3
def errorInvalidOutputRange : ℕ := maxV - 4
def errorTileOutput : ℕ := maxV - 5
def errorTileSplitZeroCycOutput : ℕ := maxV - 6
def errorTileSplitException : ℕ := maxV - 7
def errorCumulatedCyclesTooLarge : ℕ := maxV - 9
def errorInvalidConversionToCycles : ℕ := maxV - 10
def errorInferenceNotPossible : ℕ := maxV - 12
def errorL2InvalidParameters : ℕ := maxV - 16
def errorProfilingService : ℕ := maxV - 17
def errorCacheMiss : ℕ := maxV - 18
def errorShaveOperatorMissing : ℕ := maxV - 19
def errorNoValidDmaCostProvider : ℕ := maxV - 20
def errorShavePrefetchNotFound : ℕ := maxV - 21
def errorShavePrefetchDeviceNotCovered : ℕ := maxV - 22

def startErrorRange : ℕ := maxV - 1000

/-- Large values are error codes. -/
def isErrorCode (v : ℕ) : Prop := startErrorRange < v

instance (v : ℕ) : Decidable (isErrorCode v) := inferInstanceAs (Decidable (_ < _))

/-- The sum, or the first error; a sum that reaches the error codes is an error of its own. -/
def costAdder (lhs rhs : ℕ) : ℕ :=
  if isErrorCode lhs then lhs
  else if isErrorCode rhs then rhs
  else if maxV - lhs < rhs then errorCumulatedCyclesTooLarge
  else if isErrorCode (lhs + rhs) then errorCumulatedCyclesTooLarge
  else lhs + rhs

theorem costAdder_of_isErrorCode {lhs : ℕ} (h : isErrorCode lhs) (rhs : ℕ) :
    costAdder lhs rhs = lhs := if_pos h

/-- The adder gives an error exactly for an error or a sum in their range, and the sum else. -/
theorem costAdder_spec {lhs : ℕ} (h : ¬ isErrorCode lhs) (rhs : ℕ) :
    (isErrorCode (costAdder lhs rhs) ↔ isErrorCode rhs ∨ startErrorRange < lhs + rhs)
      ∧ (¬ isErrorCode (costAdder lhs rhs) → costAdder lhs rhs = lhs + rhs) := by
  have herror : isErrorCode errorCumulatedCyclesTooLarge := by decide
  unfold costAdder
  rw [if_neg h]
  split_ifs with hrhs hwrap hlarge
  all_goals
    unfold isErrorCode startErrorRange maxV at *
    omega

/-- An error is kept by all further additions. -/
theorem foldl_costAdder_of_isErrorCode (costs : List ℕ) {cost : ℕ} (h : isErrorCode cost) :
    costs.foldl costAdder cost = cost := by
  induction costs with
  | nil => rfl
  | cons c costs ih => rw [List.foldl_cons, costAdder_of_isErrorCode h c]; exact ih

/-- Adding up costs gives an error exactly for an error or a total in their range. -/
theorem foldl_costAdder_spec (costs : List ℕ) {cost : ℕ} (h : ¬ isErrorCode cost) :
    (isErrorCode (costs.foldl costAdder cost)
        ↔ (∃ c ∈ costs, isErrorCode c) ∨ startErrorRange < cost + costs.sum)
      ∧ (¬ isErrorCode (costs.foldl costAdder cost) →
        costs.foldl costAdder cost = cost + costs.sum) := by
  induction costs generalizing cost with
  | nil => exact ⟨by simp [isErrorCode], fun _ => rfl⟩
  | cons c costs ih =>
    obtain ⟨hiff, hsum⟩ := costAdder_spec h c
    rw [List.foldl_cons, List.sum_cons]
    by_cases herror : isErrorCode (costAdder cost c)
    · rw [foldl_costAdder_of_isErrorCode costs herror]
      refine ⟨⟨fun _ => ?_, fun _ => herror⟩, fun hno => absurd herror hno⟩
      rcases hiff.mp herror with hc | hlarge
      · exact .inl ⟨c, List.mem_cons_self, hc⟩
      · exact .inr (by omega)
    · obtain ⟨ihiff, ihsum⟩ := ih herror
      rw [hsum herror] at ihiff ihsum ⊢
      have hc : ¬ isErrorCode c := fun hc => herror (hiff.mpr (.inl hc))
      refine ⟨?_, fun hno => by rw [ihsum hno, add_assoc]⟩
      simp only [ihiff, List.mem_cons, exists_eq_or_imp, hc, false_or, add_assoc]

/-! ### Additions in a row -/

/-- A step that adds an amount to a cost, or ends in an error if it `fails` or the sum is too large.
    An error that it starts from is kept. -/
structure Adds (f : ℕ → ℕ) (fails : Prop) (amount : ℕ) : Prop where
  keeps : ∀ {cost : ℕ}, isErrorCode cost → f cost = cost
  isErrorCode_iff : ∀ {cost : ℕ}, ¬ isErrorCode cost →
    (isErrorCode (f cost) ↔ fails ∨ startErrorRange < cost + amount)
  eq_add : ∀ {cost : ℕ}, ¬ isErrorCode (f cost) → f cost = cost + amount

theorem Adds.nothing : Adds (fun cost => cost) False 0 where
  keeps _ := rfl
  isErrorCode_iff _ := by simp [isErrorCode]
  eq_add _ := rfl

theorem Adds.comp {f g : ℕ → ℕ} {fails fails' : Prop} {amount amount' : ℕ}
    (hg : Adds g fails' amount') (hf : Adds f fails amount) :
    Adds (g ∘ f) (fails ∨ fails') (amount + amount') where
  keeps h := by rw [Function.comp_apply, hf.keeps h, hg.keeps h]
  isErrorCode_iff {cost} h := by
    rw [Function.comp_apply]
    by_cases herror : isErrorCode (f cost)
    · rw [hg.keeps herror]
      refine ⟨fun _ => ?_, fun _ => herror⟩
      rcases (hf.isErrorCode_iff h).mp herror with hfails | hlarge
      · exact .inl (.inl hfails)
      · exact .inr (by omega)
    · have hno : ¬ fails := fun hfails => herror ((hf.isErrorCode_iff h).mpr (.inl hfails))
      rw [hg.isErrorCode_iff herror, hf.eq_add herror, or_iff_right hno, add_assoc]
  eq_add {cost} h := by
    rw [Function.comp_apply] at h ⊢
    have herror : ¬ isErrorCode (f cost) := fun herror => h (by rwa [hg.keeps herror])
    rw [hg.eq_add h, hf.eq_add herror, add_assoc]

/-- Adding a cost that is itself an amount or an error. -/
theorem Adds.costAdder {fails : Prop} {amount added : ℕ}
    (hiff : isErrorCode added ↔ fails ∨ startErrorRange < amount)
    (heq : ¬ isErrorCode added → added = amount) :
    Adds (fun cost => costAdder cost added) fails amount where
  keeps h := costAdder_of_isErrorCode h added
  isErrorCode_iff {cost} h := by
    rw [(costAdder_spec h added).1]
    by_cases herror : isErrorCode added
    · refine ⟨fun _ => ?_, fun _ => .inl herror⟩
      rcases hiff.mp herror with hfails | hlarge
      · exact .inl hfails
      · exact .inr (by omega)
    · have hno : ¬ fails := fun hfails => herror (hiff.mpr (.inl hfails))
      rw [or_iff_right herror, or_iff_right hno, heq herror]
  eq_add {cost} h := by
    have hcost : ¬ isErrorCode cost := fun hcost =>
      h (by rwa [costAdder_of_isErrorCode hcost added])
    obtain ⟨hcosts, hsum⟩ := costAdder_spec hcost added
    rw [hsum h, heq fun herror => h (hcosts.mpr (.inl herror))]

/-- Adding the sum of a list of costs. -/
theorem Adds.costAdder_foldl (costs : List ℕ) :
    Adds (fun cost => Cycles.costAdder cost (costs.foldl Cycles.costAdder 0))
      (∃ c ∈ costs, isErrorCode c) costs.sum := by
  obtain ⟨hiff, hsum⟩ := foldl_costAdder_spec costs (show ¬ isErrorCode 0 by decide)
  rw [zero_add] at hiff hsum
  exact .costAdder hiff hsum

end Cycles

/-! ### Conversions -/

/-- The `float` that an exact result is rounded to. -/
def toFloat (x : ℚ) : ℚ := Rounding.round 24 x

/-- The `uint32_t` that a `float` converts to, undefined out of its range. -/
def floatToU32 (x : ℚ) : Option ℕ :=
  if 0 ≤ ⌊x⌋ ∧ ⌊x⌋ < 4294967296 then some ⌊x⌋.toNat else none

theorem toFloat_mono {x y : ℚ} (hx : 0 ≤ x) (h : x ≤ y) : toFloat x ≤ toFloat y :=
  Rounding.round_mono (by decide) hx h

theorem toFloat_nonneg {x : ℚ} (hx : 0 ≤ x) : 0 ≤ toFloat x :=
  Rounding.round_nonneg (by decide) hx

theorem toFloat_toFloat {x : ℚ} (hx : 0 ≤ x) : toFloat (toFloat x) = toFloat x :=
  Rounding.round_round (by decide) hx

/-! ### Cycles that are kept as a `float` -/

/-- `try_cache`: the cycles of what the cache returned, which is nothing if it had to be converted
    and could not be. -/
def tryCache : Option ℚ → Option ℕ
  | none => some Cycles.errorCacheMiss
  | some cached => floatToU32 cached

/-- What comes back of cycles that were stored. -/
def throughFloat (cycles : ℕ) : ℕ := ⌊toFloat cycles⌋.toNat

open Cycles

/-- Below the error codes a `float` has no value between `2^32 - 1024` and `2^32 - 768`, so what
    comes back is no error code. -/
theorem throughFloat_lt {cycles : ℕ} (h : ¬ isErrorCode cycles) :
    throughFloat cycles < startErrorRange := by
  have hle : (cycles : ℚ) ≤ (4294966295 : ℕ) := by
    exact_mod_cast (show cycles ≤ 4294966295 from not_lt.mp h)
  have hround : toFloat (4294966295 : ℕ) = 4294966272 := by decide +kernel
  have hfloat := toFloat_mono (Nat.cast_nonneg cycles) hle
  rw [hround] at hfloat
  have hfloor : ⌊toFloat cycles⌋ ≤ 4294966272 := by
    rw [← Int.floor_intCast (R := ℚ) 4294966272]
    exact Int.floor_le_floor (by exact_mod_cast hfloat)
  unfold throughFloat startErrorRange maxV
  omega

theorem floatToU32_toFloat {cycles : ℕ} (h : ¬ isErrorCode cycles) :
    floatToU32 (toFloat cycles) = some (throughFloat cycles) := by
  have hnonneg : 0 ≤ ⌊toFloat cycles⌋ := Int.floor_nonneg.mpr (toFloat_nonneg (Nat.cast_nonneg _))
  have hlt := throughFloat_lt h
  unfold throughFloat startErrorRange maxV at hlt
  exact if_pos ⟨hnonneg, by omega⟩

theorem throughFloat_of_le {cycles : ℕ} (h : cycles ≤ 2 ^ 24) : throughFloat cycles = cycles := by
  rw [throughFloat, toFloat, Rounding.round_natCast h (by norm_num), Int.floor_natCast,
    Int.toNat_natCast]

end Vpunn
