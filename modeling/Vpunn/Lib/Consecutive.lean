import Mathlib.Algebra.BigOperators.Group.List.Basic
import Mathlib.Algebra.Ring.Nat
import Mathlib.Data.Nat.Notation

/-! Cutting a stretch of positions into consecutive pieces.

    `Consecutive size P start xs stop` says that the pieces `xs`, laid one after the other from
    position `start`, end at `stop`, and that each piece satisfies `P` at the position where it
    begins. -/

/-- Pieces that follow each other without gap or overlap. -/
inductive Consecutive {α : Type*} (size : α → ℕ) (P : ℕ → α → Prop) : ℕ → List α → ℕ → Prop where
  | nil (start : ℕ) : Consecutive size P start [] start
  | cons {start stop : ℕ} {x : α} {xs : List α} (head : P start x)
      (tail : Consecutive size P (start + size x) xs stop) :
      Consecutive size P start (x :: xs) stop

namespace Consecutive

variable {α : Type*} {size : α → ℕ} {P Q : ℕ → α → Prop} {start stop : ℕ} {xs : List α}

/-- Where piece `i` begins when the first one begins at `0`. -/
def offset (size : α → ℕ) (xs : List α) (i : ℕ) : ℕ := ((xs.take i).map size).sum

theorem offset_zero : offset size xs 0 = 0 := by simp [offset]

theorem offset_cons_succ (x : α) (i : ℕ) :
    offset size (x :: xs) (i + 1) = size x + offset size xs i := by
  simp [offset]

theorem offset_succ {i : ℕ} (hi : i < xs.length) :
    offset size xs (i + 1) = offset size xs i + size xs[i] := by
  unfold offset
  rw [List.take_succ_eq_append_getElem hi, List.map_append, List.sum_append]
  simp

theorem offset_mono {i j : ℕ} (h : i ≤ j) : offset size xs i ≤ offset size xs j := by
  induction h with
  | refl => exact Nat.le_refl _
  | @step j _ ih =>
    rcases Nat.lt_or_ge j xs.length with hj | hj
    · rw [offset_succ hj]; omega
    · simpa [offset, List.take_of_length_le hj, List.take_of_length_le (Nat.le_succ_of_le hj)]
        using ih

/-- The sizes add up to the length of the stretch. -/
theorem sum_eq (h : Consecutive size P start xs stop) : start + (xs.map size).sum = stop := by
  induction h with
  | nil => simp
  | cons _ _ ih => simp only [List.map_cons, List.sum_cons]; omega

/-- Each piece has its property at the place where it lies. -/
theorem get (h : Consecutive size P start xs stop) :
    ∀ (i : ℕ) (hi : i < xs.length), P (start + offset size xs i) xs[i] := by
  induction h with
  | nil => intro i hi; simp at hi
  | cons head _ ih =>
    intro i hi
    cases i with
    | zero => simpa [offset_zero] using head
    | succ i =>
      have := ih i (by simpa using hi)
      rw [offset_cons_succ, ← Nat.add_assoc]
      simpa using this

theorem mono (h : Consecutive size P start xs stop)
    (himp : ∀ o x, start ≤ o → o + size x ≤ stop → P o x → Q o x) :
    Consecutive size Q start xs stop := by
  induction h with
  | nil => exact .nil _
  | cons head tail ih =>
    have hsum := tail.sum_eq
    refine .cons (himp _ _ (Nat.le_refl _) (by omega) head) (ih ?_)
    intro o x ho hle
    exact himp o x (by omega) hle

theorem forall_mem {R : α → Prop} (h : Consecutive size P start xs stop)
    (himp : ∀ o x, o + size x ≤ stop → P o x → R x) : ∀ x ∈ xs, R x := by
  intro x hx
  obtain ⟨i, hi, rfl⟩ := List.getElem_of_mem hx
  exact (h.mono (Q := fun _ x => R x) fun o x _ => himp o x).get i hi

/-- Every position of the stretch lies in some piece. -/
theorem cover (h : Consecutive size P start xs stop) {c : ℕ} (lo : start ≤ c) (hi : c < stop) :
    ∃ (i : ℕ) (hi : i < xs.length), start + offset size xs i ≤ c ∧
      c < start + offset size xs i + size xs[i] := by
  induction h with
  | nil => omega
  | @cons start stop x xs head tail ih =>
    rcases Nat.lt_or_ge c (start + size x) with hc | hc
    · exact ⟨0, by simp, by simp [offset_zero, lo], by simpa [offset_zero] using hc⟩
    · obtain ⟨i, hi', hlo, hhi⟩ := ih hc hi
      refine ⟨i + 1, by simpa using hi', ?_, ?_⟩
      · rw [offset_cons_succ]; omega
      · simp only [offset_cons_succ, List.getElem_cons_succ]; omega

/-- Pieces of length `d`, but for a shorter last one, begin at the multiples of `d`: what holds of all
    of them is said by what holds at these positions. -/
theorem forall_mem_iff {R : α → Prop} {S : ℕ → Prop} {d : ℕ} (h : Consecutive size P 0 xs stop)
    (hpiece : ∀ o x, o + size x ≤ stop → P o x → 0 < size x → d ∣ o ∧ size x ≤ d ∧ (R x ↔ S o))
    (hempty : ∀ o x, P o x → size x = 0 → R x) :
    (∀ x ∈ xs, R x) ↔ ∀ i, i * d < stop → S (i * d) := by
  constructor
  · intro hall i hi
    obtain ⟨j, hj, hlo, hhi⟩ := h.cover (Nat.zero_le _) hi
    have hend := (h.mono (Q := fun o x => P o x ∧ o + size x ≤ stop)
      fun o x _ hle hx => ⟨hx, hle⟩).get j hj
    simp only [Nat.zero_add] at hlo hhi hend
    obtain ⟨⟨k, hk⟩, hsize, hiff⟩ := hpiece _ _ hend.2 hend.1 (by omega)
    have hik : k = i := by
      rw [hk, Nat.mul_comm i d] at hlo hhi
      have hle : k ≤ i := Nat.le_of_mul_le_mul_left hlo (by omega)
      have hlt : i < k + 1 := by
        refine Nat.lt_of_mul_lt_mul_left (a := d) ?_
        rw [Nat.mul_succ]
        omega
      omega
    rw [← hik, Nat.mul_comm, ← hk]
    exact hiff.mp (hall _ (List.getElem_mem hj))
  · intro hall
    refine h.forall_mem fun o x hle hx => ?_
    rcases Nat.eq_zero_or_pos (size x) with h0 | hpos
    · exact hempty o x hx h0
    · obtain ⟨⟨k, rfl⟩, -, hiff⟩ := hpiece o x hle hx hpos
      rw [Nat.mul_comm] at hiff hle
      exact hiff.mpr (hall k (by omega))

/-- Pieces without length can be dropped. -/
theorem filter (keep : α → Bool) (h : Consecutive size P start xs stop)
    (hdrop : ∀ o x, o + size x ≤ stop → P o x → keep x = false → size x = 0) :
    Consecutive size (fun o x => P o x ∧ keep x = true) start (xs.filter keep) stop := by
  induction h with
  | nil => exact .nil _
  | @cons start stop x xs head tail ih =>
    have ih := ih hdrop
    have hsum := tail.sum_eq
    cases hx : keep x with
    | true =>
      rw [List.filter_cons_of_pos hx]
      exact .cons ⟨head, hx⟩ ih
    | false =>
      rw [List.filter_cons_of_neg (by simp [hx])]
      simpa [hdrop start x (by omega) head hx] using ih

/-- Pieces can be changed in place when neither length nor property is lost. -/
theorem map {β : Type*} {sizeB : β → ℕ} {R : ℕ → β → Prop} (f : α → β)
    (h : Consecutive size P start xs stop) (hsize : ∀ x, sizeB (f x) = size x)
    (hf : ∀ o x, P o x → R o (f x)) : Consecutive sizeB R start (xs.map f) stop := by
  induction h with
  | nil => exact .nil _
  | cons head _ ih => exact .cons (hf _ _ head) (by simpa only [hsize] using ih)

theorem append {stop' : ℕ} {ys : List α} (h : Consecutive size P start xs stop)
    (h' : Consecutive size P stop ys stop') : Consecutive size P start (xs ++ ys) stop' := by
  induction h with
  | nil => exact h'
  | cons head _ ih => exact .cons head (ih h')

/-! ### Chunks -/

/-- The length of chunk `i` of a stretch that is cut at the multiples of `d`. -/
def chunk (d total i : ℕ) : ℕ := min d (total - i * d)

theorem add_chunk (d total i : ℕ) :
    min total (i * d) + chunk d total i = min total ((i + 1) * d) := by
  unfold chunk
  rw [Nat.succ_mul]
  omega

/-- What is left after the chunks up to `i`. -/
theorem sub_chunk (d total i : ℕ) :
    total - i * d - chunk d total i = total - (i + 1) * d := by
  unfold chunk
  rw [Nat.succ_mul]
  omega

theorem ite_eq_chunk {d total i : ℕ} :
    (if d < total - i * d then d else total - i * d) = chunk d total i := by
  unfold chunk
  split <;> omega

theorem chunk_pos_iff {d total i : ℕ} : 0 < chunk d total i ↔ 0 < d ∧ i * d < total := by
  unfold chunk
  omega

theorem chunk_dvd {d total i g : ℕ} (hd : g ∣ d) (htotal : g ∣ total) : g ∣ chunk d total i := by
  unfold chunk
  rcases Nat.le_total d (total - i * d) with h | h
  · rwa [Nat.min_eq_left h]
  · rw [Nat.min_eq_right h]
    exact Nat.dvd_sub htotal (hd.mul_left i)

/-- A position lies in the chunk that its quotient names. -/
theorem mem_chunk_iff {d total i x : ℕ} (hd : 0 < d) :
    i * d ≤ x ∧ x < i * d + chunk d total i ↔ x < total ∧ x / d = i := by
  rw [Nat.div_eq_iff hd]
  unfold chunk
  have hsucc := Nat.succ_mul i d
  constructor
  · rintro ⟨hle, hlt⟩
    exact ⟨by omega, by omega, by omega⟩
  · rintro ⟨hx, hle, hlt⟩
    exact ⟨by omega, by omega⟩

/-- Only the last chunk reaches the end. -/
theorem chunk_end_iff {d total i n : ℕ} (hi : i * d < total) (hn : ∀ j < n, j * d < total)
    (htotal : total ≤ n * d) : i * d + chunk d total i = total ↔ i + 1 = n := by
  have hend := add_chunk d total i
  rw [Nat.min_eq_right hi.le] at hend
  rw [hend, show min total ((i + 1) * d) = total ↔ total ≤ (i + 1) * d by omega]
  constructor
  · intro hle
    have hge : n ≤ i + 1 := not_lt.mp fun hlt => absurd (hn _ hlt) hle.not_gt
    have hlt : i < n := Nat.lt_of_mul_lt_mul_right (hi.trans_le htotal)
    omega
  · rintro rfl
    exact htotal

/-- Pieces with the lengths of the chunks follow each other. -/
theorem chunks {d total n : ℕ} {f : ℕ → α} (hsize : ∀ i < n, size (f i) = chunk d total i)
    (hP : ∀ i < n, P (min total (i * d)) (f i)) :
    Consecutive size P 0 ((List.range n).map f) (min total (n * d)) := by
  induction n with
  | zero => simpa using Consecutive.nil 0
  | succ n ih =>
    rw [List.range_succ, List.map_append]
    refine (ih (fun i hi => hsize i (by omega)) fun i hi => hP i (by omega)).append ?_
    rw [← add_chunk, ← hsize n (by omega)]
    exact .cons (hP n (by omega)) (.nil _)

end Consecutive
