import Mathlib.Algebra.BigOperators.Ring.List
import Mathlib.Algebra.Order.Ring.Abs
import Mathlib.Algebra.Order.Monoid.Prod
import Mathlib.Tactic.FieldSimp
import Mathlib.Tactic.Linarith
import Mathlib.Data.Prod.Lex
import Vpunn.Lib.ExactFill
import Vpunn.Tiling.EfficiencyBasedSplitter

/-! When `divideEfficiency` finds the cheapest split.

    The table of least costs is right, for costs that the tolerance tells apart. Behind an unaligned
    target, though, the cost of each prefix is looked up again in the list of blocks, where the first
    block of a size need not be the cheapest. -/

namespace Vpunn
open ExactFill

/-- The size of a block in the tables. -/
abbrev SplitBlock.scaledSize (b : SplitBlock) : ℕ := b.size / 16

namespace EfficiencyBasedSplitter

variable (s : EfficiencyBasedSplitter)

/-! ### What a split should be -/

/-- The least time of the blocks of a size. -/
def cheapestTime (blocks : List SplitBlock) (size : ℕ) : ℕ :=
  ((blocks.filter (·.size = size)).map (·.time)).min?.getD 0

/-- The cost of sizes, with a time for each size. -/
def sizesCost (time : ℕ → ℕ) (overhead : ℚ) (sizes : List ℕ) : ℚ :=
  (sizes.map fun size => (time size : ℚ) + overhead).sum

/-- Sizes of regular blocks that add up to the target, for an unaligned target with one remainder
    block of its residue at the end. -/
def IsSplit (targetSize : ℕ) (sizes : List ℕ) : Prop :=
  sizes.sum = targetSize ∧
    if targetSize % 16 = 0 then ∀ x ∈ sizes, x ∈ s.blocks.map (·.size)
    else ∃ init last, sizes = init ++ [last] ∧ (∀ x ∈ init, x ∈ s.blocks.map (·.size))
      ∧ last ∈ s.remainderBlocks.map (·.size) ∧ last % 16 = targetSize % 16

/-- The cost of a split, each size with its cheapest block. -/
def splitCost (targetSize : ℕ) (sizes : List ℕ) : ℚ :=
  if targetSize % 16 = 0 then sizesCost (cheapestTime s.blocks) s.blockOverhead sizes
  else sizesCost (cheapestTime s.blocks) s.blockOverhead sizes.dropLast
    + sizesCost (cheapestTime s.remainderBlocks) s.blockOverhead sizes.getLast?.toList

/-- A split of the least cost, with the fewest blocks among these. -/
structure IsOptimal (targetSize : ℕ) (sizes : List ℕ) : Prop where
  isSplit : s.IsSplit targetSize sizes
  le : ∀ sizes', s.IsSplit targetSize sizes' →
    toLex (s.splitCost targetSize sizes, sizes.length)
      ≤ toLex (s.splitCost targetSize sizes', sizes'.length)

/-- The cost of a list of blocks. -/
def timeCost (σ : List SplitBlock) : ℚ := (σ.map fun b => (b.time : ℚ) + s.blockOverhead).sum

/-- Regular blocks, with one remainder block at the end or with none. -/
def Combination (σ : List SplitBlock) : Prop :=
  (∀ b ∈ σ, b ∈ s.blocks) ∨
    ∃ ρ, ∃ rem ∈ s.remainderBlocks, σ = ρ ++ [rem] ∧ ∀ b ∈ ρ, b ∈ s.blocks

/-- The tolerance tells all costs apart: of blocks with the same total size, up to the target. -/
def Separated (targetSize : ℕ) : Prop :=
  ∀ σ τ : List SplitBlock, s.Combination σ → s.Combination τ →
    (σ.map (·.size)).sum = (τ.map (·.size)).sum → (σ.map (·.size)).sum ≤ targetSize →
    |s.timeCost σ - s.timeCost τ| ≤ epsilon →
    s.timeCost σ = s.timeCost τ

/-- The cost of a block and its contribution to the count. -/
abbrev price (b : SplitBlock) : ℚ ×ₗ ℕ := toLex ((b.time : ℚ) + s.blockOverhead, 1)

theorem cost_price (σ : List SplitBlock) :
    cost s.price σ = toLex (s.timeCost σ, σ.length) := by
  induction σ with
  | nil => rfl
  | cons b σ ih =>
    have htime : s.timeCost (b :: σ)
        = (b.time : ℚ) + s.blockOverhead + s.timeCost σ := by simp [timeCost]
    rw [cost_cons, ih, htime, List.length_cons, add_comm σ.length]
    rfl

end EfficiencyBasedSplitter

/-! ### The forward pass -/

namespace Tables

/-- The table of least costs. -/
def value (t : Tables) (j : ℕ) : Option (ℚ ×ₗ ℕ) := (t.dynProg j).map toLex

/-- The extensions of a state by a block that have been tried: those of the states before `i`, and
    of the state `i` by the blocks in `done`. -/
def Tried (blocks : List SplitBlock) (i : ℕ) (done : List SplitBlock) (i' : ℕ) (b : SplitBlock) :
    Prop :=
  (i' < i ∧ b ∈ blocks) ∨ (i' = i ∧ b ∈ done)

/-- The state of the forward pass. An extension that was tried has an entry, and each entry comes
    from a block on an earlier entry. If costs are told apart, no extension that was tried undercuts
    an entry, and none from an earlier state equals it. -/
structure Progress (s : EfficiencyBasedSplitter) (bound i : ℕ) (done : List SplitBlock)
    (t : Tables) : Prop where
  zero : t.value 0 = some 0
  realized : ∀ j v, t.value j = some v → j ≤ bound ∧
    ∃ σ, Fill s.blocks SplitBlock.scaledSize j σ ∧ cost s.price σ = v
  relaxed : ∀ i' b, Tried s.blocks i done i' b → i' + b.scaledSize ≤ bound →
    ∀ v, t.value i' = some v → ∃ v', t.value (i' + b.scaledSize) = some v'
      ∧ (s.Separated (16 * bound) → v' ≤ v + s.price b)
  picked : ∀ j v, 0 < j → t.value j = some v → ∃ i' ≤ i, ∃ b ∈ s.blocks,
    i' + b.scaledSize = j ∧ t.choice j = some b.size ∧ ∃ u, t.value i' = some u ∧
      v = u + s.price b ∧ (s.Separated (16 * bound) →
        ∀ i'' < i', ∀ b'' ∈ s.blocks, i'' + b''.scaledSize = j →
          ∀ u'', t.value i'' = some u'' → v < u'' + s.price b'')

section Progress

variable {s : EfficiencyBasedSplitter} {bound : ℕ}

/-- Regular blocks have positive sizes, in steps of 16. -/
def Regular (blocks : List SplitBlock) : Prop := ∀ b ∈ blocks, 0 < b.size ∧ b.size % 16 = 0

theorem Regular.scaledSize_pos (h : Regular s.blocks) : ∀ b ∈ s.blocks, 0 < b.scaledSize := by
  intro b hb
  have := h b hb
  unfold SplitBlock.scaledSize
  omega

theorem Regular.sum_size (h : Regular s.blocks) {n : ℕ} {σ : List SplitBlock}
    (hσ : Fill s.blocks SplitBlock.scaledSize n σ) : (σ.map (·.size)).sum = 16 * n := by
  have hsize : σ.map (·.size) = σ.map fun b => 16 * b.scaledSize := by
    refine List.map_congr_left fun b hb => ?_
    have := h b (hσ.mem b hb)
    unfold SplitBlock.scaledSize
    omega
  rw [hsize, List.sum_map_mul_left, hσ.weight_eq]

theorem Regular.fill_of_sum (hblocks : Regular s.blocks) {n : ℕ} {σ : List SplitBlock}
    (hσ : ∀ b ∈ σ, b ∈ s.blocks) (hsum : (σ.map (·.size)).sum = 16 * n) :
    Fill s.blocks SplitBlock.scaledSize n σ := by
  have hfill : Fill s.blocks SplitBlock.scaledSize _ σ := ⟨hσ, rfl⟩
  have := hblocks.sum_size hfill
  exact ⟨hσ, by omega⟩

theorem Regular.eq_of_scaled (hblocks : Regular s.blocks) {sizes sizes' : List ℕ}
    (hsizes : ∀ x ∈ sizes, x ∈ s.blocks.map (·.size))
    (hsizes' : ∀ x ∈ sizes', x ∈ s.blocks.map (·.size))
    (h : sizes.map (· / 16) = sizes'.map (· / 16)) : sizes = sizes' := by
  have hscale : ∀ l : List ℕ, (∀ x ∈ l, x ∈ s.blocks.map (·.size)) →
      (l.map (· / 16)).map (16 * ·) = l := by
    intro l hl
    rw [List.map_map]
    refine (List.map_congr_left fun x hx => ?_).trans (List.map_id l)
    obtain ⟨b, hb, rfl⟩ := List.mem_map.mp (hl x hx)
    have := (hblocks b hb).2
    simp only [Function.comp_apply, id_eq]
    omega
  rw [← hscale sizes hsizes, h, hscale sizes' hsizes']

theorem Regular.sum_scaled (hblocks : Regular s.blocks) {sizes : List ℕ}
    (hsizes : ∀ x ∈ sizes, x ∈ s.blocks.map (·.size)) :
    16 * (sizes.map (· / 16)).sum = sizes.sum := by
  induction sizes with
  | nil => rfl
  | cons x sizes ih =>
    obtain ⟨hx, hrest⟩ := List.forall_mem_cons.mp hsizes
    obtain ⟨b, hb, rfl⟩ := List.mem_map.mp hx
    have := (hblocks b hb).2
    rw [List.map_cons, List.sum_cons, List.sum_cons, ← ih hrest]
    omega

/-- Where the tolerance tells two costs apart, the test is the order by cost and count. -/
theorem improves_iff {a b : ℚ} {j k : ℕ} (h : |a - b| ≤ epsilon → a = b) :
    improves a j (some (b, k)) = true ↔ toLex (a, j) < toLex (b, k) := by
  have heps : (0 : ℚ) < epsilon := by norm_num [epsilon]
  rw [improves, decide_eq_true_iff, Prod.Lex.toLex_lt_toLex]
  constructor
  · rintro (hlt | ⟨hclose, hcount⟩)
    · exact .inl (by linarith)
    · exact .inr ⟨h hclose, hcount⟩
  · rintro (hlt | ⟨heq, hcount⟩)
    · refine .inl ?_
      by_contra hnot
      have hclose : |a - b| ≤ epsilon := abs_le.mpr ⟨by linarith, by linarith⟩
      exact absurd (h hclose) hlt.ne
    · simp only at heq
      exact .inr ⟨by rw [heq, sub_self, abs_zero]; exact heps.le, hcount⟩

theorem Regular.separated_fill (hblocks : Regular s.blocks) (hsep : s.Separated (16 * bound))
    {n : ℕ} (hn : n ≤ bound) {σ τ : List SplitBlock} (hσ : Fill s.blocks SplitBlock.scaledSize n σ)
    (hτ : Fill s.blocks SplitBlock.scaledSize n τ)
    (hclose : |s.timeCost σ - s.timeCost τ| ≤ epsilon) : s.timeCost σ = s.timeCost τ := by
  refine hsep σ τ (.inl hσ.mem) (.inl hτ.mem) ?_ ?_ hclose
  · rw [hblocks.sum_size hσ, hblocks.sum_size hτ]
  · rw [hblocks.sum_size hσ]
    exact Nat.mul_le_mul_left 16 hn

/-- Trying a block either changes nothing, because it does not fit or does not improve, or enters
    the new cost. -/
theorem tryBlock_cases (overhead : ℚ) (bound : ℕ) {t : Tables} {i : ℕ} {b : SplitBlock}
    (hsize : 0 < b.size) (hmod : b.size % 16 = 0) {c : ℚ} {k : ℕ}
    (hi : t.dynProg i = some (c, k)) :
    (tryBlock overhead bound i t b = t ∧ (i + b.scaledSize ≤ bound →
        improves (c + (b.time + overhead)) (k + 1) (t.dynProg (i + b.scaledSize)) = false))
      ∨ (i + b.scaledSize ≤ bound
        ∧ improves (c + (b.time + overhead)) (k + 1) (t.dynProg (i + b.scaledSize)) = true
        ∧ tryBlock overhead bound i t b =
          ⟨Function.update t.dynProg (i + b.scaledSize) (some (c + (b.time + overhead), k + 1)),
            Function.update t.choice (i + b.scaledSize) (some b.size)⟩) := by
  have hcost : b.efficiency * b.size = b.time := by
    have : (b.size : ℚ) ≠ 0 := by exact_mod_cast hsize.ne'
    rw [SplitBlock.efficiency, div_mul_cancel₀ _ this]
  unfold tryBlock SplitBlock.scaledSize
  rw [if_neg (not_not.mpr hmod), hi]
  simp only [hcost]
  by_cases hfit : i + b.size / 16 ≤ bound
  · rw [if_pos hfit]
    by_cases himp : improves (c + (b.time + overhead)) (k + 1) (t.dynProg (i + b.size / 16)) = true
    · exact .inr ⟨hfit, himp, if_pos himp⟩
    · exact .inl ⟨if_neg himp, fun _ => Bool.eq_false_iff.mpr himp⟩
  · exact .inl ⟨if_neg hfit, fun h => absurd h hfit⟩

variable {i : ℕ} {done : List SplitBlock} {t : Tables}

theorem tried_concat {b b' : SplitBlock} {i' : ℕ} (h : Tried s.blocks i (done ++ [b]) i' b') :
    Tried s.blocks i done i' b' ∨ (i' = i ∧ b' = b) := by
  rcases h with h | ⟨rfl, hmem⟩
  · exact .inl (.inl h)
  · rcases List.mem_append.mp hmem with hmem | hmem
    · exact .inl (.inr ⟨rfl, hmem⟩)
    · exact .inr ⟨rfl, List.mem_singleton.mp hmem⟩

theorem Tried.le {i' : ℕ} {b : SplitBlock} (h : Tried s.blocks i done i' b) : i' ≤ i := by
  rcases h with ⟨hlt, -⟩ | ⟨rfl, -⟩
  · exact hlt.le
  · exact le_rfl

theorem value_eq_some_iff {j : ℕ} {c : ℚ} {k : ℕ} :
    t.value j = some (toLex (c, k)) ↔ t.dynProg j = some (c, k) := by
  unfold value
  exact ⟨fun h => Option.map_injective toLex.injective h, fun h => by rw [h]; rfl⟩

/-- If costs are told apart, the test on a new entry is the order by cost and count. -/
theorem Progress.improves_iff_lt (hblocks : Regular s.blocks) (hsep : s.Separated (16 * bound))
    (h : Progress s bound i done t) {b : SplitBlock} (hb : b ∈ s.blocks) {c : ℚ} {k : ℕ}
    (hi : t.dynProg i = some (c, k)) (hfit : i + b.scaledSize ≤ bound) {v : ℚ ×ₗ ℕ}
    (hv : t.value (i + b.scaledSize) = some v) :
    improves (c + (b.time + s.blockOverhead)) (k + 1) (t.dynProg (i + b.scaledSize)) = true
      ↔ toLex (c, k) + s.price b < v := by
  obtain ⟨-, σ, hσ, hcost⟩ := h.realized i _ (value_eq_some_iff.mpr hi)
  obtain ⟨-, τ, hτ, rfl⟩ := h.realized _ v hv
  have hfill : Fill s.blocks SplitBlock.scaledSize (i + b.scaledSize) (b :: σ) :=
    fill_cons_iff.mpr ⟨hb, by omega, by rwa [Nat.add_sub_cancel]⟩
  have hnewCost : toLex (c, k) + s.price b = cost s.price (b :: σ) := by
    rw [cost_cons, hcost, add_comm]
  have hnew : (c + (b.time + s.blockOverhead), k + 1) = (s.timeCost (b :: σ), (b :: σ).length) := by
    rw [EfficiencyBasedSplitter.cost_price] at hnewCost
    exact toLex.injective hnewCost
  rw [EfficiencyBasedSplitter.cost_price, value_eq_some_iff] at hv
  obtain ⟨htime, hlength⟩ := Prod.ext_iff.mp hnew
  simp only at htime hlength
  rw [hv, htime, hlength, improves_iff (hblocks.separated_fill hsep hfit hfill hτ), hnewCost,
    EfficiencyBasedSplitter.cost_price, EfficiencyBasedSplitter.cost_price]

/-- A block that changes nothing. -/
theorem Progress.keep (h : Progress s bound i done t) {b : SplitBlock}
    (hnew : i + b.scaledSize ≤ bound → ∀ v, t.value i = some v →
      ∃ v', t.value (i + b.scaledSize) = some v'
        ∧ (s.Separated (16 * bound) → v' ≤ v + s.price b)) :
    Progress s bound i (done ++ [b]) t where
  zero := h.zero
  realized := h.realized
  relaxed := by
    intro i' b' htried hfit v hv
    rcases tried_concat htried with htried | ⟨rfl, rfl⟩
    · exact h.relaxed i' b' htried hfit v hv
    · exact hnew hfit v hv
  picked := h.picked

/-- A block that improves the entry above it. -/
theorem Progress.update (hblocks : Regular s.blocks) (h : Progress s bound i done t)
    {b : SplitBlock} (hb : b ∈ s.blocks) {c : ℚ} {k : ℕ} (hi : t.dynProg i = some (c, k))
    (hfit : i + b.scaledSize ≤ bound)
    (himp : improves (c + (b.time + s.blockOverhead)) (k + 1) (t.dynProg (i + b.scaledSize))
      = true) :
    Progress s bound i (done ++ [b])
      ⟨Function.update t.dynProg (i + b.scaledSize)
          (some (c + (b.time + s.blockOverhead), k + 1)),
        Function.update t.choice (i + b.scaledSize) (some b.size)⟩ := by
  have hpos := hblocks.scaledSize_pos b hb
  have hvalue : t.value i = some (toLex (c, k)) := value_eq_some_iff.mpr hi
  obtain ⟨-, σ, hσ, hcost⟩ := h.realized i _ hvalue
  have hfill : Fill s.blocks SplitBlock.scaledSize (i + b.scaledSize) (b :: σ) :=
    fill_cons_iff.mpr ⟨hb, by omega, by rwa [Nat.add_sub_cancel]⟩
  set t' : Tables := ⟨Function.update t.dynProg (i + b.scaledSize)
      (some (c + (b.time + s.blockOverhead), k + 1)),
    Function.update t.choice (i + b.scaledSize) (some b.size)⟩ with ht'
  -- The new entry, and the entries that stay.
  have hself : t'.value (i + b.scaledSize) = some (toLex (c, k) + s.price b) := by
    rw [value, ht']; simp only [Function.update_self]; rfl
  have hother : ∀ j, j ≠ i + b.scaledSize → t'.value j = t.value j := by
    intro j hj
    rw [value, ht']; simp only [Function.update_of_ne hj]; rfl
  -- If costs are told apart, the new entry undercuts the old one.
  have hlt : s.Separated (16 * bound) → ∀ v, t.value (i + b.scaledSize) = some v →
      toLex (c, k) + s.price b < v :=
    fun hsep v hv => (h.improves_iff_lt hblocks hsep hb hi hfit hv).mp himp
  refine ⟨?_, ?_, ?_, ?_⟩
  · rw [hother 0 (by omega)]
    exact h.zero
  · intro j v hv
    by_cases hj : j = i + b.scaledSize
    · subst hj
      rw [hself] at hv
      exact ⟨hfit, b :: σ, hfill, by rw [cost_cons, hcost, add_comm]; exact Option.some.inj hv⟩
    · exact h.realized j v (by rwa [hother j hj] at hv)
  · intro i' b' htried hle v hv
    rcases tried_concat htried with htried | ⟨rfl, rfl⟩
    · have hi' := htried.le
      rw [hother i' (by omega)] at hv
      obtain ⟨v', hv', hle'⟩ := h.relaxed i' b' htried hle v hv
      by_cases hj : i' + b'.scaledSize = i + b.scaledSize
      · rw [hj] at hv' ⊢
        exact ⟨_, hself, fun hsep => (hlt hsep v' hv').le.trans (hle' hsep)⟩
      · exact ⟨v', by rwa [hother _ hj], hle'⟩
    · rw [hother i' (by omega), hvalue] at hv
      obtain rfl := Option.some.inj hv
      exact ⟨_, hself, fun _ => le_rfl⟩
  · intro j v hj hv
    by_cases hjb : j = i + b.scaledSize
    · subst hjb
      rw [hself] at hv
      refine ⟨i, le_rfl, b, hb, rfl, ?_, toLex (c, k), ?_, (Option.some.inj hv).symm, ?_⟩
      · rw [ht']; simp only [Function.update_self]
      · rw [hother i (by omega)]; exact hvalue
      · intro hsep i'' hi'' b'' hb'' hsum u'' hu''
        rw [hother i'' (by omega)] at hu''
        obtain ⟨v', hv', hle'⟩ := h.relaxed i'' b'' (.inl ⟨hi'', hb''⟩) (by omega) u'' hu''
        rw [hsum] at hv'
        rw [← Option.some.inj hv]
        exact (hlt hsep v' hv').trans_le (hle' hsep)
    · rw [hother j hjb] at hv
      obtain ⟨i', hi', b', hb', hsum, hchoice, u, hu, hv', hfirst⟩ := h.picked j v hj hv
      refine ⟨i', hi', b', hb', hsum, ?_, u, by rwa [hother i' (by omega)], hv', ?_⟩
      · rw [ht']; simp only [Function.update_of_ne hjb]; exact hchoice
      · intro hsep i'' hi'' b'' hb'' hsum'' u'' hu''
        rw [hother i'' (by omega)] at hu''
        exact hfirst hsep i'' hi'' b'' hb'' hsum'' u'' hu''

/-- One block. -/
theorem Progress.tryBlock (hblocks : Regular s.blocks) (h : Progress s bound i done t)
    {b : SplitBlock} (hb : b ∈ s.blocks) (hi : t.dynProg i ≠ none) :
    Progress s bound i (done ++ [b]) (tryBlock s.blockOverhead bound i t b)
      ∧ (Tables.tryBlock s.blockOverhead bound i t b).dynProg i ≠ none := by
  obtain ⟨hsize, hmod⟩ := hblocks b hb
  obtain ⟨⟨c, k⟩, hck⟩ := Option.ne_none_iff_exists'.mp hi
  have hvalue : t.value i = some (toLex (c, k)) := value_eq_some_iff.mpr hck
  rcases tryBlock_cases s.blockOverhead bound hsize hmod hck with ⟨heq, hnot⟩ | ⟨hfit, himp, heq⟩
  · rw [heq]
    refine ⟨h.keep fun hfit v hv => ?_, hi⟩
    rw [hvalue] at hv
    obtain rfl := Option.some.inj hv
    have himp := hnot hfit
    cases hentry : t.dynProg (i + b.scaledSize) with
    | none => rw [hentry] at himp; simp [improves] at himp
    | some entry =>
      have hv : t.value (i + b.scaledSize) = some (toLex entry) := value_eq_some_iff.mpr hentry
      refine ⟨_, hv, fun hsep => not_lt.mp fun hlt => ?_⟩
      rw [(h.improves_iff_lt hblocks hsep hb hck hfit hv).mpr hlt] at himp
      exact absurd himp (by decide)
  · rw [heq]
    refine ⟨h.update hblocks hb hck hfit himp, ?_⟩
    have := hblocks.scaledSize_pos b hb
    simp only [Function.update_of_ne (show i ≠ i + b.scaledSize by omega)]
    exact hi

/-- All blocks on one state. -/
theorem Progress.extend (hblocks : Regular s.blocks) (h : Progress s bound i [] t) :
    Progress s bound (i + 1) [] (extend s.blocks s.blockOverhead bound t i) := by
  have hnext : ∀ {t}, Progress s bound i s.blocks t → Progress s bound (i + 1) [] t := by
    rintro t ⟨hzero, hrealized, hrelaxed, hpicked⟩
    refine ⟨hzero, hrealized, fun i' b htried => ?_, fun j v hj hv => ?_⟩
    · rcases htried with ⟨hlt, hb⟩ | ⟨-, hb⟩
      · refine hrelaxed i' b ?_
        rcases Nat.lt_succ_iff_lt_or_eq.mp hlt with hlt | rfl
        · exact .inl ⟨hlt, hb⟩
        · exact .inr ⟨rfl, hb⟩
      · simp at hb
    · obtain ⟨i', hi', hrest⟩ := hpicked j v hj hv
      exact ⟨i', by omega, hrest⟩
  unfold Tables.extend
  split_ifs with hi
  · -- Nothing reaches the state, so it extends to nothing.
    refine hnext ⟨h.zero, h.realized, fun i' b htried hfit v hv => ?_, h.picked⟩
    rcases htried with htried | ⟨rfl, -⟩
    · exact h.relaxed i' b (.inl htried) hfit v hv
    · rw [value, hi] at hv
      simp at hv
  · suffices ∀ (todo done : List SplitBlock) (t : Tables), (∀ b ∈ todo, b ∈ s.blocks) →
        Progress s bound i done t → t.dynProg i ≠ none →
        Progress s bound i (done ++ todo)
          (todo.foldl (Tables.tryBlock s.blockOverhead bound i) t) from
      hnext (this s.blocks [] t (fun _ hb => hb) h hi)
    intro todo
    induction todo with
    | nil => intro done t _ h _; simpa using h
    | cons b todo ih =>
      intro done t hmem h hi
      obtain ⟨hb, hmem⟩ := List.forall_mem_cons.mp hmem
      obtain ⟨hstep, hi'⟩ := h.tryBlock hblocks hb hi
      have := ih (done ++ [b]) _ hmem hstep hi'
      rwa [List.append_assoc, List.singleton_append] at this

theorem progress_init (s : EfficiencyBasedSplitter) (bound : ℕ) :
    Progress s bound 0 [] Tables.init := by
  have hvalue : ∀ j v, Tables.init.value j = some v → j = 0 ∧ v = 0 := by
    intro j v hv
    rcases Nat.eq_zero_or_pos j with rfl | hj
    · exact ⟨rfl, (Option.some.inj hv).symm⟩
    · rw [value, Tables.init] at hv
      simp [Function.update_of_ne hj.ne'] at hv
  refine ⟨rfl, fun j v hv => ?_, fun i' b htried => ?_, fun j v hj hv => ?_⟩
  · obtain ⟨rfl, rfl⟩ := hvalue j v hv
    exact ⟨Nat.zero_le _, [], .nil, rfl⟩
  · rcases htried with ⟨hlt, -⟩ | ⟨-, hb⟩
    · omega
    · simp at hb
  · exact absurd (hvalue j v hv).1 hj.ne'

theorem progress_tables (hblocks : Regular s.blocks) (bound : ℕ) :
    Progress s bound bound [] (s.tables bound) := by
  suffices ∀ n, Progress s bound n [] ((List.range n).foldl
      (Tables.extend s.blocks s.blockOverhead bound) .init) from this bound
  intro n
  induction n with
  | zero => exact progress_init s bound
  | succ n ih =>
    rw [List.range_succ, List.foldl_append]
    exact ih.extend hblocks

/-- The tables are the least costs. -/
theorem certificate_tables (hblocks : Regular s.blocks) (hsep : s.Separated (16 * bound)) :
    Certificate s.blocks SplitBlock.scaledSize s.price bound (s.tables bound).value
      fun j => ((s.tables bound).choice j).map (· / 16) := by
  have h := progress_tables hblocks bound
  refine ⟨h.zero, fun i b hb hfit v hv => ?_, fun j v hj hv => ?_⟩
  · have := hblocks.scaledSize_pos b hb
    obtain ⟨v', hv', hle⟩ := h.relaxed i b (.inl ⟨by omega, hb⟩) hfit v hv
    exact ⟨v', hv', hle hsep⟩
  · obtain ⟨i, -, b, hb, hsum, hchoice, u, hu, hv', hfirst⟩ := h.picked j v hj hv
    exact ⟨i, b, hb, hsum, by rw [hchoice]; rfl, u, hu, hv', hfirst hsep⟩

/-- Whatever the costs are, the tables reach what can be filled. -/
theorem reach_tables (hblocks : Regular s.blocks) :
    Reach s.blocks SplitBlock.scaledSize bound (fun j => (s.tables bound).dynProg j ≠ none)
      fun j => ((s.tables bound).choice j).map (· / 16) := by
  have h := progress_tables hblocks bound
  have hiff : ∀ j, (s.tables bound).dynProg j ≠ none ↔ ∃ v, (s.tables bound).value j = some v := by
    intro j
    rw [Option.ne_none_iff_exists']
    exact ⟨fun ⟨v, hv⟩ => ⟨toLex v, value_eq_some_iff.mpr hv⟩,
      fun ⟨v, hv⟩ => ⟨ofLex v, value_eq_some_iff.mp hv⟩⟩
  refine ⟨(hiff 0).mpr ⟨0, h.zero⟩, fun i b hb hfit hi => ?_, fun j hj hne => ?_⟩
  · have := hblocks.scaledSize_pos b hb
    obtain ⟨v, hv⟩ := (hiff i).mp hi
    obtain ⟨v', hv', -⟩ := h.relaxed i b (.inl ⟨by omega, hb⟩) hfit v hv
    exact (hiff _).mpr ⟨v', hv'⟩
  · obtain ⟨v, hv⟩ := (hiff j).mp hne
    obtain ⟨i, -, b, hb, hsum, hchoice, u, hu, -⟩ := h.picked j v hj hv
    exact ⟨i, b, hb, hsum, by rw [hchoice]; rfl, (hiff i).mpr ⟨u, hu⟩⟩

/-- Walking back from a state that is reached gives its size in blocks; if costs are told apart, the
    ones of the cheapest filling that starts with the largest block. -/
theorem backtrack_spec (hblocks : Regular s.blocks) {fuel n : ℕ} (hfuel : n ≤ fuel)
    (hn : n ≤ bound) (hreach : (s.tables bound).dynProg n ≠ none) :
    ∃ sizes, backtrack (s.tables bound).choice fuel n = some sizes
      ∧ (∀ x ∈ sizes, x ∈ s.blocks.map (·.size)) ∧ sizes.sum = 16 * n
      ∧ (s.Separated (16 * bound) →
        LargestFirst s.blocks SplitBlock.scaledSize s.price n (sizes.map (· / 16))) := by
  induction fuel generalizing n with
  | zero =>
    obtain rfl : n = 0 := by omega
    exact ⟨[], rfl, by simp, rfl, fun _ => .nil⟩
  | succ fuel ih =>
    rcases n with _ | n
    · exact ⟨[], rfl, by simp, rfl, fun _ => .nil⟩
    · obtain ⟨v, hv⟩ := Option.ne_none_iff_exists'.mp hreach
      have hvalue : (s.tables bound).value (n + 1) = some (toLex v) := value_eq_some_iff.mpr hv
      obtain ⟨i, -, b, hb, hsum, hchoice, u, hu, -, -⟩ :=
        (progress_tables hblocks bound).picked _ _ n.succ_pos hvalue
      have hpos := hblocks.scaledSize_pos b hb
      obtain ⟨hsize, hmod⟩ := hblocks b hb
      have hi : n + 1 - b.size / 16 = i := by unfold SplitBlock.scaledSize at hsum; omega
      have hreach' : (s.tables bound).dynProg i ≠ none := by
        rw [Option.ne_none_iff_exists']
        exact ⟨ofLex u, value_eq_some_iff.mp hu⟩
      obtain ⟨sizes, hsizes, hmem, htotal, hlargest⟩ := ih (by omega) (by omega) hreach'
      refine ⟨b.size :: sizes, ?_, ?_, ?_, fun hsep => ?_⟩
      · rw [backtrack, hchoice]
        simp only [Nat.le_zero_eq, hsize.ne', if_false, hi, hsizes, Option.map_some]
      · exact List.forall_mem_cons.mpr ⟨List.mem_map_of_mem hb, hmem⟩
      · rw [List.sum_cons, htotal]
        unfold SplitBlock.scaledSize at hsum
        omega
      · obtain ⟨w, -, hpick, -, -, -, hgreatest⟩ :=
          (certificate_tables hblocks hsep).isGreatest_pick hblocks.scaledSize_pos hn n.succ_pos
            hvalue
        simp only [hchoice, Option.map_some, Option.some.injEq] at hpick
        subst hpick
        exact .cons hgreatest (by rw [hi]; exact hlargest hsep)

end Progress

end Tables

namespace EfficiencyBasedSplitter
open Tables

variable {s : EfficiencyBasedSplitter}

theorem Separated.mono {m n : ℕ} (h : s.Separated n) (hmn : m ≤ n) : s.Separated m :=
  fun σ τ hσ hτ hsum hle hclose => h σ τ hσ hτ hsum (hle.trans hmn) hclose

/-! ### Aligned targets -/

theorem divideAligned_spec (hblocks : Regular s.blocks) {targetSize : ℕ} {sizes : List ℕ}
    (h : s.divideAligned targetSize = some sizes) (hmod : targetSize % 16 = 0) :
    (∀ x ∈ sizes, x ∈ s.blocks.map (·.size)) ∧ sizes.sum = targetSize
      ∧ (s.Separated targetSize → LargestFirst s.blocks SplitBlock.scaledSize s.price
        (targetSize / 16) (sizes.map (· / 16))) := by
  have htarget : 16 * (targetSize / 16) = targetSize := by omega
  simp only [divideAligned] at h
  split_ifs at h with hreach
  obtain ⟨sizes', hsizes', hmem, hsum, hlargest⟩ :=
    backtrack_spec hblocks le_rfl le_rfl hreach
  obtain rfl : sizes' = sizes := Option.some.inj (hsizes'.symm.trans h)
  rw [htarget] at hsum hlargest
  exact ⟨hmem, hsum, hlargest⟩

/-- What can be filled is found. -/
theorem exists_divideAligned (hblocks : Regular s.blocks) {targetSize : ℕ} {σ : List SplitBlock}
    (hσ : Fill s.blocks SplitBlock.scaledSize (targetSize / 16) σ) :
    ∃ sizes, s.divideAligned targetSize = some sizes := by
  have hreach := (reach_tables hblocks).reached_of_fill le_rfl hσ
  obtain ⟨sizes, hsizes, -⟩ := backtrack_spec hblocks le_rfl le_rfl hreach
  exact ⟨sizes, by rw [divideAligned, if_neg hreach]; exact hsizes⟩

/-! ### Sizes and blocks -/

theorem cheapestTime_le {blocks : List SplitBlock} {b : SplitBlock} (hb : b ∈ blocks) :
    cheapestTime blocks b.size ≤ b.time := by
  have hmem : b.time ∈ (blocks.filter (·.size = b.size)).map (·.time) :=
    List.mem_map_of_mem (List.mem_filter.mpr ⟨hb, decide_eq_true rfl⟩)
  obtain ⟨m, hm⟩ := Option.ne_none_iff_exists'.mp
    (fun h => List.ne_nil_of_mem hmem (List.min?_eq_none_iff.mp h))
  rw [cheapestTime, hm]
  exact (List.min?_eq_some_iff.mp hm).2 _ hmem

theorem exists_cheapestTime {blocks : List SplitBlock} {x : ℕ} (hx : x ∈ blocks.map (·.size)) :
    ∃ b ∈ blocks, b.size = x ∧ b.time = cheapestTime blocks x := by
  obtain ⟨b, hb, rfl⟩ := List.mem_map.mp hx
  have hmem : b.time ∈ (blocks.filter (·.size = b.size)).map (·.time) :=
    List.mem_map_of_mem (List.mem_filter.mpr ⟨hb, decide_eq_true rfl⟩)
  obtain ⟨m, hm⟩ := Option.ne_none_iff_exists'.mp
    (fun h => List.ne_nil_of_mem hmem (List.min?_eq_none_iff.mp h))
  obtain ⟨c, hc, htime⟩ := List.mem_map.mp (List.min?_eq_some_iff.mp hm).1
  obtain ⟨hc, hsize⟩ := List.mem_filter.mp hc
  exact ⟨c, hc, of_decide_eq_true hsize, by rw [cheapestTime, hm]; exact htime⟩

theorem sizesCost_cons (time : ℕ → ℕ) (overhead : ℚ) (x : ℕ) (sizes : List ℕ) :
    sizesCost time overhead (x :: sizes) = (time x + overhead) + sizesCost time overhead sizes := by
  simp [sizesCost]

@[simp] theorem timeCost_nil : s.timeCost [] = 0 := rfl

theorem timeCost_cons (b : SplitBlock) (σ : List SplitBlock) :
    s.timeCost (b :: σ) = (b.time + s.blockOverhead) + s.timeCost σ := by
  simp [timeCost]

theorem timeCost_append (σ τ : List SplitBlock) :
    s.timeCost (σ ++ τ) = s.timeCost σ + s.timeCost τ := by
  simp [timeCost]

theorem sizesCost_le_timeCost {blocks σ : List SplitBlock} (hσ : ∀ b ∈ σ, b ∈ blocks) :
    sizesCost (cheapestTime blocks) s.blockOverhead (σ.map (·.size)) ≤ s.timeCost σ := by
  induction σ with
  | nil => exact le_rfl
  | cons b σ ih =>
    obtain ⟨hb, hσ⟩ := List.forall_mem_cons.mp hσ
    have hcheapest : (cheapestTime blocks b.size : ℚ) ≤ b.time := by
      exact_mod_cast cheapestTime_le hb
    rw [List.map_cons, sizesCost_cons, timeCost_cons]
    linarith [ih hσ]

/-- Blocks for the sizes, each with the time of its size. -/
theorem exists_timeCost_eq {blocks : List SplitBlock} {time : ℕ → ℕ} {sizes : List ℕ}
    (hsizes : ∀ x ∈ sizes, ∃ b ∈ blocks, b.size = x ∧ b.time = time x) :
    ∃ σ : List SplitBlock, (∀ b ∈ σ, b ∈ blocks) ∧ σ.map (·.size) = sizes
      ∧ s.timeCost σ = sizesCost time s.blockOverhead sizes := by
  induction sizes with
  | nil => exact ⟨[], by simp, rfl, rfl⟩
  | cons x sizes ih =>
    obtain ⟨⟨b, hb, rfl, htime⟩, hrest⟩ := List.forall_mem_cons.mp hsizes
    obtain ⟨σ, hσ, rfl, hcost⟩ := ih hrest
    refine ⟨b :: σ, List.forall_mem_cons.mpr ⟨hb, hσ⟩, rfl, ?_⟩
    rw [timeCost_cons, sizesCost_cons, hcost, htime]

/-- The sizes of the cheapest filling cost no more than any others of the same total. -/
theorem sizesCost_le_of_largestFirst (hblocks : Regular s.blocks) {n : ℕ} {sizes : List ℕ}
    (h : LargestFirst s.blocks SplitBlock.scaledSize s.price n (sizes.map (· / 16)))
    (hsizes : ∀ x ∈ sizes, x ∈ s.blocks.map (·.size)) {sizes' : List ℕ}
    (hsizes' : ∀ x ∈ sizes', x ∈ s.blocks.map (·.size)) (hsum : sizes'.sum = 16 * n) :
    toLex (sizesCost (cheapestTime s.blocks) s.blockOverhead sizes, sizes.length)
      ≤ toLex (sizesCost (cheapestTime s.blocks) s.blockOverhead sizes', sizes'.length) := by
  obtain ⟨σ, hσ, hmap⟩ := h.exists_cheapest hblocks.scaledSize_pos
  have hmem : ∀ x ∈ σ.map (·.size), x ∈ s.blocks.map (·.size) := by
    intro x hx
    obtain ⟨b, hb, rfl⟩ := List.mem_map.mp hx
    exact List.mem_map_of_mem (hσ.mem b hb)
  obtain rfl : σ.map (·.size) = sizes :=
    hblocks.eq_of_scaled hmem hsizes (by rw [← hmap, List.map_map]; rfl)
  obtain ⟨τ, hτ, rfl, hcost⟩ :=
    exists_timeCost_eq fun x hx => exists_cheapestTime (hsizes' x hx)
  have hle := hσ.le τ (hblocks.fill_of_sum hτ hsum)
  rw [cost_price, cost_price] at hle
  rw [← hcost, List.length_map, List.length_map]
  refine le_trans ?_ hle
  rw [Prod.Lex.toLex_le_toLex]
  rcases (sizesCost_le_timeCost hσ.mem).lt_or_eq with hlt | heq
  · exact .inl hlt
  · exact .inr ⟨heq, le_rfl⟩

/-! ### Overheads that the tolerance suits -/

theorem exists_timeCost_mul_den (σ : List SplitBlock) :
    ∃ m : ℤ, s.timeCost σ * s.blockOverhead.den = m := by
  induction σ with
  | nil => exact ⟨0, by simp⟩
  | cons b σ ih =>
    obtain ⟨m, hm⟩ := ih
    refine ⟨b.time * s.blockOverhead.den + s.blockOverhead.num + m, ?_⟩
    rw [timeCost_cons, add_mul, add_mul, hm, Rat.mul_den_eq_num]
    push_cast
    rfl

/-- The times are whole numbers, so the tolerance tells the costs apart unless the denominator of
    the overhead is very large. -/
theorem separated_of_den (hden : s.blockOverhead.den < 1000000000) (n : ℕ) : s.Separated n := by
  intro σ τ _ _ _ _ hclose
  obtain ⟨m, hm⟩ := exists_timeCost_mul_den (s := s) σ
  obtain ⟨k, hk⟩ := exists_timeCost_mul_den (s := s) τ
  have hdpos : (0 : ℚ) < s.blockOverhead.den := by exact_mod_cast s.blockOverhead.den_pos
  have hlt : (|m - k| : ℚ) < 1 := by
    rw [← hm, ← hk, ← sub_mul, abs_mul, abs_of_pos hdpos]
    calc |s.timeCost σ - s.timeCost τ| * s.blockOverhead.den
        ≤ epsilon * s.blockOverhead.den := by gcongr
      _ < epsilon * 1000000000 := by
        have heps : (0 : ℚ) < epsilon := by norm_num [epsilon]
        gcongr
        exact_mod_cast hden
      _ = 1 := by norm_num [epsilon]
  have hzero : m - k = 0 := by
    rw [← Int.abs_lt_one_iff]
    exact_mod_cast hlt
  have hmul : s.timeCost σ * s.blockOverhead.den = s.timeCost τ * s.blockOverhead.den := by
    rw [hm, hk, sub_eq_zero.mp hzero]
  exact mul_right_cancel₀ hdpos.ne' hmul

end EfficiencyBasedSplitter

end Vpunn
