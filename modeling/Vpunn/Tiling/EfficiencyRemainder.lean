import Vpunn.Tiling.EfficiencyOptimality

/-! `divideEfficiency` for any target, and when its split is the cheapest.

    An unaligned target ends in one remainder block. The best prefix before it comes from the table of
    least costs, but its cost is added up again from the list of blocks, with the first block of each
    size. -/

namespace Vpunn
open ExactFill Tables

namespace EfficiencyBasedSplitter

variable (s : EfficiencyBasedSplitter)

/-- The time of the first listed block of a size. -/
def listedTime (blocks : List SplitBlock) (size : ℕ) : ℕ :=
  ((blocks.find? (·.size = size)).map (·.time)).getD 0

/-- The price of the target with a remainder block at its end: the cheapest filling before it that
    starts with the largest block, with a time for each size. -/
def RemainderPrice (time : ℕ → ℕ) (targetSize : ℕ) (rem : SplitBlock) (p : ℚ ×ₗ ℕ) : Prop :=
  rem.size % 16 = targetSize % 16 ∧ rem.size ≤ targetSize ∧
    ∃ sizes : List ℕ, (∀ x ∈ sizes, x ∈ s.blocks.map (·.size)) ∧
      LargestFirst s.blocks SplitBlock.scaledSize s.price ((targetSize - rem.size) / 16)
        (sizes.map (· / 16)) ∧
      p = toLex (sizesCost time s.blockOverhead sizes + (rem.time + s.blockOverhead),
        sizes.length + 1)

/-- A remainder block is the first of the least price, by the times given. -/
def FirstLeast (time : ℕ → ℕ) (targetSize : ℕ) (before : List SplitBlock) (rem : SplitBlock)
    (after : List SplitBlock) : Prop :=
  ∃ p, s.RemainderPrice time targetSize rem p ∧
    (∀ r ∈ before, ∀ p', s.RemainderPrice time targetSize r p' → p < p') ∧
    ∀ r ∈ after, ∀ p', s.RemainderPrice time targetSize r p' → p ≤ p'

/-- The remainder block that is least by the first listed block of each size is also least by the
    cheapest block of each size. -/
def ListedTimesAgree (targetSize : ℕ) : Prop :=
  ∀ before rem after, s.remainderBlocks = before ++ rem :: after →
    s.FirstLeast (listedTime s.blocks) targetSize before rem after →
    ∀ q, s.RemainderPrice (cheapestTime s.blocks) targetSize rem q →
      ∀ r ∈ s.remainderBlocks, ∀ q', s.RemainderPrice (cheapestTime s.blocks) targetSize r q' →
        q ≤ q'

/-! ### One remainder block -/

/-- What a remainder block contributes: its cost and count, and its sizes. -/
def candidate (targetSize : ℕ) (rem : SplitBlock) : Best :=
  if rem.size % 16 ≠ targetSize % 16 ∨ targetSize < rem.size then none
  else (s.divideAligned (targetSize - rem.size)).map fun sizes =>
    ((s.prefixCost sizes + (rem.time + s.blockOverhead), sizes.length + 1), sizes ++ [rem.size])

variable {s} {targetSize : ℕ} {rem : SplitBlock}

theorem divideAligned_zero : s.divideAligned 0 = some [] := rfl

theorem candidate_eq_some_iff {c : (ℚ × ℕ) × List ℕ} : s.candidate targetSize rem = some c ↔
    rem.size % 16 = targetSize % 16 ∧ rem.size ≤ targetSize ∧
      ∃ sizes, s.divideAligned (targetSize - rem.size) = some sizes ∧
        c = ((s.prefixCost sizes + (rem.time + s.blockOverhead), sizes.length + 1),
          sizes ++ [rem.size]) := by
  unfold candidate
  split_ifs with hcond
  · simp only [false_iff]
    rintro ⟨hmod, hle, -⟩
    omega
  · rw [Option.map_eq_some_iff]
    constructor
    · rintro ⟨sizes, hsizes, rfl⟩
      exact ⟨by omega, by omega, sizes, hsizes, rfl⟩
    · rintro ⟨-, -, sizes, hsizes, rfl⟩
      exact ⟨sizes, hsizes, rfl⟩

/-- The loop body keeps the candidate if it improves. -/
theorem tryRemainder_eq (hrem : 0 < rem.size) (best : Best) :
    s.tryRemainder targetSize best rem = match s.candidate targetSize rem with
      | none => best
      | some c => if improves c.1.1 c.1.2 (best.map Prod.fst) then some c else best := by
  have hleading : (if 0 < targetSize - rem.size then s.divideAligned (targetSize - rem.size)
      else some []) = s.divideAligned (targetSize - rem.size) := by
    split_ifs with hpos
    · rfl
    · rw [Nat.eq_zero_of_not_pos hpos, divideAligned_zero]
  unfold tryRemainder candidate
  by_cases hcond : rem.size % 16 ≠ targetSize % 16 ∨ targetSize < rem.size
  · rw [if_pos (.inr hcond), if_pos hcond]
  · rw [if_neg (by omega), if_neg hcond]
    simp only [hleading]
    cases s.divideAligned (targetSize - rem.size) with
    | none => rfl
    | some sizes => rfl

theorem exists_listedTime {blocks : List SplitBlock} {x : ℕ} (hx : x ∈ blocks.map (·.size)) :
    ∃ b ∈ blocks, b.size = x ∧ b.time = listedTime blocks x
      ∧ blocks.find? (·.size = x) = some b := by
  obtain ⟨b, hb, rfl⟩ := List.mem_map.mp hx
  have hsome : (blocks.find? (·.size = b.size)).isSome = true :=
    List.find?_isSome.mpr ⟨b, hb, by simp⟩
  obtain ⟨c, hc⟩ := Option.isSome_iff_exists.mp hsome
  have hsize := List.find?_some hc
  exact ⟨c, List.mem_of_find?_eq_some hc, of_decide_eq_true hsize, by rw [listedTime, hc]; rfl, hc⟩

theorem prefixCost_eq {sizes : List ℕ} (hsizes : ∀ x ∈ sizes, x ∈ s.blocks.map (·.size)) :
    s.prefixCost sizes = sizesCost (listedTime s.blocks) s.blockOverhead sizes := by
  have hstep : s.prefixCost sizes
      = sizes.foldl (fun cost size => cost + (listedTime s.blocks size + s.blockOverhead)) 0 := by
    unfold prefixCost
    refine List.foldl_ext _ _ _ fun cost size hsize => ?_
    obtain ⟨b, -, -, htime, hfind⟩ := exists_listedTime (hsizes size hsize)
    simp only [hfind, htime]
  have hsum : ∀ c : ℚ,
      sizes.foldl (fun cost size => cost + (listedTime s.blocks size + s.blockOverhead)) c
        = c + sizesCost (listedTime s.blocks) s.blockOverhead sizes := by
    clear hstep hsizes
    induction sizes with
    | nil => intro c; simp [sizesCost]
    | cons x sizes ih =>
      intro c
      rw [List.foldl_cons, ih, sizesCost_cons, add_assoc]
  rw [hstep, hsum, zero_add]

theorem RemainderPrice.unique (hblocks : Regular s.blocks) {time : ℕ → ℕ} {p q : ℚ ×ₗ ℕ}
    (hp : s.RemainderPrice time targetSize rem p) (hq : s.RemainderPrice time targetSize rem q) :
    p = q := by
  obtain ⟨-, -, sizes, hsizes, hlargest, rfl⟩ := hp
  obtain ⟨-, -, sizes', hsizes', hlargest', rfl⟩ := hq
  obtain rfl : sizes = sizes' :=
    hblocks.eq_of_scaled hsizes hsizes' (hlargest.unique hblocks.scaledSize_pos hlargest')
  rfl

/-- If costs are told apart, the candidates are the prices by the first listed blocks. -/
theorem remainderPrice_of_candidate (hblocks : Regular s.blocks) (hsep : s.Separated targetSize)
    {c : (ℚ × ℕ) × List ℕ} (hc : s.candidate targetSize rem = some c) :
    s.RemainderPrice (listedTime s.blocks) targetSize rem (toLex c.1) := by
  obtain ⟨hmod, hle, sizes, hsizes, rfl⟩ := candidate_eq_some_iff.mp hc
  obtain ⟨hmem, -, hlargest⟩ := divideAligned_spec hblocks hsizes (by omega)
  exact ⟨hmod, hle, sizes, hmem, hlargest (hsep.mono (Nat.sub_le ..)), by rw [prefixCost_eq hmem]⟩

theorem exists_candidate (hblocks : Regular s.blocks) {time : ℕ → ℕ} {p : ℚ ×ₗ ℕ}
    (hp : s.RemainderPrice time targetSize rem p) :
    ∃ c, s.candidate targetSize rem = some c := by
  obtain ⟨hmod, hle, sizes, -, hlargest, -⟩ := hp
  obtain ⟨σ, hσ, -⟩ := hlargest.exists_cheapest hblocks.scaledSize_pos
  obtain ⟨sizes', hsizes'⟩ := exists_divideAligned hblocks hσ.toFill
  exact ⟨_, candidate_eq_some_iff.mpr ⟨hmod, hle, sizes', hsizes', rfl⟩⟩

/-- The cost of a candidate is that of blocks with the target as their total size. -/
theorem exists_timeCost_candidate (hblocks : Regular s.blocks) (hrem : rem ∈ s.remainderBlocks)
    {c : (ℚ × ℕ) × List ℕ} (hc : s.candidate targetSize rem = some c) :
    ∃ σ : List SplitBlock, s.Combination σ
      ∧ (σ.map (·.size)).sum = targetSize ∧ s.timeCost σ = c.1.1 := by
  obtain ⟨hmod, hle, sizes, hsizes, rfl⟩ := candidate_eq_some_iff.mp hc
  obtain ⟨hmem, hsum, -⟩ := divideAligned_spec hblocks hsizes (by omega)
  have hlisted : ∀ x ∈ sizes, ∃ b ∈ s.blocks, b.size = x ∧ b.time = listedTime s.blocks x :=
    fun x hx =>
      let ⟨b, hb, hsize, htime, _⟩ := exists_listedTime (hmem x hx)
      ⟨b, hb, hsize, htime⟩
  obtain ⟨σ, hσ, rfl, hcost⟩ := exists_timeCost_eq (s := s) hlisted
  refine ⟨σ ++ [rem], .inr ⟨σ, rem, hrem, rfl, hσ⟩, ?_, ?_⟩
  · rw [List.map_append, List.sum_append, hsum]
    simp only [List.map_cons, List.map_nil, List.sum_singleton]
    omega
  · rw [timeCost_append, timeCost_cons, hcost, prefixCost_eq hmem, timeCost_nil, add_zero]

/-! ### The loop over the remainder blocks -/

/-- The state of the loop: the best combination so far is the candidate of some block; if costs are
    told apart, of the first that is least. -/
structure Chosen (s : EfficiencyBasedSplitter) (targetSize : ℕ) (done : List SplitBlock)
    (best : Best) : Prop where
  none_iff : best = none ↔ ∀ r ∈ done, s.candidate targetSize r = none
  first : ∀ c, best = some c → ∃ before r after, done = before ++ r :: after
    ∧ s.candidate targetSize r = some c
    ∧ (s.Separated targetSize →
      (∀ r' ∈ before, ∀ c', s.candidate targetSize r' = some c' → toLex c.1 < toLex c'.1)
        ∧ ∀ r' ∈ after, ∀ c', s.candidate targetSize r' = some c' → toLex c.1 ≤ toLex c'.1)

theorem improves_candidate_iff (hblocks : Regular s.blocks) (hsep : s.Separated targetSize)
    {r r' : SplitBlock} (hr : r ∈ s.remainderBlocks) (hr' : r' ∈ s.remainderBlocks)
    {c c' : (ℚ × ℕ) × List ℕ} (hc : s.candidate targetSize r = some c)
    (hc' : s.candidate targetSize r' = some c') :
    improves c.1.1 c.1.2 (some c'.1) = true ↔ toLex c.1 < toLex c'.1 := by
  obtain ⟨σ, hσ, hsum, hcost⟩ := exists_timeCost_candidate hblocks hr hc
  obtain ⟨τ, hτ, hsum', hcost'⟩ := exists_timeCost_candidate hblocks hr' hc'
  refine improves_iff fun hclose => ?_
  rw [← hcost, ← hcost'] at hclose ⊢
  exact hsep σ τ hσ hτ (hsum.trans hsum'.symm) hsum.le hclose

section Chosen

variable {done : List SplitBlock} {best : Best}

theorem Chosen.keep {b : (ℚ × ℕ) × List ℕ} (h : Chosen s targetSize done (some b))
    (hle : s.Separated targetSize → ∀ c, s.candidate targetSize rem = some c →
      toLex b.1 ≤ toLex c.1) :
    Chosen s targetSize (done ++ [rem]) (some b) := by
  obtain ⟨before, r, after, rfl, hr, hleast⟩ := h.first b rfl
  refine ⟨iff_of_false (by simp) fun hall => ?_, fun c hc => ?_⟩
  · have := hall r (by simp)
    rw [hr] at this
    simp at this
  · obtain rfl := Option.some.inj hc
    refine ⟨before, r, after ++ [rem], by simp, hr, fun hsep => ⟨(hleast hsep).1, ?_⟩⟩
    intro r' hr' c' hc'
    rcases List.mem_append.mp hr' with hr' | hr'
    · exact (hleast hsep).2 r' hr' c' hc'
    · rw [List.mem_singleton.mp hr'] at hc'
      exact hle hsep c' hc'

/-- A candidate that is kept is strictly below all before it. -/
theorem Chosen.replace {c : (ℚ × ℕ) × List ℕ} (h : Chosen s targetSize done best)
    (hcand : s.candidate targetSize rem = some c)
    (hlt : s.Separated targetSize → ∀ b, best = some b → toLex c.1 < toLex b.1) :
    Chosen s targetSize (done ++ [rem]) (some c) := by
  refine ⟨iff_of_false (by simp) fun hall => ?_, fun c' hc' => ?_⟩
  · have := hall rem (by simp)
    rw [hcand] at this
    simp at this
  · obtain rfl := Option.some.inj hc'
    refine ⟨done, rem, [], rfl, hcand, fun hsep => ⟨fun r' hr' c' hc' => ?_, by simp⟩⟩
    have hbest : best ≠ none := fun hbest => by
      rw [h.none_iff.mp hbest r' hr'] at hc'
      simp at hc'
    obtain ⟨b, hb⟩ := Option.ne_none_iff_exists'.mp hbest
    refine (hlt hsep b hb).trans_le ?_
    obtain ⟨before, r, after, rfl, hr, hleast⟩ := h.first b hb
    obtain ⟨hbefore, hafter⟩ := hleast hsep
    rcases List.mem_append.mp hr' with hr' | hr'
    · exact (hbefore r' hr' c' hc').le
    · rcases List.mem_cons.mp hr' with rfl | hr'
      · rw [hr] at hc'
        rw [Option.some.inj hc']
      · exact hafter r' hr' c' hc'

theorem Chosen.step (hblocks : Regular s.blocks) (hdone : ∀ r ∈ done, r ∈ s.remainderBlocks)
    (h : Chosen s targetSize done best) (hrem : rem ∈ s.remainderBlocks) (hpos : 0 < rem.size) :
    Chosen s targetSize (done ++ [rem]) (s.tryRemainder targetSize best rem) := by
  rw [tryRemainder_eq hpos]
  cases hcand : s.candidate targetSize rem with
  | none =>
    cases best with
    | none =>
      refine ⟨?_, by simp⟩
      simp only [true_iff, List.forall_mem_append, List.forall_mem_singleton, hcand, and_true]
      exact h.none_iff.mp rfl
    | some b => exact h.keep fun _ c hc => by simp [hcand] at hc
  | some c =>
    cases best with
    | none => exact h.replace hcand (by simp)
    | some b =>
      obtain ⟨before, r, after, hsplit, hr, -⟩ := h.first b rfl
      have hr' : r ∈ s.remainderBlocks := hdone r (by simp [hsplit])
      have himproves : s.Separated targetSize →
          (improves c.1.1 c.1.2 (some b.1) = true ↔ toLex c.1 < toLex b.1) :=
        fun hsep => improves_candidate_iff hblocks hsep hrem hr' hcand hr
      simp only [Option.map_some]
      split_ifs with himp
      · refine h.replace hcand fun hsep b' hb' => ?_
        obtain rfl := Option.some.inj hb'
        exact (himproves hsep).mp himp
      · refine h.keep fun hsep c' hc' => ?_
        obtain rfl := Option.some.inj (hcand.symm.trans hc')
        exact not_lt.mp fun hlt => himp ((himproves hsep).mpr hlt)

end Chosen

theorem chosen_foldl (hblocks : Regular s.blocks) (hpos : ∀ r ∈ s.remainderBlocks, 0 < r.size) :
    Chosen s targetSize s.remainderBlocks
      (s.remainderBlocks.foldl (s.tryRemainder targetSize) none) := by
  suffices ∀ (todo done : List SplitBlock) (best : Best), (∀ r ∈ done, r ∈ s.remainderBlocks) →
      (∀ r ∈ todo, r ∈ s.remainderBlocks) → Chosen s targetSize done best →
      Chosen s targetSize (done ++ todo) (todo.foldl (s.tryRemainder targetSize) best) from
    this s.remainderBlocks [] none (by simp) (fun _ h => h) ⟨by simp, by simp⟩
  intro todo
  induction todo with
  | nil => intro done best _ _ h; simpa using h
  | cons r todo ih =>
    intro done best hdone htodo h
    obtain ⟨hr, htodo⟩ := List.forall_mem_cons.mp htodo
    have hdone' : ∀ r' ∈ done ++ [r], r' ∈ s.remainderBlocks := fun r' hr' =>
      (List.mem_append.mp hr').elim (hdone r') fun hr' => by rwa [List.mem_singleton.mp hr']
    have := ih (done ++ [r]) _ hdone' htodo (h.step hblocks hdone hr (hpos r hr))
    rwa [List.append_assoc, List.singleton_append] at this

/-! ### Any target -/

theorem isSplit_of_candidate (hblocks : Regular s.blocks) (hrem : rem ∈ s.remainderBlocks)
    (hunaligned : targetSize % 16 ≠ 0) {c : (ℚ × ℕ) × List ℕ}
    (hc : s.candidate targetSize rem = some c) : s.IsSplit targetSize c.2 := by
  obtain ⟨hmod, hle, sizes, hsizes, rfl⟩ := candidate_eq_some_iff.mp hc
  obtain ⟨hmem, hsum, -⟩ := divideAligned_spec hblocks hsizes (by omega)
  refine ⟨?_, ?_⟩
  · rw [List.sum_append, hsum, List.sum_singleton]
    omega
  · rw [if_neg hunaligned]
    exact ⟨sizes, rem.size, rfl, hmem, List.mem_map_of_mem hrem, hmod⟩

/-- The sizes returned are a split. -/
theorem divideEfficiency_isSplit (hblocks : Regular s.blocks)
    (hpos : ∀ r ∈ s.remainderBlocks, 0 < r.size) {sizes : List ℕ}
    (h : s.divideEfficiency targetSize = some sizes) : s.IsSplit targetSize sizes := by
  unfold divideEfficiency at h
  split_ifs at h with hpath hrem
  · obtain ⟨c, hc, rfl⟩ := Option.map_eq_some_iff.mp h
    obtain ⟨before, r, after, hsplit, hr, -⟩ := (chosen_foldl hblocks hpos).first c hc
    exact isSplit_of_candidate hblocks (by simp [hsplit]) (by omega) hr
  · obtain ⟨hmem, hsum, -⟩ := divideAligned_spec hblocks h (by omega)
    exact ⟨hsum, by rwa [if_pos (by omega)]⟩

/-- Sizes of regular blocks are a filling. -/
theorem exists_fill (hblocks : Regular s.blocks) {sizes : List ℕ}
    (hsizes : ∀ x ∈ sizes, x ∈ s.blocks.map (·.size)) :
    ∃ σ, Fill s.blocks SplitBlock.scaledSize (sizes.sum / 16) σ ∧ σ.map (·.size) = sizes := by
  obtain ⟨σ, hσ, rfl, -⟩ := exists_timeCost_eq (s := s) fun x hx => exists_cheapestTime (hsizes x hx)
  have hfill : Fill s.blocks SplitBlock.scaledSize _ σ := ⟨hσ, rfl⟩
  refine ⟨σ, ⟨hσ, ?_⟩, rfl⟩
  rw [hblocks.sum_size hfill]
  omega

/-- Every split is found. -/
theorem exists_divideEfficiency (hblocks : Regular s.blocks)
    (hpos : ∀ r ∈ s.remainderBlocks, 0 < r.size) (htarget : 0 < targetSize) {sizes : List ℕ}
    (h : s.IsSplit targetSize sizes) : ∃ sizes', s.divideEfficiency targetSize = some sizes' := by
  obtain ⟨hsum, hshape⟩ := h
  unfold divideEfficiency
  by_cases hmod : targetSize % 16 = 0
  · rw [if_pos hmod] at hshape
    rw [if_neg (by omega)]
    obtain ⟨σ, hσ, -⟩ := exists_fill hblocks hshape
    exact exists_divideAligned hblocks (hsum ▸ hσ)
  · rw [if_neg hmod] at hshape
    obtain ⟨init, last, rfl, hinit, hlast, hres⟩ := hshape
    obtain ⟨r, hr, rfl⟩ := List.mem_map.mp hlast
    rw [if_pos (.inl hmod), if_pos ⟨htarget, List.ne_nil_of_mem hr⟩]
    rw [List.sum_append, List.sum_singleton] at hsum
    obtain ⟨σ, hσ, -⟩ := exists_fill hblocks hinit
    obtain ⟨sizes', hsizes'⟩ : ∃ sizes', s.divideAligned (targetSize - r.size) = some sizes' :=
      exists_divideAligned hblocks (by rwa [show targetSize - r.size = init.sum by omega])
    have hcand := candidate_eq_some_iff.mpr ⟨hres, by omega, sizes', hsizes', rfl⟩
    have hbest : s.remainderBlocks.foldl (s.tryRemainder targetSize) none ≠ none := fun hbest => by
      rw [(chosen_foldl hblocks hpos).none_iff.mp hbest r hr] at hcand
      simp at hcand
    obtain ⟨c, hc⟩ := Option.ne_none_iff_exists'.mp hbest
    exact ⟨c.2, by rw [hc]; rfl⟩

/-- For a multiple of 16 the split is optimal. -/
theorem isOptimal_aligned (hblocks : Regular s.blocks) (hsep : s.Separated targetSize)
    (hmod : targetSize % 16 = 0) {sizes : List ℕ} (h : s.divideAligned targetSize = some sizes) :
    s.IsOptimal targetSize sizes := by
  obtain ⟨hmem, hsum, hlargest⟩ := divideAligned_spec hblocks h hmod
  refine ⟨⟨hsum, by rwa [if_pos hmod]⟩, fun sizes' hsizes' => ?_⟩
  obtain ⟨hsum', hmem'⟩ := hsizes'
  rw [if_pos hmod] at hmem'
  rw [splitCost, splitCost, if_pos hmod, if_pos hmod]
  exact sizesCost_le_of_largestFirst hblocks (hlargest hsep) hmem hmem' (by omega)

/-! ### The least price -/

theorem splitCost_concat (hunaligned : targetSize % 16 ≠ 0) (sizes : List ℕ) (x : ℕ) :
    s.splitCost targetSize (sizes ++ [x]) = sizesCost (cheapestTime s.blocks) s.blockOverhead sizes
      + (cheapestTime s.remainderBlocks x + s.blockOverhead) := by
  simp [splitCost, hunaligned, sizesCost]

/-- A remainder block whose prefix can be filled ends a split. -/
theorem RemainderPrice.exists_split (hblocks : Regular s.blocks)
    (hunaligned : targetSize % 16 ≠ 0) (hrem : rem ∈ s.remainderBlocks) {q : ℚ ×ₗ ℕ}
    (hq : s.RemainderPrice (cheapestTime s.blocks) targetSize rem q) :
    ∃ sizes, s.IsSplit targetSize sizes
      ∧ toLex (s.splitCost targetSize sizes, sizes.length) ≤ q := by
  obtain ⟨hmod, hle, sizes, hmem, hlargest, rfl⟩ := hq
  have hsum : sizes.sum = targetSize - rem.size := by
    rw [← hblocks.sum_scaled hmem, hlargest.sum_eq hblocks.scaledSize_pos]
    omega
  refine ⟨sizes ++ [rem.size], ⟨?_, ?_⟩, ?_⟩
  · rw [List.sum_append, hsum, List.sum_singleton]
    omega
  · rw [if_neg hunaligned]
    exact ⟨sizes, rem.size, rfl, hmem, List.mem_map_of_mem hrem, hmod⟩
  · have hcheapest : (cheapestTime s.remainderBlocks rem.size : ℚ) ≤ rem.time := by
      exact_mod_cast cheapestTime_le hrem
    rw [splitCost_concat hunaligned, List.length_append, List.length_singleton]
    exact Prod.Lex.toLex_mono ⟨add_le_add le_rfl (add_le_add hcheapest le_rfl), le_rfl⟩

/-- A split costs at least the price with the remainder block at its end. -/
theorem exists_remainderPrice_le (hblocks : Regular s.blocks) (hsep : s.Separated targetSize)
    (hunaligned : targetSize % 16 ≠ 0) {sizes : List ℕ} (h : s.IsSplit targetSize sizes) :
    ∃ r ∈ s.remainderBlocks, ∃ q, s.RemainderPrice (cheapestTime s.blocks) targetSize r q
      ∧ q ≤ toLex (s.splitCost targetSize sizes, sizes.length) := by
  obtain ⟨hsum, hshape⟩ := h
  rw [if_neg hunaligned] at hshape
  obtain ⟨init, last, rfl, hinit, hlast, hres⟩ := hshape
  rw [List.sum_append, List.sum_singleton] at hsum
  obtain ⟨r, hr, rfl, htime⟩ := exists_cheapestTime hlast
  obtain ⟨σ, hσ, -⟩ := exists_fill hblocks hinit
  have hleading : targetSize - r.size = init.sum := by omega
  obtain ⟨sizes', hsizes'⟩ := exists_divideAligned hblocks hσ
  obtain ⟨hmem, -, hlargest⟩ := divideAligned_spec hblocks hsizes' (by omega)
  have hlargest := hlargest (hsep.mono (by omega))
  have hle := sizesCost_le_of_largestFirst hblocks hlargest hmem hinit (by omega)
  refine ⟨r, hr, _, ⟨hres, by omega, sizes', hmem, by rwa [hleading], rfl⟩, ?_⟩
  rw [splitCost_concat hunaligned, htime, List.length_append, List.length_singleton]
  exact add_le_add_left hle (toLex ((cheapestTime s.remainderBlocks r.size : ℚ)
    + s.blockOverhead, 1))

theorem firstLeast_of_chosen (hblocks : Regular s.blocks) (hsep : s.Separated targetSize)
    {before after : List SplitBlock} {c : (ℚ × ℕ) × List ℕ}
    (hc : s.candidate targetSize rem = some c)
    (hbefore : ∀ r ∈ before, ∀ c', s.candidate targetSize r = some c' → toLex c.1 < toLex c'.1)
    (hafter : ∀ r ∈ after, ∀ c', s.candidate targetSize r = some c' → toLex c.1 ≤ toLex c'.1) :
    s.FirstLeast (listedTime s.blocks) targetSize before rem after := by
  refine ⟨_, remainderPrice_of_candidate hblocks hsep hc, fun r hr p hp => ?_, fun r hr p hp => ?_⟩
  · obtain ⟨c', hc'⟩ := exists_candidate hblocks hp
    rw [hp.unique hblocks (remainderPrice_of_candidate hblocks hsep hc')]
    exact hbefore r hr c' hc'
  · obtain ⟨c', hc'⟩ := exists_candidate hblocks hp
    rw [hp.unique hblocks (remainderPrice_of_candidate hblocks hsep hc')]
    exact hafter r hr c' hc'

/-- Only one block is the first of the least price. -/
theorem FirstLeast.unique {time : ℕ → ℕ} {before after before' after' : List SplitBlock}
    {rem' : SplitBlock}
    (h : s.FirstLeast time targetSize before rem after)
    (h' : s.FirstLeast time targetSize before' rem' after')
    (heq : before ++ rem :: after = before' ++ rem' :: after') : rem = rem' := by
  obtain ⟨p, hp, hbefore, hafter⟩ := h
  obtain ⟨p', hp', hbefore', hafter'⟩ := h'
  rcases List.append_eq_append_iff.mp heq with ⟨l, hl, hl'⟩ | ⟨l, hl, hl'⟩
  · cases l with
    | nil => exact (List.cons.inj hl').1
    | cons r l =>
      obtain ⟨rfl, rfl⟩ := List.cons.inj hl'
      exact absurd (hafter rem' (by simp) p' hp') (hbefore' rem (by simp [hl]) p hp).not_ge
  · cases l with
    | nil => exact (List.cons.inj hl').1.symm
    | cons r l =>
      obtain ⟨rfl, rfl⟩ := List.cons.inj hl'
      exact absurd (hafter' rem (by simp) p hp) (hbefore rem' (by simp [hl]) p' hp').not_ge

/-- A block that is the first of the least price has the least time of its size. -/
theorem FirstLeast.time_eq {time : ℕ → ℕ} {before after : List SplitBlock}
    (h : s.FirstLeast time targetSize before rem after)
    (hsplit : s.remainderBlocks = before ++ rem :: after) :
    rem.time = cheapestTime s.remainderBlocks rem.size := by
  have hrem : rem ∈ s.remainderBlocks := by simp [hsplit]
  obtain ⟨r, hr, hsize, htime⟩ := exists_cheapestTime (List.mem_map_of_mem (f := (·.size)) hrem)
  rw [← htime]
  refine le_antisymm ?_ (htime ▸ cheapestTime_le hrem)
  obtain ⟨_, ⟨hmod, hle, sizes, hmem, hlargest, rfl⟩, hbefore, hafter⟩ := h
  have hr' : s.RemainderPrice time targetSize r (toLex
      (sizesCost time s.blockOverhead sizes + (r.time + s.blockOverhead), sizes.length + 1)) :=
    ⟨hsize ▸ hmod, hsize ▸ hle, sizes, hmem, by rwa [hsize], rfl⟩
  have hcmp : toLex (sizesCost time s.blockOverhead sizes + (rem.time + s.blockOverhead),
      sizes.length + 1) ≤ toLex (sizesCost time s.blockOverhead sizes
        + (r.time + s.blockOverhead), sizes.length + 1) := by
    rw [hsplit] at hr
    rcases List.mem_append.mp hr with hr | hr
    · exact (hbefore r hr _ hr').le
    · rcases List.mem_cons.mp hr with rfl | hr
      · exact le_rfl
      · exact hafter r hr _ hr'
  have hfst : sizesCost time s.blockOverhead sizes + (rem.time + s.blockOverhead)
      ≤ sizesCost time s.blockOverhead sizes + (r.time + s.blockOverhead) :=
    Prod.Lex.monotone_fst _ _ hcmp
  have : (rem.time : ℚ) ≤ r.time := by linarith
  exact_mod_cast this

/-- The first block of the least listed price is chosen, and its split costs its price. -/
theorem divideEfficiency_unaligned (hblocks : Regular s.blocks)
    (hpos : ∀ r ∈ s.remainderBlocks, 0 < r.size) (hunaligned : targetSize % 16 ≠ 0)
    (hsep : s.Separated targetSize) {sizes : List ℕ}
    (h : s.divideEfficiency targetSize = some sizes) :
    ∃ before r after, s.remainderBlocks = before ++ r :: after
      ∧ s.FirstLeast (listedTime s.blocks) targetSize before r after
      ∧ s.RemainderPrice (cheapestTime s.blocks) targetSize r
        (toLex (s.splitCost targetSize sizes, sizes.length)) := by
  unfold divideEfficiency at h
  rw [if_pos (.inl hunaligned)] at h
  split_ifs at h with hrem
  obtain ⟨c, hc, rfl⟩ := Option.map_eq_some_iff.mp h
  obtain ⟨before, r, after, hsplit, hr, hleast⟩ := (chosen_foldl hblocks hpos).first c hc
  obtain ⟨hbefore, hafter⟩ := hleast hsep
  have hfirst := firstLeast_of_chosen hblocks hsep hr hbefore hafter
  refine ⟨before, r, after, hsplit, hfirst, ?_⟩
  obtain ⟨hmod, hle, sizes, hsizes, rfl⟩ := candidate_eq_some_iff.mp hr
  obtain ⟨hmem, -, hlargest⟩ := divideAligned_spec hblocks hsizes (by omega)
  refine ⟨hmod, hle, sizes, hmem, hlargest (hsep.mono (Nat.sub_le ..)), ?_⟩
  rw [splitCost_concat hunaligned, hfirst.time_eq hsplit, List.length_append, List.length_singleton]

/-! ### When the split is optimal -/

/-- A target is divided if and only if it has a split, and then into an optimal one. -/
def DividesOptimally (s : EfficiencyBasedSplitter) (targetSize : ℕ) : Prop :=
  ((∃ sizes, s.divideEfficiency targetSize = some sizes) ↔ ∃ sizes, s.IsSplit targetSize sizes)
    ∧ ∀ sizes, s.divideEfficiency targetSize = some sizes → s.IsOptimal targetSize sizes

theorem isOptimal_unaligned_iff (hblocks : Regular s.blocks)
    (hpos : ∀ r ∈ s.remainderBlocks, 0 < r.size) (hunaligned : targetSize % 16 ≠ 0)
    (hsep : s.Separated targetSize) :
    (∀ sizes, s.divideEfficiency targetSize = some sizes → s.IsOptimal targetSize sizes)
      ↔ s.ListedTimesAgree targetSize := by
  constructor
  · intro hoptimal before rem after hsplit hfirst q hq r hr q' hq'
    obtain ⟨sizes₀, hsizes₀, -⟩ := hq.exists_split hblocks hunaligned (by simp [hsplit])
    have htarget : 0 < targetSize := by omega
    obtain ⟨sizes, hsizes⟩ := exists_divideEfficiency hblocks hpos htarget hsizes₀
    obtain ⟨before', rem', after', hsplit', hfirst', hprice⟩ :=
      divideEfficiency_unaligned hblocks hpos hunaligned hsep hsizes
    obtain rfl := hfirst.unique hfirst' (hsplit.symm.trans hsplit')
    rw [hq.unique hblocks hprice]
    obtain ⟨sizes', hsizes', hle⟩ := hq'.exists_split hblocks hunaligned hr
    exact ((hoptimal sizes hsizes).le sizes' hsizes').trans hle
  · intro hagree sizes hsizes
    obtain ⟨before, rem, after, hsplit, hfirst, hprice⟩ :=
      divideEfficiency_unaligned hblocks hpos hunaligned hsep hsizes
    refine ⟨divideEfficiency_isSplit hblocks hpos hsizes, fun sizes' hsizes' => ?_⟩
    obtain ⟨r, hr, q', hq', hle⟩ := exists_remainderPrice_le hblocks hsep hunaligned hsizes'
    exact (hagree before rem after hsplit hfirst _ hprice r hr q' hq').trans hle

/-- Whatever the costs are, a target is divided if and only if it has a split, and then into one. If
    the tolerance tells the costs apart, the split is optimal exactly for the multiples of 16 and for
    those other targets where the first block of each size in the list leads to the same remainder
    block as the cheapest. -/
theorem divideEfficiency_optimal_iff (s : EfficiencyBasedSplitter) (targetSize : ℕ)
    (hblocks : Regular s.blocks) (hpos : ∀ r ∈ s.remainderBlocks, 0 < r.size)
    (htarget : 0 < targetSize) :
    ((∃ sizes, s.divideEfficiency targetSize = some sizes) ↔ ∃ sizes, s.IsSplit targetSize sizes)
      ∧ (∀ sizes, s.divideEfficiency targetSize = some sizes → s.IsSplit targetSize sizes)
      ∧ (s.Separated targetSize →
        (s.DividesOptimally targetSize ↔ targetSize % 16 = 0 ∨ s.ListedTimesAgree targetSize)) := by
  have hcomplete : (∃ sizes, s.divideEfficiency targetSize = some sizes)
      ↔ ∃ sizes, s.IsSplit targetSize sizes :=
    ⟨fun ⟨sizes, h⟩ => ⟨sizes, divideEfficiency_isSplit hblocks hpos h⟩,
      fun ⟨_, h⟩ => exists_divideEfficiency hblocks hpos htarget h⟩
  refine ⟨hcomplete, fun _ => divideEfficiency_isSplit hblocks hpos, fun hsep => ?_⟩
  unfold DividesOptimally
  rw [and_iff_right hcomplete]
  by_cases hmod : targetSize % 16 = 0
  · refine iff_of_true (fun sizes hsizes => ?_) (.inl hmod)
    rw [divideEfficiency, if_neg (by omega)] at hsizes
    exact isOptimal_aligned hblocks hsep hmod hsizes
  · rw [isOptimal_unaligned_iff hblocks hpos hmod hsep, or_iff_right hmod]

theorem divideEfficiency_optimal_iff_aligned :
    DividesOptimally ⟨[⟨16, 10⟩, ⟨32, 15⟩, ⟨16, 9⟩], [⟨1, 3⟩], 1 / 2⟩ 80 :=
  ((divideEfficiency_optimal_iff ⟨[⟨16, 10⟩, ⟨32, 15⟩, ⟨16, 9⟩], [⟨1, 3⟩], 1 / 2⟩ 80
    (by unfold Regular; decide) (by decide) (by decide)).2.2
      (separated_of_den (by decide +kernel) 80)).mpr (.inl rfl)

/-- The size 16 is listed twice, the slower block first. The prefix `[16]` costs 1, but is counted as
    10, so that one remainder block of cost 9 looks better than `[16, 1]` of cost 4. -/
theorem not_dividesOptimally :
    ¬ DividesOptimally ⟨[⟨16, 10⟩, ⟨16, 1⟩], [⟨1, 3⟩, ⟨17, 9⟩], 0⟩ 17 := by
  rintro ⟨-, hoptimal⟩
  have hsizes : divideEfficiency ⟨[⟨16, 10⟩, ⟨16, 1⟩], [⟨1, 3⟩, ⟨17, 9⟩], 0⟩ 17 = some [17] := by
    decide +kernel
  have hle := (hoptimal [17] hsizes).le [16, 1]
    ⟨rfl, by rw [if_neg (by decide)]; exact ⟨[16], 1, rfl, by decide, by decide, rfl⟩⟩
  exact absurd hle (by decide +kernel)

end EfficiencyBasedSplitter

end Vpunn
