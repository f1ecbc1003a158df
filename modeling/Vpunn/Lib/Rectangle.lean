import Mathlib.Data.List.Nodup
import Vpunn.Lib.Consecutive

/-! Cutting a rectangle into rectangles. -/

/-- The positions from `x` and `y` on. -/
structure Rect where
  x : ℕ
  y : ℕ
  w : ℕ
  h : ℕ

namespace Rect
open Consecutive

def Contains (r : Rect) (i j : ℕ) : Prop :=
  (r.x ≤ i ∧ i < r.x + r.w) ∧ (r.y ≤ j ∧ j < r.y + r.h)

/-- Rectangles that are not empty and contain each position of a rectangle once, and no other. -/
structure Tiles (width height : ℕ) (rects : List Rect) : Prop where
  pos : ∀ r ∈ rects, 0 < r.w ∧ 0 < r.h
  inside : ∀ r ∈ rects, r.x + r.w ≤ width ∧ r.y + r.h ≤ height
  cover : ∀ i < width, ∀ j < height, ∃ r ∈ rects, r.Contains i j
  disjoint : rects.Pairwise fun r r' => ∀ i j, r.Contains i j → ¬ r'.Contains i j

/-- The chunks of the width and of the height. -/
def cell (dw dh width height row col : ℕ) : Rect where
  x := col * dw
  y := row * dh
  w := chunk dw width col
  h := chunk dh height row

/-- The cells of some rows and columns, row by row. -/
def grid (dw dh width height rows cols : ℕ) : List Rect :=
  (List.range rows).flatMap fun row => (List.range cols).map (cell dw dh width height row)

variable {dw dh width height rows cols : ℕ}

theorem mem_grid_iff {r : Rect} : r ∈ grid dw dh width height rows cols
    ↔ ∃ row < rows, ∃ col < cols, r = cell dw dh width height row col := by
  simp only [grid, List.mem_flatMap, List.mem_map, List.mem_range]
  constructor
  · rintro ⟨row, hrow, col, hcol, rfl⟩
    exact ⟨row, hrow, col, hcol, rfl⟩
  · rintro ⟨row, hrow, col, hcol, rfl⟩
    exact ⟨row, hrow, col, hcol, rfl⟩

theorem contains_cell_iff (hdw : 0 < dw) (hdh : 0 < dh) {row col i j : ℕ} :
    (cell dw dh width height row col).Contains i j
      ↔ (i < width ∧ i / dw = col) ∧ (j < height ∧ j / dh = row) :=
  and_congr (mem_chunk_iff hdw) (mem_chunk_iff hdh)

/-- As many rows and columns as it takes, and no more, cut the rectangle. -/
theorem tiles_grid (hdw : 0 < dw) (hdh : 0 < dh) (hcols : ∀ col < cols, col * dw < width)
    (hwidth : width ≤ cols * dw) (hrows : ∀ row < rows, row * dh < height)
    (hheight : height ≤ rows * dh) : Tiles width height (grid dw dh width height rows cols) := by
  refine ⟨fun r hr => ?_, fun r hr => ?_, fun i hi j hj => ?_, ?_⟩
  · obtain ⟨row, hrow, col, hcol, rfl⟩ := mem_grid_iff.mp hr
    exact ⟨chunk_pos_iff.mpr ⟨hdw, hcols col hcol⟩, chunk_pos_iff.mpr ⟨hdh, hrows row hrow⟩⟩
  · obtain ⟨row, hrow, col, hcol, rfl⟩ := mem_grid_iff.mp hr
    have hx := add_chunk dw width col
    have hy := add_chunk dh height row
    rw [Nat.min_eq_right (hcols col hcol).le] at hx
    rw [Nat.min_eq_right (hrows row hrow).le] at hy
    exact ⟨hx ▸ Nat.min_le_left .., hy ▸ Nat.min_le_left ..⟩
  · refine ⟨cell dw dh width height (j / dh) (i / dw), mem_grid_iff.mpr ⟨_, ?_, _, ?_, rfl⟩,
      (contains_cell_iff hdw hdh).mpr ⟨⟨hi, rfl⟩, hj, rfl⟩⟩
    · exact (Nat.div_lt_iff_lt_mul hdh).mpr (hj.trans_le hheight)
    · exact (Nat.div_lt_iff_lt_mul hdw).mpr (hi.trans_le hwidth)
  · rw [grid, List.pairwise_flatMap]
    refine ⟨fun row _ => ?_, ?_⟩
    · rw [List.pairwise_map]
      refine List.nodup_range.imp fun {col col'} hne i j h h' => hne ?_
      rw [← ((contains_cell_iff hdw hdh).mp h).1.2, ← ((contains_cell_iff hdw hdh).mp h').1.2]
    · refine List.nodup_range.imp fun {row row'} hne r hr r' hr' i j h h' => hne ?_
      obtain ⟨col, -, rfl⟩ := List.mem_map.mp hr
      obtain ⟨col', -, rfl⟩ := List.mem_map.mp hr'
      rw [← ((contains_cell_iff hdw hdh).mp h).2.2, ← ((contains_cell_iff hdw hdh).mp h').2.2]

theorem length_grid : (grid dw dh width height rows cols).length = rows * cols := by
  simp only [grid, List.length_flatMap, List.length_map, List.length_range, List.map_const',
    List.sum_replicate_nat]

end Rect
