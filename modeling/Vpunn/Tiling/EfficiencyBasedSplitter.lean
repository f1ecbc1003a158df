import Mathlib.Algebra.Order.Field.Rat
import Mathlib.Logic.Function.Basic

/-! The split of a channel count into measured block sizes (`efficiency_based_splitter.cpp`).

    A `double` is the rational number it stands for; an infinite cost is `none`. Sizes are scaled
    down by 16 for the table of least costs. -/

namespace Vpunn

/-- A candidate block size and its measured cycles. -/
structure SplitBlock where
  size : ℕ
  time : ℕ
  deriving DecidableEq, Repr

/-- Cycles per channel. -/
def SplitBlock.efficiency (b : SplitBlock) : ℚ := (b.time : ℚ) / b.size

structure EfficiencyBasedSplitter where
  blocks : List SplitBlock
  remainderBlocks : List SplitBlock := []
  blockOverhead : ℚ := 0
  deriving DecidableEq, Repr

/-- `EPSILON` -/
def epsilon : ℚ := 1 / 1000000000

/-- The test for a better cost, or the same cost with fewer blocks; all is better than infinite. -/
def improves (newCost : ℚ) (newCount : ℕ) : Option (ℚ × ℕ) → Bool
  | none => true
  | some (cost, count) =>
    decide (newCost < cost - epsilon ∨ (|newCost - cost| ≤ epsilon ∧ newCount < count))

/-! ### Sizes that are multiples of 16 -/

/-- The two tables: the state of each scaled size, which is `none` while nothing reaches it, and
    the size of the block that led there. -/
structure Tables where
  dynProg : ℕ → Option (ℚ × ℕ)
  choice : ℕ → Option ℕ

namespace Tables

def init : Tables where
  dynProg := Function.update (fun _ => none) 0 (some (0, 0))
  choice := fun _ => none

/-- Tries to extend the state `i` by one block. -/
def tryBlock (overhead : ℚ) (scaledTarget i : ℕ) (t : Tables) (block : SplitBlock) : Tables :=
  if block.size % 16 ≠ 0 then t
  else
    let nextSize := i + block.size / 16
    if nextSize ≤ scaledTarget then
      match t.dynProg i with
      | none => t
      | some (totalCost, count) =>
        let newCost := totalCost + (block.efficiency * block.size + overhead)
        let newCount := count + 1
        if improves newCost newCount (t.dynProg nextSize) then
          { dynProg := Function.update t.dynProg nextSize (some (newCost, newCount))
            choice := Function.update t.choice nextSize (some block.size) }
        else t
    else t

/-- Extends the state `i` by every block, if something reaches it. -/
def extend (blocks : List SplitBlock) (overhead : ℚ) (scaledTarget : ℕ) (t : Tables) (i : ℕ) :
    Tables :=
  if t.dynProg i = none then t else blocks.foldl (tryBlock overhead scaledTarget i) t

/-- The sizes on the way back from a state, unless there is no choice. The fuel is the number of
    steps. -/
def backtrack (choice : ℕ → Option ℕ) : ℕ → ℕ → Option (List ℕ)
  | _, 0 => some []
  | 0, _ + 1 => none
  | fuel + 1, size + 1 =>
    match choice (size + 1) with
    | none => none
    | some blockUsed =>
      if blockUsed ≤ 0 then none
      else (backtrack choice fuel (size + 1 - blockUsed / 16)).map (blockUsed :: ·)

end Tables

namespace EfficiencyBasedSplitter

variable (s : EfficiencyBasedSplitter)

/-- The tables of the forward pass. -/
def tables (scaledTarget : ℕ) : Tables :=
  (List.range scaledTarget).foldl (Tables.extend s.blocks s.blockOverhead scaledTarget) .init

/-- `divideEfficiency` for a positive multiple of 16. -/
def divideAligned (targetSize : ℕ) : Option (List ℕ) :=
  let scaledTarget := targetSize / 16
  let t := s.tables scaledTarget
  if t.dynProg scaledTarget = none then none
  else Tables.backtrack t.choice scaledTarget scaledTarget

/-! ### Other sizes -/

/-- The cost of a prefix, with each size looked up in the list of blocks. -/
def prefixCost (prefixResult : List ℕ) : ℚ :=
  prefixResult.foldl (fun cost size =>
    match s.blocks.find? (·.size = size) with
    | some b => cost + (b.time + s.blockOverhead)
    | none => cost) 0

/-- The best combination so far: its cost and block count, and its sizes. -/
abbrev Best := Option ((ℚ × ℕ) × List ℕ)

/-- Tries one remainder block behind the best prefix. The prefix is a multiple of 16, so the
    recursive call takes the path for those. -/
def tryRemainder (targetSize : ℕ) (best : Best) (rem : SplitBlock) : Best :=
  if rem.size ≤ 0 ∨ rem.size % 16 ≠ targetSize % 16 ∨ targetSize < rem.size then best
  else
    let prefixSize := targetSize - rem.size
    match (if 0 < prefixSize then s.divideAligned prefixSize else some []) with
    | none => best
    | some prefixResult =>
      let totalCost := s.prefixCost prefixResult + (rem.time + s.blockOverhead)
      let totalCount := prefixResult.length + 1
      if improves totalCost totalCount (best.map Prod.fst) then
        some ((totalCost, totalCount), prefixResult ++ [rem.size])
      else best

/-- The sizes of the blocks, or nothing where the function returns `false`. -/
def divideEfficiency (targetSize : ℕ) : Option (List ℕ) :=
  if targetSize % 16 ≠ 0 ∨ targetSize ≤ 0 then
    if 0 < targetSize ∧ s.remainderBlocks ≠ [] then
      (s.remainderBlocks.foldl (s.tryRemainder targetSize) none).map Prod.snd
    else none
  else s.divideAligned targetSize

end EfficiencyBasedSplitter

end Vpunn
