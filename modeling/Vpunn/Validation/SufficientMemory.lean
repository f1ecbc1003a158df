import Mathlib.Order.Bounds.Basic
import Vpunn.Validation.MemorySize

/-! The CMX sizes are enough for what is stored. The data of a tensor has its packed size, and the
    sparsity map rounds the bytes of its bits down before it aligns them, so it lacks a byte where
    the samples end within the first byte of a group of 128. Only bytes that the alignment of the
    innermost dimension adds can make up for it. -/

namespace Vpunn
open MachineInt

/-! ### Alignment -/

theorem alignTo_of_nonneg {x multiple : ℤ} (hx : 0 ≤ x) :
    alignTo x multiple = if x % multiple = 0 then x else x + (multiple - x % multiple) := by
  unfold alignTo
  simp only [Int.tmod_eq_emod_of_nonneg hx]

/-- The least multiple that is not smaller. -/
theorem isLeast_alignTo {x multiple : ℤ} (hx : 0 ≤ x) (hm : 0 < multiple) :
    IsLeast {n | multiple ∣ n ∧ x ≤ n} (alignTo x multiple) := by
  have hmod := Int.emod_nonneg x hm.ne'
  have hlt := Int.emod_lt_of_pos x hm
  have hdiv := Int.emod_add_mul_ediv x multiple
  rw [alignTo_of_nonneg hx]
  split
  · next h => exact ⟨⟨Int.dvd_of_emod_eq_zero h, le_refl x⟩, fun n hn => hn.2⟩
  · next h =>
    refine ⟨⟨⟨x / multiple + 1, by linarith⟩, by omega⟩, ?_⟩
    rintro n ⟨⟨k, rfl⟩, hle⟩
    -- the multiple is beyond the one below `x`
    have hk : x / multiple < k := by
      by_contra hk
      have := mul_le_mul_of_nonneg_left (not_lt.mp hk) hm.le
      omega
    have := mul_le_mul_of_nonneg_left (Int.add_one_le_iff.mpr hk) hm.le
    linarith

theorem le_alignTo {x multiple : ℤ} (hx : 0 ≤ x) (hm : 0 < multiple) : x ≤ alignTo x multiple :=
  (isLeast_alignTo hx hm).1.2

theorem alignTo_eq_self_iff {x multiple : ℤ} (hx : 0 ≤ x) (hm : 0 < multiple) :
    alignTo x multiple = x ↔ multiple ∣ x := by
  have hlt := Int.emod_lt_of_pos x hm
  rw [alignTo_of_nonneg hx, Int.dvd_iff_emod_eq_zero]
  split <;> omega

/-! ### The sparsity map -/

/-- The bytes of one bit for each sample. -/
def bitBytes (samples : ℤ) : ℤ := (samples + 7) / 8

/-- The bits of the last samples get no byte: these end within the first byte of a group of
    16 bytes. -/
def LosesBits (samples : ℤ) : Prop := 0 < samples % 128 ∧ samples % 128 < 8

instance (samples : ℤ) : Decidable (LosesBits samples) := inferInstanceAs (Decidable (_ ∧ _))

namespace MemoryOperation

theorem sparsityMapBytes_of_nonneg {samples : ℤ} (h : 0 ≤ samples) :
    sparsityMapBytes samples
      = if samples / 8 % 16 = 0 then samples / 8 else samples / 8 + (16 - samples / 8 % 16) := by
  rw [sparsityMapBytes, Int.tdiv_eq_ediv_of_nonneg h, alignTo_of_nonneg (by omega)]

theorem bitBytes_le_sparsityMapBytes_iff {samples : ℤ} (h : 0 ≤ samples) :
    bitBytes samples ≤ sparsityMapBytes samples ↔ ¬ LosesBits samples := by
  rw [sparsityMapBytes_of_nonneg h]
  unfold bitBytes LosesBits
  split <;> omega

/-- One byte is missing. -/
theorem sparsityMapBytes_add_one {samples : ℤ} (h : 0 ≤ samples) (hl : LosesBits samples) :
    sparsityMapBytes samples + 1 = bitBytes samples := by
  rw [sparsityMapBytes_of_nonneg h]
  unfold LosesBits at hl
  unfold bitBytes
  split <;> omega

theorem sparsityMapBytes_nonneg {samples : ℤ} (h : 0 ≤ samples) : 0 ≤ sparsityMapBytes samples := by
  rw [sparsityMapBytes_of_nonneg h]
  split <;> omega

/-- A map for each of several rows of samples, each of them aligned. -/
theorem bitBytes_mul_le_iff {rows samples : ℤ} (hr : 0 ≤ rows) (h : 0 ≤ samples) :
    bitBytes (rows * samples) ≤ rows * sparsityMapBytes samples
      ↔ rows = 0 ∨ ¬ LosesBits samples := by
  have hrow : samples ≤ 8 * sparsityMapBytes samples ↔ ¬ LosesBits samples := by
    rw [← bitBytes_le_sparsityMapBytes_iff h]
    unfold bitBytes
    omega
  have hall : bitBytes (rows * samples) ≤ rows * sparsityMapBytes samples
      ↔ rows * samples ≤ rows * (8 * sparsityMapBytes samples) := by
    unfold bitBytes
    rw [mul_left_comm]
    omega
  rw [hall, ← hrow]
  rcases hr.eq_or_lt with rfl | hpos
  · simp
  · rw [mul_le_mul_iff_right₀ hpos]
    exact ⟨.inr, fun hor => hor.resolve_left hpos.ne'⟩

end MemoryOperation

/-! ### The data -/

namespace TensorInfo

/-- The bytes of a tensor whose runs along the innermost dimension fill whole bytes. -/
def packedSizeB (t : TensorInfo) : ℤ :=
  packedBytes t.datatype (t.get (layoutToOrder t.layout).1).toNat
    * t.numberOfElementsExcludingInnermost

/-- Dimensions that an `int` can hold, and a size below `2^31` bytes. -/
structure Sized (t : TensorInfo) : Prop where
  nonneg : ∀ a, 0 ≤ t.get a
  lt : ∀ a, t.get a < 2147483648
  size_lt : t.packedSizeB < 2147483648

variable {t : TensorInfo}

theorem Sized.numberOfElementsExcludingInnermost_nonneg (h : t.Sized) :
    0 ≤ t.numberOfElementsExcludingInnermost := by
  rw [numberOfElementsExcludingInnermost_eq_get]
  exact mul_nonneg (mul_nonneg (h.nonneg _) (h.nonneg _)) (h.nonneg _)

/-- The run is exact unless there are no runs. -/
theorem Sized.getTensorInnermostDimB_eq (h : t.Sized)
    (hpos : t.numberOfElementsExcludingInnermost ≠ 0) :
    t.getTensorInnermostDimB
      = packedBytes t.datatype (t.get (layoutToOrder t.layout).1).toNat := by
  have hruns := h.numberOfElementsExcludingInnermost_nonneg
  have hle : (packedBytes t.datatype (t.get (layoutToOrder t.layout).1).toNat : ℤ)
      ≤ t.packedSizeB := le_mul_of_one_le_right (by omega) (by omega)
  have hsize := h.size_lt
  exact TensorInfo.getTensorInnermostDimB_eq (Int.toNat_of_nonneg (h.nonneg _)).symm
    (by have := h.lt (layoutToOrder t.layout).1; omega) (by omega)

/-- The runs are exactly as long as what is packed. -/
theorem Sized.innermost_mul_eq (h : t.Sized) :
    t.getTensorInnermostDimB * t.numberOfElementsExcludingInnermost = t.packedSizeB := by
  by_cases hzero : t.numberOfElementsExcludingInnermost = 0
  · rw [packedSizeB, hzero, mul_zero, mul_zero]
  · rw [h.getTensorInnermostDimB_eq hzero, packedSizeB]

theorem numberOfElements_eq_get (t : TensorInfo) : t.numberOfElements
    = t.get (layoutToOrder t.layout).1 * t.numberOfElementsExcludingInnermost := by
  unfold numberOfElements numberOfElementsExcludingInnermost
  cases t.layout <;> simp only [layoutToOrder, get] <;> ring

theorem Sized.numberOfElements_nonneg (h : t.Sized) : 0 ≤ t.numberOfElements := by
  rw [numberOfElements_eq_get]
  exact mul_nonneg (h.nonneg _) h.numberOfElementsExcludingInnermost_nonneg

theorem Sized.packedSizeB_nonneg (h : t.Sized) : 0 ≤ t.packedSizeB :=
  mul_nonneg (by omega) h.numberOfElementsExcludingInnermost_nonneg

end TensorInfo

namespace MemoryOperation

/-! ### What has to be stored -/

/-- A sparsity map comes from the sparsity of the activators or with their storage elements. -/
def hasInput0Map (dpu : MemoryOperation) : Bool :=
  dpu.input0.sparsityEnabled || (dpu.sepActivators.isEnabled && !dpu.sepActivators.noSparseMap)

/-- The entries of the table of storage elements, without a bound on the result. -/
def storageElements (dpu : MemoryOperation) : ℤ :=
  if dpu.sepActivators.isEnabled then
    let shape := dpu.sepActivators.storageElementsPointers
    shape.x * shape.y * shape.z * shape.b
  else 0

def requiredInput0 (dpu : MemoryOperation) : ℤ :=
  dpu.input0Tensor.packedSizeB
    + (if dpu.hasInput0Map then bitBytes (input0Volume dpu.operation dpu.input0) else 0)
    + dpu.storageElements * pointerSize

/-- Filters of `size` bytes without those that the sparsity ratio takes off. -/
def reducedBytes (dpu : MemoryOperation) (size : ℤ) : ℤ :=
  if dpu.input1.sparsityEnabled then size - sparseBytes size dpu.input1.sparsity else size

def requiredInput1 (dpu : MemoryOperation) : ℤ :=
  dpu.reducedBytes dpu.input1.packedSizeB
    + (if dpu.input1.sparsityEnabled then bitBytes (dpu.input1.batch * dpu.input1.channels) else 0)
    + getWeightTableSize dpu.output0.channels

def requiredOutput0 (dpu : MemoryOperation) : ℤ :=
  dpu.output0MemoryDense.packedSizeB
    + if dpu.output0.sparsityEnabled then bitBytes dpu.output0MemoryDense.numberOfElements else 0

/-- The sizes are sufficient and end with a page. -/
structure SufficientSizes (config : MemoryAlignments) (dpu : MemoryOperation) : Prop where
  input0 : dpu.requiredInput0 ≤ dpu.input0ContiguousSizeBytes
  input1 : dpu.hasWeights → dpu.requiredInput1 ≤ dpu.input1ContiguousSizeBytes config
  output0 : dpu.requiredOutput0 ≤ dpu.output0ContiguousSizeBytes config
  input0_aligned : IsLeast
    {n | config.alignementSizeBytes ∣ n ∧ dpu.input0ContiguousSizeBytes ≤ n}
    (dpu.input0AlignedSizeBytes config)
  input1_aligned : IsLeast
    {n | config.alignementSizeBytes ∣ n ∧ dpu.input1ContiguousSizeBytes config ≤ n}
    (dpu.input1AlignedSizeBytes config)
  output0_aligned : IsLeast
    {n | config.alignementSizeBytes ∣ n ∧ dpu.output0ContiguousSizeBytes config ≤ n}
    (dpu.output0AlignedSizeBytes config)

/-- Operations with tensors below `2^31` bytes. The filters have one row and one column, and their
    sparsity ratio is a `float` below 1. -/
structure Sized (dpu : MemoryOperation) : Prop where
  input0_nonneg : ∀ a, 0 ≤ dpu.input0.get a
  input0Tensor : dpu.input0Tensor.Sized
  storageElements_lt : dpu.storageElements * pointerSize < 2147483648
  input1 : dpu.input1.Sized
  input1_width : dpu.input1.width = 1
  input1_height : dpu.input1.height = 1
  sparsity_nonneg : 0 ≤ dpu.input1.sparsity
  sparsity_le : dpu.input1.sparsity ≤ 1 - 1 / 2 ^ 24
  output0_channels : 0 ≤ dpu.output0.channels
  output0 : dpu.output0MemoryDense.Sized

/-- The bytes of a run of the weights along their innermost dimension. -/
def weightsRun (weights : TensorInfo) : ℤ :=
  packedBytes weights.datatype (weights.get (layoutToOrder weights.layout).1).toNat

/-- The bytes that bring a run to a multiple of the alignment, on devices that align filters. -/
def weightsPadding (config : MemoryAlignments) (weights : TensorInfo) : ℤ :=
  if config.legacySamplesAlignmentWeights then 0
  else -weightsRun weights % config.weigthsAlignmentB

/-- The runs of weights of one row and one column. -/
def weightsRuns (weights : TensorInfo) : ℤ :=
  match (layoutToOrder weights.layout).1 with
  | .z => weights.batch
  | .b => weights.channels
  | _ => weights.channels * weights.batch

/-- Memory for one run, aligned, for each of the filters is enough for them. With the channels
    innermost it is, up to the bits that the maps of sparse filters lack. Otherwise the runs of the
    other filters or channels have to fit into what the alignment adds, which the sparsity reduces
    as it does the packed weights. -/
def FiltersFit (config : MemoryAlignments) (weights : TensorInfo) : Prop :=
  let filters := weights.batch
  let channels := weights.channels
  let innermost := (layoutToOrder weights.layout).1
  let run := weightsRun weights
  let padding := weightsPadding config weights
  filters = 0 ∨ channels = 0 ∨
    if weights.sparsityEnabled then
      if innermost = .z ∧ padding = 0 then ¬ LosesBits channels
      else
        let packed := run * weightsRuns weights
        let stored := (run + padding) * filters
        (filters * channels + 7) / 8 - filters * (channels / 8 + -(channels / 8) % 16)
            + ⌊toFloat (toFloat stored * weights.sparsity)⌋
            - ⌊toFloat (toFloat packed * weights.sparsity)⌋
          ≤ stored - packed
    else
      innermost = .z ∨
        if innermost = .b then channels * run ≤ filters * (run + padding)
        else channels * run ≤ run + padding

/-! ### Activators -/

variable (config : MemoryAlignments) {dpu : MemoryOperation}

theorem input0Volume_nonneg (operation : Operation) {w : TensorInfo} (h : ∀ a, 0 ≤ w.get a) :
    0 ≤ input0Volume operation w := by
  have hx : 0 ≤ w.width := h .x
  have hy : 0 ≤ w.height := h .y
  have hz : 0 ≤ w.channels := h .z
  have hb : 0 ≤ w.batch := h .b
  unfold input0Volume
  split
  · split <;> positivity
  · positivity

theorem Sized.storageElementsTableSamples_eq (h : dpu.Sized) :
    dpu.storageElementsTableSamples = dpu.storageElements := by
  have hlt := h.storageElements_lt
  unfold storageElements pointerSize at hlt
  unfold storageElementsTableSamples storageElements
  split
  · next hsep =>
    rw [if_pos hsep] at hlt
    dsimp only at hlt ⊢
    exact u32_of_bounds (by positivity) (by omega)
  · rfl

theorem storageElements_nonneg (dpu : MemoryOperation) : 0 ≤ dpu.storageElements := by
  unfold storageElements
  split
  · positivity
  · exact le_refl 0

theorem Sized.input0ContiguousSizeBytes_eq (h : dpu.Sized) :
    dpu.input0ContiguousSizeBytes = dpu.input0Tensor.packedSizeB
      + (if dpu.hasInput0Map then sparsityMapBytes (input0Volume dpu.operation dpu.input0) else 0)
      + dpu.storageElements * pointerSize := by
  unfold input0ContiguousSizeBytes hasInput0Map
  simp only [h.input0Tensor.innermost_mul_eq, h.storageElementsTableSamples_eq]
  cases dpu.input0.sparsityEnabled <;> rfl

theorem Sized.requiredInput0_le_iff (h : dpu.Sized) :
    dpu.requiredInput0 ≤ dpu.input0ContiguousSizeBytes
      ↔ (dpu.hasInput0Map → ¬ LosesBits (input0Volume dpu.operation dpu.input0)) := by
  have hmap := bitBytes_le_sparsityMapBytes_iff (input0Volume_nonneg dpu.operation h.input0_nonneg)
  rw [h.input0ContiguousSizeBytes_eq, requiredInput0, add_le_add_iff_right, add_le_add_iff_left]
  split
  · next hpresent => rw [hmap]; exact ⟨fun hlose _ => hlose, fun himp => himp hpresent⟩
  · next habsent => exact ⟨fun _ hpresent => absurd hpresent habsent, fun _ => le_refl 0⟩

theorem Sized.input0ContiguousSizeBytes_nonneg (h : dpu.Sized) :
    0 ≤ dpu.input0ContiguousSizeBytes := by
  have hdata := h.input0Tensor.packedSizeB_nonneg
  have hmap := sparsityMapBytes_nonneg (input0Volume_nonneg dpu.operation h.input0_nonneg)
  have htable := storageElements_nonneg dpu
  rw [h.input0ContiguousSizeBytes_eq]
  unfold pointerSize
  split <;> omega

/-! ### Outputs -/

/-- The bytes that the alignment adds to a run. -/
theorem Sized.output0ContiguousSizeBytes_eq (h : dpu.Sized) : ∃ added : ℤ, 0 ≤ added
    ∧ (added = 0 ↔ dpu.output0MemoryDense.numberOfElementsExcludingInnermost = 0 ∨ dpu.superdense
      ∨ config.outInnermostDimAlignmentB ∣ packedBytes dpu.output0MemoryDense.datatype
        (dpu.output0MemoryDense.get (layoutToOrder dpu.output0MemoryDense.layout).1).toNat)
    ∧ dpu.output0ContiguousSizeBytes config = dpu.output0MemoryDense.packedSizeB + added
      + if dpu.output0.sparsityEnabled then
          sparsityMapBytes dpu.output0MemoryDense.numberOfElements else 0 := by
  have hruns := h.output0.numberOfElementsExcludingInnermost_nonneg
  have halign := config.outInnermostDimAlignmentB_pos
  by_cases hzero : dpu.output0MemoryDense.numberOfElementsExcludingInnermost = 0
  · refine ⟨0, le_refl 0, iff_of_true rfl (.inl hzero), ?_⟩
    unfold output0ContiguousSizeBytes TensorInfo.packedSizeB
    simp only [hzero, mul_zero, add_zero]
  · have hrun := h.output0.getTensorInnermostDimB_eq hzero
    have hdata := h.output0.innermost_mul_eq
    generalize hb : dpu.output0MemoryDense.getTensorInnermostDimB = run at hrun hdata
    have hpos : 0 ≤ run := by omega
    cases hdense : dpu.superdense with
    | true =>
      refine ⟨0, le_refl 0, iff_of_true rfl (.inr (.inl rfl)), ?_⟩
      unfold output0ContiguousSizeBytes
      simp only [hb, hdense, if_true, hdata, add_zero]
    | false =>
      refine ⟨(alignTo run config.outInnermostDimAlignmentB - run)
        * dpu.output0MemoryDense.numberOfElementsExcludingInnermost, ?_, ?_, ?_⟩
      · exact mul_nonneg (by have := le_alignTo hpos halign; omega) hruns
      · rw [← hrun, ← alignTo_eq_self_iff hpos halign, mul_eq_zero, sub_eq_zero]
        simp [hzero]
      · unfold output0ContiguousSizeBytes
        simp only [hb, hdense, Bool.false_eq_true, if_false]
        rw [← hdata]
        ring

theorem Sized.requiredOutput0_le_iff (h : dpu.Sized) :
    dpu.requiredOutput0 ≤ dpu.output0ContiguousSizeBytes config
      ↔ (dpu.output0.sparsityEnabled → LosesBits dpu.output0MemoryDense.numberOfElements →
        dpu.superdense = false ∧ ¬ config.outInnermostDimAlignmentB ∣
          packedBytes dpu.output0MemoryDense.datatype
            (dpu.output0MemoryDense.get (layoutToOrder dpu.output0MemoryDense.layout).1).toNat) := by
  obtain ⟨added, hadded, hzero, heq⟩ := h.output0ContiguousSizeBytes_eq config
  have hsamples := h.output0.numberOfElements_nonneg
  rw [heq, requiredOutput0]
  cases hmap : dpu.output0.sparsityEnabled with
  | false => simp [hadded]
  | true =>
    simp only [if_true, forall_const]
    by_cases hlose : LosesBits dpu.output0MemoryDense.numberOfElements
    · -- one byte is missing, and the runs are not none
      have hbyte := sparsityMapBytes_add_one hsamples hlose
      have hruns : dpu.output0MemoryDense.numberOfElementsExcludingInnermost ≠ 0 := fun hnone => by
        rw [TensorInfo.numberOfElements_eq_get, hnone, mul_zero] at hlose
        exact absurd hlose (by decide)
      have hneeds : added ≠ 0 ↔ dpu.superdense = false ∧ ¬ config.outInnermostDimAlignmentB ∣
          packedBytes dpu.output0MemoryDense.datatype
            (dpu.output0MemoryDense.get (layoutToOrder dpu.output0MemoryDense.layout).1).toNat := by
        rw [ne_eq, hzero]
        simp [hruns]
      rw [← hneeds]
      constructor
      · intro hle _
        omega
      · intro himp
        have := himp hlose
        omega
    · have hmap := (bitBytes_le_sparsityMapBytes_iff hsamples).mpr hlose
      exact ⟨fun _ hl => absurd hl hlose, fun _ => by omega⟩

theorem Sized.output0ContiguousSizeBytes_nonneg (h : dpu.Sized) :
    0 ≤ dpu.output0ContiguousSizeBytes config := by
  obtain ⟨added, hadded, -, heq⟩ := h.output0ContiguousSizeBytes_eq config
  have hdata := h.output0.packedSizeB_nonneg
  have hmap := sparsityMapBytes_nonneg h.output0.numberOfElements_nonneg
  rw [heq]
  split <;> omega

/-! ### Filters -/

theorem alignTo_eq_add {x multiple : ℤ} (hx : 0 ≤ x) (hm : 0 < multiple) :
    alignTo x multiple = x + -x % multiple := by
  have hmod := Int.emod_nonneg x hm.ne'
  have hlt := Int.emod_lt_of_pos x hm
  have hdiv := Int.emod_add_mul_ediv x multiple
  rw [alignTo_of_nonneg hx]
  split
  · next h => rw [Int.emod_eq_zero_of_dvd (Int.dvd_neg.mpr (Int.dvd_of_emod_eq_zero h)), add_zero]
  · next h =>
    have hneg : -x = (multiple - x % multiple) + multiple * (-(x / multiple) - 1) := by linarith
    have hlast : (multiple - x % multiple) % multiple = multiple - x % multiple :=
      Int.emod_eq_of_lt (by omega) (by omega)
    rw [hneg, Int.add_mul_emod_self_left, hlast]

theorem weightsPadding_nonneg (weights : TensorInfo) : 0 ≤ weightsPadding config weights := by
  unfold weightsPadding
  split
  · exact le_refl 0
  · exact Int.emod_nonneg _ config.weigthsAlignmentB_pos.ne'

/-- Weights of one row and one column are a run for each filter, channel or both. -/
theorem Sized.numberOfElementsExcludingInnermost_eq (h : dpu.Sized) :
    dpu.input1.numberOfElementsExcludingInnermost = weightsRuns dpu.input1 := by
  unfold TensorInfo.numberOfElementsExcludingInnermost weightsRuns
  rw [h.input1_width, h.input1_height]
  cases (layoutToOrder dpu.input1.layout).1 <;> simp only [one_mul]

theorem Sized.packedSizeB_eq (h : dpu.Sized) :
    dpu.input1.packedSizeB = weightsRun dpu.input1 * weightsRuns dpu.input1 := by
  rw [TensorInfo.packedSizeB, h.numberOfElementsExcludingInnermost_eq, weightsRun]

/-- One filter is a run and its padding. -/
theorem Sized.alignedSizeBOfOneSingleMask_eq (h : dpu.Sized) (hruns : weightsRuns dpu.input1 ≠ 0) :
    alignedSizeBOfOneSingleMask config dpu
      = weightsRun dpu.input1 + weightsPadding config dpu.input1 := by
  rw [← h.numberOfElementsExcludingInnermost_eq] at hruns
  unfold alignedSizeBOfOneSingleMask weightsPadding
  dsimp only
  rw [h.input1.getTensorInnermostDimB_eq hruns, ← weightsRun]
  split
  · exact (add_zero _).symm
  · exact alignTo_eq_add (Int.natCast_nonneg _) config.weigthsAlignmentB_pos

/-- The filters as they are stored, each aligned by itself. -/
def storedFilters (config : MemoryAlignments) (dpu : MemoryOperation) : ℤ :=
  alignedSizeBOfOneSingleMask config dpu * dpu.input1.batch

theorem input1ContiguousSizeBytes_eq (dpu : MemoryOperation) :
    dpu.input1ContiguousSizeBytes config = dpu.reducedBytes (storedFilters config dpu)
      + (if dpu.input1.sparsityEnabled then
          dpu.input1.batch * sparsityMapBytes dpu.input1.channels else 0)
      + getWeightTableSize dpu.output0.channels := by
  unfold input1ContiguousSizeBytes reducedBytes storedFilters
  cases dpu.input1.sparsityEnabled
  · simp
  · rfl

/-- A run of whole bytes is not negative. -/
theorem getTensorInnermostDimB_nonneg (t : TensorInfo) : 0 ≤ t.getTensorInnermostDimB := by
  unfold TensorInfo.getTensorInnermostDimB
  exact Int.natCast_nonneg _

theorem storedFilters_nonneg (h : dpu.Sized) : 0 ≤ storedFilters config dpu := by
  have hrun := getTensorInnermostDimB_nonneg dpu.input1
  refine mul_nonneg ?_ (h.input1.nonneg .b)
  unfold alignedSizeBOfOneSingleMask
  dsimp only
  split
  · exact hrun
  · exact hrun.trans (le_alignTo hrun config.weigthsAlignmentB_pos)

/-- The reduction takes off no more than there is. -/
theorem sparseBytes_le {size : ℤ} {sparsity : ℚ} (hsize : 0 ≤ size) (h0 : 0 ≤ sparsity)
    (h1 : sparsity ≤ 1 - 1 / 2 ^ 24) : sparseBytes size sparsity ≤ size := by
  have hcast : (0 : ℚ) ≤ size := by exact_mod_cast hsize
  have hle := Rounding.round_mul_round_le (p := 24) (by norm_num) hcast h0 h1
  have hfloor : ⌊toFloat (toFloat size * sparsity)⌋ ≤ ⌊(size : ℚ)⌋ := Int.floor_le_floor hle
  rwa [Int.floor_intCast] at hfloor

theorem Sized.reducedBytes_nonneg (h : dpu.Sized) {size : ℤ} (hsize : 0 ≤ size) :
    0 ≤ dpu.reducedBytes size := by
  have hsparse := sparseBytes_le hsize h.sparsity_nonneg h.sparsity_le
  unfold reducedBytes
  split <;> omega

theorem Sized.weightTableSize_le (h : dpu.Sized) :
    getWeightTableSize dpu.output0.channels ≤ dpu.input1ContiguousSizeBytes config := by
  have hstored := h.reducedBytes_nonneg (storedFilters_nonneg config h)
  have hmap := mul_nonneg (h.input1.nonneg .b) (sparsityMapBytes_nonneg (h.input1.nonneg .z))
  rw [input1ContiguousSizeBytes_eq]
  change 0 ≤ dpu.input1.batch * sparsityMapBytes dpu.input1.channels at hmap
  split <;> omega

/-- Without filters or channels there is nothing to store but the table. -/
theorem Sized.requiredInput1_of_eq_zero (h : dpu.Sized)
    (hzero : dpu.input1.batch = 0 ∨ dpu.input1.channels = 0) :
    dpu.requiredInput1 = getWeightTableSize dpu.output0.channels := by
  have hpacked : dpu.input1.packedSizeB = 0 := by
    rw [h.packedSizeB_eq, weightsRun, weightsRuns]
    rcases hzero with hzero | hzero <;> cases (layoutToOrder dpu.input1.layout).1 <;>
      simp [TensorInfo.get, hzero, packedBytes]
  have hbits : dpu.input1.batch * dpu.input1.channels = 0 := mul_eq_zero.mpr hzero
  have hnone : dpu.reducedBytes 0 = 0 := by
    unfold reducedBytes sparseBytes toFloat
    simp
  rw [requiredInput1, hpacked, hbits, hnone]
  simp [bitBytes]

theorem Sized.input1ContiguousSizeBytes_nonneg (h : dpu.Sized) :
    0 ≤ dpu.input1ContiguousSizeBytes config := by
  have htable := h.weightTableSize_le config
  have hchannels := h.output0_channels
  unfold getWeightTableSize at htable
  omega

/-- The weights fit exactly if what the filters hold of them, with their maps, is enough. -/
theorem requiredInput1_le_iff (config : MemoryAlignments) (dpu : MemoryOperation) :
    dpu.requiredInput1 ≤ dpu.input1ContiguousSizeBytes config
      ↔ dpu.reducedBytes dpu.input1.packedSizeB
          + (if dpu.input1.sparsityEnabled then
              bitBytes (dpu.input1.batch * dpu.input1.channels) else 0)
        ≤ dpu.reducedBytes (storedFilters config dpu)
          + (if dpu.input1.sparsityEnabled then
              dpu.input1.batch * sparsityMapBytes dpu.input1.channels else 0) := by
  rw [input1ContiguousSizeBytes_eq, requiredInput1, add_le_add_iff_right]

theorem Sized.filtersFit_iff (h : dpu.Sized) :
    dpu.requiredInput1 ≤ dpu.input1ContiguousSizeBytes config
      ↔ FiltersFit config dpu.input1 := by
  have hbatch : 0 ≤ dpu.input1.batch := h.input1.nonneg .b
  have hchannels : 0 ≤ dpu.input1.channels := h.input1.nonneg .z
  by_cases hzero : dpu.input1.batch = 0 ∨ dpu.input1.channels = 0
  · refine iff_of_true ?_ (or_assoc.mp (.inl hzero))
    rw [h.requiredInput1_of_eq_zero hzero]
    exact h.weightTableSize_le config
  rw [not_or] at hzero
  have hruns : weightsRuns dpu.input1 ≠ 0 := by
    unfold weightsRuns
    split
    · exact hzero.1
    · exact hzero.2
    · exact mul_ne_zero hzero.2 hzero.1
  have hstored : storedFilters config dpu
      = (weightsRun dpu.input1 + weightsPadding config dpu.input1) * dpu.input1.batch := by
    rw [storedFilters, h.alignedSizeBOfOneSingleMask_eq config hruns]
  have hpadding := weightsPadding_nonneg config dpu.input1
  rw [requiredInput1_le_iff, h.packedSizeB_eq, hstored, FiltersFit, or_iff_right hzero.1,
    or_iff_right hzero.2]
  have hbatch' : 0 < dpu.input1.batch := hbatch.lt_of_ne' hzero.1
  cases hmap : dpu.input1.sparsityEnabled with
  | false =>
    simp only [Bool.false_eq_true, if_false, add_zero, reducedBytes, hmap]
    unfold weightsRuns
    generalize weightsRun dpu.input1 = run
    cases (layoutToOrder dpu.input1.layout).1 with
    | z => exact iff_of_true (mul_le_mul_of_nonneg_right (by omega) hbatch) (.inl rfl)
    | b => simp [mul_comm]
    | x | y =>
      simp only [reduceCtorEq, false_or, if_false]
      rw [← mul_assoc, mul_le_mul_iff_left₀ hbatch', mul_comm run]
  | true =>
    simp only [if_true, reducedBytes, hmap, sparseBytes]
    split
    · next hz =>
      rw [weightsRuns, hz.1, hz.2, add_zero, add_le_add_iff_left]
      exact (bitBytes_mul_le_iff hbatch hchannels).trans (or_iff_right hzero.1)
    · have hmapBytes : sparsityMapBytes dpu.input1.channels
          = dpu.input1.channels / 8 + -(dpu.input1.channels / 8) % 16 := by
        rw [sparsityMapBytes, Int.tdiv_eq_ediv_of_nonneg hchannels,
          alignTo_eq_add (by omega) (by norm_num)]
      rw [hmapBytes, bitBytes]
      constructor <;> intro hle <;> linarith

/-! ### All sizes -/

/-- The sizes are sufficient exactly if no map of the activators loses bits, the output's map at most
    where the alignment of the runs adds bytes, and the filters fit. -/
theorem sufficientSizes_iff (config : MemoryAlignments) (dpu : MemoryOperation) (h : dpu.Sized) :
    SufficientSizes config dpu
      ↔ (dpu.hasInput0Map → ¬ LosesBits (input0Volume dpu.operation dpu.input0))
        ∧ (dpu.hasWeights → FiltersFit config dpu.input1)
        ∧ (dpu.output0.sparsityEnabled → LosesBits dpu.output0MemoryDense.numberOfElements →
          dpu.superdense = false ∧ ¬ config.outInnermostDimAlignmentB ∣
            packedBytes dpu.output0MemoryDense.datatype
              (dpu.output0MemoryDense.get
                (layoutToOrder dpu.output0MemoryDense.layout).1).toNat) := by
  have hpage := config.alignementSizeBytes_pos
  rw [← h.requiredInput0_le_iff, ← h.filtersFit_iff config,
    ← h.requiredOutput0_le_iff config]
  constructor
  · exact fun hs => ⟨hs.input0, hs.input1, hs.output0⟩
  · rintro ⟨hinput0, hinput1, houtput0⟩
    exact ⟨hinput0, hinput1, houtput0, isLeast_alignTo h.input0ContiguousSizeBytes_nonneg hpage,
      isLeast_alignTo (h.input1ContiguousSizeBytes_nonneg config) hpage,
      isLeast_alignTo (h.output0ContiguousSizeBytes_nonneg config) hpage⟩

/-- A convolution with sparse filters of 64 channels and an input halo. -/
theorem sufficientSizes_iff_halo :
    SufficientSizes .vpu4
      { MemoryOperation.ofDPUWorkload
          { device := .vpu_4_0, op := .convolution
            inputs := { shape := ⟨16, 8, 64, 1⟩, dtype := .uint8, sparsity := true }
            outputs := { shape := ⟨16, 8, 32, 1⟩, dtype := .uint8 }
            kernels := ⟨1, 1⟩, strides := ⟨1, 1⟩, padding := {}, executionOrder := .cuboid16x16
            weightSparsityEnabled := true, weightSparsity := 1 / 2
            halo := { input0Halo := { top := 1 } } } with
        input1 := { height := 1, width := 1, channels := 64, batch := 32, sparsityEnabled := true
                    sparsity := 1 / 2 } } :=
  (sufficientSizes_iff .vpu4 _ ⟨fun a => by cases a <;> decide,
    ⟨fun a => by cases a <;> decide, fun a => by cases a <;> decide, by decide⟩, by decide,
    ⟨fun a => by cases a <;> decide, fun a => by cases a <;> decide, by decide⟩, by decide,
    by decide, by norm_num, by norm_num, by decide,
    ⟨fun a => by cases a <;> decide, fun a => by cases a <;> decide, by decide⟩⟩).mpr
    ⟨by decide, fun _ => by unfold FiltersFit; decide, by decide⟩

/-- The sparse input of 43 columns and 3 channels has 129 bits in a map of 16 bytes. -/
theorem not_sufficientSizes :
    ∃ dpu : MemoryOperation, dpu =
      { MemoryOperation.ofDPUWorkload
          { device := .npu_5_0, op := .convolution
            inputs := { shape := ⟨43, 1, 3, 1⟩, dtype := .uint8, sparsity := true }
            outputs := { shape := ⟨43, 1, 16, 1⟩, dtype := .uint8 }
            kernels := ⟨1, 1⟩, strides := ⟨1, 1⟩, padding := {}, executionOrder := .cuboid16x16
            inputAutopad := some true } with
        input1 := { height := 1, width := 1, channels := 16, batch := 16 } }
      ∧ dpu.Sized ∧ dpu.input0ContiguousSizeBytes = 145 ∧ dpu.requiredInput0 = 146
      ∧ ¬ SufficientSizes .vpu5 dpu := by
  refine ⟨_, rfl, ⟨fun a => by cases a <;> decide,
    ⟨fun a => by cases a <;> decide, fun a => by cases a <;> decide, by decide⟩, by decide,
    ⟨fun a => by cases a <;> decide, fun a => by cases a <;> decide, by decide⟩, by decide,
    by decide, by norm_num, by norm_num, by decide,
    ⟨fun a => by cases a <;> decide, fun a => by cases a <;> decide, by decide⟩⟩, by decide,
    by decide, fun hs => ?_⟩
  exact absurd hs.input0 (by decide)

end MemoryOperation

end Vpunn
