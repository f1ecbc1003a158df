import Mathlib.Data.List.Sort
import Vpunn.Inference.Blas

/-! The layers of the network (`fully_conneted.cpp`, `bias.cpp`, `l2_normalization.cpp`,
    `sigmoid.cpp`, `kNN.cpp`), on tensors that are written in place. -/

namespace Vpunn
open Blas

/-- The numbers of the machine. Nothing is known of what the operations give. -/
class MachineNumber (α : Type) extends Zero α, One α, Add α, Mul α, Neg α, Div α, LT α where
  sqrtf : α → α
  exp : α → α
  /-- `1e-12f` -/
  tiny : α

/-- A multidimensional tensor with its elements. -/
structure Tensor (α : Type) where
  dimensions : List ℕ
  buffer : Buffer α dimensions.prod

namespace Tensor

variable {α : Type} (t : Tensor α)

def size : ℕ := t.dimensions.prod

/-- The number of bytes of that many elements, in 32 bits. -/
def bytes (elements : ℕ) : ℕ := 4 * elements % 4294967296

theorem length_copy {n : ℕ} (data old : List α) (h : bytes n = bytes data.length)
    (hold : old.length = n) :
    (data.take (bytes data.length / 4) ++ old.drop (bytes data.length / 4)).length = n := by
  rw [bytes] at h ⊢
  rw [bytes] at h
  rw [List.length_append, List.length_take, List.length_drop]
  omega

/-- Data of another number of bytes is refused. As many bytes as were counted are copied. -/
def assign (data : List α) : Option (Tensor α) :=
  if h : bytes t.dimensions.prod = bytes data.length then
    let copied := bytes data.length / 4
    let elements := data.take copied ++ t.buffer.data.toList.drop copied
    some { t with buffer := { t.buffer with data :=
      ⟨elements.toArray, length_copy data _ h t.buffer.data.length_toList⟩ } }
  else none

/-- The bytes of the tensor can be counted in 32 bits. -/
def Small : Prop := t.dimensions.prod < 1073741824

variable {t} {data : List α}

theorem bytes_eq_iff (h : t.Small) :
    bytes t.dimensions.prod = bytes data.length
      ↔ data.length % 1073741824 = t.dimensions.prod := by
  rw [Small] at h
  rw [bytes, bytes]
  omega

/-- The tensor takes the first elements of the data. -/
theorem assign_of_length (hsmall : t.Small)
    (h : data.length % 1073741824 = t.dimensions.prod) :
    ∃ buffer, t.assign data = some { t with buffer } ∧ buffer.address = t.buffer.address
      ∧ ∀ i < t.dimensions.prod, buffer.read i = data[i]? := by
  refine ⟨_, dif_pos ((bytes_eq_iff hsmall).mpr h), rfl, fun i hi => ?_⟩
  rw [Small] at hsmall
  have hcopied : bytes data.length / 4 = t.dimensions.prod := by
    rw [bytes]
    omega
  have hi' : i < (data.take (bytes data.length / 4)).length := by
    rw [List.length_take]
    omega
  simp only [Buffer.read, Vector.getElem?_mk, List.getElem?_toArray]
  rw [List.getElem?_append_left hi', List.getElem?_take_of_lt (by omega)]

theorem assign_of_ne (hsmall : t.Small) (h : data.length % 1073741824 ≠ t.dimensions.prod) :
    t.assign data = none :=
  dif_neg (mt (bytes_eq_iff hsmall).mp h)

end Tensor

/-- The ones that the bias is multiplied with. -/
structure BiasOpBuffer (α : Type) where
  space : ℕ
  batchBuffer : Buffer α space

def BiasOpBuffer.reserveBiasSpace {α : Type} [One α] (space : ℕ) : BiasOpBuffer α where
  space := space
  batchBuffer := ⟨0, .replicate space 1⟩

namespace Kernels

variable {α : Type} [MachineNumber α] [DecidableEq α] (simd : Bool)

def dense (weights activations output : Tensor α) : Option (Tensor α) := do
  let outputChannels ← output.dimensions[1]?
  let inputChannels ← activations.dimensions[1]?
  let batchSize ← activations.dimensions[0]?
  let buffer ← cblasSgemm simd .rowMajor .noTrans .trans batchSize outputChannels inputChannels 1
    activations.buffer inputChannels weights.buffer inputChannels 0 output.buffer outputChannels
  return { output with buffer }

def bias (bias output : Tensor α) (execBuffer : BiasOpBuffer α) : Option (Tensor α) := do
  let batchSize ← output.dimensions[0]?
  let outputChannels ← output.dimensions[1]?
  let inputChannels := 1
  let buffer ← cblasSgemm simd .rowMajor .noTrans .noTrans batchSize outputChannels inputChannels 1
    execBuffer.batchBuffer inputChannels bias.buffer outputChannels 1 output.buffer outputChannels
  return { output with buffer }

variable [DecidableLT α]

/-- `cblas_snrm2` of the values that stand next to each other from a position on. -/
def cblasSnrm2 {n : ℕ} (N : ℕ) (X : Buffer α n) (start : ℕ) : Option α := do
  return MachineNumber.sqrtf (← dot X X simd N start start)

def cblasSscal {n : ℕ} (N : ℕ) (alpha : α) (X : Buffer α n) (start : ℕ) : Option (Buffer α n) :=
  (List.range N).foldlM (fun X idx => do X.write (start + idx) ((← X.read (start + idx)) * alpha)) X

/-- The rows of `output` are divided by their norms, if these are positive. -/
def normalizeRows {n : ℕ} (channels batchSize : ℕ) (output : Buffer α n) : Option (Buffer α n) :=
  (List.range batchSize).foldlM (fun output batch => do
    let norm ← cblasSnrm2 simd channels output (channels * batch)
    if 0 < norm then cblasSscal channels (1 / norm) output (channels * batch) else return output)
    output

def l2Normalization (activations output : Tensor α) : Option (Tensor α) := do
  let channels ← activations.dimensions[1]?
  let batchSize ← activations.dimensions[0]?
  let output ← output.assign activations.buffer.data.toList
  let buffer ← normalizeRows simd channels batchSize output.buffer
  return { output with buffer }

/-- A function is applied to each element in place. -/
def mapInPlace (f : α → α) (output : Tensor α) : Option (Tensor α) := do
  let buffer ← (List.range output.size).foldlM (fun buffer idx => do
    buffer.write idx (f (← buffer.read idx))) output.buffer
  return { output with buffer }

def relu (x : α) : α := if x < 0 then 0 else x

def sigmoid (x : α) : α := 1 / (1 + MachineNumber.exp (-x))

/-! ### Nearest neighbours -/

/-- The order of the pairs in the queue of `n_index`. -/
def pairLe (p q : α × ℕ) : Bool := p.1 < q.1 ∨ ¬ q.1 < p.1 ∧ p.2 ≤ q.2

/-- The indices of the smallest `n` of the values. There is no smallest of none. -/
def nIndex (n : ℕ) (data : ℕ → Option α) (size : ℕ) : Option (List ℕ) := do
  let pairs ← (List.range size).mapM fun i => do return (← data i, i)
  if n ≤ size then return ((pairs.mergeSort pairLe).take n).map Prod.snd else none

/-- The distances, and for each row of the batch its nearest neighbours, one row after the other. -/
def neighboursIdx (weights activations : Tensor α) (nNeighbours : ℕ) :
    Option ((n : ℕ) × Buffer α n × List ℕ) := do
  let embeddingShape ← weights.dimensions[1]?
  let batchSize ← activations.dimensions[0]?
  let items ← weights.dimensions[0]?
  let distances ← cblasSgemm simd .colMajor .noTrans .trans batchSize items embeddingShape (-1)
    activations.buffer batchSize weights.buffer items 1
    (⟨0, .replicate (batchSize * items) 1⟩ : Buffer α (batchSize * items)) batchSize
  let indexes ← (List.range batchSize).mapM fun b =>
    nIndex nNeighbours (distances.row (b * items)) items
  return ⟨_, distances, indexes.flatten⟩

/-- Every row of the batch is predicted from the first `n` indices and their distances. -/
def kNN (weights targets activations output : Tensor α) (nNeighbours : ℕ) : Option (Tensor α) := do
  if nNeighbours < 1 then return output
  let batchSize ← activations.dimensions[0]?
  let ⟨_, distances, indexes⟩ ← neighboursIdx simd weights activations nNeighbours
  let buffer ← (List.range batchSize).foldlM (fun buffer b => do
    let (prediction, sum) ← (List.range nNeighbours).foldlM (fun (prediction, sum) idx => do
      let index ← indexes[idx]?
      let weight := 1 / ((← distances.read index) + MachineNumber.tiny)
      return (prediction + (← targets.buffer.read index) * weight, sum + weight))
      ((0 : α), (0 : α))
    buffer.write (b * nNeighbours) (prediction / sum)) output.buffer
  return { output with buffer }

end Kernels

namespace Kernels

/-! ### What the layers write -/

variable {α : Type}

/-- A tensor has been written, in its dimensions and its place. -/
def Writes (output : Tensor α) (result : Option (Tensor α)) (P : (ℕ → Option α) → Prop) : Prop :=
  ∃ t : Tensor α, result = some t ∧ t.dimensions = output.dimensions
    ∧ t.buffer.address = output.buffer.address ∧ P t.buffer.read

theorem mapInPlace_writes (f : α → α) (output : Tensor α) :
    Writes output (mapInPlace f output) fun read => ∀ i < output.dimensions.prod,
      read i = (output.buffer.read i).map f := by
  have hread : ∀ i ∈ List.range output.size, ∀ (b : Buffer α output.dimensions.prod) a,
      b.read (id i) = some a → (do b.write i (f (← b.read i))) = b.write (id i) (f a) := by
    intro i _ b a hread
    rw [id_eq] at hread
    rw [hread]
    rfl
  obtain ⟨buffer, hrun, hupdated⟩ : ∃ buffer, (List.range output.size).foldlM
        (fun b i => do b.write i (f (← b.read i))) output.buffer = some buffer
      ∧ Buffer.Updated (List.range output.size) id (fun _ => f) output.buffer buffer :=
    Buffer.foldlM_update hread List.nodup_range (fun i hi => List.mem_range.mp hi) output.buffer
  refine ⟨{ output with buffer }, ?_, rfl, hupdated.address, fun i hi => ?_⟩
  · simp only [mapInPlace, hrun]
    rfl
  · exact hupdated.written i (List.mem_range.mpr hi)

variable [MachineNumber α]

theorem cblasSscal_updated {s N start : ℕ} (alpha : α) (X : Buffer α s) (h : start + N ≤ s) :
    ∃ X', cblasSscal N alpha X start = some X'
      ∧ Buffer.Updated (List.range N) (start + ·) (fun _ x => x * alpha) X X' := by
  refine Buffer.foldlM_update (fun i _ b a hread => ?_) ?_ (fun i hi => ?_) X
  · rw [hread]
    rfl
  · exact List.nodup_range.imp fun hne heq => hne (Nat.add_left_cancel heq)
  · rw [List.mem_range] at hi
    omega

section Normalize

variable [DecidableLT α] (simd : Bool)

/-- An element of a row that is divided by the norm of the row. -/
def normalizedAt (simd : Bool) {s : ℕ} (X : Buffer α s) (channels r j : ℕ) : Option α := do
  let norm ← cblasSnrm2 simd channels X (channels * r)
  let x ← X.read (r * channels + j)
  return if 0 < norm then x * (1 / norm) else x

/-- One row is normalized and the others stay. -/
theorem normalizeRow_step {s channels r : ℕ} (X : Buffer α s) (h : r * channels + channels ≤ s) :
    ∃ X', (do
        let norm ← cblasSnrm2 simd channels X (channels * r)
        if 0 < norm then cblasSscal channels (1 / norm) X (channels * r) else return X) = some X'
      ∧ X'.address = X.address
      ∧ (∀ j < channels, X'.read (r * channels + j) = normalizedAt simd X channels r j)
      ∧ ∀ i, (∀ j < channels, i ≠ r * channels + j) → X'.read i = X.read i := by
  have hrow : Defined (X.row (channels * r)) channels :=
    defined_row X (by rw [Nat.mul_comm]; exact h)
  obtain ⟨d, hd⟩ := exists_dot simd hrow hrow
  have hnorm : cblasSnrm2 simd channels X (channels * r) = some (MachineNumber.sqrtf d) := by
    rw [cblasSnrm2, hd]
    rfl
  simp only [normalizedAt, hnorm, Option.bind_eq_bind, Option.bind_some]
  split_ifs with hpos
  · obtain ⟨X', hrun, hupdated⟩ := cblasSscal_updated (1 / MachineNumber.sqrtf d) X
      (show channels * r + channels ≤ s by rw [Nat.mul_comm]; exact h)
    refine ⟨X', hrun, hupdated.address, fun j hj => ?_, fun i hi => hupdated.frame i ?_⟩
    · obtain ⟨x, hx⟩ := X.exists_read (i := r * channels + j) (by omega)
      have hwritten := hupdated.written j (List.mem_range.mpr hj)
      rw [Nat.mul_comm channels r, hx] at hwritten
      rw [hwritten, hx]
      rfl
    · intro j hj heq
      rw [Nat.mul_comm] at heq
      exact hi j (List.mem_range.mp hj) heq.symm
  · refine ⟨X, rfl, rfl, fun j hj => ?_, fun i _ => rfl⟩
    obtain ⟨x, hx⟩ := X.exists_read (i := r * channels + j) (by omega)
    rw [hx]
    rfl

theorem normalizedAt_congr {s channels r j : ℕ} {X X' : Buffer α s}
    (haddress : X'.address = X.address)
    (h : ∀ j < channels, X'.read (r * channels + j) = X.read (r * channels + j))
    (hj : j < channels) : normalizedAt simd X' channels r j = normalizedAt simd X channels r j := by
  have hrow : Agree (X'.row (channels * r)) (X.row (channels * r)) channels := by
    intro k hk
    rw [Buffer.row, Buffer.row, Nat.add_comm, Nat.mul_comm]
    exact h k hk
  have haligned : X'.Aligned 4 (channels * r) ↔ X.Aligned 4 (channels * r) := by
    rw [Buffer.Aligned, Buffer.Aligned, haddress]
  rw [normalizedAt, normalizedAt, cblasSnrm2, cblasSnrm2, dot_congr hrow hrow haligned haligned,
    h j hj]

theorem normalizeRows_spec {s channels batchSize : ℕ} (X : Buffer α s)
    (h : batchSize * channels ≤ s) :
    ∃ X', normalizeRows simd channels batchSize X = some X' ∧ X'.address = X.address
      ∧ ∀ r < batchSize, ∀ j < channels,
        X'.read (r * channels + j) = normalizedAt simd X channels r j := by
  let Inv (b : ℕ) (X' : Buffer α s) : Prop := X'.address = X.address
    ∧ (∀ r < b, ∀ j < channels, X'.read (r * channels + j) = normalizedAt simd X channels r j)
    ∧ ∀ r, b ≤ r → ∀ j < channels, X'.read (r * channels + j) = X.read (r * channels + j)
  have hstep : ∀ b < batchSize, ∀ Y, Inv b Y → ∃ Y', (do
      let norm ← cblasSnrm2 simd channels Y (channels * b)
      if 0 < norm then cblasSscal channels (1 / norm) Y (channels * b) else return Y) = some Y'
      ∧ Inv (b + 1) Y' := by
    rintro b hb Y ⟨haddress, hdone, htodo⟩
    obtain ⟨Y', hrun, haddress', hrow, hother⟩ := normalizeRow_step simd Y
      ((row_le hb).trans h)
    -- a position of another row is none of this row
    have hrows : ∀ r, r ≠ b → ∀ j < channels,
        Y'.read (r * channels + j) = Y.read (r * channels + j) := by
      intro r hr j hj
      refine hother _ fun j' hj' heq => hr ?_
      exact (position_inj hj hj' (by rw [Nat.add_comm, heq, Nat.add_comm])).2
    refine ⟨Y', hrun, haddress'.trans haddress, fun r hr j hj => ?_, fun r hr j hj => ?_⟩
    · rcases Nat.lt_succ_iff_lt_or_eq.mp hr with hlt | rfl
      · rw [hrows r (by omega) j hj, hdone r hlt j hj]
      · rw [hrow j hj, normalizedAt_congr simd haddress (htodo r le_rfl) hj]
    · rw [hrows r (by omega) j hj, htodo r (by omega) j hj]
  obtain ⟨X', hrun, haddress, hrows, -⟩ := Buffer.foldlM_range Inv hstep
    ⟨rfl, by simp, fun _ _ _ _ => rfl⟩
  exact ⟨X', hrun, haddress, hrows⟩

/-- The activations are copied over the output, and each row is normalized there. -/
theorem l2Normalization_writes {activations output : Tensor α} {batchSize k : ℕ}
    (hx0 : activations.dimensions[0]? = some batchSize)
    (hx1 : activations.dimensions[1]? = some k)
    (hx : activations.dimensions.prod = batchSize * k)
    (hy : output.dimensions.prod = batchSize * k) (hsmall : output.Small) :
    ∃ copy : Buffer α output.dimensions.prod, copy.address = output.buffer.address
      ∧ (∀ i < batchSize * k, copy.read i = activations.buffer.read i)
      ∧ Writes output (l2Normalization simd activations output) fun read =>
        ∀ r < batchSize, ∀ j < k, read (r * k + j) = normalizedAt simd copy k r j := by
  have hlength : activations.buffer.data.toList.length % 1073741824 = output.dimensions.prod := by
    rw [Vector.length_toList, hx, ← hy]
    exact Nat.mod_eq_of_lt hsmall
  obtain ⟨copy, hassign, haddress, hread⟩ := Tensor.assign_of_length hsmall hlength
  obtain ⟨buffer, hrun, haddress', hrows⟩ := normalizeRows_spec simd copy hy.ge
  refine ⟨copy, haddress, fun i hi => ?_, { output with buffer }, ?_, rfl,
    haddress'.trans haddress, hrows⟩
  · rw [hread i (hi.trans_eq hy.symm), Vector.getElem?_toList]
    rfl
  · simp only [l2Normalization, hx0, hx1, hassign]
    simp [hrun]

end Normalize

variable [DecidableEq α] (simd : Bool) {weights activations output : Tensor α} {batchSize n k : ℕ}

theorem dense_writes (hx0 : activations.dimensions[0]? = some batchSize)
    (hx1 : activations.dimensions[1]? = some k) (hy1 : output.dimensions[1]? = some n)
    (hx : activations.dimensions.prod = batchSize * k) (hw : weights.dimensions.prod = n * k)
    (hy : output.dimensions.prod = batchSize * n) (hxsmall : activations.Small)
    (hwsmall : weights.Small) (hysmall : output.Small) :
    Writes output (dense simd weights activations output) fun read => ∀ r < batchSize, ∀ i < n,
      read (r * n + i) = dot activations.buffer weights.buffer simd k (r * k) (i * k) := by
  have hdot : ∀ i < n, ∀ r < batchSize,
      dot activations.buffer weights.buffer simd k (r * k) (i * k)
        = some ((dot activations.buffer weights.buffer simd k (r * k) (i * k)).getD 0) := by
    intro i hi r hr
    obtain ⟨d, hd⟩ := exists_dot simd
      (defined_row activations.buffer ((row_le hr).trans_eq hx.symm))
      (defined_row weights.buffer ((row_le hi).trans_eq hw.symm))
    rw [hd, Option.getD_some]
  have hlt : ∀ i < n, ∀ r < batchSize, i + r * n < output.dimensions.prod := by
    intro i hi r hr
    have := row_le (k := n) hr
    omega
  -- a position of a tensor is far below the largest `int`
  have hint : IntIndices batchSize n k k k n := by
    rw [Tensor.Small] at hxsmall hwsmall hysmall
    refine ⟨fun r hr => ?_, fun i hi => ?_, fun i hi r hr => ?_⟩
    · have := row_le (k := k) hr
      omega
    · have := row_le (k := k) hi
      omega
    · have := hlt i hi r hr
      omega
  obtain ⟨buffer, hrun, hupdated⟩ := cblasSgemmRmNtt10_updated output.buffer hlt le_rfl hint
    (s := fun p => (dot activations.buffer weights.buffer simd k (p.2 * k) (p.1 * k)).getD 0) hdot
  refine ⟨{ output with buffer }, ?_, rfl, hupdated.address, fun r hr i hi => ?_⟩
  · simp only [dense, hx0, hx1, hy1, cblasSgemm, and_self, if_true]
    simp [hrun]
  · obtain ⟨x, hread⟩ := output.buffer.exists_read (hlt i hi r hr)
    have hwritten := hupdated.written (i, r) (Buffer.mem_rectangle.mpr ⟨hi, hr⟩)
    rw [Nat.add_comm, hwritten, hread]
    exact (hdot i hi r hr).symm

/-- The bias is added to each row, as one times one times the bias. -/
theorem bias_writes {b : Tensor α} {execBuffer : BiasOpBuffer α}
    (hy0 : output.dimensions[0]? = some batchSize) (hy1 : output.dimensions[1]? = some n)
    (hb : b.dimensions.prod = n) (hy : output.dimensions.prod = batchSize * n)
    (hones : ∀ r < batchSize, execBuffer.batchBuffer.read r = some 1) :
    Writes output (bias simd b output execBuffer) fun read => ∀ r < batchSize, ∀ i < n,
      read (r * n + i) = do
        return (← output.buffer.read (r * n + i)) * 1 + 1 * (0 + (← b.buffer.read i) * 1) := by
  have hlt : ∀ i < n, ∀ r < batchSize, i + r * n < output.dimensions.prod := by
    intro i hi r hr
    have := row_le (k := n) hr
    omega
  have hsum : ∀ i < n, ∀ r < batchSize,
      accumulate (fun k => b.buffer.read (naiveIndex .noTrans n i k))
        (fun k => execBuffer.batchBuffer.read (naiveIndex .noTrans 1 k r)) 1 0
        = some (0 + (b.buffer.read i).getD 0 * 1) := by
    intro i hi r hr
    obtain ⟨u, hu⟩ := b.buffer.exists_read (hi.trans_eq hb.symm)
    simp [accumulate, naiveIndex, hu, hones r hr]
  obtain ⟨buffer, hrun, hupdated⟩ := sgemmNaive_updated output.buffer hlt le_rfl 1 1
    (s := fun p => 0 + (b.buffer.read p.1).getD 0 * 1) hsum
  refine ⟨{ output with buffer }, ?_, rfl, hupdated.address, fun r hr i hi => ?_⟩
  · simp only [bias, hy0, hy1, cblasSgemm]
    simp [hrun]
  · obtain ⟨x, hread⟩ := output.buffer.exists_read (hlt i hi r hr)
    obtain ⟨u, hu⟩ := b.buffer.exists_read (hi.trans_eq hb.symm)
    have hwritten := hupdated.written (i, r) (Buffer.mem_rectangle.mpr ⟨hi, hr⟩)
    rw [Nat.add_comm, hwritten, hread, hu]
    rfl

end Kernels

end Vpunn
