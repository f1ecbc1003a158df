import Vpunn.CacheKeys
import Vpunn.Cycles
import Vpunn.Dma.KeyOrder

/-! The cost of a transfer with a cache in front of the providers (`vpu_dma_cost_model.cpp`).

    The cache keeps the cycles as a `float` and finds them by the equality of the descriptors. Both
    forget something: the cycles above `2^24` are rounded, and a descriptor has members that the
    equality does not compare. -/

namespace Vpunn
open Cycles MachineInt

/-! ### Descriptors as keys -/

/-- A descriptor that has all the slots that it says it uses. -/
structure DMANNDescriptorNPU4050 where
  record : DMANNRecordNPU4050
  numDim_le : record.numDim ≤ 5

namespace DMANNDescriptorNPU4050

instance : BEq DMANNDescriptorNPU4050 :=
  ⟨fun a b => DMANNRecordNPU4050.operatorEq a.record b.record == some true⟩

/-- The hash, which is defined for every descriptor. -/
def hash (w : DMANNDescriptorNPU4050) : ℕ := w.record.hash.getD 0

/-- What the equality compares. -/
def key (w : DMANNDescriptorNPU4050) :
    VPUDevice × List ℤ × NumDMAEngine × MemoryDirection × List SizeStride :=
  (w.record.device, [w.record.srcWidth, w.record.dstWidth, w.record.numDim], w.record.numEngine,
    w.record.transferDirection, w.record.slotsInUse)

theorem key_eq_iff {a b : DMANNDescriptorNPU4050} :
    key a = key b ↔ DMANNRecordNPU4050.AgreeInUse a.record b.record := by
  simp only [key, Prod.mk.injEq, List.cons.injEq, DMANNRecordNPU4050.AgreeInUse,
    DMANNRecordNPU4050.SameHeader, and_true, and_assoc]

theorem beq_eq (a b : DMANNDescriptorNPU4050) : (a == b) = decide (key a = key b) := by
  show (DMANNRecordNPU4050.operatorEq a.record b.record == some true) = _
  have hdecide : decide (key a = key b)
      = decide (DMANNRecordNPU4050.AgreeInUse a.record b.record) := decide_eq_decide.mpr key_eq_iff
  rw [DMANNRecordNPU4050.operatorEq_eq, hdecide]
  by_cases h : DMANNRecordNPU4050.AgreeInUse a.record b.record
  · simp [h, a.numDim_le]
  · simp [h]

/-- A table that looks for a key among those of its hash misses none that is equal. -/
theorem hash_eq_of_beq {a b : DMANNDescriptorNPU4050} (h : (a == b) = true) : a.hash = b.hash := by
  rw [beq_eq, decide_eq_true_eq, key_eq_iff] at h
  obtain ⟨v, ha, hb⟩ := DMANNRecordNPU4050.hash_eq_of_agreeInUse h a.numDim_le
  rw [hash, hash, ha, hb]

end DMANNDescriptorNPU4050

/-- `DMANNWorkload_NPU27` -/
structure DMANNWorkloadNPU27 where
  device : VPUDevice
  numPlanes : ℤ := 0
  length : ℤ := 0
  srcWidth : ℤ := 0
  dstWidth : ℤ := 0
  srcStride : ℤ := 0
  dstStride : ℤ := 0
  srcPlaneStride : ℤ := 0
  dstPlaneStride : ℤ := 0
  transferDirection : MemoryDirection := .cmx2cmx
  profilingServiceBackendHint : ProfilingServiceBackend := .__size
  locName : String := ""
  deriving Repr

namespace DMANNWorkloadNPU27

def operatorEq (a b : DMANNWorkloadNPU27) : Bool :=
  a.device = b.device && a.numPlanes = b.numPlanes && a.length = b.length && a.srcWidth = b.srcWidth
    && a.dstWidth = b.dstWidth && a.srcStride = b.srcStride && a.dstStride = b.dstStride
    && a.srcPlaneStride = b.srcPlaneStride && a.dstPlaneStride = b.dstPlaneStride
    && a.transferDirection = b.transferDirection && a.locName = b.locName

instance : BEq DMANNWorkloadNPU27 := ⟨operatorEq⟩

def hash (w : DMANNWorkloadNPU27) : ℕ :=
  Fnv.words Fnv.offsetBasis
    ([(w.device.toNat : ℤ), w.numPlanes, w.length, w.srcWidth, w.dstWidth, w.srcStride, w.dstStride,
      w.srcPlaneStride, w.dstPlaneStride, w.transferDirection.ctorIdx].map u32)

/-- What the equality compares, which is everything but the hint for the profiling service. -/
def key (w : DMANNWorkloadNPU27) : VPUDevice × List ℤ × MemoryDirection × String :=
  (w.device, [w.numPlanes, w.length, w.srcWidth, w.dstWidth, w.srcStride, w.dstStride,
    w.srcPlaneStride, w.dstPlaneStride], w.transferDirection, w.locName)

theorem beq_eq (a b : DMANNWorkloadNPU27) : (a == b) = decide (key a = key b) := by
  show operatorEq a b = _
  simp only [operatorEq, key, Prod.mk.injEq, List.cons.injEq, and_true, Bool.decide_and,
    Bool.and_assoc]

theorem hash_eq_of_beq {a b : DMANNWorkloadNPU27} (h : (a == b) = true) : a.hash = b.hash := by
  rw [beq_eq, decide_eq_true_eq] at h
  simp only [key, Prod.mk.injEq, List.cons.injEq, and_true] at h
  obtain ⟨h1, ⟨h2, h3, h4, h5, h6, h7, h8, h9⟩, h10, -⟩ := h
  rw [hash, hash, h1, h2, h3, h4, h5, h6, h7, h8, h9, h10]

end DMANNWorkloadNPU27

/-! ### The cost model -/

namespace DMACostModel

variable {K : Type*} [BEq K] (hash : K → ℕ)

/-- `run_cost_providers`: the cache, the profiling service if it is enabled, and the providers with
    their priorities. There is no result where the code throws or a conversion is undefined. -/
def runCostProviders (profiling : Option (K → ℕ)) (getCost : K → ℕ) (workload : K)
    (cache : LRUCache K ℚ) : Option ℕ × LRUCache K ℚ :=
  match cache.get (.empty hash) workload with
  | .error _ => (none, cache)
  | .ok (found, cache) =>
    match tryCache found with
    | none => (none, cache)
    | some cachedCost =>
      if ¬ isErrorCode cachedCost then (some cachedCost, cache)
      else
        let cycles := match profiling with
          | some getProfiled => getProfiled workload
          | none => errorProfilingService
        if isErrorCode cycles then
          let cycles := getCost workload
          if ¬ isErrorCode cycles then
            match cache.add (.empty hash) workload (toFloat cycles) with
            | .error _ => (none, cache)
            | .ok cache => (some cycles, cache)
          else (some cycles, cache)
        else (some cycles, cache)

/-- `computeCycles` -/
def computeCycles (profiling : Option (K → ℕ)) (getCost : K → ℕ) (workload : K)
    (cache : LRUCache K ℚ) : Option ℕ × LRUCache K ℚ :=
  runCostProviders hash profiling getCost workload cache

/-- Without profiling, every query of a sequence returns the cycles that the provider gives. -/
def Transparent (getCost : K → ℕ) (maxSize : ℕ) (queries : List K) : Prop :=
  (Runs.run (computeCycles hash none getCost) queries { maxSize := maxSize }).1
    = queries.map fun workload => some (getCost workload)

variable {hash}

/-- A later query for which the cycles of an earlier one are found gets what the provider gives
    for it. -/
def StoredExactly (getCost : K → ℕ) (earlier workload : K) : Prop :=
  (earlier == workload) = true → ¬ isErrorCode (getCost earlier) →
    throughFloat (getCost earlier) = getCost workload

variable {K' : Type*} [DecidableEq K'] {key : K → K'}
  (hkey : ∀ a b : K, (a == b) = decide (key a = key b)) {getCost : K → ℕ}

include hkey

/-- One query: what is found is what the provider gives, or the provider is asked and its answer
    is stored. -/
theorem computeCycles_spec {P : K' → ℚ → Prop} {workload : K} {cache : LRUCache K ℚ}
    (h : cache.Serves key P)
    (hfresh : ∀ value, P (key workload) value →
      floatToU32 value = some (getCost workload) ∧ ¬ isErrorCode (getCost workload)) :
    (computeCycles hash none getCost workload cache).1 = some (getCost workload)
      ∧ (computeCycles hash none getCost workload cache).2.Serves key fun k value => P k value
        ∨ k = key workload ∧ ¬ isErrorCode (getCost workload)
          ∧ value = toFloat (getCost workload) := by
  obtain ⟨found, cache', hget, hserves, hfound⟩ := h.get hkey hash workload
  have hserves' := hserves.mono (Q := fun k value => P k value ∨ k = key workload
    ∧ ¬ isErrorCode (getCost workload) ∧ value = toFloat (getCost workload))
    fun _ _ hP => .inl hP
  cases found with
  | some value =>
    obtain ⟨hread, hvalid⟩ := hfresh value (hfound value rfl)
    have hcall : computeCycles hash none getCost workload cache
        = (some (getCost workload), cache') := by
      simp only [computeCycles, runCostProviders, hget, tryCache, hread, hvalid, not_false_eq_true,
        if_true]
    rw [hcall]
    exact ⟨rfl, hserves'⟩
  | none =>
    have hmiss : isErrorCode errorCacheMiss := by decide
    have hservice : isErrorCode errorProfilingService := by decide
    by_cases hvalid : isErrorCode (getCost workload)
    · have hcall : computeCycles hash none getCost workload cache
          = (some (getCost workload), cache') := by
        simp only [computeCycles, runCostProviders, hget, tryCache, hmiss, hservice, hvalid,
          not_true_eq_false, if_true, if_false]
      rw [hcall]
      exact ⟨rfl, hserves'⟩
    · obtain ⟨cache'', hadd, hserves''⟩ := hserves'.add hkey hash workload
        (toFloat (getCost workload)) (.inr ⟨rfl, hvalid, rfl⟩)
      have hcall : computeCycles hash none getCost workload cache
          = (some (getCost workload), cache'') := by
        simp only [computeCycles, runCostProviders, hget, tryCache, hmiss, hservice, hvalid,
          not_true_eq_false, not_false_eq_true, if_true, if_false, hadd]
      rw [hcall]
      exact ⟨rfl, hserves''⟩

/-- A sequence of queries of which no two are stored inexactly sees nothing of the cache. -/
theorem transparent_of_pairwise {queries : List K}
    (h : queries.Pairwise (StoredExactly getCost)) (maxSize : ℕ) :
    Transparent hash getCost maxSize queries := by
  refine LRUCache.run_eq_map_of_fresh key key
    (fun workload value => ¬ isErrorCode (getCost workload) ∧ value = toFloat (getCost workload))
    (fun P workload cache hcache hfresh => computeCycles_spec hkey hcache hfresh) ?_ maxSize
  refine h.imp ?_
  rintro earlier workload hstored hkeys _ ⟨hvalid, rfl⟩
  have hexact := hstored (by rw [hkey]; exact decide_eq_true hkeys) hvalid
  refine ⟨by rw [floatToU32_toFloat hvalid, hexact], ?_⟩
  rw [← hexact]
  exact (throughFloat_lt hvalid).not_gt

omit hkey in
/-- Two queries of one key show whether the first is stored exactly. -/
theorem storedExactly_of_transparent {earlier workload : K}
    (h : Transparent hash getCost 1 [earlier, workload]) :
    StoredExactly getCost earlier workload := by
  intro heq hvalid
  obtain ⟨cache, hadd, hget⟩ := LRUCache.add_get hash heq (toFloat (getCost earlier))
  have hfirst : computeCycles hash none getCost earlier { maxSize := 1 }
      = (some (getCost earlier), cache) := by
    have hmiss : isErrorCode errorCacheMiss := by decide
    have hservice : isErrorCode errorProfilingService := by decide
    have hnew : ({ maxSize := 1 } : LRUCache K ℚ).get (.empty hash) earlier
        = .ok (none, { maxSize := 1 }) := rfl
    simp only [computeCycles, runCostProviders, hnew, tryCache, hmiss, hservice,
      not_true_eq_false, if_true, if_false, hvalid, not_false_eq_true, hadd]
  have hsecond : (computeCycles hash none getCost workload cache).1
      = some (throughFloat (getCost earlier)) := by
    cases hc : cache.get (.empty hash) workload with
    | error e => rw [hc] at hget; cases hget
    | ok r =>
      obtain ⟨found, cache'⟩ := r
      rw [hc] at hget
      obtain rfl : found = some (toFloat (getCost earlier)) := Except.ok.inj hget
      have hback : ¬ isErrorCode (throughFloat (getCost earlier)) :=
        (throughFloat_lt hvalid).not_gt
      simp only [computeCycles, runCostProviders, hc, tryCache, floatToU32_toFloat hvalid, hback,
        not_false_eq_true, if_true]
  rw [Transparent, Runs.run_cons, Runs.run_cons, Runs.run_nil, hfirst, hsecond] at h
  simpa using h

/-- A provider is hidden by the cache exactly if its answers are always stored exactly. -/
theorem transparent_iff :
    (∀ maxSize queries, Transparent hash getCost maxSize queries)
      ↔ ∀ earlier workload, StoredExactly getCost earlier workload :=
  ⟨fun h _ _ => storedExactly_of_transparent (h 1 _),
    fun h maxSize _ => transparent_of_pairwise hkey (List.pairwise_of_forall h) maxSize⟩

omit hkey in
/-- With either kind of descriptor and a cache of any size, each query of a sequence returns the
    cycles of the provider if no answer is found for a later query that the provider answers
    differently, or was rounded. A provider of which this holds for all sequences is exactly one
    with no such two descriptors. -/
theorem computeCycles_descriptors_transparent (getCost : DMANNDescriptorNPU4050 → ℕ)
    (getCost' : DMANNWorkloadNPU27 → ℕ) :
    ((∀ maxSize queries, queries.Pairwise (StoredExactly getCost) →
        Transparent DMANNDescriptorNPU4050.hash getCost maxSize queries)
      ∧ ((∀ maxSize queries, Transparent DMANNDescriptorNPU4050.hash getCost maxSize queries)
        ↔ ∀ earlier workload, StoredExactly getCost earlier workload))
    ∧ (∀ maxSize queries, queries.Pairwise (StoredExactly getCost') →
        Transparent DMANNWorkloadNPU27.hash getCost' maxSize queries)
      ∧ ((∀ maxSize queries, Transparent DMANNWorkloadNPU27.hash getCost' maxSize queries)
        ↔ ∀ earlier workload, StoredExactly getCost' earlier workload) :=
  ⟨⟨fun maxSize _ h => transparent_of_pairwise DMANNDescriptorNPU4050.beq_eq h maxSize,
      transparent_iff DMANNDescriptorNPU4050.beq_eq⟩,
    fun maxSize _ h => transparent_of_pairwise DMANNWorkloadNPU27.beq_eq h maxSize,
      transparent_iff DMANNWorkloadNPU27.beq_eq⟩

omit hkey in
/-- Transfers that differ in the name of the location only. -/
theorem computeCycles_transparent_names :
    Transparent DMANNDescriptorNPU4050.hash (fun _ => 1000) 1
        [⟨{ device := .vpu_4_0, locName := "a" }, by decide⟩,
          ⟨{ device := .vpu_4_0, locName := "b" }, by decide⟩]
      ∧ Transparent DMANNWorkloadNPU27.hash (fun _ => 1000) 1
        [{ device := .vpu_2_7, locName := "a" }, { device := .vpu_2_7, locName := "b" },
          { device := .vpu_2_7, locName := "a" }] :=
  have h := computeCycles_descriptors_transparent (fun _ => 1000) fun _ => 1000
  ⟨h.1.1 1 _ (List.pairwise_of_forall fun _ _ _ _ => throughFloat_of_le (by norm_num)),
    h.2.1 1 _ (List.pairwise_of_forall fun _ _ _ _ => throughFloat_of_le (by norm_num))⟩

omit hkey in
/-- A transfer of `2^24 + 1` cycles takes `2^24` when it is asked for again. -/
theorem not_transparent_descriptors :
    ¬ ((∀ (getCost : DMANNDescriptorNPU4050 → ℕ) maxSize queries,
        Transparent DMANNDescriptorNPU4050.hash getCost maxSize queries)
      ∧ ∀ (getCost : DMANNWorkloadNPU27 → ℕ) maxSize queries,
        Transparent DMANNWorkloadNPU27.hash getCost maxSize queries) := by
  rintro ⟨-, h⟩
  have hexact := storedExactly_of_transparent
    (h (fun _ => 16777217) 1 [{ device := .vpu_2_7 }, { device := .vpu_2_7 }])
  exact absurd (hexact (by decide) (by decide)) (by decide +kernel)

end DMACostModel

end Vpunn
