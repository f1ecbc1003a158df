import Vpunn.CacheKeys
import Vpunn.Cycles
import Vpunn.Shave.WorkloadOrder

/-! The cost of a SHAVE workload with a cache in front of the providers
    (`vpu_shave_cost_model.cpp`).

    The cache holds the cost of an operator that runs again; the cost of fetching its code is added
    to what was found and to what was computed. Two workloads share an entry if the order of the
    keys does not tell them apart, so that their layouts or extra parameters may differ. -/

namespace Vpunn
open Cycles

/-- A workload as a key of a `std::map`, where two keys are one if neither is before the other. -/
structure SHAVEMapKey where
  workload : SHAVEWorkload

instance : BEq SHAVEMapKey :=
  ⟨fun a b => !a.workload.operatorLt b.workload && !b.workload.operatorLt a.workload⟩

theorem SHAVEMapKey.beq_eq (a b : SHAVEMapKey) :
    (a == b) = decide (a.workload.orderKey = b.workload.orderKey) := by
  rw [Bool.eq_iff_iff, decide_eq_true_eq, ← SHAVEWorkload.incomparable_iff]
  show (!a.workload.operatorLt b.workload && !b.workload.operatorLt a.workload) = true ↔ _
  simp

/-- `DeviceMappedPrefetchCostStrategy`: the measured costs of the device, by the operator. -/
def getCodePrefetchCost (deviceToStrategy : VPUDevice → Option (String → Option ℕ))
    (swl : SHAVEWorkload) : ℕ :=
  match deviceToStrategy swl.device with
  | none => errorShavePrefetchDeviceNotCovered
  | some measuredCosts =>
    match measuredCosts swl.name with
    | none => errorShavePrefetchNotFound
    | some cost => cost

namespace SHAVECostModel

variable (hash : SHAVEMapKey → ℕ) (deviceToStrategy : VPUDevice → Option (String → Option ℕ))

/-- `try_profiling`: whatever error the service has, it is one. -/
def tryProfiling (httpCost : ℕ) : ℕ :=
  if ¬ isErrorCode httpCost then httpCost else errorProfilingService

/-- The part of `computeCycles` after the cache: the cost of the code is added for a first run. -/
def addCodePrefetch (swl : SHAVEWorkload) (cycles : ℕ) : ℕ :=
  if ¬ isErrorCode cycles ∧ swl.includeCodePrefetch = true then
    let prefetchCost := getCodePrefetchCost deviceToStrategy swl
    if isErrorCode prefetchCost then prefetchCost else costAdder cycles prefetchCost
  else cycles

/-- The cache, the profiling service if it is enabled, and the provider; what is no error goes to
    the cache. There is no result where the code throws or a conversion is undefined. -/
def computeCycles (profiling : Option (SHAVEWorkload → ℕ)) (getCost : SHAVEWorkload → ℕ)
    (swl : SHAVEWorkload) (cache : LRUCache SHAVEMapKey ℚ) :
    Option ℕ × LRUCache SHAVEMapKey ℚ :=
  match cache.get (.empty hash) ⟨swl⟩ with
  | .error _ => (none, cache)
  | .ok (found, cache) =>
    match tryCache found with
    | none => (none, cache)
    | some cycles =>
      let cycles := match profiling with
        | some httpCost => if isErrorCode cycles then tryProfiling (httpCost swl) else cycles
        | none => cycles
      let cycles := if isErrorCode cycles then getCost swl else cycles
      match (if cycles < startErrorRange then cache.add (.empty hash) ⟨swl⟩ (toFloat cycles)
          else .ok cache) with
      | .error _ => (none, cache)
      | .ok cache => (some (addCodePrefetch deviceToStrategy swl cycles), cache)

/-- Without profiling, every query of a sequence returns what a model returns whose cache has no
    place and so never hits. -/
def Transparent (getCost : SHAVEWorkload → ℕ) (maxSize : ℕ) (queries : List SHAVEWorkload) : Prop :=
  (Runs.run (computeCycles hash deviceToStrategy none getCost) queries { maxSize := maxSize }).1
    = queries.map fun swl =>
      (computeCycles hash deviceToStrategy none getCost swl { maxSize := 0 }).1

/-- A later query for which the cycles of an earlier one are found gets what the provider gives
    for it. -/
def StoredExactly (getCost : SHAVEWorkload → ℕ) (earlier swl : SHAVEWorkload) : Prop :=
  (¬ earlier.operatorLt swl = true ∧ ¬ swl.operatorLt earlier = true) →
    getCost earlier < startErrorRange → throughFloat (getCost earlier) = getCost swl

variable {hash deviceToStrategy} {getCost : SHAVEWorkload → ℕ}

/-- What remains to be done with the cycles of the cache or of the provider. -/
theorem computeCycles_of_get {swl : SHAVEWorkload} {cache cache' : LRUCache SHAVEMapKey ℚ}
    {found : Option ℚ} (cached : ℕ) (hget : cache.get (.empty hash) ⟨swl⟩ = .ok (found, cache'))
    (hcached : tryCache found = some cached) :
    computeCycles hash deviceToStrategy none getCost swl cache =
      let cycles := if isErrorCode cached then getCost swl else cached
      match (if cycles < startErrorRange then cache'.add (.empty hash) ⟨swl⟩ (toFloat cycles)
          else .ok cache') with
      | .error _ => (none, cache')
      | .ok cache'' => (some (addCodePrefetch deviceToStrategy swl cycles), cache'') := by
  simp only [computeCycles, hget, hcached]

/-- A cache that holds nothing leaves it to the provider. -/
theorem computeCycles_no_place (swl : SHAVEWorkload) :
    (computeCycles hash deviceToStrategy none getCost swl { maxSize := 0 }).1
      = some (addCodePrefetch deviceToStrategy swl (getCost swl)) := by
  rw [computeCycles_of_get errorCacheMiss rfl rfl, if_pos (by decide)]
  by_cases h : getCost swl < startErrorRange
  · simp only [if_pos h]; rfl
  · simp only [if_neg h]

/-- One query: what is found is what the provider gives, or the provider is asked and its answer
    is stored. -/
theorem computeCycles_spec {P : _ → ℚ → Prop} {swl : SHAVEWorkload}
    {cache : LRUCache SHAVEMapKey ℚ} (h : cache.Serves (fun k => k.workload.orderKey) P)
    (hfresh : ∀ value, P swl.orderKey value →
      floatToU32 value = some (getCost swl) ∧ getCost swl < startErrorRange) :
    (computeCycles hash deviceToStrategy none getCost swl cache).1
        = some (addCodePrefetch deviceToStrategy swl (getCost swl))
      ∧ (computeCycles hash deviceToStrategy none getCost swl cache).2.Serves
        (fun k => k.workload.orderKey) fun k value => P k value
        ∨ k = swl.orderKey ∧ getCost swl < startErrorRange ∧ value = toFloat (getCost swl) := by
  obtain ⟨found, cache', hget, hserves, hfound⟩ := h.get SHAVEMapKey.beq_eq hash ⟨swl⟩
  have hserves' := hserves.mono (Q := fun k value => P k value ∨ k = swl.orderKey
    ∧ getCost swl < startErrorRange ∧ value = toFloat (getCost swl)) fun _ _ hP => .inl hP
  -- found or not, the cycles are those of the provider
  obtain ⟨cached, hcached, hcycles⟩ : ∃ cached, tryCache found = some cached
      ∧ (if isErrorCode cached then getCost swl else cached) = getCost swl := by
    cases found with
    | none => exact ⟨errorCacheMiss, rfl, if_pos (by decide)⟩
    | some value =>
      obtain ⟨hread, hvalid⟩ := hfresh value (hfound value rfl)
      exact ⟨getCost swl, hread, if_neg hvalid.not_gt⟩
  rw [computeCycles_of_get cached hget hcached, hcycles]
  by_cases hvalid : getCost swl < startErrorRange
  · obtain ⟨cache'', hadd, hserves''⟩ := hserves'.add SHAVEMapKey.beq_eq hash ⟨swl⟩
      (toFloat (getCost swl)) (.inr ⟨rfl, hvalid, rfl⟩)
    simp only [if_pos hvalid, hadd]
    exact ⟨trivial, hserves''⟩
  · simp only [if_neg hvalid]
    exact ⟨trivial, hserves'⟩

/-- Two queries of one key show whether the first is stored exactly, if no code is fetched. -/
theorem storedExactly_of_transparent {earlier swl : SHAVEWorkload}
    (hearlier : earlier.includeCodePrefetch = false) (hswl : swl.includeCodePrefetch = false)
    (h : Transparent hash deviceToStrategy getCost 1 [earlier, swl]) :
    StoredExactly getCost earlier swl := by
  intro hsame hvalid
  have hkeys : ((⟨earlier⟩ : SHAVEMapKey) == ⟨swl⟩) = true := by
    rw [SHAVEMapKey.beq_eq]
    exact decide_eq_true (SHAVEWorkload.incomparable_iff.mp hsame)
  have hno : ∀ s : SHAVEWorkload, s.includeCodePrefetch = false → ∀ cycles,
      addCodePrefetch deviceToStrategy s cycles = cycles := by
    intro s hs cycles
    exact if_neg (by simp [hs])
  have herror : ¬ isErrorCode (getCost earlier) := hvalid.not_gt
  obtain ⟨cache, hadd, hget⟩ := LRUCache.add_get hash hkeys (toFloat (getCost earlier))
  have hcache : cache.Serves (fun k => k.workload.orderKey) fun _ _ => True := by
    have hnew : ({ maxSize := 1 } : LRUCache SHAVEMapKey ℚ).Serves
        (fun k => k.workload.orderKey) fun _ _ => True := LRUCache.serves_new 1
    obtain ⟨c, hc, hserves⟩ := hnew.add SHAVEMapKey.beq_eq hash ⟨earlier⟩
      (toFloat (getCost earlier)) trivial
    rw [hadd] at hc
    obtain rfl := Except.ok.inj hc
    exact hserves
  have hfirst : computeCycles hash deviceToStrategy none getCost earlier { maxSize := 1 }
      = (some (getCost earlier), cache) := by
    rw [computeCycles_of_get errorCacheMiss rfl rfl, if_pos (by decide)]
    simp only [if_pos hvalid, hadd, hno earlier hearlier]
  have hback := throughFloat_lt herror
  have hsecond : (computeCycles hash deviceToStrategy none getCost swl cache).1
      = some (throughFloat (getCost earlier)) := by
    obtain ⟨found, cache', hc, hserves, -⟩ := hcache.get SHAVEMapKey.beq_eq hash ⟨swl⟩
    rw [hc] at hget
    obtain rfl : found = some (toFloat (getCost earlier)) := Except.ok.inj hget
    obtain ⟨cache'', hadd', -⟩ := hserves.add SHAVEMapKey.beq_eq hash ⟨swl⟩
      (toFloat (throughFloat (getCost earlier))) trivial
    have hread : ¬ isErrorCode (throughFloat (getCost earlier)) := hback.not_gt
    rw [computeCycles_of_get _ hc (floatToU32_toFloat herror)]
    simp only [if_neg hread, if_pos hback, hadd', hno swl hswl]
  rw [Transparent, Runs.run_cons, Runs.run_cons, Runs.run_nil, hfirst, hsecond] at h
  simpa [computeCycles_no_place, hno _ hearlier, hno _ hswl] using h

/-- A sequence of queries of which no two are stored inexactly sees nothing of the cache. -/
theorem transparent_of_pairwise {queries : List SHAVEWorkload}
    (h : queries.Pairwise (StoredExactly getCost)) (maxSize : ℕ) :
    Transparent hash deviceToStrategy getCost maxSize queries := by
  unfold Transparent
  simp only [computeCycles_no_place]
  refine LRUCache.run_eq_map_of_fresh (fun k => k.workload.orderKey) SHAVEWorkload.orderKey
    (fun swl value => getCost swl < startErrorRange ∧ value = toFloat (getCost swl))
    (fun P swl cache hcache hfresh => computeCycles_spec hcache hfresh) ?_ maxSize
  refine h.imp ?_
  rintro earlier swl hstored hkeys _ ⟨hvalid, rfl⟩
  have hexact := hstored (SHAVEWorkload.incomparable_iff.mpr hkeys) hvalid
  have herror : ¬ isErrorCode (getCost earlier) := hvalid.not_gt
  refine ⟨by rw [floatToU32_toFloat herror, hexact], ?_⟩
  rw [← hexact]
  exact throughFloat_lt herror

variable (hash deviceToStrategy getCost)

/-- With a cache of any size, each query of a sequence, with or without the cost of the code,
    returns what it would without a cache if no cycles are found for a later query that the provider
    answers differently, or were rounded. A provider of which this holds for all sequences is
    exactly one with no such two workloads, unless it looks at whether the code is fetched. -/
theorem computeCycles_transparent :
    (∀ maxSize queries, queries.Pairwise (StoredExactly getCost) →
      Transparent hash deviceToStrategy getCost maxSize queries)
    ∧ ((∀ swl fetch, getCost { swl with includeCodePrefetch := fetch } = getCost swl) →
      ((∀ maxSize queries, Transparent hash deviceToStrategy getCost maxSize queries)
        ↔ ∀ earlier swl, StoredExactly getCost earlier swl)) := by
  refine ⟨fun maxSize _ h => transparent_of_pairwise h maxSize, fun hfetch => ⟨?_, ?_⟩⟩
  · intro h earlier swl hsame hvalid
    have hwarm := storedExactly_of_transparent rfl rfl
      (h 1 [{ earlier with includeCodePrefetch := false },
        { swl with includeCodePrefetch := false }])
    have hexact := hwarm hsame (by rwa [hfetch])
    rw [hfetch earlier, hfetch swl] at hexact
    exact hexact
  · exact fun h maxSize queries => transparent_of_pairwise (List.pairwise_of_forall h) maxSize

/-- A sigmoid that runs again and once more as if for the first time. -/
theorem computeCycles_transparent_sigmoid :
    Transparent (fun _ => 0) (fun _ => some fun _ => some 300) (fun _ => 1000) 1
        [{ name := "sigmoid", device := .vpu_4_0, inputs := [{}], outputs := [{}] },
          { name := "sigmoid", device := .vpu_4_0, inputs := [{}], outputs := [{}],
            includeCodePrefetch := true }]
      ∧ ∀ earlier swl, StoredExactly (fun _ => 1000) earlier swl :=
  have hexact : ∀ earlier swl, StoredExactly (fun _ => 1000) earlier swl :=
    fun _ _ _ _ => throughFloat_of_le (by norm_num)
  have h := computeCycles_transparent (fun _ => 0) (fun _ => some fun _ => some 300) fun _ => 1000
  ⟨h.1 1 _ (List.pairwise_of_forall hexact),
    (h.2 fun _ _ => rfl).mp fun maxSize queries =>
      h.1 maxSize queries (List.pairwise_of_forall hexact)⟩

/-- A provider that looks at the layout is asked once for both layouts of an input. -/
theorem not_transparent : ¬ ∀ (hash : SHAVEMapKey → ℕ)
    (deviceToStrategy : VPUDevice → Option (String → Option ℕ)) (getCost : SHAVEWorkload → ℕ)
    (maxSize : ℕ) (queries : List SHAVEWorkload),
    Transparent hash deviceToStrategy getCost maxSize queries := by
  intro h
  let mvn (layout : Layout) : SHAVEWorkload :=
    { name := "mvn1", device := .vpu_2_7
      inputs := [{ shape := ⟨16, 16, 8, 1⟩, dtype := .float16, layout := layout }]
      outputs := [] }
  have hexact := storedExactly_of_transparent rfl rfl (h (fun _ => 0) (fun _ => none)
    (fun swl => if swl.inputs.any (·.layout = .xyz) then 200 else 100) 1 [mvn .zxy, mvn .xyz])
  exact absurd (hexact (by decide) (by decide)) (by decide +kernel)

end SHAVECostModel

end Vpunn
