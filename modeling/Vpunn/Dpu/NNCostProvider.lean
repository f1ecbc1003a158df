import Mathlib
import Vpunn.Cache
import Vpunn.Dpu.PostProcess
import Vpunn.Dpu.WorkloadHash

/-! The cycles that the neural network gives for a workload (`nn_cost_provider.h`,
    `nn_cost_cache_manager.h`).

    The network sees of a workload its descriptor only. What it gives for one is kept in a cache, from
    which it is read again, and it is processed for the workload each time. The cache also takes
    cycles from elsewhere. For devices up to NPU5.0 its keys are the descriptors, and for later ones
    the workloads themselves. -/

namespace Vpunn
open Cycles Std.Do

set_option mvcgen.warning false

/-- What goes wrong in a query: the cache throws or is not the one that a key is for, a workload has
    no descriptor, the input of the network has another size than its tensor, or a conversion to cycles
    is undefined. -/
inductive CostError where
  | cache (e : CacheError)
  | badVariantAccess
  | preprocessing
  | tensorAssign
  | undefinedConversion
  | undefinedAccess
  deriving DecidableEq, Repr

/-- A `float` that the network gives or the cache holds. NaN is `none`. -/
abbrev RawValue := Option ℚ

/-! ### The cache -/

/-- What a value is kept under. -/
inductive CacheKey where
  | descriptor (descriptor : List ℚ)
  | workload (workload : DPUWorkload)

/-- The cache that was made, out of the two that there are. -/
inductive NNCostCacheManager where
  | descriptorCache (cache : LRUCache (List ℚ) RawValue)
  | workloadCache (cache : LRUCache DPUWorkload RawValue)

namespace NNCostCacheManager

def usesWorkloadHashCache : NNCostCacheManager → Bool
  | .descriptorCache _ => false
  | .workloadCache _ => true

/-- The keys that a hash table takes for the same: equal workloads with one hash. -/
@[reducible] def sameWorkload : BEq DPUWorkload :=
  ⟨fun a b => decide (a.hash = b.hash) && a.operatorEq b⟩

/-- The preloaded table where it is searched by the hashes of workloads. -/
def fixedWorkloads (table : ℕ → Option RawValue) : FixedCacheAddON DPUWorkload RawValue where
  hash := fun wl => wl.hash.getD 0
  deserializedTable := table

def get (fixed : FixedCacheAddON (List ℚ) RawValue) :
    NNCostCacheManager → CacheKey → Except CostError (Option RawValue × NNCostCacheManager)
  | .descriptorCache cache, .descriptor descriptor =>
    match cache.get fixed descriptor with
    | .error e => .error (.cache e)
    | .ok (found, cache) => .ok (found, .descriptorCache cache)
  | .workloadCache cache, .workload wl =>
    letI := sameWorkload
    -- the table is searched by the hash, which has to exist
    if wl.hash.isNone then .error .undefinedConversion
    else match cache.get (fixedWorkloads fixed.deserializedTable) wl with
      | .error e => .error (.cache e)
      | .ok (found, cache) => .ok (found, .workloadCache cache)
  | .descriptorCache _, .workload _ | .workloadCache _, .descriptor _ => .error .badVariantAccess

def add (fixed : FixedCacheAddON (List ℚ) RawValue) (value : RawValue) :
    NNCostCacheManager → CacheKey → Except CostError NNCostCacheManager
  | .descriptorCache cache, .descriptor descriptor =>
    match cache.add fixed descriptor value with
    | .error e => .error (.cache e)
    | .ok cache => .ok (.descriptorCache cache)
  | .workloadCache cache, .workload wl =>
    letI := sameWorkload
    if cache.maxSize ≠ 0 ∧ wl.hash.isNone then .error .undefinedConversion
    else match cache.add (fixedWorkloads fixed.deserializedTable) wl value with
      | .error e => .error (.cache e)
      | .ok cache => .ok (.workloadCache cache)
  | .descriptorCache _, .workload _ | .workloadCache _, .descriptor _ => .error .badVariantAccess

end NNCostCacheManager

/-- A query that reads and changes the cache. What it throws leaves the changes before it in place. -/
abbrev CostM := ExceptT CostError (StateM NNCostCacheManager)

/-- The query on a cache. -/
def CostM.call {α : Type} (m : CostM α) (cache : NNCostCacheManager) :
    Except CostError α × NNCostCacheManager :=
  (m.run.run cache).run

/-! ### The network -/

/-- A loaded network with its processing. It takes a batch of descriptors and `predict`s a value for
    each. The values in the `preloaded` table were read from a file. A workload with a field that the
    interface of the network does not know has no descriptor, which throws. -/
structure NNCostProvider where
  modelDevice : VPUDevice
  isInitialized : Bool
  outputVersion : NNOutputVersions
  batchSize : ℕ
  outputSize : ℕ
  transformSingle : DPUWorkload → Option (List ℚ)
  predict : List ℚ → RawValue
  preloaded : FixedCacheAddON (List ℚ) RawValue
  /-- A descriptor fills the container that is made for it. -/
  length_transformSingle : ∀ workload descriptor, transformSingle workload = some descriptor →
    descriptor.length = outputSize

namespace NNCostProvider

variable (nn : NNCostProvider)

/-- `__size` comes after the last device, and a model for it keeps the descriptors. -/
def useNewHashMethodForDevice (modelDevice : VPUDevice) : Bool :=
  VPUDevice.npu_5_0_w.toNat < modelDevice.toNat ∧ modelDevice ≠ .__size

/-- The cache that the constructor makes. -/
def newCache (maxSize : ℕ) : NNCostCacheManager :=
  if useNewHashMethodForDevice nn.modelDevice then .workloadCache { maxSize := maxSize }
  else .descriptorCache { maxSize := maxSize }

def cacheGet (key : CacheKey) : CostM (Option RawValue) := do
  match (← get).get nn.preloaded key with
  | .error e => throw e
  | .ok (found, cache) =>
    set cache
    return found

def cacheAdd (key : CacheKey) (value : RawValue) : CostM Unit := do
  match (← get).add nn.preloaded value key with
  | .error e => throw e
  | .ok cache => set cache

/-- The check of a value and its conversion, which `infer` and `get_cached` both do. NaN passes the
    check, and its conversion is undefined. -/
def toCycles (workload : DPUWorkload) (rawValue : RawValue) : CostM ℕ :=
  match rawValue.bind (PostProcess.toCycles nn.outputVersion workload) with
  | none => throw .undefinedConversion
  | some cycles => return cycles

/-- `Preprocessing::transformSingle`, with what it throws. -/
def transform (workload : DPUWorkload) : CostM (List ℚ) :=
  match nn.transformSingle workload with
  | none => throw .preprocessing
  | some descriptor => return descriptor

/-- `Runtime::predict` for one descriptor, which has to fill the input of a whole batch. -/
def predictSingle (descriptor : List ℚ) : CostM RawValue := do
  if descriptor.length = nn.batchSize * nn.outputSize then return nn.predict descriptor
  else throw .tensorAssign

def computeAndCache (key : CacheKey) (descriptor : List ℚ) : CostM RawValue := do
  let inferedValue ← nn.predictSingle descriptor
  nn.cacheAdd key inferedValue
  return inferedValue

/-- Without a network the value is `-1`, which is no answer. A workload that is the key itself gets a
    descriptor only if it was not found. -/
def inferRawInput (workload : DPUWorkload) : CostM RawValue := do
  if nn.isInitialized then
    if (← get).usesWorkloadHashCache then
      match ← nn.cacheGet (.workload workload) with
      | some cachedValue => return cachedValue
      | none => nn.computeAndCache (.workload workload) (← nn.transform workload)
    else
      let descriptor ← nn.transform workload
      match ← nn.cacheGet (.descriptor descriptor) with
      | some cachedValue => return cachedValue
      | none => nn.computeAndCache (.descriptor descriptor) descriptor
  else return some (-1)

def infer (workload : DPUWorkload) : CostM ℕ := do
  let rawValue ← nn.inferRawInput workload
  nn.toCycles workload rawValue

def getCost (workload : DPUWorkload) : CostM ℕ := do
  if nn.isInitialized then nn.infer workload else return errorInferenceNotPossible

/-- The key of a workload, which `get_cached` and `add_to_cache` choose by the cache that there is. -/
def cacheKey (workload : DPUWorkload) : CostM CacheKey := do
  if (← get).usesWorkloadHashCache then return .workload workload
  else return .descriptor (← nn.transform workload)

def getCached (workload : DPUWorkload) : CostM ℕ := do
  if nn.isInitialized then
    match ← nn.cacheGet (← nn.cacheKey workload) with
    | none => return errorCacheMiss
    | some cachedValue => nn.toCycles workload cachedValue
  else return errorCacheMiss

def addToCache (workload : DPUWorkload) (value : ℚ) : CostM Unit := do
  if nn.isInitialized then nn.cacheAdd (← nn.cacheKey workload) (some value)

/-! ### Without a cache -/

/-- The workload has a descriptor. -/
def Described (workload : DPUWorkload) : Prop := (nn.transformSingle workload).isSome

instance (workload : DPUWorkload) : Decidable (nn.Described workload) :=
  inferInstanceAs (Decidable (_ = true))

/-- The descriptor, if there is one. -/
def descriptor (workload : DPUWorkload) : List ℚ := (nn.transformSingle workload).getD []

/-- The value of a descriptor: the preloaded one or the one of the network. -/
def rawValue (descriptor : List ℚ) : RawValue :=
  (nn.preloaded.get descriptor).getD (nn.predict descriptor)

/-- The cycles of a value. -/
def cyclesOf (workload : DPUWorkload) (rawValue : RawValue) : ℕ :=
  (rawValue.bind (PostProcess.toCycles nn.outputVersion workload)).getD 0

/-- The cycles of a workload for an empty cache. -/
def cost (workload : DPUWorkload) : ℕ :=
  if nn.isInitialized then nn.cyclesOf workload (nn.rawValue (nn.descriptor workload))
  else errorInferenceNotPossible

/-- What the preloaded table alone answers. -/
def preloadedCost (workload : DPUWorkload) : ℕ :=
  if nn.isInitialized then
    ((nn.preloaded.get (nn.descriptor workload)).map (nn.cyclesOf workload)).getD errorCacheMiss
  else errorCacheMiss

/-- A network for one descriptor at a time, of a device whose cache is the one of descriptors. All of
    its values, and those that were preloaded, are numbers. -/
structure Plain : Prop where
  device : useNewHashMethodForDevice nn.modelDevice = false
  batchSize : nn.batchSize = 1
  predict : ∀ descriptor, (nn.predict descriptor).isSome
  preloaded : ∀ descriptor value, nn.preloaded.get descriptor = some value → value.isSome

variable {nn}

theorem transformSingle_eq {workload : DPUWorkload} (h : nn.Described workload) :
    nn.transformSingle workload = some (nn.descriptor workload) := by
  obtain ⟨descriptor, hdescriptor⟩ := Option.isSome_iff_exists.mp h
  rw [NNCostProvider.descriptor, hdescriptor, Option.getD_some]

theorem transform_eq {workload : DPUWorkload} (h : nn.Described workload) :
    nn.transform workload = pure (nn.descriptor workload) := by
  rw [transform, transformSingle_eq h]

theorem toCycles_eq (workload : DPUWorkload) {rawValue : RawValue} (h : rawValue.isSome) :
    nn.toCycles workload rawValue = pure (nn.cyclesOf workload rawValue) := by
  obtain ⟨value, rfl⟩ := Option.isSome_iff_exists.mp h
  obtain ⟨cycles, hcycles, -⟩ := PostProcess.toCycles_spec nn.outputVersion workload value
  rw [toCycles, cyclesOf, Option.bind_some, hcycles]
  rfl

theorem predictSingle_eq (hbatch : nn.batchSize = 1) {workload : DPUWorkload}
    (h : nn.Described workload) :
    nn.predictSingle (nn.descriptor workload) = pure (nn.predict (nn.descriptor workload)) := by
  rw [predictSingle, nn.length_transformSingle _ _ (transformSingle_eq h), hbatch, one_mul, if_pos rfl]

/-- What a query does not find is not preloaded. -/
theorem preloaded_eq_none {descriptor : List ℚ}
    (h : ∀ value, nn.preloaded.get descriptor = some value → (none : Option RawValue) = some value) :
    nn.preloaded.get descriptor = none :=
  Option.eq_none_iff_forall_ne_some.mpr fun value hvalue =>
    Option.some_ne_none _ (h value hvalue).symm

variable (nn)

/-! ### What the queries rely on -/

/-- What a cache of descriptors does as long as an invariant holds: a value that is found is a number
    and `Found`, and what may be `Stored` can be added. A descriptor that is `Held` gets no other value
    by an addition. -/
structure CacheLaws (Inv : NNCostCacheManager → Prop) (Held : List ℚ → NNCostCacheManager → Prop)
    (Found Stored : List ℚ → RawValue → Prop) : Prop where
  descriptors : ∀ {cache}, Inv cache → cache.usesWorkloadHashCache = false
  get : ∀ {cache}, Inv cache → ∀ descriptor, ∃ found cache',
    cache.get nn.preloaded (.descriptor descriptor) = .ok (found, cache') ∧ Inv cache'
      ∧ (Held descriptor cache → Held descriptor cache')
      ∧ (∀ value, found = some value →
        value.isSome ∧ Found descriptor value ∧ Held descriptor cache')
      ∧ ∀ value, nn.preloaded.get descriptor = some value → found = some value
  add : ∀ {cache descriptor value}, Inv cache → Stored descriptor value → ∃ cache',
    cache.add nn.preloaded value (.descriptor descriptor) = .ok cache' ∧ Inv cache'
      ∧ Held descriptor cache'
  add_held : ∀ {cache descriptor}, Inv cache → Held descriptor cache → ∀ value, ∃ cache',
    cache.add nn.preloaded value (.descriptor descriptor) = .ok cache' ∧ Inv cache'
      ∧ Held descriptor cache'

/-- The network may be asked for a workload: it takes one at a time and gives a number for its
    descriptor, which may be stored. -/
structure Askable (Stored : List ℚ → RawValue → Prop) (workload : DPUWorkload) : Prop where
  batchSize : nn.batchSize = 1
  described : nn.Described workload
  number : (nn.predict (nn.descriptor workload)).isSome
  store : Stored (nn.descriptor workload) (nn.predict (nn.descriptor workload))

/-- What is found for the descriptor gives the same cycles as the value of the network. -/
structure Evaluable (Found Stored : List ℚ → RawValue → Prop) (workload : DPUWorkload) : Prop
    extends nn.Askable Stored workload where
  read : ∀ value, Found (nn.descriptor workload) value →
    nn.cyclesOf workload value = nn.cyclesOf workload (nn.rawValue (nn.descriptor workload))

variable {nn} {Inv : NNCostCacheManager → Prop} {Held : List ℚ → NNCostCacheManager → Prop}
  {Found Stored : List ℚ → RawValue → Prop} (laws : nn.CacheLaws Inv Held Found Stored)

include laws

theorem cacheGet_spec (descriptor : List ℚ) (K : Prop) (key : CacheKey) :
    ⦃fun c => ⌜key = .descriptor descriptor ∧ Inv c ∧ (K → Held descriptor c)⌝⦄ nn.cacheGet key
    ⦃⇓ found c => ⌜Inv c ∧ (K → Held descriptor c)
      ∧ (∀ value, found = some value → value.isSome ∧ Found descriptor value ∧ Held descriptor c)
      ∧ ∀ value, nn.preloaded.get descriptor = some value → found = some value⌝⦄ := by
  mvcgen [cacheGet]
  case vc1 cache h e hget =>
    obtain ⟨rfl, hc, -⟩ := h
    obtain ⟨found, cache', hok, -⟩ := laws.get hc descriptor
    rw [hok] at hget
    cases hget
  case vc2 cache h found cache' hget =>
    obtain ⟨rfl, hc, hK⟩ := h
    obtain ⟨found, cache'', hok, hinv, hheld, hfound⟩ := laws.get hc descriptor
    rw [hok] at hget
    cases hget
    exact ⟨hinv, fun h => hheld (hK h), hfound⟩

theorem cacheAdd_spec (descriptor : List ℚ) (value : RawValue) (K : Prop)
    (hadd : K ∨ Stored descriptor value) (key : CacheKey) :
    ⦃fun c => ⌜key = .descriptor descriptor ∧ Inv c ∧ (K → Held descriptor c)⌝⦄
    nn.cacheAdd key value
    ⦃⇓ _ c => ⌜Inv c ∧ Held descriptor c⌝⦄ := by
  have hok : ∀ cache, Inv cache → (K → Held descriptor cache) → ∃ cache',
      cache.add nn.preloaded value (.descriptor descriptor) = .ok cache' ∧ Inv cache'
        ∧ Held descriptor cache' := by
    intro cache hinv hheld
    rcases hadd with hK | hstored
    · exact laws.add_held hinv (hheld hK) value
    · exact laws.add hinv hstored
  mvcgen [cacheAdd]
  case vc1 cache h e hadd =>
    obtain ⟨rfl, hc, hK⟩ := h
    obtain ⟨cache', hok, -⟩ := hok cache hc hK
    rw [hok] at hadd
    cases hadd
  case vc2 cache h cache' hadd =>
    obtain ⟨rfl, hc, hK⟩ := h
    obtain ⟨cache'', hok, hinv⟩ := hok cache hc hK
    rw [hok] at hadd
    cases hadd
    exact hinv

/-- The key is the descriptor. -/
theorem cacheKey_spec {workload : DPUWorkload} (hdescribed : nn.Described workload) (K : Prop) :
    ⦃fun c => ⌜Inv c ∧ (K → Held (nn.descriptor workload) c)⌝⦄ nn.cacheKey workload
    ⦃⇓ key c => ⌜key = .descriptor (nn.descriptor workload) ∧ Inv c
      ∧ (K → Held (nn.descriptor workload) c)⌝⦄ := by
  rw [cacheKey, transform_eq hdescribed]
  mvcgen
  case vc1 c h hhash => exact absurd hhash (by simp [laws.descriptors h.1])

/-- The value is a number that was found or the one of the network, and leaves the descriptor held. -/
theorem inferRawInput_spec {workload : DPUWorkload} (hinit : nn.isInitialized = true)
    (hask : nn.Askable Stored workload) :
    ⦃fun c => ⌜Inv c⌝⦄ nn.inferRawInput workload
    ⦃⇓ value c => ⌜value.isSome ∧ Inv c ∧ Held (nn.descriptor workload) c
      ∧ (Found (nn.descriptor workload) value
        ∨ nn.preloaded.get (nn.descriptor workload) = none
          ∧ value = nn.predict (nn.descriptor workload))⌝⦄ := by
  have hget := cacheGet_spec laws (nn.descriptor workload) False (.descriptor (nn.descriptor workload))
  have hadd := cacheAdd_spec laws (nn.descriptor workload) (nn.predict (nn.descriptor workload)) False
    (.inr hask.store) (.descriptor (nn.descriptor workload))
  simp only [inferRawInput, computeAndCache, transform_eq hask.described,
    predictSingle_eq hask.batchSize hask.described, pure_bind]
  mvcgen [hget, hadd]
  case vc1 _ c hc hhash => exact absurd hhash (by simp [laws.descriptors hc])
  case vc2 _ c hc _ => exact ⟨trivial, hc, False.elim⟩
  case vc3 value hsome c h =>
    obtain ⟨hc, -, hfound, -⟩ := h
    obtain ⟨hnumber, hvalue, hheld⟩ := hfound value rfl
    exact ⟨hnumber, hc, hheld, .inl hvalue⟩
  case vc4 c h => exact ⟨trivial, h.1, False.elim⟩
  case vc5 hnone c h _ c' h' =>
    exact ⟨hask.number, h'.1, h'.2, .inr (preloaded_eq_none h.2.2.2)⟩

/-- The network gives its cycles, from the cache or not. -/
theorem infer_spec {workload : DPUWorkload} (hinit : nn.isInitialized = true)
    (heval : nn.Evaluable Found Stored workload) :
    ⦃fun c => ⌜Inv c⌝⦄ nn.infer workload
    ⦃⇓ cycles c => ⌜cycles = nn.cost workload ∧ Inv c ∧ Held (nn.descriptor workload) c⌝⦄ := by
  have hraw := inferRawInput_spec laws hinit heval.toAskable
  have hcost : nn.cost workload
      = nn.cyclesOf workload (nn.rawValue (nn.descriptor workload)) := by
    rw [cost, if_pos hinit]
  mvcgen [infer, hraw]
  case vc2 value =>
    intro c hnumber hc hheld hvalue
    rw [toCycles_eq workload hnumber]
    refine ⟨?_, hc, hheld⟩
    rcases hvalue with hfound | ⟨hpreloaded, rfl⟩
    · rw [hcost, heval.read value hfound]
    · rw [hcost, rawValue, hpreloaded]
      rfl

theorem getCost_spec {workload : DPUWorkload}
    (heval : nn.isInitialized = true → nn.Evaluable Found Stored workload) :
    ⦃fun c => ⌜Inv c⌝⦄ nn.getCost workload
    ⦃⇓ cycles c => ⌜cycles = nn.cost workload ∧ Inv c
      ∧ (nn.isInitialized = true → Held (nn.descriptor workload) c)⌝⦄ := by
  by_cases hinit : nn.isInitialized = true
  · have hinfer := infer_spec laws hinit (heval hinit)
    mvcgen [getCost, hinfer]
    case vc2 => exact fun hcycles hc hheld => ⟨hcycles, hc, fun _ => hheld⟩
  · mvcgen [getCost]
    case vc2 c h => exact ⟨by rw [cost, if_neg hinit], h, fun h => absurd h hinit⟩

/-- Whatever is found, the network gives some cycles. -/
theorem getCost_completes {workload : DPUWorkload}
    (hask : nn.isInitialized = true → nn.Askable Stored workload) :
    ⦃fun c => ⌜Inv c⌝⦄ nn.getCost workload ⦃⇓ _ c => ⌜Inv c⌝⦄ := by
  by_cases hinit : nn.isInitialized = true
  · have hraw := inferRawInput_spec laws hinit (hask hinit)
    mvcgen [getCost, infer, hraw]
    case vc2 value =>
      intro c hnumber hc _ _
      rw [toCycles_eq workload hnumber]
      exact hc
  · mvcgen [getCost]

/-- What the cache answers is what the preloaded table does, or the cycles of something found. -/
theorem getCached_spec {workload : DPUWorkload}
    (hdescribed : nn.isInitialized = true → nn.Described workload) (K : Prop) :
    ⦃fun c => ⌜Inv c ∧ (K → Held (nn.descriptor workload) c)⌝⦄ nn.getCached workload
    ⦃⇓ cycles c => ⌜Inv c ∧ (K → Held (nn.descriptor workload) c)
      ∧ (cycles = nn.preloadedCost workload ∨ nn.isInitialized = true
        ∧ isErrorCode (nn.preloadedCost workload) ∧ ∃ value,
          Found (nn.descriptor workload) value ∧ cycles = nn.cyclesOf workload value)⌝⦄ := by
  by_cases hinit : nn.isInitialized = true
  · have hkey := cacheKey_spec laws (hdescribed hinit) K
    have hget := cacheGet_spec laws (nn.descriptor workload) K
    mvcgen [getCached, hkey, hget]
    case vc3 found hnone c h =>
      refine ⟨h.1, h.2.1, .inl ?_⟩
      have hpreloaded := preloaded_eq_none h.2.2.2
      rw [preloadedCost, if_pos hinit, hpreloaded]
      rfl
    case vc4 found value hsome =>
      intro c hc hheld hfound hpreloaded
      obtain ⟨hnumber, hvalue, -⟩ := hfound value rfl
      rw [toCycles_eq workload hnumber]
      refine ⟨hc, hheld, ?_⟩
      rcases hp : nn.preloaded.get (nn.descriptor workload) with _ | value'
      · refine .inr ⟨hinit, ?_, value, hvalue, rfl⟩
        rw [preloadedCost, if_pos hinit, hp, Option.map_none, Option.getD_none]
        decide
      · obtain rfl := Option.some.inj (hpreloaded value' hp)
        refine .inl ?_
        rw [preloadedCost, if_pos hinit, hp]
        rfl
  · mvcgen [getCached]
    case vc2 c h => exact ⟨h.1, h.2, .inl (by rw [preloadedCost, if_neg hinit])⟩

theorem addToCache_spec {workload : DPUWorkload}
    (hdescribed : nn.isInitialized = true → nn.Described workload) (value : ℚ) (K : Prop)
    (hadd : nn.isInitialized = true → K ∨ Stored (nn.descriptor workload) (some value)) :
    ⦃fun c => ⌜Inv c ∧ (K → Held (nn.descriptor workload) c)⌝⦄ nn.addToCache workload value
    ⦃⇓ _ c => ⌜Inv c⌝⦄ := by
  by_cases hinit : nn.isInitialized = true
  · have hkey := cacheKey_spec laws (hdescribed hinit) K
    have hadd := cacheAdd_spec laws (nn.descriptor workload) (some value) K (hadd hinit)
    mvcgen [addToCache, hkey, hadd]
    case vc3 => exact fun hc _ => hc
  · mvcgen [addToCache]
    case vc2 c h => exact h.1

end NNCostProvider

/-! ### The caches of descriptors -/

namespace NNCostProvider

variable (nn : NNCostProvider)

/-- A cache in order, of a given size, that holds nothing but what it is said to. -/
inductive Serves (maxSize : ℕ) (P : List ℚ → RawValue → Prop) : NNCostCacheManager → Prop
  | descriptorCache {cache : LRUCache (List ℚ) RawValue} (valid : cache.Valid)
      (maxSize_eq : cache.maxSize = maxSize) (holds : ∀ e ∈ cache.entries, P e.1 e.2) :
      Serves maxSize P (.descriptorCache cache)

/-- An addition for the descriptor changes no value. -/
def Held (descriptor : List ℚ) : NNCostCacheManager → Prop
  | .descriptorCache cache => cache.maxSize = 0 ∨ nn.preloaded.contains descriptor = true
    ∨ descriptor ∈ cache.entries.map Prod.fst
  | .workloadCache _ => False

/-- What is found is preloaded, or one of the values that the cache holds. -/
def FoundIn (P : List ℚ → RawValue → Prop) (descriptor : List ℚ) (value : RawValue) : Prop :=
  nn.preloaded.get descriptor = some value ∨ nn.preloaded.get descriptor = none ∧ P descriptor value

variable {nn} {P : List ℚ → RawValue → Prop}

theorem Serves.exists_cache {maxSize : ℕ} {manager : NNCostCacheManager}
    (h : Serves maxSize P manager) :
    ∃ cache, manager = .descriptorCache cache ∧ cache.Valid ∧ cache.maxSize = maxSize := by
  obtain ⟨hvalid, hmax, -⟩ := h
  exact ⟨_, rfl, hvalid, hmax⟩

/-- A new cache is in order. -/
theorem Plain.serves (h : nn.Plain) (maxSize : ℕ) : Serves maxSize P (nn.newCache maxSize) := by
  rw [newCache, h.device]
  exact .descriptorCache ⟨⟨.refl _, by simp, by simp, by simp⟩, Nat.zero_le _⟩ rfl
    (by simp [LRUCache.entries])

/-- Descriptors are compared element by element. -/
theorem beq_descriptor : (List.instBEq : BEq (List ℚ)) = instBEqOfDecidableEq := by
  ext a b
  simp

theorem contains_eq (descriptor : List ℚ) :
    nn.preloaded.contains descriptor = (nn.preloaded.get descriptor).isSome := rfl

/-- An addition to a cache in order is one to its entries. -/
theorem Serves.add {cache : NNCostCacheManager} {maxSize : ℕ} (h : Serves maxSize P cache)
    (descriptor : List ℚ) (value : RawValue)
    (hstored : nn.Held descriptor cache
      ∨ (nn.preloaded.get descriptor = none → P descriptor value)) :
    ∃ cache', cache.add nn.preloaded value (.descriptor descriptor) = .ok cache'
      ∧ Serves maxSize P cache' ∧ nn.Held descriptor cache' := by
  obtain ⟨hvalid, hmax, hholds⟩ := h
  obtain ⟨cache', hadd, hvalid', hsize, hentries⟩ :=
    LRUCache.add_valid nn.preloaded hvalid descriptor value
  refine ⟨.descriptorCache cache', ?_, .descriptorCache hvalid' (hsize.trans hmax) fun e he => ?_, ?_⟩
  · rw [NNCostCacheManager.add, beq_descriptor, hadd]
  · rw [hentries] at he
    rcases Recency.mem_step_add he with hold | ⟨rfl, hfixed, hnew, hsize⟩
    · exact hholds e hold
    · rcases hstored with (hzero | hpreloaded | hkey) | hstored
      · exact absurd hzero hsize
      · exact absurd hpreloaded (by simp [hfixed])
      · exact absurd hkey hnew
      · rw [contains_eq] at hfixed
        exact hstored (by simpa using hfixed)
  · rw [Held, hsize, hentries]
    exact Recency.mem_fst_step_add descriptor value _

theorem serves_laws (h : nn.Plain) (hP : ∀ descriptor value, P descriptor value → value.isSome)
    (maxSize : ℕ) :
    nn.CacheLaws (Serves maxSize P) nn.Held (nn.FoundIn P)
      fun descriptor value => nn.preloaded.get descriptor = none → P descriptor value where
  descriptors hserves := by
    obtain ⟨-, -, -⟩ := hserves
    rfl
  get hserves descriptor := by
    obtain @⟨cache, hvalid, hmax, hholds⟩ := hserves
    obtain ⟨cache', hget, hvalid', hsize, hentries⟩ :=
      LRUCache.get_valid nn.preloaded hvalid descriptor
    have hmem : ∀ e, e ∈ cache'.entries ↔ e ∈ cache.entries := by
      intro e
      rw [hentries, Recency.mem_step_get]
    have hkeys : ∀ k, k ∈ cache'.entries.map Prod.fst ↔ k ∈ cache.entries.map Prod.fst := by
      intro k
      simp only [List.mem_map, hmem]
    have hserves : Serves maxSize P (.descriptorCache cache') :=
      .descriptorCache hvalid' (hsize.trans hmax) fun e he => hholds e ((hmem e).mp he)
    refine ⟨(nn.preloaded.get descriptor).or (Recency.lookup descriptor cache.entries),
      .descriptorCache cache', ?_, hserves, ?_, ?_, ?_⟩
    · rw [NNCostCacheManager.get, beq_descriptor, hget]
    · intro hheld
      rwa [Held, hsize, hkeys]
    · intro value hvalue
      rcases hp : nn.preloaded.get descriptor with _ | found
      · rw [hp, Option.none_or, Recency.lookup_eq_some_iff
          (by rw [LRUCache.Consistent.fst_entries]; exact hvalid.consistent.keys_nodup)] at hvalue
        have hheld := hholds _ hvalue
        refine ⟨hP _ _ hheld, .inr ⟨hp, hheld⟩, .inr (.inr ?_)⟩
        rw [hkeys]
        exact List.mem_map_of_mem hvalue
      · rw [hp, Option.some_or] at hvalue
        cases hvalue
        exact ⟨h.preloaded _ _ hp, .inl hp, .inr (.inl (by rw [contains_eq, hp]; rfl))⟩
    · intro value hvalue
      rw [hvalue, Option.some_or]
  add hserves hstored := hserves.add _ _ (.inr hstored)
  add_held hserves hheld value := hserves.add _ value (.inl hheld)

/-- Nothing is added to a cache without a place. -/
theorem Serves.held {cache : NNCostCacheManager} (h : Serves 0 P cache) (descriptor : List ℚ) :
    nn.Held descriptor cache := by
  obtain ⟨-, hmax, -⟩ := h
  exact .inl hmax

/-- A cache without a place finds only what is preloaded, and takes everything. -/
theorem disabled_laws (h : nn.Plain) :
    nn.CacheLaws (Serves 0 fun _ _ => False) (fun _ _ => True)
      (fun descriptor value => nn.preloaded.get descriptor = some value) fun _ _ => True where
  descriptors := (serves_laws h (fun _ _ => False.elim) 0).descriptors
  get hserves descriptor := by
    obtain ⟨found, cache', hget, hserves', -, hfound, hpreloaded⟩ :=
      (serves_laws h (fun _ _ => False.elim) 0).get hserves descriptor
    refine ⟨found, cache', hget, hserves', id, fun value hvalue => ?_, hpreloaded⟩
    obtain ⟨hnumber, hp | ⟨-, hfalse⟩, -⟩ := hfound value hvalue
    · exact ⟨hnumber, hp, trivial⟩
    · exact hfalse.elim
  add {_ descriptor value} hserves _ := by
    obtain ⟨cache', hadd, hserves', -⟩ := hserves.add descriptor value (.inl (hserves.held _))
    exact ⟨cache', hadd, hserves', trivial⟩
  add_held {_ descriptor} hserves _ value := by
    obtain ⟨cache', hadd, hserves', -⟩ := hserves.add descriptor value (.inl (hserves.held _))
    exact ⟨cache', hadd, hserves', trivial⟩

end NNCostProvider

/-! ### Calls -/

/-- A query that has been shown to return something is a call that does. -/
theorem CostM.call_of_triple {α : Type} {m : CostM α} {P : NNCostCacheManager → Prop}
    {Q : α → NNCostCacheManager → Prop} (h : ⦃fun c => ⌜P c⌝⦄ m ⦃⇓ a c => ⌜Q a c⌝⦄)
    {cache : NNCostCacheManager} (hcache : P cache) :
    ∃ a cache', m.call cache = (.ok a, cache') ∧ Q a cache' := by
  have hwp := h cache hcache
  simp only [WP.wp, PredTrans.apply_pushExcept, PredTrans.apply_pushArg] at hwp
  rw [CostM.call]
  generalize (m.run.run cache).run = result at hwp ⊢
  rcases result with ⟨e | a, cache'⟩
  · exact False.elim hwp
  · exact ⟨a, cache', rfl, hwp⟩

end Vpunn
