import Mathlib.Data.List.Dedup
import Vpunn.Cycles
import Vpunn.Shave.Workload

/-! Compositions of SHAVE cost providers (`shave_cost_providers/*.h`).

    A provider lists the operators of a device, resolves an operator to its executor, and computes
    the cost of a workload. The composing classes take providers and route the three queries to
    them. Resolving and costing always take the same route. Listing does not: an override lists what
    its default lists, and a name mapping renames the list backward. -/

namespace Vpunn
open Cycles

/-- A provider that composes nothing: it has an executor exactly for the operators it lists, and an
    error for the others. -/
structure LeafShaveCostProvider where
  supportedOps : VPUDevice → List String
  cost : SHAVEWorkload → ℕ
  isErrorCode_cost : ∀ w : SHAVEWorkload, w.name ∉ supportedOps w.device → isErrorCode (cost w)

/-- An executor, by the provider it belongs to and the name it has there. -/
structure ShaveOpExecutor where
  provider : LeafShaveCostProvider
  name : String

/-- What the provider of an executor gives for a workload, under the executor's name. -/
def ShaveOpExecutor.cost (e : ShaveOpExecutor) (w : SHAVEWorkload) : ℕ :=
  e.provider.cost { w with name := e.name }

/-- The three queries. -/
structure IShaveCostProvider where
  getCost : SHAVEWorkload → ℕ
  getShaveSupportedOps : VPUDevice → List String
  getShaveInstance : String → VPUDevice → Option ShaveOpExecutor

/-- `std::unordered_map`: the entries, with each key once. -/
structure UnorderedMap (κ α : Type*) where
  entries : List (κ × α)
  nodup : (entries.map Prod.fst).Nodup

def UnorderedMap.find {κ α : Type*} [BEq κ] (m : UnorderedMap κ α) (key : κ) : Option α :=
  m.entries.lookup key

/-! ### The classes -/

def LeafShaveCostProvider.toProvider (leaf : LeafShaveCostProvider) : IShaveCostProvider where
  getCost := leaf.cost
  getShaveSupportedOps := leaf.supportedOps
  getShaveInstance name device := if name ∈ leaf.supportedOps device then some ⟨leaf, name⟩ else none

/-- The first cost that is no error. Entries without a provider are skipped. -/
def priorityCost : List (Option IShaveCostProvider) → SHAVEWorkload → ℕ
  | [], _ => errorShaveOperatorMissing
  | none :: providers, w => priorityCost providers w
  | some p :: providers, w =>
    if ¬ isErrorCode (p.getCost w) then p.getCost w else priorityCost providers w

/-- The first executor that a provider has for the name. -/
def priorityInstance :
    List (Option IShaveCostProvider) → String → VPUDevice → Option ShaveOpExecutor
  | [], _, _ => none
  | none :: providers, name, device => priorityInstance providers name device
  | some p :: providers, name, device =>
    (p.getShaveInstance name device).or (priorityInstance providers name device)

def priorityShaveCostProvider (providers : List (Option IShaveCostProvider)) :
    IShaveCostProvider where
  getCost := priorityCost providers
  getShaveSupportedOps device :=
    ((providers.filterMap id).flatMap (·.getShaveSupportedOps device)).dedup.mergeSort
  getShaveInstance := priorityInstance providers

/-- The provider that an operator is routed to. -/
def compositeRoute (default : IShaveCostProvider)
    (operationToProvider : UnorderedMap String (Option IShaveCostProvider)) (name : String) :
    IShaveCostProvider :=
  match operationToProvider.find name with
  | some (some provider) => provider
  | _ => default

def compositeShaveCostProvider (default : IShaveCostProvider)
    (operationToProvider : UnorderedMap String (Option IShaveCostProvider)) :
    IShaveCostProvider where
  getCost w := (compositeRoute default operationToProvider w.name).getCost w
  getShaveSupportedOps := default.getShaveSupportedOps
  getShaveInstance name device :=
    (compositeRoute default operationToProvider name).getShaveInstance name device

/-- The provider that an operator is routed to, with one override for a set of operators. -/
def opSetRoute (default : IShaveCostProvider) (override : Option IShaveCostProvider)
    (overrideOperations : List String) (name : String) : IShaveCostProvider :=
  match override with
  | some provider => if name ∈ overrideOperations then provider else default
  | none => default

def opSetOverrideShaveCostProvider (default : IShaveCostProvider)
    (override : Option IShaveCostProvider) (overrideOperations : List String) :
    IShaveCostProvider where
  getCost w := (opSetRoute default override overrideOperations w.name).getCost w
  getShaveSupportedOps := default.getShaveSupportedOps
  getShaveInstance name device :=
    (opSetRoute default override overrideOperations name).getShaveInstance name device

def getProviderForDevice (deviceProviders : UnorderedMap VPUDevice (Option IShaveCostProvider))
    (device : VPUDevice) : Option IShaveCostProvider :=
  (deviceProviders.find device).join

def deviceMappingShaveCostProvider
    (deviceProviders : UnorderedMap VPUDevice (Option IShaveCostProvider)) :
    IShaveCostProvider where
  getCost w :=
    match getProviderForDevice deviceProviders w.device with
    | some provider => provider.getCost w
    | none => errorShaveOperatorMissing
  getShaveSupportedOps device :=
    match getProviderForDevice deviceProviders device with
    | some provider => provider.getShaveSupportedOps device
    | none => []
  getShaveInstance name device :=
    match getProviderForDevice deviceProviders device with
    | some provider => provider.getShaveInstance name device
    | none => none

/-- The name that a provider name is listed under. Of several input names for it, the last one that
    the map gives is kept. -/
def reverseName (nameMapping : UnorderedMap String String) (opName : String) : String :=
  match nameMapping.entries.reverse.find? (·.2 = opName) with
  | some (inputName, _) => inputName
  | none => opName

def translatedName (nameMapping : UnorderedMap String String) (name : String) : String :=
  (nameMapping.find name).getD name

def nameMappingShaveCostProvider (underlying : IShaveCostProvider)
    (nameMapping : UnorderedMap String String) : IShaveCostProvider where
  getCost w := underlying.getCost { w with name := translatedName nameMapping w.name }
  getShaveSupportedOps device :=
    (underlying.getShaveSupportedOps device).map (reverseName nameMapping)
  getShaveInstance name device :=
    underlying.getShaveInstance (translatedName nameMapping name) device

/-- The providers that are composed of leaf providers. -/
inductive Composition : IShaveCostProvider → Prop
  | leaf (leaf : LeafShaveCostProvider) : Composition leaf.toProvider
  | priority {providers : List (Option IShaveCostProvider)}
      (h : ∀ p, some p ∈ providers → Composition p) :
      Composition (priorityShaveCostProvider providers)
  | composite {default : IShaveCostProvider}
      {operationToProvider : UnorderedMap String (Option IShaveCostProvider)}
      (hdefault : Composition default)
      (h : ∀ name p, (name, some p) ∈ operationToProvider.entries → Composition p) :
      Composition (compositeShaveCostProvider default operationToProvider)
  | opSetOverride {default : IShaveCostProvider} {override : Option IShaveCostProvider}
      (overrideOperations : List String) (hdefault : Composition default)
      (h : ∀ p, override = some p → Composition p) :
      Composition (opSetOverrideShaveCostProvider default override overrideOperations)
  | deviceMapping {deviceProviders : UnorderedMap VPUDevice (Option IShaveCostProvider)}
      (h : ∀ device p, (device, some p) ∈ deviceProviders.entries → Composition p) :
      Composition (deviceMappingShaveCostProvider deviceProviders)
  | nameMapping {underlying : IShaveCostProvider} (nameMapping : UnorderedMap String String)
      (h : Composition underlying) :
      Composition (nameMappingShaveCostProvider underlying nameMapping)

/-! ### Maps -/

namespace UnorderedMap

variable {κ α : Type*} [BEq κ] [LawfulBEq κ] {m : UnorderedMap κ α} {key : κ} {value : α}

theorem mem_of_find (h : m.find key = some value) : (key, value) ∈ m.entries := by
  obtain ⟨entries, nodup⟩ := m
  rw [find] at h
  induction entries with
  | nil => simp at h
  | cons e entries ih =>
    rw [List.map_cons, List.nodup_cons] at nodup
    rw [List.lookup_cons] at h
    split at h
    · next heq =>
      obtain rfl := Option.some.inj h
      rw [eq_of_beq heq]
      exact List.mem_cons_self
    · exact List.mem_cons_of_mem _ (ih nodup.2 h)

theorem find_of_mem (h : (key, value) ∈ m.entries) : m.find key = some value := by
  obtain ⟨entries, nodup⟩ := m
  rw [find]
  induction entries with
  | nil => simp at h
  | cons e entries ih =>
    rw [List.map_cons, List.nodup_cons] at nodup
    rw [List.lookup_cons]
    rcases List.mem_cons.mp h with rfl | hmem
    · simp
    · have hne : (key == e.1) = false := by
        refine beq_false_of_ne fun heq => ?_
        exact nodup.1 (List.mem_map.mpr ⟨_, hmem, heq⟩)
      rw [hne]
      exact ih nodup.2 hmem

end UnorderedMap

/-- A name that is listed under another one is translated back. -/
theorem translatedName_reverseName {nameMapping : UnorderedMap String String} {inputName opName : String}
    (h : (inputName, opName) ∈ nameMapping.entries) :
    translatedName nameMapping (reverseName nameMapping opName) = opName := by
  obtain ⟨⟨last, op⟩, hfind⟩ :
      ∃ e, nameMapping.entries.reverse.find? (·.2 = opName) = some e := by
    rw [← Option.ne_none_iff_exists', Ne, List.find?_eq_none]
    exact fun hnone => hnone _ (List.mem_reverse.mpr h) (by simp)
  have hop : op = opName := by simpa using List.find?_some hfind
  have hmem := List.mem_reverse.mp (List.mem_of_find?_eq_some hfind)
  rw [reverseName, hfind]
  simp only [translatedName, UnorderedMap.find_of_mem hmem, Option.getD_some, hop]

theorem reverseName_of_not_mem {nameMapping : UnorderedMap String String} {opName : String}
    (h : ∀ inputName, (inputName, opName) ∉ nameMapping.entries) :
    reverseName nameMapping opName = opName := by
  have hnone : nameMapping.entries.reverse.find? (·.2 = opName) = none := by
    rw [List.find?_eq_none]
    rintro ⟨inputName, op⟩ hmem heq
    obtain rfl : op = opName := by simpa using heq
    exact h inputName (List.mem_reverse.mp hmem)
  rw [reverseName, hnone]

/-! ### Resolving and costing -/

/-- A workload whose name is resolved is costed through the executor, unless that gives an error, and
    a workload whose name is not resolved has an error as its cost. -/
structure RoutesAlike (p : IShaveCostProvider) : Prop where
  resolved : ∀ (w : SHAVEWorkload) (e : ShaveOpExecutor),
    p.getShaveInstance w.name w.device = some e → ¬ isErrorCode (e.cost w) → p.getCost w = e.cost w
  unresolved : ∀ w : SHAVEWorkload,
    p.getShaveInstance w.name w.device = none → isErrorCode (p.getCost w)

theorem isErrorCode_errorShaveOperatorMissing : isErrorCode errorShaveOperatorMissing := by decide

theorem routesAlike_leaf (leaf : LeafShaveCostProvider) : RoutesAlike leaf.toProvider := by
  constructor
  · intro w e he _
    simp only [LeafShaveCostProvider.toProvider, Option.ite_none_right_eq_some, Option.some.injEq]
      at he
    obtain ⟨-, rfl⟩ := he
    rfl
  · intro w hnone
    refine leaf.isErrorCode_cost w fun hmem => ?_
    simp [LeafShaveCostProvider.toProvider, hmem] at hnone

/-- The first provider that has an executor is the first with a cost: those before it have errors. -/
theorem routesAlike_priority {providers : List (Option IShaveCostProvider)}
    (h : ∀ p, some p ∈ providers → RoutesAlike p) :
    RoutesAlike (priorityShaveCostProvider providers) := by
  suffices hlist : ∀ w : SHAVEWorkload,
      (∀ e, priorityInstance providers w.name w.device = some e → ¬ isErrorCode (e.cost w) →
          priorityCost providers w = e.cost w)
        ∧ (priorityInstance providers w.name w.device = none →
          isErrorCode (priorityCost providers w)) from
    ⟨fun w => (hlist w).1, fun w => (hlist w).2⟩
  intro w
  induction providers with
  | nil => exact ⟨fun e he => by simp [priorityInstance] at he, fun _ => by
      rw [priorityCost]; exact isErrorCode_errorShaveOperatorMissing⟩
  | cons provider providers ih =>
    have ih := ih fun p hp => h p (List.mem_cons_of_mem _ hp)
    cases provider with
    | none => exact ih
    | some p =>
      obtain ⟨hresolved, hunresolved⟩ := h p List.mem_cons_self
      simp only [priorityInstance, priorityCost]
      cases hinstance : p.getShaveInstance w.name w.device with
      | some e =>
        refine ⟨fun e' he' hcost => ?_, fun hnone => by simp at hnone⟩
        obtain rfl : e = e' := by simpa using he'
        rw [hresolved w e hinstance hcost, if_pos hcost]
      | none =>
        rw [if_neg (not_not.mpr (hunresolved w hinstance))]
        simpa using ih

theorem routesAlike_composite {default : IShaveCostProvider}
    {operationToProvider : UnorderedMap String (Option IShaveCostProvider)}
    (hdefault : RoutesAlike default)
    (h : ∀ name p, (name, some p) ∈ operationToProvider.entries → RoutesAlike p) :
    RoutesAlike (compositeShaveCostProvider default operationToProvider) := by
  have hroute : ∀ name, RoutesAlike (compositeRoute default operationToProvider name) := by
    intro name
    unfold compositeRoute
    split
    · next p hp => exact h name p (UnorderedMap.mem_of_find hp)
    · exact hdefault
  exact ⟨fun w => (hroute w.name).resolved w, fun w => (hroute w.name).unresolved w⟩

theorem routesAlike_opSetOverride {default : IShaveCostProvider}
    {override : Option IShaveCostProvider} (overrideOperations : List String)
    (hdefault : RoutesAlike default) (h : ∀ p, override = some p → RoutesAlike p) :
    RoutesAlike (opSetOverrideShaveCostProvider default override overrideOperations) := by
  have hroute : ∀ name, RoutesAlike (opSetRoute default override overrideOperations name) := by
    intro name
    unfold opSetRoute
    split
    · split_ifs
      · exact h _ rfl
      · exact hdefault
    · exact hdefault
  exact ⟨fun w => (hroute w.name).resolved w, fun w => (hroute w.name).unresolved w⟩

theorem mem_of_getProviderForDevice
    {deviceProviders : UnorderedMap VPUDevice (Option IShaveCostProvider)} {device : VPUDevice}
    {p : IShaveCostProvider} (h : getProviderForDevice deviceProviders device = some p) :
    (device, some p) ∈ deviceProviders.entries :=
  UnorderedMap.mem_of_find (Option.join_eq_some_iff.mp h)

theorem routesAlike_deviceMapping
    {deviceProviders : UnorderedMap VPUDevice (Option IShaveCostProvider)}
    (h : ∀ device p, (device, some p) ∈ deviceProviders.entries → RoutesAlike p) :
    RoutesAlike (deviceMappingShaveCostProvider deviceProviders) := by
  constructor
  all_goals
    intro w
    simp only [deviceMappingShaveCostProvider]
    cases hprovider : getProviderForDevice deviceProviders w.device with
    | some p => 
      first
      | exact (h _ p (mem_of_getProviderForDevice hprovider)).resolved w
      | exact (h _ p (mem_of_getProviderForDevice hprovider)).unresolved w
    | none => simp [isErrorCode_errorShaveOperatorMissing]

theorem routesAlike_nameMapping {underlying : IShaveCostProvider}
    (nameMapping : UnorderedMap String String) (h : RoutesAlike underlying) :
    RoutesAlike (nameMappingShaveCostProvider underlying nameMapping) :=
  ⟨fun w => h.resolved { w with name := translatedName nameMapping w.name },
    fun w => h.unresolved { w with name := translatedName nameMapping w.name }⟩

theorem Composition.routesAlike {p : IShaveCostProvider} (h : Composition p) : RoutesAlike p := by
  induction h with
  | leaf leaf => exact routesAlike_leaf leaf
  | priority _ ih => exact routesAlike_priority ih
  | composite _ _ ihdefault ih => exact routesAlike_composite ihdefault ih
  | opSetOverride ops _ _ ihdefault ih => exact routesAlike_opSetOverride ops ihdefault ih
  | deviceMapping _ ih => exact routesAlike_deviceMapping ih
  | nameMapping m _ ih => exact routesAlike_nameMapping m ih

/-! ### Listing and resolving -/

def Resolves (p : IShaveCostProvider) (name : String) (device : VPUDevice) : Prop :=
  ∃ e, p.getShaveInstance name device = some e

/-- Compositions that take nothing off the list of a device: an override has an executor for what it
    takes from the list of its default, and a name mapping leads to no missing executor for a listed
    name that is an input name and not a provider name. -/
inductive KeepsList (device : VPUDevice) : IShaveCostProvider → Prop
  | leaf (leaf : LeafShaveCostProvider) : KeepsList device leaf.toProvider
  | priority {providers : List (Option IShaveCostProvider)}
      (h : ∀ p, some p ∈ providers → KeepsList device p) :
      KeepsList device (priorityShaveCostProvider providers)
  | composite {default : IShaveCostProvider}
      {operationToProvider : UnorderedMap String (Option IShaveCostProvider)}
      (hdefault : KeepsList device default)
      (h : ∀ name ∈ default.getShaveSupportedOps device, ∀ p,
        operationToProvider.find name = some (some p) → Resolves p name device) :
      KeepsList device (compositeShaveCostProvider default operationToProvider)
  | opSetOverride {default : IShaveCostProvider} {override : Option IShaveCostProvider}
      {overrideOperations : List String} (hdefault : KeepsList device default)
      (h : ∀ name ∈ default.getShaveSupportedOps device, name ∈ overrideOperations → ∀ p,
        override = some p → Resolves p name device) :
      KeepsList device (opSetOverrideShaveCostProvider default override overrideOperations)
  | deviceMapping {deviceProviders : UnorderedMap VPUDevice (Option IShaveCostProvider)}
      (h : ∀ p, getProviderForDevice deviceProviders device = some p → KeepsList device p) :
      KeepsList device (deviceMappingShaveCostProvider deviceProviders)
  | nameMapping {underlying : IShaveCostProvider} {nameMapping : UnorderedMap String String}
      (hunderlying : KeepsList device underlying)
      (h : ∀ name ∈ underlying.getShaveSupportedOps device,
        (∀ inputName, (inputName, name) ∉ nameMapping.entries) → ∀ opName,
          nameMapping.find name = some opName → Resolves underlying opName device) :
      KeepsList device (nameMappingShaveCostProvider underlying nameMapping)

theorem resolves_priority {providers : List (Option IShaveCostProvider)} {p : IShaveCostProvider}
    {name : String} {device : VPUDevice} (hp : some p ∈ providers) (h : Resolves p name device) :
    Resolves (priorityShaveCostProvider providers) name device := by
  obtain ⟨e, he⟩ := h
  show ∃ e, priorityInstance providers name device = some e
  induction providers with
  | nil => simp at hp
  | cons provider providers ih =>
    rcases List.mem_cons.mp hp with rfl | hp
    · exact ⟨e, by rw [priorityInstance, he, Option.some_or]⟩
    · obtain ⟨e', he'⟩ := ih hp
      cases provider with
      | none => exact ⟨e', he'⟩
      | some q =>
        rw [priorityInstance]
        cases hq : q.getShaveInstance name device with
        | some eq => exact ⟨eq, rfl⟩
        | none => exact ⟨e', by rw [Option.none_or, he']⟩

theorem KeepsList.resolves {p : IShaveCostProvider} {device : VPUDevice} (h : KeepsList device p) :
    ∀ name ∈ p.getShaveSupportedOps device, Resolves p name device := by
  induction h with
  | leaf leaf => exact fun name hname => ⟨⟨leaf, name⟩, if_pos hname⟩
  | @priority providers _ ih =>
    intro name hname
    simp only [priorityShaveCostProvider, List.mem_mergeSort, List.mem_dedup, List.mem_flatMap,
      List.mem_filterMap, id] at hname
    obtain ⟨p, ⟨_, hp, rfl⟩, hlisted⟩ := hname
    exact resolves_priority hp (ih p hp name hlisted)
  | @composite default operationToProvider _ h ih =>
    intro name hname
    show Resolves (compositeRoute default operationToProvider name) name device
    unfold compositeRoute
    split
    · next p hp => exact h name hname p hp
    · exact ih name hname
  | @opSetOverride default override overrideOperations _ h ih =>
    intro name hname
    show Resolves (opSetRoute default override overrideOperations name) name device
    unfold opSetRoute
    split
    · split_ifs with hop
      · exact h name hname hop _ rfl
      · exact ih name hname
    · exact ih name hname
  | @deviceMapping deviceProviders _ ih =>
    intro name hname
    simp only [deviceMappingShaveCostProvider, Resolves] at hname ⊢
    cases hp : getProviderForDevice deviceProviders device with
    | none => simp [hp] at hname
    | some p =>
      rw [hp] at hname
      exact ih p hp name hname
  | @nameMapping underlying nameMapping _ h ih =>
    intro name hname
    obtain ⟨opName, hlisted, rfl⟩ := List.mem_map.mp hname
    show Resolves underlying (translatedName nameMapping (reverseName nameMapping opName)) device
    by_cases hreverse : ∃ inputName, (inputName, opName) ∈ nameMapping.entries
    · obtain ⟨inputName, hmem⟩ := hreverse
      rw [translatedName_reverseName hmem]
      exact ih opName hlisted
    · rw [not_exists] at hreverse
      rw [reverseName_of_not_mem hreverse, translatedName]
      cases hfind : nameMapping.find opName with
      | none => exact ih opName hlisted
      | some other => exact h opName hlisted hreverse other hfind

/-- In every composition a workload is costed by the provider that its name is resolved to, unless
    that gives an error. Every listed name is resolved, where no override and no name mapping takes
    one off the list. -/
theorem getShaveInstance_of_listed {p : IShaveCostProvider} (hp : Composition p) :
    (∀ (w : SHAVEWorkload) (e : ShaveOpExecutor), p.getShaveInstance w.name w.device = some e →
      ¬ isErrorCode (e.cost w) → p.getCost w = e.cost w)
    ∧ ∀ device, KeepsList device p → ∀ name ∈ p.getShaveSupportedOps device,
      ∃ e, p.getShaveInstance name device = some e :=
  ⟨hp.routesAlike.resolved, fun _ hkeeps => hkeeps.resolves⟩

/-- A provider with the given operators, the same on every device. -/
def leafOf (names : List String) : LeafShaveCostProvider where
  supportedOps _ := names
  cost w := if w.name ∈ names then 1000 else errorShaveOperatorMissing
  isErrorCode_cost w h := by
    rw [if_neg h]
    exact isErrorCode_errorShaveOperatorMissing

/-- An override for one of two operators, which has it. -/
theorem getShaveInstance_of_listed_sigmoid :
    ∃ e, (opSetOverrideShaveCostProvider (leafOf ["sigmoid", "softmax"]).toProvider
      (some (leafOf ["sigmoid"]).toProvider) ["sigmoid"]).getShaveInstance "sigmoid" .npu_5_0
        = some e := by
  refine (getShaveInstance_of_listed (.opSetOverride _ (.leaf _) ?_)).2 .npu_5_0
    (.opSetOverride (.leaf _) ?_) "sigmoid" (by decide)
  · rintro p ⟨⟩
    exact .leaf _
  · rintro name - hop p ⟨⟩
    exact ⟨_, if_pos hop⟩

/-- Every listed name is resolved, on every device. -/
def ResolvesList (p : IShaveCostProvider) : Prop :=
  ∀ device, ∀ name ∈ p.getShaveSupportedOps device, Resolves p name device

/-- The override does not have the operator that it is asked for. -/
def sigmoidOverride : IShaveCostProvider :=
  opSetOverrideShaveCostProvider (leafOf ["sigmoid"]).toProvider (some (leafOf []).toProvider)
    ["sigmoid"]

/-- An operator of the underlying provider is an input name for one that it does not have. -/
def sigmoidRenamed : IShaveCostProvider :=
  nameMappingShaveCostProvider (leafOf ["sigmoid"]).toProvider
    ⟨[("sigmoid", "sigmoid_old")], by decide⟩

theorem not_resolvesList :
    (Composition sigmoidOverride ∧ ¬ ResolvesList sigmoidOverride)
      ∧ (Composition sigmoidRenamed ∧ ¬ ResolvesList sigmoidRenamed) := by
  refine ⟨⟨.opSetOverride _ (.leaf _) ?_, fun h => ?_⟩, ⟨.nameMapping _ (.leaf _), fun h => ?_⟩⟩
  · rintro p ⟨⟩
    exact .leaf _
  · have hnone : (sigmoidOverride.getShaveInstance "sigmoid" .npu_5_0).isSome = false := by decide
    obtain ⟨e, he⟩ := h .npu_5_0 "sigmoid" (by decide)
    simp [he] at hnone
  · have hnone : (sigmoidRenamed.getShaveInstance "sigmoid" .npu_5_0).isSome = false := by decide
    obtain ⟨e, he⟩ := h .npu_5_0 "sigmoid" (by decide)
    simp [he] at hnone

end Vpunn
