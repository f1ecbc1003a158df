import Vpunn.Shave.Providers

/-! Cost providers in the order of their priority (`priority_shave_cost_provider.h`,
    `priority_dma_cost_provider.h`).

    Both classes run the same loop. It starts from the code for a missing provider, and this is also
    what it ends with: the error of a provider that fails is not kept. -/

namespace Vpunn
open Cycles

/-- What a query gives: a cost or an error code, and what it leaves in `cost_source`. -/
structure CostProvider (W : Type*) where
  cost : W → ℕ
  source : W → String → String

/-- Without a place for it (`nullptr`) no source is written. -/
def CostProvider.getCost {W : Type*} (p : CostProvider W) (workload : W)
    (costSource : Option String) : ℕ × Option String :=
  (p.cost workload, costSource.map (p.source workload))

/-- A provider that answers by itself, or a list of providers, in which entries may be null. -/
inductive PriorityProvider (W : Type*) where
  | leaf (provider : CostProvider W)
  | priority (costProviders : List (Option (PriorityProvider W)))

namespace PriorityProvider

variable {W : Type*} (missing : ℕ)

/-! ### The loop -/

mutual

def getCost : PriorityProvider W → W → Option String → ℕ × Option String
  | .leaf p, w, costSource => p.getCost w costSource
  | .priority costProviders, w, costSource => getCostInOrder costProviders w costSource

def getCostInOrder : List (Option (PriorityProvider W)) → W → Option String → ℕ × Option String
  | [], _, costSource => (missing, costSource.map fun _ => "unknown")
  | none :: costProviders, w, costSource => getCostInOrder costProviders w costSource
  | some p :: costProviders, w, costSource =>
    let result := p.getCost w costSource
    if ¬ isErrorCode result.1 then result else getCostInOrder costProviders w result.2

end

/-! ### What is documented -/

mutual

/-- The first result that is no error, and the error of the last provider that was tried where there
    is none. -/
def documentedCost : PriorityProvider W → W → Option String → ℕ × Option String
  | .leaf p, w, costSource => p.getCost w costSource
  | .priority costProviders, w, costSource =>
    let results := documentedResults costProviders w costSource
    (results.find? fun result => ¬ isErrorCode result.1).getD
      ((results.getLast?.map Prod.fst).getD missing, costSource.map fun _ => "unknown")

/-- The result of every provider, each with the source that the one before has left. -/
def documentedResults :
    List (Option (PriorityProvider W)) → W → Option String → List (ℕ × Option String)
  | [], _, _ => []
  | none :: costProviders, w, costSource => documentedResults costProviders w costSource
  | some p :: costProviders, w, costSource =>
    let result := p.documentedCost w costSource
    result :: documentedResults costProviders w result.2

end

/-! ### The providers that answer -/

mutual

def leaves : PriorityProvider W → List (CostProvider W)
  | .leaf p => [p]
  | .priority costProviders => leavesInOrder costProviders

def leavesInOrder : List (Option (PriorityProvider W)) → List (CostProvider W)
  | [] => []
  | none :: costProviders => leavesInOrder costProviders
  | some p :: costProviders => p.leaves ++ leavesInOrder costProviders

end

mutual

/-- The provider that answers last where all fail, if one is tried there. -/
def lastTried : PriorityProvider W → Option (CostProvider W)
  | .leaf p => some p
  | .priority costProviders => lastTriedInOrder costProviders

def lastTriedInOrder : List (Option (PriorityProvider W)) → Option (CostProvider W)
  | [] => none
  | none :: costProviders => lastTriedInOrder costProviders
  | some p :: costProviders =>
    if costProviders.all Option.isNone then p.lastTried else lastTriedInOrder costProviders

end

/-! ### The loop against its documentation -/

/-- The costs of the providers that are tried last. -/
def lastCost (last : Option (CostProvider W)) (w : W) : ℕ :=
  (last.map fun p => p.cost w).getD missing

/-- Some provider in the nesting has a cost for the workload. -/
def Succeeds (leaves : List (CostProvider W)) (w : W) : Prop :=
  ∃ p ∈ leaves, ¬ isErrorCode (p.cost w)

theorem succeeds_append {leaves leaves' : List (CostProvider W)} {w : W} :
    Succeeds (leaves ++ leaves') w ↔ Succeeds leaves w ∨ Succeeds leaves' w := by
  simp only [Succeeds, List.mem_append, or_and_right, exists_or]

/-- Nothing is tried in a list of null entries. -/
theorem documentedResults_eq_nil_iff (costProviders : List (Option (PriorityProvider W))) (w : W)
    (costSource : Option String) :
    documentedResults missing costProviders w costSource = []
      ↔ costProviders.all Option.isNone = true := by
  induction costProviders with
  | nil => simp [documentedResults]
  | cons p costProviders ih =>
    cases p with
    | none => simpa [documentedResults] using ih
    | some p => simp [documentedResults]

mutual

/-- A query writes a source exactly where there is a place for it. -/
theorem map_getCost_snd : ∀ (p : PriorityProvider W) (w : W) (costSource : Option String),
    (p.getCost missing w costSource).2.map (fun _ => "unknown")
      = costSource.map fun _ => "unknown"
  | .leaf p, w, costSource => by simp [getCost, CostProvider.getCost, Function.comp_def]
  | .priority costProviders, w, costSource => by
    rw [getCost]
    exact map_getCostInOrder_snd costProviders w costSource

theorem map_getCostInOrder_snd : ∀ (costProviders : List (Option (PriorityProvider W))) (w : W)
    (costSource : Option String),
    (getCostInOrder missing costProviders w costSource).2.map (fun _ => "unknown")
      = costSource.map fun _ => "unknown"
  | [], w, costSource => by simp [getCostInOrder, Function.comp_def]
  | none :: costProviders, w, costSource => by
    rw [getCostInOrder]
    exact map_getCostInOrder_snd costProviders w costSource
  | some p :: costProviders, w, costSource => by
    have hp := map_getCost_snd p w costSource
    rw [getCostInOrder]
    split
    · exact hp
    · rw [map_getCostInOrder_snd costProviders w, hp]

end

variable {missing} (hmissing : isErrorCode missing)
include hmissing

mutual

/-- A provider with a cost gives the documented result; one without gives an error, and the error of
    the documentation is the one of the provider tried last. -/
theorem getCost_spec : ∀ (p : PriorityProvider W) (w : W) (costSource : Option String),
    (Succeeds p.leaves w → p.getCost missing w costSource = p.documentedCost missing w costSource
        ∧ ¬ isErrorCode (p.documentedCost missing w costSource).1)
      ∧ (¬ Succeeds p.leaves w → isErrorCode (p.getCost missing w costSource).1
        ∧ (p.documentedCost missing w costSource).1 = lastCost missing p.lastTried w
        ∧ (p.documentedCost missing w costSource).2 = (p.getCost missing w costSource).2
        ∧ isErrorCode (lastCost missing p.lastTried w))
  | .leaf p, w, costSource => by
    simp [Succeeds, leaves, getCost, documentedCost, lastCost, lastTried, CostProvider.getCost]
  | .priority costProviders, w, costSource => by
    obtain ⟨hsuccess, hfail⟩ := getCostInOrder_spec costProviders w costSource
    rw [getCost, documentedCost, leaves, lastTried]
    refine ⟨fun h => ?_, fun h => ?_⟩
    · have hfind := hsuccess h
      simp only [hfind, Option.getD_some]
      exact ⟨trivial, by simpa using List.find?_some hfind⟩
    · obtain ⟨hcost, hfind, hlast, herror⟩ := hfail h
      simp only [hcost, hfind, hlast, Option.getD_none]
      exact ⟨hmissing, trivial, trivial, herror⟩

theorem getCostInOrder_spec : ∀ (costProviders : List (Option (PriorityProvider W))) (w : W)
    (costSource : Option String),
    (Succeeds (leavesInOrder costProviders) w →
      (documentedResults missing costProviders w costSource).find?
          (fun result => ¬ isErrorCode result.1)
        = some (getCostInOrder missing costProviders w costSource))
      ∧ (¬ Succeeds (leavesInOrder costProviders) w →
        getCostInOrder missing costProviders w costSource
            = (missing, costSource.map fun _ => "unknown")
          ∧ (documentedResults missing costProviders w costSource).find?
              (fun result => ¬ isErrorCode result.1) = none
          ∧ ((documentedResults missing costProviders w costSource).getLast?.map Prod.fst).getD missing
            = lastCost missing (lastTriedInOrder costProviders) w
          ∧ isErrorCode (lastCost missing (lastTriedInOrder costProviders) w))
  | [], w, costSource => by
    simp [Succeeds, leavesInOrder, documentedResults, getCostInOrder, lastTriedInOrder, lastCost,
      hmissing]
  | none :: costProviders, w, costSource => by
    have ih := getCostInOrder_spec costProviders w costSource
    simpa only [leavesInOrder, documentedResults, getCostInOrder, lastTriedInOrder] using ih
  | some p :: costProviders, w, costSource => by
    obtain ⟨hsuccess, hfail⟩ := getCost_spec p w costSource
    rw [leavesInOrder, documentedResults, getCostInOrder, lastTriedInOrder, succeeds_append]
    by_cases hp : Succeeds p.leaves w
    · obtain ⟨hcost, hdocumented⟩ := hsuccess hp
      refine ⟨fun _ => ?_, fun h => absurd (Or.inl hp) h⟩
      rw [hcost, if_pos hdocumented, List.find?_cons_of_pos (by simpa using hdocumented)]
    · obtain ⟨herror, hcost, hsource, hlast⟩ := hfail hp
      have hdocumented : isErrorCode (p.documentedCost missing w costSource).1 := hcost ▸ hlast
      have ih := getCostInOrder_spec costProviders w (p.getCost missing w costSource).2
      rw [List.find?_cons_of_neg (by simpa using hdocumented), hsource, if_neg (not_not.mpr herror)]
      refine ⟨fun h => ih.1 (h.resolve_left hp), fun h => ?_⟩
      obtain ⟨hrest, hfind, hrestLast, hrestError⟩ := ih.2 fun hr => h (.inr hr)
      rw [map_getCost_snd] at hrest
      refine ⟨hrest, hfind, ?_⟩
      cases hall : costProviders.all Option.isNone with
      | true =>
        have hnil := (documentedResults_eq_nil_iff missing costProviders w
          (p.getCost missing w costSource).2).mpr hall
        rw [hnil, if_pos rfl]
        exact ⟨hcost, hlast⟩
      | false =>
        have hne := mt (documentedResults_eq_nil_iff missing costProviders w
          (p.getCost missing w costSource).2).mp (by simp [hall])
        rw [List.getLast?_eq_some_getLast hne] at hrestLast
        rw [List.getLast?_cons, List.getLast?_eq_some_getLast hne, if_neg Bool.false_ne_true]
        exact ⟨hrestLast, hrestError⟩

end

omit hmissing in
theorem lastCost_eq_iff {last : Option (CostProvider W)} {w : W} :
    lastCost missing last w = missing ↔ ∀ p ∈ last, p.cost w = missing := by
  cases last <;> simp [lastCost]

/-- The loop does what is documented exactly if some provider has a cost, or the provider tried last
    fails with the code of a missing one. -/
theorem priority_getCost_eq_iff (costProviders : List (Option (PriorityProvider W))) (w : W)
    (costSource : Option String) :
    (priority costProviders).getCost missing w costSource
        = (priority costProviders).documentedCost missing w costSource
      ↔ Succeeds (leavesInOrder costProviders) w
        ∨ ∀ p ∈ lastTriedInOrder costProviders, p.cost w = missing := by
  by_cases h : Succeeds (leavesInOrder costProviders) w
  · exact iff_of_true ((getCost_spec hmissing (.priority costProviders) w costSource).1 h).1 (.inl h)
  · obtain ⟨hcost, hfind, hlast, -⟩ := (getCostInOrder_spec hmissing costProviders w costSource).2 h
    rw [getCost, documentedCost, or_iff_right h, ← lastCost_eq_iff]
    simp only [hcost, hfind, hlast, Option.getD_none, Prod.mk.injEq, and_true]
    exact eq_comm

end PriorityProvider

/-! ### The two classes -/

/-- `PriorityShaveCostProvider::get_cost`; an entry may be such a provider again. -/
def PriorityShaveCostProvider.getCost
    (costProviders : List (Option (PriorityProvider SHAVEWorkload))) :
    SHAVEWorkload → Option String → ℕ × Option String :=
  (PriorityProvider.priority costProviders).getCost errorShaveOperatorMissing

def PriorityShaveCostProvider.documentedCost
    (costProviders : List (Option (PriorityProvider SHAVEWorkload))) :
    SHAVEWorkload → Option String → ℕ × Option String :=
  (PriorityProvider.priority costProviders).documentedCost errorShaveOperatorMissing

/-- The entries of a list of DMA providers. -/
def PriorityDMACostProvider.providers {W : Type*} (costProviders : List (Option (CostProvider W))) :
    PriorityProvider W :=
  .priority (costProviders.map (Option.map .leaf))

/-- `PriorityDMACostProvider<WlT>::get_cost`. -/
def PriorityDMACostProvider.getCost {W : Type*} (costProviders : List (Option (CostProvider W))) :
    W → Option String → ℕ × Option String :=
  (PriorityDMACostProvider.providers costProviders).getCost errorNoValidDmaCostProvider

def PriorityDMACostProvider.documentedCost {W : Type*}
    (costProviders : List (Option (CostProvider W))) : W → Option String → ℕ × Option String :=
  (PriorityDMACostProvider.providers costProviders).documentedCost errorNoValidDmaCostProvider

/-- Where the sources do not matter, the loop is the one of the composed SHAVE providers. -/
theorem PriorityShaveCostProvider.getCost_fst_eq_priorityCost
    (source : IShaveCostProvider → SHAVEWorkload → String → String)
    (providers : List (Option IShaveCostProvider)) (w : SHAVEWorkload)
    (costSource : Option String) :
    (getCost (providers.map (Option.map fun p => .leaf ⟨p.getCost, source p⟩)) w costSource).1
      = priorityCost providers w := by
  unfold getCost
  rw [PriorityProvider.getCost]
  induction providers generalizing costSource with
  | nil => simp [PriorityProvider.getCostInOrder, priorityCost]
  | cons p providers ih =>
    cases p with
    | none => simpa [PriorityProvider.getCostInOrder, priorityCost] using ih costSource
    | some p =>
      rw [List.map_cons, Option.map_some, PriorityProvider.getCostInOrder, priorityCost,
        PriorityProvider.getCost]
      by_cases hp : isErrorCode (p.getCost w)
      · simpa [CostProvider.getCost, hp] using ih _
      · simp [CostProvider.getCost, hp]

theorem PriorityDMACostProvider.leaves_providers {W : Type*}
    (costProviders : List (Option (CostProvider W))) :
    (providers costProviders).leaves = costProviders.filterMap id := by
  unfold providers
  rw [PriorityProvider.leaves]
  induction costProviders with
  | nil => simp [PriorityProvider.leavesInOrder]
  | cons p costProviders ih =>
    cases p with
    | none => simpa [PriorityProvider.leavesInOrder] using ih
    | some p => simpa [PriorityProvider.leavesInOrder, PriorityProvider.leaves] using ih

theorem PriorityDMACostProvider.lastTried_providers {W : Type*}
    (costProviders : List (Option (CostProvider W))) :
    (providers costProviders).lastTried = (costProviders.filterMap id).getLast? := by
  unfold providers
  rw [PriorityProvider.lastTried]
  induction costProviders with
  | nil => simp [PriorityProvider.lastTriedInOrder]
  | cons p costProviders ih =>
    cases p with
    | none => simpa [PriorityProvider.lastTriedInOrder] using ih
    | some p =>
      rw [List.map_cons, Option.map_some, PriorityProvider.lastTriedInOrder, ih,
        PriorityProvider.lastTried, List.filterMap_cons_some (f := id) rfl, List.getLast?_cons]
      cases hall : (costProviders.map (Option.map PriorityProvider.leaf)).all Option.isNone with
      | true =>
        have hnil : costProviders.filterMap id = [] := by
          simpa [List.filterMap_eq_nil_iff] using hall
        rw [hnil]
        rfl
      | false =>
        obtain ⟨q, hq⟩ : ∃ q, q ∈ costProviders.filterMap id := by
          simpa [Option.ne_none_iff_exists', and_comm] using hall
        rw [List.getLast?_eq_some_getLast (List.ne_nil_of_mem hq)]
        rfl

/-- Both classes give the first cost that is no error with its source, and the last error where there
    is none, exactly if some provider has a cost, or the one tried last fails with the code of a
    missing provider, or none is tried. -/
theorem priorityProviders_documented_iff
    (shaveProviders : List (Option (PriorityProvider SHAVEWorkload))) (workload : SHAVEWorkload)
    {W : Type*} (dmaProviders : List (Option (CostProvider W))) (dmaWorkload : W)
    (costSource : Option String) :
    (PriorityShaveCostProvider.getCost shaveProviders workload costSource
          = PriorityShaveCostProvider.documentedCost shaveProviders workload costSource
        ↔ (∃ p ∈ (PriorityProvider.priority shaveProviders).leaves,
            ¬ isErrorCode (p.cost workload))
          ∨ ∀ p ∈ (PriorityProvider.priority shaveProviders).lastTried,
              p.cost workload = errorShaveOperatorMissing)
      ∧ (PriorityDMACostProvider.getCost dmaProviders dmaWorkload costSource
          = PriorityDMACostProvider.documentedCost dmaProviders dmaWorkload costSource
        ↔ (∃ p ∈ dmaProviders.filterMap id, ¬ isErrorCode (p.cost dmaWorkload))
          ∨ ∀ p ∈ (dmaProviders.filterMap id).getLast?,
              p.cost dmaWorkload = errorNoValidDmaCostProvider) := by
  constructor
  · rw [PriorityProvider.leaves, PriorityProvider.lastTried]
    exact PriorityProvider.priority_getCost_eq_iff (by decide) shaveProviders workload costSource
  · rw [← PriorityDMACostProvider.lastTried_providers, ← PriorityDMACostProvider.leaves_providers,
      PriorityDMACostProvider.providers, PriorityProvider.leaves, PriorityProvider.lastTried]
    exact PriorityProvider.priority_getCost_eq_iff (by decide) _ dmaWorkload costSource

/-- A provider that always fails. -/
def failingProvider (W : Type*) (code : ℕ) : CostProvider W := ⟨fun _ => code, fun _ s => s⟩

/-- One provider that fails is enough for its error to be lost. -/
theorem priorityProviders_not_documented :
    (∃ workload, PriorityShaveCostProvider.getCost
          [some (.leaf (failingProvider _ errorInvalidInputDevice))] workload none
        ≠ PriorityShaveCostProvider.documentedCost
          [some (.leaf (failingProvider _ errorInvalidInputDevice))] workload none)
      ∧ PriorityDMACostProvider.getCost [some (failingProvider Unit errorInferenceNotPossible)] () none
        ≠ PriorityDMACostProvider.documentedCost
          [some (failingProvider Unit errorInferenceNotPossible)] () none := by
  refine ⟨⟨{ name := "sigmoid", device := .vpu_2_7, inputs := [], outputs := [] }, ?_⟩, ?_⟩
  · decide
  · decide

end Vpunn
