import Vpunn.Cache
import Vpunn.Lib.Runs

/-! Caches whose keys are compared in part.

    A cache sees its keys only through their comparison. If that is the equality of some part of
    a key, then the cache does what a cache of those parts does, whatever else the keys hold. So a
    value that is found was added for a key with the same part. -/

namespace Vpunn
namespace LRUCache

variable {K K' V : Type*} (key : K → K')

/-- The cache of the parts of the keys. -/
def mapKeys (c : LRUCache K V) : LRUCache K' V where
  maxSize := c.maxSize
  workloads := c.workloads.map fun n => ⟨n.id, key n.key, n.value⟩
  mTable := c.mTable.map fun e => (key e.1, e.2)
  nextNode := c.nextNode

variable {key} {c : LRUCache K V}

theorem checkConsistency_mapKeys : (c.mapKeys key).checkConsistency = c.checkConsistency := by
  simp [checkConsistency, mapKeys]

theorem find_node_mapKeys (it : ℕ) : (c.mapKeys key).workloads.find? (·.id = it)
    = (c.workloads.find? (·.id = it)).map fun n => ⟨n.id, key n.key, n.value⟩ := by
  simp [mapKeys, List.find?_map, Function.comp_def]

theorem markAsMostRecentlyUsed_mapKeys (it : ℕ) : (c.mapKeys key).markAsMostRecentlyUsed it
    = (c.markAsMostRecentlyUsed it).map (mapKeys key) := by
  have hany : (c.mapKeys key).workloads.any (·.id = it) = c.workloads.any (·.id = it) := by
    simp [mapKeys, Function.comp_def]
  unfold markAsMostRecentlyUsed
  rw [hany]
  split_ifs
  · simp [mapKeys, Except.map, List.filter_map, Function.comp_def]
  · rfl

section Compare

variable [BEq K] [DecidableEq K'] (hkey : ∀ a b : K, (a == b) = decide (key a = key b))

include hkey

theorem find_mapKeys (wl : K) :
    (c.mapKeys key).find (key wl) = (c.find wl).map fun e => (key e.1, e.2) := by
  simp only [find, mapKeys, List.find?_map, Function.comp_def, hkey]
  rfl

theorem remove_mapKeys (wl : K) :
    (c.mapKeys key).remove (key wl) = (c.remove wl).map (mapKeys key) := by
  unfold remove
  rw [find_mapKeys hkey]
  cases c.find wl with
  | none => rfl
  | some e =>
    have hremoved : ({ c.mapKeys key with
          mTable := (c.mapKeys key).mTable.filter fun x => !(x.1 == key e.1)
          workloads := (c.mapKeys key).workloads.dropLast } : LRUCache K' V)
        = mapKeys key { c with
          mTable := c.mTable.filter fun x => !(x.1 == e.1)
          workloads := c.workloads.dropLast } := by
      simp only [mapKeys, List.filter_map, Function.comp_def, hkey, List.map_dropLast]
      rfl
    simp only [Option.map_some, hremoved, checkConsistency_mapKeys]
    split_ifs <;> rfl

theorem cleanUpExcessElements_mapKeys (fuel : ℕ) : cleanUpExcessElements fuel (c.mapKeys key)
    = (cleanUpExcessElements fuel c).map (mapKeys key) := by
  induction fuel generalizing c with
  | zero => rfl
  | succ fuel ih =>
    have hlength : (c.mapKeys key).mTable.length = c.mTable.length := List.length_map _
    have hlast : (c.mapKeys key).workloads.getLast?
        = c.workloads.getLast?.map fun n => ⟨n.id, key n.key, n.value⟩ := List.getLast?_map
    rw [cleanUpExcessElements, cleanUpExcessElements, hlength, hlast]
    show (if c.maxSize < c.mTable.length then _ else _) = _
    split_ifs
    · cases c.workloads.getLast? with
      | none => rfl
      | some oldestItem =>
        simp only [Option.map_some, remove_mapKeys hkey]
        cases hremove : c.remove oldestItem.key with
        | error e => rfl
        | ok c' => exact ih
    · rfl

variable (hash : K → ℕ) (hash' : K' → ℕ)

theorem add_mapKeys (wl : K) (value : V) :
    (c.mapKeys key).add (.empty hash') (key wl) value
      = (c.add (.empty hash) wl value).map (mapKeys key) := by
  have hfixed : (FixedCacheAddON.empty hash : FixedCacheAddON K V).contains wl = false := rfl
  have hfixed' : (FixedCacheAddON.empty hash' : FixedCacheAddON K' V).contains (key wl) = false :=
    rfl
  unfold add
  simp only [hfixed, hfixed', Bool.false_eq_true, if_false]
  show (if c.maxSize = 0 then _ else _) = _
  split_ifs
  · rfl
  · rw [find_mapKeys hkey]
    cases c.find wl with
    | none =>
      have hlength : (c.mapKeys key).mTable.length = c.mTable.length := List.length_map _
      have hpush : ({ c.mapKeys key with
            workloads := ⟨(c.mapKeys key).nextNode, key wl, value⟩ :: (c.mapKeys key).workloads
            mTable := (key wl, (c.mapKeys key).nextNode) :: (c.mapKeys key).mTable
            nextNode := (c.mapKeys key).nextNode + 1 } : LRUCache K' V)
          = mapKeys key { c with
            workloads := ⟨c.nextNode, wl, value⟩ :: c.workloads
            mTable := (wl, c.nextNode) :: c.mTable
            nextNode := c.nextNode + 1 } := rfl
      simp only [Option.map_none, hlength, hpush, cleanUpExcessElements_mapKeys hkey]
      cases cleanUpExcessElements (c.mTable.length + 1) { c with
          workloads := ⟨c.nextNode, wl, value⟩ :: c.workloads
          mTable := (wl, c.nextNode) :: c.mTable
          nextNode := c.nextNode + 1 } with
      | error e => rfl
      | ok c' =>
        show (if (c'.mapKeys key).checkConsistency then _ else _) = Except.map (mapKeys key)
          (if c'.checkConsistency then _ else _)
        rw [checkConsistency_mapKeys]
        split_ifs <;> rfl
    | some e =>
      simp only [Option.map_some, markAsMostRecentlyUsed_mapKeys]
      cases c.markAsMostRecentlyUsed e.2 with
      | error e => rfl
      | ok c' =>
        show (if (c'.mapKeys key).checkConsistency then _ else _) = Except.map (mapKeys key)
          (if c'.checkConsistency then _ else _)
        rw [checkConsistency_mapKeys]
        split_ifs <;> rfl

theorem get_mapKeys (wl : K) :
    (c.mapKeys key).get (.empty hash') (key wl)
      = (c.get (.empty hash) wl).map fun r => (r.1, r.2.mapKeys key) := by
  have hfixed : (FixedCacheAddON.empty hash : FixedCacheAddON K V).get wl = none := rfl
  have hfixed' : (FixedCacheAddON.empty hash' : FixedCacheAddON K' V).get (key wl) = none := rfl
  unfold get
  simp only [hfixed, hfixed']
  rw [find_mapKeys hkey]
  cases c.find wl with
  | none => rfl
  | some e =>
    simp only [Option.map_some, markAsMostRecentlyUsed_mapKeys]
    cases c.markAsMostRecentlyUsed e.2 with
    | error e => rfl
    | ok c' =>
      simp only [Except.map, bind, Except.bind, find_node_mapKeys]
      cases c'.workloads.find? (·.id = e.2) <;> rfl

end Compare

/-! ### What a cache serves -/

/-- The cache is in order, and what it holds has a property. -/
structure Serves (key : K → K') (P : K' → V → Prop) (c : LRUCache K V) : Prop where
  valid : (c.mapKeys key).Valid
  holds : ∀ e ∈ (c.mapKeys key).entries, P e.1 e.2

variable {P Q : K' → V → Prop}

theorem Serves.mono (h : c.Serves key P) (hPQ : ∀ k v, P k v → Q k v) : c.Serves key Q :=
  ⟨h.valid, fun e he => hPQ _ _ (h.holds e he)⟩

theorem serves_new (maxSize : ℕ) : ({ maxSize := maxSize } : LRUCache K V).Serves key P where
  valid := ⟨⟨.refl _, by simp [mapKeys], by simp [mapKeys], by simp [mapKeys]⟩, Nat.zero_le _⟩
  holds := by simp [mapKeys, entries]

variable [BEq K] [DecidableEq K'] (hkey : ∀ a b : K, (a == b) = decide (key a = key b))
  (hash : K → ℕ)

include hkey

/-- A value that is found has the property, with the part of the key that was asked for. -/
theorem Serves.get (h : c.Serves key P) (wl : K) :
    ∃ found c', c.get (.empty hash) wl = .ok (found, c') ∧ c'.Serves key P
      ∧ ∀ value, found = some value → P (key wl) value := by
  obtain ⟨cm, hget, hvalid, -, hentries⟩ := get_valid (.empty fun _ => 0) h.valid (key wl)
  rw [get_mapKeys hkey hash] at hget
  cases hc : c.get (.empty hash) wl with
  | error e => rw [hc] at hget; cases hget
  | ok r =>
    obtain ⟨found, c'⟩ := r
    rw [hc] at hget
    obtain ⟨hfound, rfl⟩ : found = Recency.lookup (key wl) (c.mapKeys key).entries
        ∧ c'.mapKeys key = cm := by
      have := Except.ok.inj hget
      exact ⟨congrArg Prod.fst this, congrArg Prod.snd this⟩
    refine ⟨found, c', rfl, ⟨hvalid, fun e he => ?_⟩, fun value hvalue => ?_⟩
    · rw [hentries] at he
      exact h.holds e (Recency.mem_touch.mp he)
    · have hnodup : ((c.mapKeys key).entries.map Prod.fst).Nodup := by
        rw [Consistent.fst_entries]
        exact h.valid.consistent.keys_nodup
      rw [hfound] at hvalue
      exact h.holds _ ((Recency.lookup_eq_some_iff hnodup).mp hvalue)

/-- Adding a value with the property keeps it. -/
theorem Serves.add (h : c.Serves key P) (wl : K) (value : V) (hP : P (key wl) value) :
    ∃ c', c.add (.empty hash) wl value = .ok c' ∧ c'.Serves key P := by
  obtain ⟨cm, hadd, hvalid, -, hentries⟩ := add_valid (.empty fun _ => 0) h.valid (key wl) value
  rw [add_mapKeys hkey hash] at hadd
  cases hc : c.add (.empty hash) wl value with
  | error e => rw [hc] at hadd; cases hadd
  | ok c' =>
    rw [hc] at hadd
    obtain rfl : c'.mapKeys key = cm := Except.ok.inj hadd
    refine ⟨c', rfl, hvalid, fun e he => ?_⟩
    rw [hentries] at he
    change e ∈ Recency.insert _ _ _ _ at he
    unfold Recency.insert at he
    split_ifs at he
    · exact h.holds e (Recency.mem_touch.mp he)
    · rcases List.mem_cons.mp (List.mem_of_mem_take he) with rfl | he
      · exact hP
      · exact h.holds e he

omit hkey [DecidableEq K'] in
/-- A cache of one entry finds what was added first. -/
theorem add_get {wl wl' : K} (heq : (wl == wl') = true) (value : V) :
    ∃ c, ({ maxSize := 1 } : LRUCache K V).add (.empty hash) wl value = .ok c
      ∧ (c.get (.empty hash) wl').map Prod.fst = .ok (some value) := by
  let c : LRUCache K V :=
    { maxSize := 1, workloads := [⟨0, wl, value⟩], mTable := [(wl, 0)], nextNode := 1 }
  have hfind : c.find wl' = some (wl, 0) := by
    simp [find, heq, c]
  have hfixed : (FixedCacheAddON.empty hash : FixedCacheAddON K V).get wl' = none := rfl
  refine ⟨c, rfl, ?_⟩
  simp only [get, hfixed, hfind]
  rfl

variable (key) in
omit [BEq K] [DecidableEq K'] hkey in
/-- Calls that store values in a cache return what is specified, in every sequence, if a call does
    so as long as what the cache may return to it is `Fresh`. A call asks for one `part`. -/
theorem run_eq_map_of_fresh {C R : Type*} (part : C → K') (stored : C → V → Prop)
    {call : C → LRUCache K V → R × LRUCache K V} {spec : C → R} {Fresh : C → V → Prop}
    {cs : List C}
    (hcall : ∀ (P : K' → V → Prop) (wl : C) (c : LRUCache K V), c.Serves key P →
      (∀ value, P (part wl) value → Fresh wl value) →
      (call wl c).1 = spec wl
        ∧ (call wl c).2.Serves key fun k value => P k value ∨ k = part wl ∧ stored wl value)
    (hcs : cs.Pairwise fun earlier wl =>
      part earlier = part wl → ∀ value, stored earlier value → Fresh wl value) (maxSize : ℕ) :
    (Runs.run call cs { maxSize := maxSize }).1 = cs.map spec := by
  -- the cache holds what an earlier call has stored
  refine Runs.run_eq_map_of_history (fun past c =>
    c.Serves key fun k value => ∃ wl ∈ past, k = part wl ∧ stored wl value) [] ?_
    (serves_new maxSize)
  intro past wl future heq c hc
  have hearlier : ∀ earlier ∈ past, part earlier = part wl → ∀ value, stored earlier value →
      Fresh wl value := by
    rw [show cs = past ++ wl :: future from heq, List.pairwise_append] at hcs
    exact fun earlier hpast => hcs.2.2 earlier hpast wl List.mem_cons_self
  obtain ⟨hresult, hserves⟩ := hcall _ wl c hc (by
    rintro value ⟨earlier, hpast, hparts, hstored⟩
    exact hearlier earlier hpast hparts.symm value hstored)
  refine ⟨hresult, hserves.mono ?_⟩
  rintro k value (⟨earlier, hpast, hstored⟩ | hstored)
  · exact ⟨earlier, List.mem_append_left _ hpast, hstored⟩
  · exact ⟨wl, by simp, hstored⟩

end LRUCache

end Vpunn
