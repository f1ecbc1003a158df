import Vpunn.Lib.Recency
import Mathlib.Data.List.Induction
import Mathlib.Data.List.Perm.Basic

/-! The workload cache (`LRUCache` in `cache.h`).

    A doubly linked list keeps the workloads in the order of their last use, and a hash table finds a
    key's list node. A list node is modelled with an identity, an iterator is the identity of the
    node it points to, and everything that throws or would use an invalid iterator is an error. A
    read-only table, loaded from a file and searched by hash, answers before the list is asked. -/

namespace Vpunn

/-- What goes wrong: `remove` does not find its key, the check of the sizes fails, or an iterator
    points nowhere. -/
inductive CacheError where
  | outOfRange | inconsistent | danglingIterator
  deriving DecidableEq, Repr

/-- The preloaded table and the hash that its keys are. -/
structure FixedCacheAddON (K V : Type*) where
  hash : K → ℕ
  deserializedTable : ℕ → Option V

namespace FixedCacheAddON

variable {K V : Type*}

def contains (f : FixedCacheAddON K V) (wl : K) : Bool := (f.deserializedTable (f.hash wl)).isSome

def get (f : FixedCacheAddON K V) (wl : K) : Option V := f.deserializedTable (f.hash wl)

/-- No preloaded values. -/
def empty (hash : K → ℕ) : FixedCacheAddON K V := ⟨hash, fun _ => none⟩

end FixedCacheAddON

/-- An element of the list of workloads. -/
structure Node (K V : Type*) where
  id : ℕ
  key : K
  value : V
  deriving DecidableEq, Repr

/-- The list with the most recently used key first, the table from keys to iterators, and the
    identity that the next node gets. -/
structure LRUCache (K V : Type*) where
  maxSize : ℕ
  workloads : List (Node K V) := []
  mTable : List (K × ℕ) := []
  nextNode : ℕ := 0
  deriving DecidableEq, Repr

namespace LRUCache

variable {K V : Type*} [BEq K]

/-- `m_table.find` -/
def find (c : LRUCache K V) (wl : K) : Option (K × ℕ) := c.mTable.find? (·.1 == wl)

/-- The number of workloads matches the size of the table. -/
def checkConsistency (c : LRUCache K V) : Bool := c.workloads.length = c.mTable.length

/-- Moves the node that the iterator points to to the front. -/
def markAsMostRecentlyUsed (c : LRUCache K V) (it : ℕ) : Except CacheError (LRUCache K V) :=
  if c.workloads.any (·.id = it) then
    .ok { c with workloads := c.workloads.filter (·.id = it) ++ c.workloads.filter (·.id ≠ it) }
  else .error .danglingIterator

def remove (c : LRUCache K V) (wl : K) : Except CacheError (LRUCache K V) :=
  match c.find wl with
  | none => .error .outOfRange
  | some it =>
    let removed := { c with
      mTable := c.mTable.filter fun e => !(e.1 == it.1)
      workloads := c.workloads.dropLast }
    if removed.checkConsistency then .ok removed else .error .inconsistent

/-- Deletes the oldest workloads while there are too many; every turn takes one from the table. -/
def cleanUpExcessElements : ℕ → LRUCache K V → Except CacheError (LRUCache K V)
  | 0, c => .ok c
  | fuel + 1, c =>
    if c.maxSize < c.mTable.length then
      match c.workloads.getLast? with
      | none => .error .danglingIterator
      | some oldestItem => do
        let c ← c.remove oldestItem.key
        cleanUpExcessElements fuel c
    else .ok c

/-- Adds a workload. If the key exists its old value stays. -/
def add (c : LRUCache K V) (fixed : FixedCacheAddON K V) (wl : K) (value : V) :
    Except CacheError (LRUCache K V) :=
  if c.maxSize = 0 then .ok c
  else if fixed.contains wl then .ok c
  else do
    let c ← match c.find wl with
      | none =>
        cleanUpExcessElements (c.mTable.length + 1)
          { c with
            workloads := ⟨c.nextNode, wl, value⟩ :: c.workloads
            mTable := (wl, c.nextNode) :: c.mTable
            nextNode := c.nextNode + 1 }
      | some (_, it) => c.markAsMostRecentlyUsed it
    if c.checkConsistency then .ok c else .error .inconsistent

/-- The value of a key, if there is one; a key that is found becomes the most recently used. -/
def get (c : LRUCache K V) (fixed : FixedCacheAddON K V) (wl : K) :
    Except CacheError (Option V × LRUCache K V) :=
  match fixed.get wl with
  | some found => .ok (some found, c)
  | none =>
    match c.find wl with
    | none => .ok (none, c)
    | some (_, it) => do
      let c ← c.markAsMostRecentlyUsed it
      match c.workloads.find? (·.id = it) with
      | none => .error .danglingIterator
      | some node => .ok (some node.value, c)

end LRUCache

namespace LRUCache

variable {K V : Type*}

/-! ### List and table stay in step -/

/-- The entries in the order of their last use. -/
def entries (c : LRUCache K V) : List (K × V) := c.workloads.map fun n => (n.key, n.value)

/-- The list and the table are in bijection: each key once, each iterator at its own node. -/
structure Consistent (c : LRUCache K V) : Prop where
  table_perm : c.mTable.Perm (c.workloads.map fun n => (n.key, n.id))
  keys_nodup : (c.workloads.map Node.key).Nodup
  ids_nodup : (c.workloads.map Node.id).Nodup
  fresh : ∀ n ∈ c.workloads, n.id < c.nextNode

namespace Consistent

variable {c : LRUCache K V}

theorem length_eq (h : c.Consistent) : c.workloads.length = c.mTable.length := by
  rw [h.table_perm.length_eq, List.length_map]

theorem checkConsistency (h : c.Consistent) : c.checkConsistency = true :=
  decide_eq_true h.length_eq

theorem fst_mTable_perm (h : c.Consistent) :
    (c.mTable.map Prod.fst).Perm (c.workloads.map Node.key) := by
  simpa [List.map_map, Function.comp_def] using h.table_perm.map Prod.fst

theorem fst_entries (c : LRUCache K V) : c.entries.map Prod.fst = c.workloads.map Node.key := by
  simp [entries, Function.comp_def]

/-- A table entry points to the node with its key. -/
theorem exists_node (h : c.Consistent) {e : K × ℕ} (he : e ∈ c.mTable) :
    ∃ n ∈ c.workloads, n.key = e.1 ∧ n.id = e.2 := by
  obtain ⟨n, hn, rfl⟩ := List.mem_map.mp (h.table_perm.mem_iff.mp he)
  exact ⟨n, hn, rfl, rfl⟩

/-- Within the list, a node's identity and its key name the same node. -/
theorem id_eq_iff (h : c.Consistent) {n m : Node K V} (hn : n ∈ c.workloads)
    (hm : m ∈ c.workloads) : m.id = n.id ↔ m.key = n.key := by
  constructor
  · intro heq
    rw [List.inj_on_of_nodup_map h.ids_nodup hm hn heq]
  · intro heq
    rw [List.inj_on_of_nodup_map h.keys_nodup hm hn heq]

/-- A new key goes to the front of the list and into the table. -/
theorem push (h : c.Consistent) {wl : K} (hnew : wl ∉ c.entries.map Prod.fst) (value : V) :
    Consistent { c with
      workloads := ⟨c.nextNode, wl, value⟩ :: c.workloads
      mTable := (wl, c.nextNode) :: c.mTable
      nextNode := c.nextNode + 1 } := by
  rw [fst_entries] at hnew
  refine ⟨h.table_perm.cons _, List.nodup_cons.mpr ⟨hnew, h.keys_nodup⟩,
    List.nodup_cons.mpr ⟨fun hm => ?_, h.ids_nodup⟩, fun n hn => ?_⟩
  · obtain ⟨n, hn, heq⟩ := List.mem_map.mp hm
    exact Nat.ne_of_lt (h.fresh n hn) heq
  · rcases List.mem_cons.mp hn with rfl | hn
    · exact Nat.lt_succ_self _
    · exact Nat.lt_succ_of_lt (h.fresh n hn)

/-- The identity of a node finds it. -/
theorem find_node (h : c.Consistent) {n : Node K V} (hn : n ∈ c.workloads) :
    c.workloads.find? (·.id = n.id) = some n := by
  obtain ⟨m, hm⟩ : ∃ m, c.workloads.find? (·.id = n.id) = some m := by
    rw [← Option.ne_none_iff_exists', Ne, List.find?_eq_none]
    exact fun hnone => hnone n hn (by simp)
  have hid : m.id = n.id := by simpa using List.find?_some hm
  rw [hm, List.inj_on_of_nodup_map h.ids_nodup (List.mem_of_find?_eq_some hm) hn hid]

variable [DecidableEq K]

theorem find_eq_none_iff (h : c.Consistent) (wl : K) :
    c.find wl = none ↔ wl ∉ c.entries.map Prod.fst := by
  rw [fst_entries, ← h.fst_mTable_perm.mem_iff]
  simp only [find, List.find?_eq_none, beq_iff_eq, List.mem_map, not_exists, not_and]

theorem find_eq_some (h : c.Consistent) {wl : K} {e : K × ℕ} (he : c.find wl = some e) :
    ∃ n ∈ c.workloads, n.key = wl ∧ n.id = e.2 := by
  have hkey : e.1 = wl := by simpa using List.find?_some he
  obtain ⟨n, hn, hk, hid⟩ := h.exists_node (List.mem_of_find?_eq_some he)
  exact ⟨n, hn, hk.trans hkey, hid⟩

/-- Moving a node to the front moves its key to the front of the entries. -/
theorem markAsMostRecentlyUsed (h : c.Consistent) {n : Node K V} (hn : n ∈ c.workloads) :
    ∃ c', c.markAsMostRecentlyUsed n.id = .ok c' ∧ c'.Consistent ∧ c'.maxSize = c.maxSize ∧
      c'.workloads.Perm c.workloads ∧ c'.entries = Recency.touch n.key c.entries := by
  have hany : c.workloads.any (·.id = n.id) = true :=
    List.any_eq_true.mpr ⟨n, hn, by simp⟩
  have hperm : (c.workloads.filter (·.id = n.id) ++ c.workloads.filter (·.id ≠ n.id)).Perm
      c.workloads := by
    simpa using List.filter_append_perm (fun m => decide (m.id = n.id)) c.workloads
  refine ⟨{ c with workloads :=
    c.workloads.filter (·.id = n.id) ++ c.workloads.filter (·.id ≠ n.id) }, if_pos hany,
    ?_, rfl, hperm, ?_⟩
  · exact ⟨h.table_perm.trans (hperm.map _).symm, (hperm.map _).nodup_iff.mpr h.keys_nodup,
      (hperm.map _).nodup_iff.mpr h.ids_nodup, fun m hm => h.fresh m (hperm.mem_iff.mp hm)⟩
  · have hiff : ∀ m ∈ c.workloads, decide (m.id = n.id) = decide (m.key = n.key) :=
      fun m hm => decide_eq_decide.mpr (h.id_eq_iff hn hm)
    have hiff' : ∀ m ∈ c.workloads, decide (m.id ≠ n.id) = decide (m.key ≠ n.key) :=
      fun m hm => decide_eq_decide.mpr (not_congr (h.id_eq_iff hn hm))
    simp only [entries, Recency.touch, List.map_append, List.filter_congr hiff,
      List.filter_congr hiff', List.filter_map]
    rfl

/-- Removing the oldest key finds it in the table and takes the last node. -/
theorem remove_getLast (h : c.Consistent) {ws : List (Node K V)} {last : Node K V}
    (hws : c.workloads = ws ++ [last]) :
    ∃ c', c.remove last.key = .ok c' ∧ c'.Consistent ∧ c'.workloads = ws ∧
      c'.maxSize = c.maxSize := by
  have hmem : last ∈ c.workloads := by simp [hws]
  have hkeys := h.keys_nodup
  have hids := h.ids_nodup
  rw [hws, List.map_append, List.nodup_append] at hkeys hids
  obtain ⟨e, he⟩ : ∃ e, c.find last.key = some e := by
    rw [← Option.ne_none_iff_exists', Ne, h.find_eq_none_iff, not_not, fst_entries]
    exact List.mem_map_of_mem hmem
  have hekey : e.1 = last.key := by simpa using List.find?_some he
  -- without its key, the table has the nodes before the last one
  have hperm : (c.mTable.filter fun x => !(x.1 == e.1)).Perm
      (ws.map fun n => (n.key, n.id)) := by
    have hfilter := h.table_perm.filter fun x => !(x.1 == e.1)
    rw [hws, List.map_append, List.filter_append] at hfilter
    have hws' : (ws.map fun n => (n.key, n.id)).filter (fun x => !(x.1 == e.1))
        = ws.map fun n => (n.key, n.id) := by
      refine List.filter_eq_self.mpr fun x hx => ?_
      obtain ⟨n, hn, rfl⟩ := List.mem_map.mp hx
      have := hkeys.2.2 n.key (List.mem_map_of_mem hn) last.key (by simp)
      simpa [hekey] using this
    rw [hws'] at hfilter
    simpa [hekey] using hfilter
  have hcons : Consistent { c with
      mTable := c.mTable.filter fun x => !(x.1 == e.1)
      workloads := c.workloads.dropLast } := by
    simp only [hws, List.dropLast_concat]
    exact ⟨hperm, hkeys.1, hids.1, fun n hn => h.fresh n (by rw [hws]; exact List.mem_append_left _ hn)⟩
  refine ⟨_, ?_, hcons, by simp [hws], rfl⟩
  rw [remove, he]
  exact if_pos hcons.checkConsistency

/-- Too many workloads by one: the clean-up removes the oldest and stops. -/
theorem cleanUpExcessElements (h : c.Consistent) (hsize : c.workloads.length ≤ c.maxSize + 1)
    (fuel : ℕ) : ∃ c', LRUCache.cleanUpExcessElements (fuel + 1) c = .ok c' ∧ c'.Consistent ∧
      c'.workloads = c.workloads.take c.maxSize ∧ c'.maxSize = c.maxSize := by
  by_cases hexcess : c.maxSize < c.mTable.length
  · have hlen : c.workloads.length = c.maxSize + 1 := by rw [← h.length_eq] at hexcess; omega
    obtain ⟨ws, last, hws⟩ : ∃ ws last, c.workloads = ws ++ [last] := by
      rcases List.eq_nil_or_concat c.workloads with hnil | ⟨ws, last, hconcat⟩
      · simp [hnil] at hlen
      · exact ⟨ws, last, by rw [hconcat, List.concat_eq_append]⟩
    obtain ⟨c', hrem, hc', hws', hmax⟩ := h.remove_getLast hws
    have hwslen : ws.length = c.maxSize := by simp [hws] at hlen; exact hlen
    refine ⟨c', ?_, hc', by rw [hws', hws, ← hwslen, List.take_left], hmax⟩
    have hstop : LRUCache.cleanUpExcessElements fuel c' = .ok c' := by
      cases fuel with
      | zero => rfl
      | succ fuel =>
        rw [LRUCache.cleanUpExcessElements, if_neg]
        rw [← hc'.length_eq, hws', hmax]; omega
    rw [LRUCache.cleanUpExcessElements, if_pos hexcess, hws, List.getLast?_concat]
    simp only [hrem]
    exact hstop
  · refine ⟨c, by rw [LRUCache.cleanUpExcessElements, if_neg hexcess], h, ?_, rfl⟩
    rw [List.take_of_length_le (by rw [h.length_eq]; omega)]

end Consistent

/-! ### Every operation keeps them in step -/

/-- A cache between two operations. -/
structure Valid (c : LRUCache K V) : Prop where
  consistent : c.Consistent
  size_le : c.workloads.length ≤ c.maxSize

variable {c : LRUCache K V} (fixed : FixedCacheAddON K V)

variable [DecidableEq K]

/-- `add` throws nothing and does to the entries what it does to a store. -/
theorem add_valid (h : c.Valid) (wl : K) (value : V) :
    ∃ c', c.add fixed wl value = .ok c' ∧ c'.Valid ∧ c'.maxSize = c.maxSize ∧
      c'.entries = Recency.step c.maxSize fixed.contains (.add wl value) c.entries := by
  obtain ⟨hc, hsize⟩ := h
  by_cases hzero : c.maxSize = 0
  · have hnil : c.workloads = [] := List.length_eq_zero_iff.mp (by omega)
    refine ⟨c, if_pos hzero, ⟨hc, hsize⟩, rfl, ?_⟩
    simp [entries, hnil, hzero, Recency.step, Recency.insert]
  by_cases hfixed : fixed.contains wl = true
  · refine ⟨c, by rw [add, if_neg hzero, if_pos hfixed], ⟨hc, hsize⟩, rfl, ?_⟩
    simp [Recency.step, hfixed]
  simp only [add, if_neg hzero, if_neg hfixed, Recency.step, Recency.insert]
  cases hfind : c.find wl with
  | none =>
    have hnew := (hc.find_eq_none_iff wl).mp hfind
    obtain ⟨c', hclean, hc', hws, hmax⟩ := (hc.push hnew value).cleanUpExcessElements
      (by simpa using hsize) c.mTable.length
    refine ⟨c', ?_, ⟨hc', ?_⟩, hmax, ?_⟩
    · simp only [hclean]
      exact if_pos hc'.checkConsistency
    · rw [hws, hmax, List.length_take]; exact Nat.min_le_left _ _
    · rw [if_neg hnew, entries, hws, List.map_take]; rfl
  | some e =>
    obtain ⟨n, hn, rfl, hid⟩ := hc.find_eq_some hfind
    obtain ⟨c', hmark, hc', hmax, hperm, hentries⟩ := hc.markAsMostRecentlyUsed hn
    have hheld : n.key ∈ c.entries.map Prod.fst := by
      rw [Consistent.fst_entries]; exact List.mem_map_of_mem hn
    refine ⟨c', ?_, ⟨hc', by rw [hperm.length_eq, hmax]; exact hsize⟩, hmax, ?_⟩
    · simp only [← hid, hmark]
      exact if_pos hc'.checkConsistency
    · rw [if_pos hheld, hentries]

/-- `get` throws nothing, returns the preloaded value or the one of the entry, and makes the key the
    most recently used. -/
theorem get_valid (h : c.Valid) (wl : K) :
    ∃ c', c.get fixed wl = .ok ((fixed.get wl).or (Recency.lookup wl c.entries), c') ∧ c'.Valid ∧
      c'.maxSize = c.maxSize ∧
      c'.entries = Recency.step c.maxSize fixed.contains (.get wl) c.entries := by
  obtain ⟨hc, hsize⟩ := h
  have hcontains : fixed.contains wl = (fixed.get wl).isSome := rfl
  rcases hfixed : fixed.get wl with _ | found
  · simp only [get, hfixed, hcontains, Recency.step, Option.isSome_none, Bool.false_eq_true, if_false,
      Option.none_or]
    cases hfind : c.find wl with
    | none =>
      have hnew := (hc.find_eq_none_iff wl).mp hfind
      refine ⟨c, ?_, ⟨hc, hsize⟩, rfl, ?_⟩
      · rw [Recency.lookup_eq_none_iff.mpr hnew]
      · rw [Recency.touch_of_not_mem hnew]
    | some e =>
      obtain ⟨n, hn, rfl, hid⟩ := hc.find_eq_some hfind
      obtain ⟨c', hmark, hc', hmax, hperm, hentries⟩ := hc.markAsMostRecentlyUsed hn
      have hlookup : Recency.lookup n.key c.entries = some n.value := by
        rw [Recency.lookup_eq_some_iff (by rw [Consistent.fst_entries]; exact hc.keys_nodup)]
        exact List.mem_map_of_mem (f := fun n : Node K V => (n.key, n.value)) hn
      refine ⟨c', ?_, ⟨hc', by rw [hperm.length_eq, hmax]; exact hsize⟩, hmax, hentries⟩
      simp only [← hid, hmark, hlookup]
      show (match c'.workloads.find? (·.id = n.id) with
        | none => Except.error CacheError.danglingIterator
        | some node => Except.ok (some node.value, c')) = _
      rw [hc'.find_node (hperm.mem_iff.mpr hn)]
  · refine ⟨c, by rw [get, hfixed]; rfl, ⟨hc, hsize⟩, rfl, ?_⟩
    simp [Recency.step, hcontains, hfixed]

/-! ### Runs -/

/-- One call on the cache; what `get` returns is dropped. -/
def exec (c : LRUCache K V) : Recency.Op K V → Except CacheError (LRUCache K V)
  | .add k v => c.add fixed k v
  | .get k => (c.get fixed k).map Prod.snd

/-- The cache after a sequence of calls on a new one of the given size. -/
def run (maxSize : ℕ) (ops : List (Recency.Op K V)) : Except CacheError (LRUCache K V) :=
  ops.foldlM (exec fixed) { maxSize := maxSize }

theorem exec_valid (h : c.Valid) (op : Recency.Op K V) :
    ∃ c', c.exec fixed op = .ok c' ∧ c'.Valid ∧ c'.maxSize = c.maxSize ∧
      c'.entries = Recency.step c.maxSize fixed.contains op c.entries := by
  cases op with
  | add k v => exact add_valid fixed h k v
  | get k =>
    obtain ⟨c', hget, hrest⟩ := get_valid fixed h k
    exact ⟨c', by rw [exec, hget]; rfl, hrest⟩

/-- Every run ends with list and table in step and with the content of its history. -/
theorem run_valid (maxSize : ℕ) (ops : List (Recency.Op K V)) :
    ∃ c, run fixed maxSize ops = .ok c ∧ c.Valid ∧ c.maxSize = maxSize ∧
      Recency.Content maxSize fixed.contains ops.reverse c.entries := by
  induction ops using List.reverseRecOn with
  | nil =>
    refine ⟨{ maxSize := maxSize }, rfl, ⟨⟨.refl _, ?_, ?_, ?_⟩, Nat.zero_le _⟩, rfl, .nil⟩ <;>
      simp
  | append_singleton ops op ih =>
    obtain ⟨c, hrun, hvalid, hmax, hcontent⟩ := ih
    obtain ⟨c', hexec, hvalid', hmax', hentries⟩ := exec_valid fixed hvalid op
    refine ⟨c', ?_, hvalid', hmax'.trans hmax, ?_⟩
    · rw [run] at hrun ⊢
      rw [List.foldlM_append, hrun]
      show ((exec fixed c op).bind fun c => List.foldlM (exec fixed) c []) = .ok c'
      rw [hexec]; rfl
    · rw [List.reverse_concat, hentries, hmax]
      exact hcontent.step op

/-- Every run of calls on a new cache ends without an error, with list and table in bijection and
    the table no larger than asked for. It holds the most recently used keys that are not preloaded,
    each with the value of the `add` that brought it in, and `get` returns the preloaded value, that
    value, or none. -/
theorem run_lru (maxSize : ℕ) (ops : List (Recency.Op K V)) :
    ∃ c, run fixed maxSize ops = .ok c ∧
      c.mTable.Perm (c.workloads.map fun n => (n.key, n.id)) ∧
      (c.mTable.map Prod.fst).Nodup ∧
      (∀ e ∈ c.mTable, ∃ n, c.workloads.find? (·.id = e.2) = some n ∧ n.key = e.1) ∧
      c.mTable.length ≤ maxSize ∧
      c.entries.map Prod.fst
        = Recency.recent maxSize (Recency.uses maxSize fixed.contains ops.reverse) ∧
      (∀ p ∈ c.entries,
        Recency.insertedBy maxSize fixed.contains ops.reverse p.1 = some p.2) ∧
      ∀ k, (c.get fixed k).map Prod.fst = .ok ((fixed.get k).or
        (if k ∈ Recency.recent maxSize (Recency.uses maxSize fixed.contains ops.reverse) then
          Recency.insertedBy maxSize fixed.contains ops.reverse k
        else none)) := by
  obtain ⟨c, hrun, hvalid, hmax, hcontent⟩ := run_valid fixed maxSize ops
  obtain ⟨hc, hsize⟩ := hvalid
  refine ⟨c, hrun, hc.table_perm, hc.fst_mTable_perm.nodup_iff.mpr hc.keys_nodup, ?_,
    by rw [← hc.length_eq, ← hmax]; exact hsize, hcontent.keys, hcontent.values, ?_⟩
  · intro e he
    obtain ⟨n, hn, hkey, hid⟩ := hc.exists_node he
    exact ⟨n, by rw [← hid, hc.find_node hn], hkey⟩
  · intro k
    obtain ⟨c', hget, -⟩ := get_valid fixed ⟨hc, hsize⟩ k
    rw [hget, hcontent.lookup_eq k]
    rfl

/-- A preloaded key is not in the list and was never added, but `get` returns its value. -/
theorem get_preloaded :
    let fixed : FixedCacheAddON ℕ ℕ := ⟨id, fun h => if h = 7 then some 1 else none⟩
    ∃ c, run fixed 2 [] = .ok c ∧ 7 ∉ c.entries.map Prod.fst ∧
      (c.get fixed 7).map Prod.fst = .ok (some 1) :=
  ⟨{ maxSize := 2 }, rfl, by decide, rfl⟩

end LRUCache

end Vpunn
