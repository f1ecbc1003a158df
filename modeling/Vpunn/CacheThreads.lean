import Vpunn.Cache
import Vpunn.Lib.Threads

/-! The workload cache under calls from several threads (`LRUCache` in `cache.h`).

    `add` holds the exclusive lock for all that it does. `get` looks a key up under the shared lock
    first; if it is there, `get` takes the exclusive lock and looks it up once more, since another
    thread may have removed the key in between. Each stretch under a lock is one section. -/

namespace Vpunn
namespace LRUCache
open Recency Threads

variable {K V : Type*} [BEq K] (fixed : FixedCacheAddON K V)

/-- Where a call is: before its first section, or waiting for the lock of the next one. -/
inductive CallState (K V : Type*) where
  | getFixed (wl : K)
  | getShared (wl : K)
  | getExclusive (wl : K)
  | addCheck (wl : K) (value : V)
  | addExclusive (wl : K) (value : V)

/-- What a call returns; `add` returns nothing. -/
abbrev CallResult (V : Type*) := Except CacheError (Option V)

/-- The read-only table and the size need no lock. -/
def sections : Sections (Op K V) (CallState K V) (LRUCache K V) (CallResult V) where
  start
    | .get wl => .getFixed wl
    | .add wl value => .addCheck wl value
  advance
    | .getFixed wl, c =>
      match fixed.get wl with
      | some found => (.inr (.ok (some found)), c)
      | none => (.inl (.getShared wl), c)
    | .getShared wl, c =>
      match c.find wl with
      | none => (.inr (.ok none), c)
      | some _ => (.inl (.getExclusive wl), c)
    | .getExclusive wl, c =>
      match c.find wl with
      | none => (.inr (.ok none), c)
      | some (_, it) =>
        match c.markAsMostRecentlyUsed it with
        | .error e => (.inr (.error e), c)
        | .ok c' =>
          match c'.workloads.find? (·.id = it) with
          | none => (.inr (.error .danglingIterator), c)
          | some node => (.inr (.ok (some node.value)), c')
    | .addCheck wl value, c =>
      if c.maxSize = 0 then (.inr (.ok none), c) else (.inl (.addExclusive wl value), c)
    | .addExclusive wl value, c =>
      match c.add fixed wl value with
      | .error e => (.inr (.error e), c)
      | .ok c' => (.inr (.ok none), c')

/-- A call as a whole. -/
def call : Op K V → LRUCache K V → CallResult V × LRUCache K V
  | .get wl, c =>
    match c.get fixed wl with
    | .error e => (.error e, c)
    | .ok (found, c') => (.ok found, c')
  | .add wl value, c =>
    match c.add fixed wl value with
    | .error e => (.error e, c)
    | .ok c' => (.ok none, c')

/-- A call that has come further than the read-only table found nothing there. -/
def CallState.Follows : Op K V → CallState K V → Prop
  | .get wl, .getFixed wl' => wl' = wl
  | .get wl, .getShared wl' => wl' = wl ∧ fixed.get wl = none
  | .get wl, .getExclusive wl' => wl' = wl ∧ fixed.get wl = none
  | .add wl value, .addCheck wl' value' => wl' = wl ∧ value' = value
  | .add wl value, .addExclusive wl' value' => wl' = wl ∧ value' = value
  | _, _ => False

/-- The sections that are left of a call, but for one. -/
def CallState.rank : CallState K V → ℕ
  | .getFixed _ => 2
  | .getShared _ => 1
  | .getExclusive _ => 0
  | .addCheck _ _ => 1
  | .addExclusive _ _ => 0

/-! ### What the last section does -/

variable {fixed} {c : LRUCache K V} {wl : K}

theorem call_get_of_fixed {found : V} (h : fixed.get wl = some found) :
    call fixed (.get wl) c = (.ok (some found), c) := by
  simp only [call, get, h]

theorem call_get_of_find {c : LRUCache K V} (hfixed : fixed.get wl = none) (h : c.find wl = none) :
    call fixed (.get wl) c = (.ok none, c) := by
  simp only [call, get, hfixed, h]

theorem advance_getExclusive (hfixed : fixed.get wl = none) (c : LRUCache K V) :
    (sections fixed).advance (.getExclusive wl) c
      = (.inr (call fixed (.get wl) c).1, (call fixed (.get wl) c).2) := by
  simp only [sections, call, get, hfixed]
  rcases c.find wl with _ | ⟨_, it⟩
  · rfl
  · rcases hmark : c.markAsMostRecentlyUsed it with e | c'
    · simp only [hmark]
      rfl
    · simp only [hmark, bind, Except.bind]
      cases c'.workloads.find? (·.id = it) <;> simp only

theorem call_add_of_maxSize {value : V} (h : c.maxSize = 0) :
    call fixed (.add wl value) c = (.ok none, c) := by
  simp only [call, add, h, if_true]

theorem advance_addExclusive (wl : K) (value : V) (c : LRUCache K V) :
    (sections fixed).advance (.addExclusive wl value) c
      = (.inr (call fixed (.add wl value) c).1, (call fixed (.add wl value) c).2) := by
  simp only [sections, call]
  cases c.add fixed wl value <;> rfl

variable (fixed)

/-- No call has more than three sections. -/
theorem sections_bounded : (sections fixed).Bounded CallState.rank 2 where
  start op := by cases op <;> simp [sections, CallState.rank]
  goOn {f c f' c'} h := by
    cases f with
    | getFixed wl =>
      simp only [sections] at h
      cases hfixed : fixed.get wl <;> rw [hfixed] at h <;> cases h
      exact Nat.lt_succ_self _
    | getShared wl =>
      simp only [sections] at h
      cases hfind : c.find wl <;> rw [hfind] at h <;> cases h
      exact Nat.lt_succ_self _
    | getExclusive wl =>
      simp only [sections] at h
      split at h
      · cases h
      · split at h
        · cases h
        · split at h <;> cases h
    | addCheck wl value =>
      simp only [sections] at h
      split at h <;> cases h
      exact Nat.lt_succ_self _
    | addExclusive wl value =>
      rw [advance_addExclusive] at h
      cases h

end LRUCache

namespace LRUCache
open Recency Threads

variable {K V T : Type*} [DecidableEq K] [DecidableEq T] (fixed : FixedCacheAddON K V)

/-- The last section of a call does the whole call, and the others change nothing. -/
theorem sections_atomic :
    (sections fixed).Atomic (call fixed) LRUCache.Valid (CallState.Follows fixed) where
  start op := by cases op <;> simp [sections, CallState.Follows]
  goOn {op f c f' c'} _ hf h := by
    cases op with
    | get wl =>
      cases f with
      | getFixed wl =>
        obtain rfl := hf
        simp only [sections] at h
        cases hfixed : fixed.get wl <;> rw [hfixed] at h <;> cases h
        exact ⟨rfl, rfl, hfixed⟩
      | getShared wl =>
        obtain ⟨rfl, hfixed⟩ := hf
        simp only [sections] at h
        cases hfind : c.find wl <;> rw [hfind] at h <;> cases h
        exact ⟨rfl, rfl, hfixed⟩
      | getExclusive wl =>
        obtain ⟨rfl, hfixed⟩ := hf
        rw [advance_getExclusive hfixed] at h
        cases h
      | addCheck => exact hf.elim
      | addExclusive => exact hf.elim
    | add wl value =>
      cases f with
      | addCheck =>
        simp only [sections] at h
        split at h <;> cases h
        exact ⟨rfl, hf⟩
      | addExclusive =>
        rw [advance_addExclusive] at h
        cases h
      | getFixed => exact hf.elim
      | getShared => exact hf.elim
      | getExclusive => exact hf.elim
  finish {op f c r c'} _ hf h := by
    cases op with
    | get wl =>
      cases f with
      | getFixed wl =>
        obtain rfl := hf
        simp only [sections] at h
        cases hfixed : fixed.get wl <;> rw [hfixed] at h <;> cases h
        exact call_get_of_fixed hfixed
      | getShared wl =>
        obtain ⟨rfl, hfixed⟩ := hf
        simp only [sections] at h
        cases hfind : c.find wl <;> rw [hfind] at h <;> cases h
        exact call_get_of_find hfixed hfind
      | getExclusive wl =>
        obtain ⟨rfl, hfixed⟩ := hf
        rw [advance_getExclusive hfixed] at h
        cases h
        rfl
      | addCheck => exact hf.elim
      | addExclusive => exact hf.elim
    | add wl value =>
      cases f with
      | addCheck =>
        obtain ⟨rfl, rfl⟩ := hf
        simp only [sections] at h
        split at h
        · next hsize =>
          cases h
          exact call_add_of_maxSize hsize
        · cases h
      | addExclusive =>
        obtain ⟨rfl, rfl⟩ := hf
        rw [advance_addExclusive] at h
        cases h
        rfl
      | getFixed => exact hf.elim
      | getShared => exact hf.elim
      | getExclusive => exact hf.elim
  inv {c} op hc := by
    cases op with
    | get wl =>
      obtain ⟨c', hget, hvalid, -⟩ := get_valid fixed hc wl
      simp only [call, hget]
      exact hvalid
    | add wl value =>
      obtain ⟨c', hadd, hvalid, -⟩ := add_valid fixed hc wl value
      simp only [call, hadd]
      exact hvalid

/-! ### What the threads see -/

/-- What a call returns after a history, the latest call first: the preloaded value, or the value of
    the `add` that brought the key in if the key is held. -/
def answer (maxSize : ℕ) (past : List (Op K V)) : Op K V → Option V
  | .add _ _ => none
  | .get wl => (fixed.get wl).or
      (if wl ∈ recent maxSize (uses maxSize fixed.contains past) then
        insertedBy maxSize fixed.contains past wl
      else none)

/-- What the calls of a list return, one after the other. -/
def answers (maxSize : ℕ) : List (Op K V) → List (Op K V) → List (Option V)
  | _, [] => []
  | past, op :: ops => answer fixed maxSize past op :: answers maxSize (op :: past) ops

/-- A cache of a given size after a history. -/
structure After (maxSize : ℕ) (past : List (Op K V)) (c : LRUCache K V) : Prop where
  valid : c.Valid
  maxSize_eq : c.maxSize = maxSize
  content : Content maxSize fixed.contains past c.entries

variable {fixed} {maxSize : ℕ} {past : List (Op K V)} {c : LRUCache K V}

/-- One call returns what the history says, and adds itself to it. -/
theorem After.call (h : After fixed maxSize past c) (op : Op K V) :
    (LRUCache.call fixed op c).1 = .ok (answer fixed maxSize past op)
      ∧ After fixed maxSize (op :: past) (LRUCache.call fixed op c).2 := by
  obtain ⟨hvalid, rfl, hcontent⟩ := h
  cases op with
  | get wl =>
    obtain ⟨c', hget, hvalid', hsize, hentries⟩ := get_valid fixed hvalid wl
    simp only [LRUCache.call, hget]
    refine ⟨?_, hvalid', hsize, ?_⟩
    · rw [hcontent.lookup_eq, answer]
    · rw [hentries]
      exact hcontent.step (.get wl)
  | add wl value =>
    obtain ⟨c', hadd, hvalid', hsize, hentries⟩ := add_valid fixed hvalid wl value
    simp only [LRUCache.call, hadd]
    refine ⟨rfl, hvalid', hsize, ?_⟩
    rw [hentries]
    exact hcontent.step (.add wl value)

theorem After.run (h : After fixed maxSize past c) (ops : List (Op K V)) :
    (Runs.run (LRUCache.call fixed) ops c).1 = (answers fixed maxSize past ops).map .ok
      ∧ After fixed maxSize (ops.reverse ++ past) (Runs.run (LRUCache.call fixed) ops c).2 := by
  induction ops generalizing past c with
  | nil => exact ⟨rfl, h⟩
  | cons op ops ih =>
    obtain ⟨hresult, hafter⟩ := h.call op
    obtain ⟨hresults, hafter'⟩ := ih hafter
    rw [Runs.run_cons, answers, List.map_cons, hresult, hresults, List.reverse_cons,
      List.append_assoc]
    exact ⟨rfl, hafter'⟩

theorem after_new (maxSize : ℕ) : After fixed maxSize [] ({ maxSize := maxSize } : LRUCache K V) where
  valid := ⟨⟨.refl _, by simp, by simp, by simp⟩, Nat.zero_le _⟩
  maxSize_eq := rfl
  content := .nil

variable (fixed) in
/-- Any number of threads may call one cache, their sections in any order. Nothing is thrown, list
    and table stay in bijection, and the calls return what a least-recently-used store of that size
    returns to them in the order in which they complete, which for each thread is that of its program.
    A thread that gets four turns for each of its calls completes them all, whatever the others do. -/
theorem threads_lru (maxSize : ℕ) (programs : T → List (Op K V)) (schedule : List T) :
    let g := Threads.exec (sections fixed) schedule (.init { maxSize := maxSize } programs)
    let completed := g.log.map fun e => e.2.1
    g.shared.Valid ∧ Content maxSize fixed.contains completed.reverse g.shared.entries
      ∧ (g.log.map fun e => e.2.2) = (answers fixed maxSize [] completed).map .ok
      ∧ (∀ t, g.returned t ++ (g.threads t).pending = programs t)
      ∧ ∀ t, 4 * (programs t).length ≤ schedule.count t → g.returned t = programs t := by
  intro g completed
  have hnew : After fixed maxSize [] ({ maxSize := maxSize } : LRUCache K V) := after_new maxSize
  have hlinearized : Linearized (LRUCache.call fixed) LRUCache.Valid (CallState.Follows fixed)
      { maxSize := maxSize } programs g := linearized_exec (sections_atomic fixed) hnew.valid schedule
  obtain ⟨hrun, horder, -, -⟩ := hlinearized
  obtain ⟨hresults, hafter⟩ := hnew.run completed
  have hshared : (Runs.run (LRUCache.call fixed) completed { maxSize := maxSize }).2 = g.shared :=
    congrArg Prod.snd hrun
  rw [hshared, List.append_nil] at hafter
  refine ⟨hafter.valid, hafter.content, ?_, horder, fun t ht => ?_⟩
  · rw [← hresults]
    exact (congrArg Prod.fst hrun).symm
  · have hpending : (g.threads t).pending = [] := pending_exec (sections_bounded fixed) ht
    rw [← horder t, hpending, List.append_nil]

end LRUCache

end Vpunn
