import Mathlib.Data.List.TakeWhile

/-! Text read piece by piece up to a delimiter, as `std::getline` in a loop reads it. What writes a
    delimiter after each piece is read back piece by piece. A last piece without its delimiter is
    read too unless it is empty. A reader is one step of such a loop on any state: it takes a
    piece off the state as long as there is one. -/

namespace Lines

variable {α : Type*} [DecidableEq α] {d : α}

/-- The text up to the next delimiter and what follows the delimiter. It fails on no text. -/
def getline (d : α) : List α → Option (List α × List α)
  | [] => none
  | s => some (s.takeWhile (· ≠ d), (s.dropWhile (· ≠ d)).tail)

theorem length_of_getline {s line rest : List α} (h : getline d s = some (line, rest)) :
    rest.length < s.length := by
  cases s with
  | nil => cases h
  | cons c s =>
    cases h
    have := (List.dropWhile_suffix (l := c :: s) (· ≠ d)).length_le
    rw [List.length_tail, List.length_cons] at *
    omega

/-- `while (getline(in, line, d))` -/
def getlines (d : α) (s : List α) : List (List α) :=
  match h : getline d s with
  | none => []
  | some (line, rest) =>
    have := length_of_getline h
    line :: getlines d rest
termination_by s.length

theorem getlines_of_getline_none {s : List α} (h : getline d s = none) : getlines d s = [] := by
  rw [getlines]
  split
  · rfl
  · simp_all

theorem getlines_of_getline_some {s line rest : List α} (h : getline d s = some (line, rest)) :
    getlines d s = line :: getlines d rest := by
  rw [getlines]
  split
  · simp_all
  · next heq =>
    rw [h] at heq
    cases heq
    rfl

@[simp] theorem getlines_nil : getlines d [] = [] := getlines_of_getline_none rfl

theorem getline_append {line : List α} (h : d ∉ line) (rest : List α) :
    getline d (line ++ d :: rest) = some (line, rest) := by
  have hne : ∀ c ∈ line, decide (c ≠ d) = true := fun c hc =>
    decide_eq_true fun heq => h (heq ▸ hc)
  have hsome : getline d (line ++ d :: rest) = some ((line ++ d :: rest).takeWhile (· ≠ d),
      ((line ++ d :: rest).dropWhile (· ≠ d)).tail) := by
    cases line <;> rfl
  rw [hsome, List.takeWhile_append_of_pos hne, List.dropWhile_append_of_pos hne]
  simp

theorem getline_of_notMem {line : List α} (h : d ∉ line) (hne : line ≠ []) :
    getline d line = some (line, []) := by
  have hpos : ∀ c ∈ line, decide (c ≠ d) = true := fun c hc =>
    decide_eq_true fun heq => h (heq ▸ hc)
  have hsome : getline d line = some (line.takeWhile (· ≠ d), (line.dropWhile (· ≠ d)).tail) := by
    cases line
    · exact absurd rfl hne
    · rfl
  rw [hsome, List.takeWhile_eq_self_iff.mpr hpos, List.dropWhile_eq_nil_iff.mpr hpos]
  rfl

theorem getline_eq_none_iff {s : List α} : getline d s = none ↔ s = [] := by
  cases s <;> simp [getline]

/-- Without a delimiter nothing is left behind the piece. -/
theorem rest_eq_nil_of_notMem {s line rest : List α} (h : d ∉ s)
    (hline : getline d s = some (line, rest)) : rest = [] := by
  have hne : s ≠ [] := fun hnil => by
    rw [getline_eq_none_iff.mpr hnil] at hline
    cases hline
  rw [getline_of_notMem h hne] at hline
  cases hline
  rfl

/-- Pieces each followed by the delimiter are read back. -/
theorem getlines_terminated {lines : List (List α)} (h : ∀ line ∈ lines, d ∉ line)
    (rest : List α) :
    getlines d (lines.flatMap (· ++ [d]) ++ rest) = lines ++ getlines d rest := by
  induction lines with
  | nil => rfl
  | cons line lines ih =>
    rw [List.flatMap_cons, List.append_assoc, List.append_assoc, List.singleton_append,
      getlines_of_getline_some (getline_append (h line List.mem_cons_self) _),
      ih fun l hl => h l (List.mem_cons_of_mem _ hl), List.cons_append]

/-- A last piece is read unless it is empty. -/
theorem getlines_of_notMem {line : List α} (h : d ∉ line) :
    getlines d line = if line = [] then [] else [line] := by
  split
  · next hnil => rw [hnil, getlines_nil]
  · next hne => rw [getlines_of_getline_some (getline_of_notMem h hne), getlines_nil]

/-- One step of `while (read(x))`. -/
structure Reader (σ α : Type*) where
  read : σ → Option α × σ
  size : σ → ℕ
  size_lt : ∀ {s a s'}, read s = (some a, s') → size s' < size s

namespace Reader

variable {σ α β : Type*}

/-- All that the loop reads. -/
def all (r : Reader σ α) (s : σ) : List α :=
  match h : r.read s with
  | (none, _) => []
  | (some a, s') =>
    have := r.size_lt h
    a :: r.all s'
termination_by r.size s

theorem all_of_none {r : Reader σ α} {s : σ} (h : (r.read s).1 = none) : r.all s = [] := by
  rw [all]
  split
  · rfl
  · simp_all

theorem all_of_some {r : Reader σ α} {s s' : σ} {a : α} (h : r.read s = (some a, s')) :
    r.all s = a :: r.all s' := by
  rw [all]
  split
  · simp_all
  · next heq =>
    rw [h] at heq
    cases heq
    rfl

/-- The reader that decodes each piece. -/
def map (f : α → β) (r : Reader σ α) : Reader σ β where
  read s := ((r.read s).1.map f, (r.read s).2)
  size := r.size
  size_lt := by
    intro s b s' h
    obtain ⟨a, ha, -⟩ := Option.map_eq_some_iff.mp (Prod.mk.inj h).1
    exact r.size_lt (Prod.ext ha (Prod.mk.inj h).2)

theorem all_map (f : α → β) (r : Reader σ α) (s : σ) : (r.map f).all s = (r.all s).map f := by
  fun_induction all r s with
  | case1 s s' h => exact all_of_none (by simp [map, h])
  | case2 s a s' h _ ih =>
    have hread : (r.map f).read s = (some (f a), s') := by simp [map, h]
    rw [all_of_some hread, ih, List.map_cons]

end Reader

end Lines
