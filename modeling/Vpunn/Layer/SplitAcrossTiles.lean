import Vpunn.Layer.Channels
import Vpunn.Layer.Halo
import Vpunn.Layer.Sanitize

/-! The choice of a split (`DPULayer::splitAcrossTiles`, `vpu_tiling_strategy.h`).

    Some strategies are valid for a device and have no split yet. Whatever the strategy, a tile
    agrees with its layer on all that the sanitization looks at. -/

namespace Vpunn

inductive VPUTilingStrategy where
  | none | sohOverlapped | sok | sow | sohw | sohk | sohHaloRead | sohoKSwitch | sohKSwitch
  | sokNoBroadcast | unknown | sokHSwitch | sokWSwitch | __size
  deriving DecidableEq, Repr

namespace DPUWorkload

def clustering (layer : DPULayer) (nTiles : ℕ) : List DPULayer :=
  (List.replicate nTiles layer).map fun tile =>
    { tile with isiStrategy := .clustering, outputWriteTiles := layer.outputWriteTiles }

def sok (layer : DPULayer) (nTiles : ℕ) : List DPULayer := layer.sokVariants nTiles true 16

def sokNoBroadcast (layer : DPULayer) (nTiles : ℕ) : List DPULayer :=
  layer.sokVariants nTiles false 16

/-- The tiles of a layer. A strategy without a split gives none, and a value that is no strategy has
    no text for the log and throws. -/
def splitAcrossTiles (layer : DPULayer) (strategy : VPUTilingStrategy) (nTiles : ℕ) :
    Except String (List DPULayer) :=
  match strategy with
  | .none => .ok (layer.clustering nTiles)
  | .sohOverlapped => .ok (layer.sohOverlappedInputs nTiles false)
  | .sohoKSwitch => .ok (layer.sohOverlappedInputs nTiles true)
  | .sok => .ok (layer.sok nTiles)
  | .sokNoBroadcast => .ok (layer.sokNoBroadcast nTiles)
  | .sohHaloRead => .ok (layer.sohHaloInputs nTiles)
  | .sow => .ok (layer.sowOverlappedInputs nTiles false)
  | .sokHSwitch | .sokWSwitch | .sohw | .sohk | .sohKSwitch | .unknown => .ok []
  | .__size => .error "map::at"

/-- The split that the workloads of a strategy are presumed to have when a layer is checked. -/
def mapTilingStrategiesToWorkload : VPUTilingStrategy → ISIStrategy
  | .sohHaloRead => .splitOverH
  | .sok | .sokNoBroadcast => .splitOverK
  | _ => .clustering

/-! ### What a tile keeps -/

variable {layer tile : DPULayer}

theorem SanitizesAlike.removeEmptyTiles {tiles : List DPULayer}
    (h : ∀ t ∈ tiles, SanitizesAlike t layer) : ∀ t ∈ removeEmptyTiles tiles, SanitizesAlike t layer :=
  fun t ht => h t (List.mem_of_mem_filter ht)

theorem SanitizesAlike.limitOutputWriteTiles {tiles : List DPULayer} (forceBroadcast : Bool)
    (nTiles : ℕ) (h : ∀ t ∈ tiles, SanitizesAlike t layer) :
    ∀ t ∈ limitOutputWriteTiles forceBroadcast nTiles tiles, SanitizesAlike t layer := by
  unfold DPUWorkload.limitOutputWriteTiles
  split_ifs
  · intro t ht
    obtain ⟨u, hu, rfl⟩ := List.mem_map.mp ht
    obtain ⟨hdevice, hop, hautopad, hchannels, h0, h1, hout⟩ := h u hu
    exact ⟨hdevice, hop, hautopad, hchannels, h0, h1, hout⟩
  · exact h

theorem sanitizesAlike_overlappedTile (a : Axis) (nTiles : ℕ) (forceBroadcast : Bool) (r : ℕ)
    (c : Window.Geometry) :
    SanitizesAlike (layer.overlappedTile a nTiles forceBroadcast r c) layer := by
  refine ⟨rfl, rfl, rfl, fun _ => ?_, rfl, rfl, rfl⟩
  cases a <;> rfl

theorem sanitizesAlike_haloTile (r : ℕ) (c : Window.Geometry) (top bottom : ℤ) :
    SanitizesAlike (layer.haloTile r c top bottom) layer :=
  ⟨rfl, rfl, rfl, fun _ => rfl, rfl, rfl, rfl⟩

theorem sanitizesAlike_overlappedTiles (a : Axis) (nTiles : ℕ) (forceBroadcast : Bool) (d n : ℕ)
    (st : SplitState) :
    ∀ t ∈ layer.overlappedTiles a nTiles forceBroadcast d n st, SanitizesAlike t layer := by
  induction n generalizing st with
  | zero => simp [overlappedTiles]
  | succ n ih =>
    rw [overlappedTiles, List.forall_mem_cons]
    exact ⟨sanitizesAlike_overlappedTile .., ih _⟩

theorem sanitizesAlike_sokTiles (nTiles : ℕ) (forceBroadcast : Bool) (maxTileChannels n c : ℕ) :
    ∀ t ∈ layer.sokTiles nTiles forceBroadcast maxTileChannels n c, SanitizesAlike t layer := by
  induction n generalizing c with
  | zero => simp [sokTiles]
  | succ n ih =>
    rw [sokTiles, List.forall_mem_cons]
    refine ⟨⟨rfl, rfl, rfl, fun hconv => ?_, rfl, rfl, rfl⟩, ih _⟩
    -- A convolution needs all input channels for every output channel.
    exact if_pos (.inl hconv)

theorem sanitizesAlike_haloTiles (d n : ℕ) (st : HaloState) :
    ∀ t ∈ layer.haloTiles d n st, SanitizesAlike t layer := by
  induction n generalizing st with
  | zero => simp [haloTiles]
  | succ n ih =>
    rw [haloTiles, List.forall_mem_cons]
    exact ⟨sanitizesAlike_haloTile .., ih _⟩

theorem sanitizesAlike_clustering (nTiles : ℕ) :
    ∀ t ∈ layer.clustering nTiles, SanitizesAlike t layer := by
  intro t ht
  obtain ⟨u, hu, rfl⟩ := List.mem_map.mp ht
  obtain rfl := List.eq_of_mem_replicate hu
  exact ⟨rfl, rfl, rfl, fun _ => rfl, rfl, rfl, rfl⟩

theorem sanitizesAlike_splitAcrossTiles {strategy : VPUTilingStrategy} {nTiles : ℕ}
    {tiles : List DPULayer} (h : layer.splitAcrossTiles strategy nTiles = .ok tiles) :
    ∀ t ∈ tiles, SanitizesAlike t layer := by
  have hoverlapped : ∀ (a : Axis) (forceBroadcast : Bool),
      ∀ t ∈ layer.overlappedInputs a nTiles forceBroadcast, SanitizesAlike t layer :=
    fun a forceBroadcast => .limitOutputWriteTiles _ _ <| .removeEmptyTiles <|
      sanitizesAlike_overlappedTiles a nTiles forceBroadcast _ _ _
  have hsok : ∀ (forceBroadcast : Bool) (rounding : ℕ),
      ∀ t ∈ layer.sokVariants nTiles forceBroadcast rounding, SanitizesAlike t layer :=
    fun forceBroadcast rounding => .limitOutputWriteTiles _ _ <| .removeEmptyTiles <|
      sanitizesAlike_sokTiles nTiles forceBroadcast _ _ _
  cases strategy
  all_goals
    simp only [splitAcrossTiles, reduceCtorEq, Except.ok.injEq] at h
    try subst h
  case none => exact sanitizesAlike_clustering nTiles
  case sohOverlapped => exact hoverlapped .h false
  case sohoKSwitch => exact hoverlapped .h true
  case sow => exact hoverlapped .w false
  case sok => exact hsok true 16
  case sokNoBroadcast => exact hsok false 16
  case sohHaloRead => exact .removeEmptyTiles (sanitizesAlike_haloTiles _ _ _)
  all_goals simp

/-- Sanitizing a layer before the split sanitizes its tiles. -/
theorem sanitize_tile {strategy : VPUTilingStrategy} {nTiles : ℕ} {tiles : List DPULayer}
    (h : layer.sanitize.splitAcrossTiles strategy nTiles = .ok tiles) (htile : tile ∈ tiles) :
    tile.sanitize = tile :=
  (sanitizesAlike_splitAcrossTiles h tile htile).sanitize_eq_self (sanitize_sanitize layer)

end DPUWorkload

end Vpunn
