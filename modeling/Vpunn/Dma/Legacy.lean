import Vpunn.Dma.Fidelity

/-! Pairs of tensors and strided descriptors.

    A tensor becomes one contiguous dimension of bytes; a strided side becomes a tensor with as many
    bytes. What survives both ways are the bytes, the type, the layout and the locations. -/

namespace Vpunn
open MachineInt Strided

/-! ### One contiguous dimension -/

/-- A side with one packed dimension. -/
def flatSide (dtype : DataType) (n : ℤ) (layout : Option Layout) : VPUDMATensor where
  dtype := dtype
  dims := [⟨n, dtypeToBytes dtype⟩]
  layout := layout

section Flat

variable {dtype : DataType} {n : ℤ}

theorem getAccessedBytes_flatSide (hdtype : ByteAligned dtype) (hn : 0 ≤ n)
    (hfit : dtypeToBytes dtype * n < 2147483648) (layout : Option Layout) :
    (flatSide dtype n layout).getAccessedBytes = dtypeToBytes dtype * n := by
  have hbytes := (dtypeToBytes_pos hdtype).1
  have hrange : InI32 n := ⟨by omega, by nlinarith⟩
  have hprod : 0 ≤ dtypeToBytes dtype * n := mul_nonneg hbytes.le hn
  have hsize : (flatSide dtype n layout).getAccessedBytes = computeSizeInBytes n dtype := rfl
  rw [hsize, computeSizeInBytes_eq_mul32 hdtype hn hrange, mul32,
    i32_of_bounds (by omega) hfit]

theorem getContiguousBytes_flatSide (hdtype : ByteAligned dtype) (hn : 0 ≤ n)
    (hfit : dtypeToBytes dtype * n < 2147483648) (layout : Option Layout) :
    (flatSide dtype n layout).getContiguousBytes = dtypeToBytes dtype * n := by
  have hbytes := (dtypeToBytes_pos hdtype).1
  have hprod : 0 ≤ dtypeToBytes dtype * n := mul_nonneg hbytes.le hn
  have hwalk : (flatSide dtype n layout).getContiguousBytes
      = VPUDMATensor.contiguousBytesFrom (dtypeToBytes dtype) [⟨n, dtypeToBytes dtype⟩] := by
    rw [VPUDMATensor.getContiguousBytes, if_neg (by simp [flatSide])]
    exact if_neg (not_le.mpr hbytes)
  rw [hwalk]
  simp only [VPUDMATensor.contiguousBytesFrom, ne_eq, not_true_eq_false, if_false]
  split_ifs with hzero hone
  · rw [hzero, mul_zero]
  · rw [hone, mul_one]
  · rw [mul32, i32_of_bounds (by omega) hfit]

end Flat

theorem toByteAlignedDtype_byteAligned (dtype : DataType) :
    ByteAligned (toByteAlignedDtype dtype) := by
  cases dtype <;> decide

theorem toByteAlignedDtype_of_byteAligned {dtype : DataType} (h : ByteAligned dtype) :
    toByteAlignedDtype dtype = dtype := by
  unfold ByteAligned at h
  simp only [toByteAlignedDtype, if_pos h]

/-- A tensor becomes a packed dimension, in its own type or in bytes, of as many bytes. -/
theorem makeSide_eq_flatSide {t : VPUTensor} (hfit : t.size < 2147483648) :
    ∃ dtype n, ByteAligned dtype ∧ 0 ≤ n ∧ dtypeToBytes dtype * n = t.size
      ∧ makeSide t = flatSide dtype n (some t.layout) := by
  have hsize : i32 t.size = t.size := i32_of_bounds (by omega) (by omega)
  have haligned := toByteAlignedDtype_byteAligned t.dtype
  have hbytes := (dtypeToBytes_pos haligned).1
  by_cases hexact : (t.size : ℤ).tmod (dtypeToBytes (toByteAlignedDtype t.dtype)) = 0
  · refine ⟨toByteAlignedDtype t.dtype, (t.size : ℤ).tdiv (dtypeToBytes (toByteAlignedDtype t.dtype)),
      haligned, Int.tdiv_nonneg (by omega) hbytes.le,
      Int.mul_tdiv_cancel' (Int.dvd_of_tmod_eq_zero hexact), ?_⟩
    simp only [makeSide, flatSide, hsize, hbytes, hexact, and_self, if_true]
  · refine ⟨.uint8, t.size, by decide, by omega, by rw [dtypeToBytes, one_mul], ?_⟩
    simp only [makeSide, flatSide, hsize, hexact, and_false, if_false]
    rfl

/-! ### Strided sides as tensors -/

theorem dtypeToBytes_dvd {dtype : DataType} (h : ByteAligned dtype) :
    dtypeToBytes dtype ∣ 4294967296 := by
  cases dtype <;> revert h <;> decide

/-- Wrapping around keeps the bytes a multiple of those of an element. -/
theorem dtypeToBytes_dvd_mul32 {dtype : DataType} (h : ByteAligned dtype) {a : ℤ} (b : ℤ)
    (ha : dtypeToBytes dtype ∣ a) : dtypeToBytes dtype ∣ mul32 a b := by
  have hsub : a * b - mul32 a b = 4294967296 * ((a * b + 2147483648) / 4294967296) := by
    unfold mul32 i32; omega
  have hdvd : dtypeToBytes dtype ∣ a * b - mul32 a b := by
    rw [hsub]; exact (dtypeToBytes_dvd h).mul_right _
  exact (Int.dvd_iff_dvd_of_dvd_sub hdvd).mp (ha.mul_right b)

theorem dtypeToBytes_dvd_total {dtype : DataType} (h : ByteAligned dtype) {c : ℤ}
    (hc : dtypeToBytes dtype ∣ c) (ds : List (Dim ℤ)) :
    dtypeToBytes dtype ∣ total mul32 c ds := by
  induction ds generalizing c with
  | nil => exact hc
  | cons d ds ih => exact ih (dtypeToBytes_dvd_mul32 h d.count hc)

theorem dtypeToBytes_dvd_getAccessedBytes {t : VPUDMATensor}
    (hsane : VPUDMADescriptor.SaneSide t) (hrep : t.Representable) :
    dtypeToBytes t.dtype ∣ t.getAccessedBytes := by
  by_cases hdims : t.dims = []
  · simp [VPUDMATensor.getAccessedBytes, VPUDMATensor.innermostFirst, hdims]
  · rw [VPUDMATensor.getAccessedBytes_eq_total hsane hrep hdims]
    exact dtypeToBytes_dvd_total hsane.byteAligned (dvd_refl _) _

theorem getAccessedBytes_inI32 {t : VPUDMATensor} (hsane : VPUDMADescriptor.SaneSide t)
    (hrep : t.Representable) : InI32 t.getAccessedBytes := by
  rw [← sideBytes_collapseSide hsane hrep]
  exact sideBytes_inI32 (collapseSide_width_inI32 hsane) _

/-- A tensor of `n` elements along X has their bytes, whichever dimension is the innermost one. -/
theorem size_flatTensor {dtype : DataType} (hdtype : ByteAligned dtype) {n : ℕ}
    (hfit : dtypeToBytes dtype * n < 2147483648) (layout : Layout) (sparsity : Bool) :
    ((VPUTensor.mk ⟨n, 1, 1, 1⟩ dtype layout sparsity).size : ℤ) = dtypeToBytes dtype * n := by
  have hbytes := (dtypeToBytes_pos hdtype).1
  have hn : (n : ℤ) < 2147483648 := by nlinarith
  have hpacked : ∀ m : ℕ, (packedBytes dtype m : ℤ) = dtypeToBytes dtype * m := by
    intro m
    cases dtype <;> revert hdtype <;>
      simp [ByteAligned, packedBytes, dtypeToBits, dtypeToBytes] <;> omega
  have hexact : ((VPUTensor.mk ⟨n, 1, 1, 1⟩ dtype layout sparsity).exactSize : ℤ)
      = dtypeToBytes dtype * n := by
    cases layout <;>
      simp [VPUTensor.exactSize, layoutToOrder, Shape.get, hpacked]
  have hinner : (VPUTensor.mk ⟨n, 1, 1, 1⟩ dtype layout sparsity).shape.get
      (layoutToOrder layout).1 < 2147483648 := by
    cases layout <;> simp only [layoutToOrder, Shape.get] <;> omega
  rw [VPUTensor.size_eq_exactSize hinner (by omega), hexact]

/-- A side whose bytes did not wrap around becomes a tensor of its own type. -/
theorem makeTensor_eq {t : VPUDMATensor} (hsane : VPUDMADescriptor.SaneSide t)
    (hrep : t.Representable) (hnonneg : 0 ≤ t.getAccessedBytes) :
    ∃ n : ℕ, dtypeToBytes t.dtype * n = t.getAccessedBytes
      ∧ makeTensor t = { shape := ⟨n, 1, 1, 1⟩, dtype := t.dtype, layout := t.layout.getD .zxy } := by
  have hbytes := dtypeToBytes_pos hsane.byteAligned
  have hrange := getAccessedBytes_inI32 hsane hrep
  obtain ⟨elem, helem⟩ : ∃ elem : ℕ, dtypeToBytes t.dtype = elem :=
    ⟨_, (Int.toNat_of_nonneg hbytes.1.le).symm⟩
  obtain ⟨bytes, hbytesNat⟩ : ∃ bytes : ℕ, t.getAccessedBytes = bytes :=
    ⟨_, (Int.toNat_of_nonneg hnonneg).symm⟩
  have hdvd : elem ∣ bytes := by
    have := dtypeToBytes_dvd_getAccessedBytes hsane hrep
    rwa [helem, hbytesNat, Int.natCast_dvd_natCast] at this
  unfold InI32 at hrange hbytes
  have hu32bytes : u32 (bytes : ℤ) = bytes := u32_natCast (by omega)
  have hu32elem : u32 (elem : ℤ) = elem := u32_natCast (by omega)
  have hexact : 0 < elem ∧ bytes % elem = 0 := ⟨by omega, Nat.mod_eq_zero_of_dvd hdvd⟩
  refine ⟨bytes / elem, ?_, ?_⟩
  · rw [helem, hbytesNat, ← Int.natCast_mul, Nat.mul_div_cancel' hdvd]
  · simp only [makeTensor, toByteAlignedDtype_of_byteAligned hsane.byteAligned, helem, hbytesNat,
      hu32bytes, hu32elem, if_pos hexact]

/-! ### Both ways -/

/-- A side that stands for a tensor: accepted, with all its bytes in one block. -/
structure Describes (t : VPUTensor) (side : VPUDMATensor) : Prop where
  dtype_ok : ∀ name, VPUDMADescriptor.checkDtype name side = .ok ()
  numDims_ok : ∀ name, VPUDMADescriptor.checkNumDims name side = .ok ()
  shapes_ok : ∀ name, VPUDMADescriptor.checkShapes name side = .ok ()
  accessedBytes : side.getAccessedBytes = t.size
  contiguousBytes : side.getContiguousBytes = t.size
  layout : side.layout = some t.layout

theorem describes_makeSide {t : VPUTensor} (hfit : t.size < 2147483648) :
    Describes t (makeSide t) := by
  obtain ⟨dtype, n, haligned, hn, hbytes, heq⟩ := makeSide_eq_flatSide hfit
  have hfit' : dtypeToBytes dtype * n < 2147483648 := by omega
  rw [heq]
  exact
    { dtype_ok := fun _ => VPUDMADescriptor.checkDtype_eq_ok_iff.mpr haligned
      numDims_ok := fun _ => VPUDMADescriptor.checkNumDims_eq_ok_iff.mpr (show 1 ≤ 6 by decide)
      shapes_ok := fun _ => VPUDMADescriptor.checkShapes_eq_ok_iff.mpr (by simpa [flatSide] using hn)
      accessedBytes := (getAccessedBytes_flatSide haligned hn hfit' _).trans hbytes
      contiguousBytes := (getContiguousBytes_flatSide haligned hn hfit' _).trans hbytes
      layout := rfl }

/-- What a side keeps on the way to a tensor and back. -/
structure Preserves (side side' : VPUDMATensor) : Prop where
  accessedBytes : side'.getAccessedBytes = side.getAccessedBytes
  dtype : side'.dtype = side.dtype
  layout : ∀ l, side.layout = some l → side'.layout = some l

theorem preserves_makeSide_makeTensor {t : VPUDMATensor} (hsane : VPUDMADescriptor.SaneSide t)
    (hrep : t.Representable) (hnonneg : 0 ≤ t.getAccessedBytes) :
    Preserves t (makeSide (makeTensor t)) := by
  obtain ⟨n, hn, heq⟩ := makeTensor_eq hsane hrep hnonneg
  have hrange := (getAccessedBytes_inI32 hsane hrep).2
  have hsize : ((makeTensor t).size : ℤ) = t.getAccessedBytes := by
    rw [heq, size_flatTensor hsane.byteAligned (by omega), hn]
  have hdescribes := describes_makeSide (t := makeTensor t) (by omega)
  refine ⟨hdescribes.accessedBytes.trans hsize, ?_, ?_⟩
  · have hsizeFit : i32 (makeTensor t).size = dtypeToBytes t.dtype * n := by
      rw [hsize, hn, i32_of_bounds (by omega) hrange]
    have hdtype : (makeTensor t).dtype = t.dtype := by rw [heq]
    have hexact : 0 < dtypeToBytes t.dtype ∧
        (dtypeToBytes t.dtype * n).tmod (dtypeToBytes t.dtype) = 0 :=
      ⟨(dtypeToBytes_pos hsane.byteAligned).1, Int.mul_tmod_right ..⟩
    simp only [makeSide, hdtype, toByteAlignedDtype_of_byteAligned hsane.byteAligned, hsizeFit,
      if_pos hexact]
  · intro l hl
    rw [hdescribes.layout, heq, hl]; rfl

/-- To tensors and back. -/
def VPUDMADescriptor.legacyRoundTrip (desc : VPUDMADescriptor) : VPUDMADescriptor :=
  fromDMAWorkloadToVPUDMADescriptor (fromVPUDMADescriptorToDMAWorkload desc)

/-- Tensors become accepted sides of one block, and an accepted descriptor whose bytes did not wrap
    around survives the way to tensors and back. -/
theorem legacy_conversions :
    (∀ wl : DMAWorkload, wl.input.size < 2147483648 → wl.output.size < 2147483648 →
      Describes wl.input (fromDMAWorkloadToVPUDMADescriptor wl).src
        ∧ Describes wl.output (fromDMAWorkloadToVPUDMADescriptor wl).dst
        ∧ (fromDMAWorkloadToVPUDMADescriptor wl).srcLocation = wl.inputLocation
        ∧ (fromDMAWorkloadToVPUDMADescriptor wl).dstLocation = wl.outputLocation)
    ∧ ∀ desc : VPUDMADescriptor, desc.src.Representable → desc.dst.Representable →
      desc.checkDescriptorSanity = .ok () →
      0 ≤ desc.src.getAccessedBytes → 0 ≤ desc.dst.getAccessedBytes →
      Preserves desc.src desc.legacyRoundTrip.src ∧ Preserves desc.dst desc.legacyRoundTrip.dst
        ∧ desc.legacyRoundTrip.srcLocation = desc.srcLocation
        ∧ desc.legacyRoundTrip.dstLocation = desc.dstLocation := by
  constructor
  · intro wl hin hout
    exact ⟨describes_makeSide hin, describes_makeSide hout, rfl, rfl⟩
  · intro desc hsrc hdst hsane hsrcBytes hdstBytes
    obtain ⟨saneSrc, saneDst, -⟩ := VPUDMADescriptor.checkDescriptorSanity_eq_ok hsane
    exact ⟨preserves_makeSide_makeTensor saneSrc hsrc hsrcBytes,
      preserves_makeSide_makeTensor saneDst hdst hdstBytes, rfl, rfl⟩

/-- Seven elements of four bits take four bytes; a strided descriptor of two-byte elements comes
    back packed. -/
theorem legacy_conversions_small :
    Describes { shape := ⟨1, 1, 7, 1⟩, dtype := .uint4 }
        (makeSide { shape := ⟨1, 1, 7, 1⟩, dtype := .uint4 })
      ∧ Preserves { dtype := .float16, dims := [⟨3, 64⟩, ⟨8, 4⟩], layout := some .zyx }
        (makeSide (makeTensor
          { dtype := .float16, dims := [⟨3, 64⟩, ⟨8, 4⟩], layout := some .zyx })) := by
  constructor
  · exact (legacy_conversions.1
      { device := .npu_5_0
        input := { shape := ⟨1, 1, 7, 1⟩, dtype := .uint4 }
        output := { shape := ⟨1, 1, 7, 1⟩, dtype := .uint4 }
        inputLocation := .dram
        outputLocation := .cmx } (by decide) (by decide)).1
  · exact (legacy_conversions.2
      { device := .npu_5_0
        src := { dtype := .float16, dims := [⟨3, 64⟩, ⟨8, 4⟩], layout := some .zyx } }
      (by decide) (by decide) (by decide) (by decide) (by decide)).1

/-- The bytes of `65536` times `32768` elements wrap around to a negative number, and come back as
    zero. -/
theorem legacyRoundTrip_not_preserves :
    ¬ ∀ desc : VPUDMADescriptor, desc.src.Representable → desc.dst.Representable →
      desc.checkDescriptorSanity = .ok () → Preserves desc.src desc.legacyRoundTrip.src := by
  intro h
  have hwrap := h
    { device := .npu_5_0
      src := { dims := [⟨65536, 32768⟩, ⟨32768, 1⟩] } } (by decide) (by decide) (by decide)
  exact absurd hwrap.accessedBytes (by decide)

end Vpunn
