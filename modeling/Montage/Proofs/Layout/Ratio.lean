import Mathlib
import Montage.Proofs.Layout.Fit

/-!
The fit in exact fractions.  A picture is divided by the smaller of the two quotients of its sides
and those of the region, so both sides still cover the region and one of them is left over exactly.
-/

namespace Montage

namespace Size

/-- What the sides of a picture are divided by to cover a region. -/
def shrinkage (native region : Size) : ℚ :=
  min (native.width.toNat / region.width.toNat) (native.height.toNat / region.height.toNat)

/-- The sides of the picture divided, and rounded down. -/
def shrunk (native region : Size) : Nat × Nat :=
  (⌊native.width.toNat / native.shrinkage region⌋₊,
    ⌊native.height.toNat / native.shrinkage region⌋₊)

/-- A side is zero, or a side of the scaled picture does not fit in a word. -/
def Unfit (native region : Size) : Prop :=
  (native.width = 0 ∨ native.height = 0 ∨ region.width = 0 ∨ region.height = 0) ∨
    2 ^ 32 - 1 < (native.shrunk region).1 ∨ 2 ^ 32 - 1 < (native.shrunk region).2

/-- Divided by its own quotient a side becomes the region's, so by a smaller one no less. -/
theorem floor_div_min {a b r s : Nat} (ha : 0 < a) (hb : 0 < b) (hr : 0 < r) (hs : 0 < s) :
    ⌊(a : ℚ) / min (a / r : ℚ) (b / s)⌋₊ = max r (a * s / b) := by
  have ha' : (0 : ℚ) < a := Nat.cast_pos.mpr ha
  have hb' : (0 : ℚ) < b := Nat.cast_pos.mpr hb
  have hr' : (0 : ℚ) < r := Nat.cast_pos.mpr hr
  have hs' : (0 : ℚ) < s := Nat.cast_pos.mpr hs
  have hown : (a : ℚ) / (a / r) = (r : ℕ) := by field_simp
  have hother : (a : ℚ) / (b / s) = ((a * s : ℕ) : ℚ) / (b : ℕ) := by
    push_cast
    field_simp
  have hmax : (a : ℚ) / min (a / r : ℚ) (b / s) = max (a / (a / r) : ℚ) (a / (b / s)) := by
    rcases le_total (a / r : ℚ) (b / s) with hle | hle
    · rw [min_eq_left hle, max_eq_left (div_le_div_of_nonneg_left ha'.le (by positivity) hle)]
    · rw [min_eq_right hle, max_eq_right (div_le_div_of_nonneg_left ha'.le (by positivity) hle)]
  rw [hmax, hown, hother, Nat.floor_mono.map_max, Nat.floor_natCast, Nat.floor_div_eq_div]

variable {native region : Size}

theorem shrunk_eq_covering (hn : native.isEmpty = false) (hr : region.isEmpty = false) :
    native.shrunk region = native.covering region := by
  obtain ⟨hnw, hnh⟩ := isEmpty_eq_false_iff.mp hn
  obtain ⟨hrw, hrh⟩ := isEmpty_eq_false_iff.mp hr
  refine Prod.ext (floor_div_min hnw hnh hrw hrh) ?_
  rw [shrunk, shrinkage, min_comm]
  exact floor_div_min hnh hnw hrh hrw

theorem coverable_iff_not_unfit : native.Coverable region ↔ ¬native.Unfit region := by
  have hzero {s : Size} : s.isEmpty = false ↔ s.width ≠ 0 ∧ s.height ≠ 0 := by simp [isEmpty]
  rw [Unfit, not_or]
  constructor
  · rintro ⟨hn, hr, hw, hh⟩
    rw [shrunk_eq_covering hn hr]
    refine ⟨?_, ?_⟩
    · simpa [not_or, and_assoc] using And.intro (hzero.mp hn) (hzero.mp hr)
    · change _ < 2 ^ 32 at hw hh
      omega
  · rintro ⟨hsides, hfits⟩
    simp only [not_or] at hsides
    have hn := hzero.mpr ⟨hsides.1, hsides.2.1⟩
    have hr := hzero.mpr hsides.2.2
    rw [shrunk_eq_covering hn hr] at hfits
    refine ⟨hn, hr, ?_⟩
    change _ < 2 ^ 32 ∧ _ < 2 ^ 32
    omega

/-- The axis with the smaller quotient is covered without anything left over. -/
theorem covering_eq_or (native region : Size) :
    (native.covering region).1 = region.width.toNat ∨
      (native.covering region).2 = region.height.toNat := by
  rcases le_total (native.width.toNat * region.height.toNat)
      (native.height.toNat * region.width.toNat) with hle | hle
  · exact .inl (max_eq_left (Nat.div_le_of_le_mul hle))
  · exact .inr (max_eq_left (Nat.div_le_of_le_mul hle))

end Size

/-- A part begins in the middle of a whole, up to the pixel that cannot be halved. -/
structure Middle (offset part whole : UInt32) : Prop where
  le : 2 * (offset.toNat : ℤ) ≤ whole.toNat - part.toNat
  ge : (whole.toNat : ℤ) - part.toNat ≤ 2 * offset.toNat + 1

theorem middle_half {part whole : UInt32} (h : part ≤ whole) :
    Middle ((whole - part) / 2) part whole := by
  have hle : part.toNat ≤ whole.toNat := UInt32.le_iff_toNat_le.mp h
  constructor <;> rw [toNat_half, UInt32.toNat_sub_of_le _ _ h] <;> omega

namespace Fit

/-- The exact scaling of a picture that covers a region, with its middle part. -/
structure Exact (native region : Size) (fit : Fit) : Prop where
  fitted_eq : (fit.fitted.width.toNat, fit.fitted.height.toNat) = native.shrunk region
  covers : fit.fitted.covers region
  tight : fit.fitted.width = region.width ∨ fit.fitted.height = region.height
  size_crop : fit.crop.size = region
  crop_inside : fit.crop.Inside fit.fitted
  middle_x : Middle fit.crop.origin.x region.width fit.fitted.width
  middle_y : Middle fit.crop.origin.y region.height fit.fitted.height

variable {native region : Size}

theorem exact_covering (h : native.Coverable region) :
    (covering native region).Exact native region := by
  have hinside := (within_covering h).inside
  obtain ⟨hn, hr, hw, hh⟩ := h
  have hwidth : (covering native region).fitted.width.toNat = (native.covering region).1 :=
    UInt32.toNat_ofNat_of_lt' hw
  have hheight : (covering native region).fitted.height.toNat = (native.covering region).2 :=
    UInt32.toNat_ofNat_of_lt' hh
  have hlew : region.width ≤ (covering native region).fitted.width := by
    rw [UInt32.le_iff_toNat_le, hwidth]
    exact le_max_left ..
  have hleh : region.height ≤ (covering native region).fitted.height := by
    rw [UInt32.le_iff_toNat_le, hheight]
    exact le_max_left ..
  exact {
    fitted_eq := by rw [hwidth, hheight, Size.shrunk_eq_covering hn hr]
    covers := by simp [Size.covers, hlew, hleh]
    tight := by
      rw [← UInt32.toNat_inj, ← UInt32.toNat_inj, hwidth, hheight]
      exact native.covering_eq_or region
    size_crop := rfl
    crop_inside := hinside
    middle_x := middle_half hlew
    middle_y := middle_half hleh }

end Fit

/-- Scaling a picture to cover a region never overflows.  There is no fit exactly if a side is zero
or the scaled picture too large, and otherwise the fit is the exact one. -/
theorem fitAndCrop_exact (native region : Size) :
    ∃ fit?, fitAndCrop native region = .ok fit? ∧ (fit? = none ↔ native.Unfit region) ∧
      ∀ fit, fit? = some fit → fit.Exact native region := by
  refine ⟨_, fitAndCrop_eq native region, ?_, ?_⟩
  · rw [ite_eq_right_iff, ← not_iff_not, ← Size.coverable_iff_not_unfit]
    simp
  · intro fit hfit
    split at hfit
    case isTrue hcover =>
      obtain rfl := Option.some.inj hfit
      exact Fit.exact_covering hcover
    case isFalse => contradiction

/-- The largest square over a strip of three rows keeps every pixel there can be. -/
theorem fitAndCrop_largest :
    ∃ fit, fitAndCrop ⟨4294967295, 4294967295⟩ ⟨4294967295, 3⟩ = .ok (some fit) ∧
      fit.fitted = ⟨4294967295, 4294967295⟩ ∧
        fit.crop = ⟨⟨0, 2147483646⟩, ⟨4294967295, 3⟩⟩ ∧
          fit.Exact ⟨4294967295, 4294967295⟩ ⟨4294967295, 3⟩ := by
  obtain ⟨fit?, hok, -, hexact⟩ := fitAndCrop_exact ⟨4294967295, 4294967295⟩ ⟨4294967295, 3⟩
  have hfit : fitAndCrop ⟨4294967295, 4294967295⟩ ⟨4294967295, 3⟩ = .ok (some
      ⟨coveringRatio ⟨4294967295, 4294967295⟩ ⟨4294967295, 3⟩, ⟨4294967295, 4294967295⟩,
        ⟨⟨0, 2147483646⟩, ⟨4294967295, 3⟩⟩⟩) := by
    rfl
  rw [hfit] at hok
  exact ⟨_, hfit, rfl, rfl, hexact _ (Except.ok.inj hok).symm⟩

end Montage
