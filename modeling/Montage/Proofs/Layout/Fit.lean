import Mathlib
import Montage.Layout.Fit
import Montage.Proofs.Layout.Regions

/-!
The covering scale in whole numbers.  No product or difference on the way to it leaves its word;
only the scaled picture may be too large.
-/

namespace Montage

namespace Size

/-- The sides of the smallest scaling of a picture that covers a region: on each axis the side of
the region, or what the other axis asks for if that is more. -/
def covering (native region : Size) : Nat × Nat :=
  (max region.width.toNat (native.width.toNat * region.height.toNat / native.height.toNat),
    max region.height.toNat (native.height.toNat * region.width.toNat / native.width.toNat))

/-- Both have pixels, and the scaled picture has sides that fit in a word. -/
def Coverable (native region : Size) : Prop :=
  native.isEmpty = false ∧ region.isEmpty = false ∧
    (native.covering region).1 < UInt32.size ∧ (native.covering region).2 < UInt32.size

instance (native region : Size) : Decidable (native.Coverable region) :=
  inferInstanceAs (Decidable (_ ∧ _ ∧ _ ∧ _))

theorem covering_self {s : Size} (h : s.isEmpty = false) :
    s.covering s = (s.width.toNat, s.height.toNat) := by
  obtain ⟨hw, hh⟩ := isEmpty_eq_false_iff.mp h
  simp [covering, Nat.mul_div_cancel _ hw, Nat.mul_div_cancel _ hh]

theorem coverable_self {s : Size} (h : s.isEmpty = false) : s.Coverable s := by
  refine ⟨h, h, ?_⟩
  rw [covering_self h]
  exact ⟨s.width.toNat_lt_size, s.height.toNat_lt_size⟩

end Size

/-- The covering scale of a picture, and its middle part. -/
def Fit.covering (native region : Size) : Fit :=
  let fitted : Size :=
    ⟨UInt32.ofNat (native.covering region).1, UInt32.ofNat (native.covering region).2⟩
  { ratio := coveringRatio native region
    fitted
    crop :=
      ⟨⟨(fitted.width - region.width) / 2, (fitted.height - region.height) / 2⟩, region⟩ }

theorem mul_toUInt64_lt (a b : UInt32) :
    a.toUInt64.toNat * b.toUInt64.toNat < UInt64.size := by
  rw [UInt32.toNat_toUInt64, UInt32.toNat_toUInt64]
  calc
    a.toNat * b.toNat < UInt32.size * UInt32.size :=
      Nat.mul_lt_mul'' a.toNat_lt_size b.toNat_lt_size
    _ = UInt64.size := rfl

theorem toNat_mul_toUInt64 (a b : UInt32) :
    (a.toUInt64 * b.toUInt64).toNat = a.toNat * b.toNat := by
  rw [UInt64.toNat_mul, Nat.mod_eq_of_lt (mul_toUInt64_lt a b), UInt32.toNat_toUInt64,
    UInt32.toNat_toUInt64]

variable {native region : Size}

theorem coveringSides_eq (hn : native.isEmpty = false) (region : Size) :
    ∃ w h, coveringSides native region = .ok (w, h) ∧
      (w.toNat, h.toNat) = native.covering region := by
  obtain ⟨hnw, hnh⟩ := Size.isEmpty_eq_false_iff.mp hn
  have hw : native.width.toUInt64 ≠ 0 := by
    rw [ne_eq, ← UInt64.toNat_inj, UInt32.toNat_toUInt64, UInt64.toNat_zero]
    omega
  have hh : native.height.toUInt64 ≠ 0 := by
    rw [ne_eq, ← UInt64.toNat_inj, UInt32.toNat_toUInt64, UInt64.toNat_zero]
    omega
  simp only [coveringSides, Word.mul_eq_ok (mul_toUInt64_lt ..), Word.div_eq_ok hh,
    Word.div_eq_ok hw, bind, Except.bind, UInt64.le_iff_toNat_le, toNat_mul_toUInt64]
  by_cases hle : native.height.toNat * region.width.toNat ≤
      native.width.toNat * region.height.toNat
  · have hwide : region.width.toNat ≤
        native.width.toNat * region.height.toNat / native.height.toNat := by
      rw [Nat.le_div_iff_mul_le hnh, Nat.mul_comm]
      exact hle
    have htall : native.height.toNat * region.width.toNat / native.width.toNat ≤
        region.height.toNat := Nat.div_le_of_le_mul hle
    refine ⟨_, _, if_pos hle, ?_⟩
    rw [Size.covering, max_eq_right hwide, max_eq_left htall, UInt64.toNat_div,
      toNat_mul_toUInt64, UInt32.toNat_toUInt64, UInt32.toNat_toUInt64]
  · have hle' := (Nat.lt_of_not_le hle).le
    have htall : region.height.toNat ≤
        native.height.toNat * region.width.toNat / native.width.toNat := by
      rw [Nat.le_div_iff_mul_le hnw, Nat.mul_comm]
      exact hle'
    have hwide : native.width.toNat * region.height.toNat / native.height.toNat ≤
        region.width.toNat := Nat.div_le_of_le_mul hle'
    refine ⟨_, _, if_neg hle, ?_⟩
    rw [Size.covering, max_eq_left hwide, max_eq_right htall, UInt64.toNat_div,
      toNat_mul_toUInt64, UInt32.toNat_toUInt64, UInt32.toNat_toUInt64]

theorem Word.narrow?_eq (a : UInt64) :
    narrow? a = if a.toNat < UInt32.size then some (UInt32.ofNat a.toNat) else none := by
  unfold narrow?
  split
  · rw [← UInt64.toUInt32_ofNat', UInt64.ofNat_toNat]
  · rfl

/-- A fit never overflows, and there is one exactly when the region can be covered. -/
theorem fitAndCrop_eq (native region : Size) :
    fitAndCrop native region =
      .ok (if native.Coverable region then some (Fit.covering native region) else none) := by
  unfold fitAndCrop
  by_cases hempty : native.isEmpty || region.isEmpty
  · have hnot : ¬native.Coverable region := by
      rintro ⟨hn, hr, -⟩
      simp [hn, hr] at hempty
    rw [if_neg hnot]
    simp [hempty, pure, Except.pure]
  · obtain ⟨hn, hr⟩ : native.isEmpty = false ∧ region.isEmpty = false := by simpa using hempty
    obtain ⟨w, h, hsides, hcover⟩ := coveringSides_eq hn region
    have hw : w.toNat = (native.covering region).1 := congrArg Prod.fst hcover
    have hh : h.toNat = (native.covering region).2 := congrArg Prod.snd hcover
    simp only [hempty, hsides, bind, Except.bind, pure, Except.pure, Word.narrow?_eq, hw, hh]
    by_cases hfw : (native.covering region).1 < UInt32.size
    · by_cases hfh : (native.covering region).2 < UInt32.size
      · have hsubw : region.width ≤ UInt32.ofNat (native.covering region).1 := by
          rw [UInt32.le_iff_toNat_le, UInt32.toNat_ofNat_of_lt' hfw]
          exact le_max_left ..
        have hsubh : region.height ≤ UInt32.ofNat (native.covering region).2 := by
          rw [UInt32.le_iff_toNat_le, UInt32.toNat_ofNat_of_lt' hfh]
          exact le_max_left ..
        simp [hfw, hfh, Word.sub_eq_ok hsubw, Word.sub_eq_ok hsubh, Size.Coverable, hn, hr,
          Fit.covering]
      · simp [hfw, hfh, Size.Coverable]
    · simp [hfw, Size.Coverable]

/-- The part that is kept lies in the scaled picture. -/
theorem Fit.within_covering (h : native.Coverable region) :
    (Fit.covering native region).crop.Within (Fit.covering native region).fitted := by
  obtain ⟨-, -, hw, hh⟩ := h
  have hwidth := UInt32.toNat_ofNat_of_lt' hw
  have hheight := UInt32.toNat_ofNat_of_lt' hh
  have hle : region.width.toNat ≤ (native.covering region).1 := le_max_left ..
  have hle' : region.height.toNat ≤ (native.covering region).2 := le_max_left ..
  have hsub : region.width ≤ UInt32.ofNat (native.covering region).1 := by
    rwa [UInt32.le_iff_toNat_le, hwidth]
  have hsub' : region.height ≤ UInt32.ofNat (native.covering region).2 := by
    rwa [UInt32.le_iff_toNat_le, hheight]
  simp only [Rect.Within, covering, toNat_half, UInt32.toNat_sub_of_le _ _ hsub,
    UInt32.toNat_sub_of_le _ _ hsub', hwidth, hheight]
  omega

end Montage
