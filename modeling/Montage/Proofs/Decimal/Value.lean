import Mathlib
import Montage.Proofs.Decimal.Fields

/-!
The order of doubles is the order of their exact values.  Doubles are compared by exponent first
and mantissa second, which is right because every double that is not among the smallest has a
mantissa with its leading bit set.
-/

namespace Montage.Decimal

open Float.Model

/-- The mantissas and exponents that a double may have. -/
structure Canonical (m : Nat) (q : Int) : Prop where
  lt : m < 2 ^ 53
  le : -1074 ≤ q
  lead : 2 ^ 52 ≤ m ∨ q = -1074

theorem canonical_of_ofFloat {x : Float} {negative : Bool} {m : Nat} {q : Int} (hm : 0 < m)
    (h : Exact.ofFloat x = .finite negative m q) : Canonical m q := by
  have hlt : (Fields.ofFloat x).mantissa < 2 ^ 52 := BitVec.isLt _
  rw [← Fields.exact_ofFloat] at h
  unfold Fields.exact at h
  split_ifs at h with hones hmantissa hzero
  · cases h
    contradiction
  · -- a number below the normal ones, with the smallest exponent
    cases h
    exact ⟨by omega, by decide, .inr rfl⟩
  · cases h
    exact ⟨by omega, by omega, .inl (by omega)⟩

theorem canonical_of_unpack {x : Float} {s : UnpackedFloat.Sign} {m : Nat} {q : Int} {hm : 0 < m}
    (hx : x.toModel.unpack = .finite s m q hm) : Canonical m q :=
  canonical_of_ofFloat hm (by rw [Exact.ofFloat, hx, Exact.ofUnpacked])

namespace Exact

def value : Exact → ℚ
  | .finite negative m q => (if negative then -1 else 1) * (m * 2 ^ q)
  | _ => 0

end Exact

/-- The exact value of a double, and zero for what is no number or infinite. -/
def value (x : Float) : ℚ := (Exact.ofFloat x).value

theorem scale_pos {m : Nat} (hm : 0 < m) (q : Int) : (0 : ℚ) < m * 2 ^ q := by positivity

/-- A larger exponent makes a larger number, whatever the mantissas. -/
theorem Canonical.scale_lt {m n : Nat} {p q : Int} (hm : Canonical m p) (hn : Canonical n q)
    (h : p < q) : (m : ℚ) * 2 ^ p < n * 2 ^ q := by
  have hlead : 2 ^ 52 ≤ n := by
    cases hn.lead with
    | inl hlead => exact hlead
    | inr hmin =>
      have := hm.le
      omega
  calc
    (m : ℚ) * 2 ^ p < 2 ^ 53 * 2 ^ p := by
      gcongr
      exact_mod_cast hm.lt
    _ = 2 ^ 52 * 2 ^ (p + 1) := by
      rw [zpow_add_one₀ two_ne_zero]
      ring
    _ ≤ n * 2 ^ q := by
      gcongr
      · exact_mod_cast hlead
      · norm_num
      · omega

theorem compare_scale {m n : Nat} {p q : Int} (hm : Canonical m p) (hn : Canonical n q) :
    (compare p q).then (compare m n) = compare ((m : ℚ) * 2 ^ p) (n * 2 ^ q) := by
  rcases lt_trichotomy p q with h | rfl | h
  · rw [compare_lt_iff_lt.mpr h, compare_lt_iff_lt.mpr (hm.scale_lt hn h)]
    rfl
  · rw [compare_eq_iff_eq.mpr rfl]
    have hpos : (0 : ℚ) < 2 ^ p := by positivity
    rcases lt_trichotomy m n with h | rfl | h
    · have hscale : (m : ℚ) * 2 ^ p < n * 2 ^ p := by
        gcongr
      rw [compare_lt_iff_lt.mpr h, compare_lt_iff_lt.mpr hscale]
      rfl
    · rw [compare_eq_iff_eq.mpr rfl, compare_eq_iff_eq.mpr rfl]
      rfl
    · have hscale : (n : ℚ) * 2 ^ p < m * 2 ^ p := by
        gcongr
      rw [compare_gt_iff_gt.mpr h, compare_gt_iff_gt.mpr hscale]
      rfl
  · rw [compare_gt_iff_gt.mpr h, compare_gt_iff_gt.mpr (hn.scale_lt hm h)]
    rfl

theorem compare_neg (a b : ℚ) : compare (-a) (-b) = (compare a b).swap := by
  rcases lt_trichotomy a b with h | rfl | h
  · rw [compare_lt_iff_lt.mpr h, compare_gt_iff_gt.mpr (neg_lt_neg h)]
    rfl
  · rw [compare_eq_iff_eq.mpr rfl, compare_eq_iff_eq.mpr rfl]
    rfl
  · rw [compare_gt_iff_gt.mpr h, compare_lt_iff_lt.mpr (neg_lt_neg h)]
    rfl

theorem value_ofUnpacked_positive {m : Nat} {q : Int} (hm : 0 < m) :
    (Exact.ofUnpacked (.finite .positive m q hm)).value = m * 2 ^ q := one_mul _

theorem value_ofUnpacked_negative {m : Nat} {q : Int} (hm : 0 < m) :
    (Exact.ofUnpacked (.finite .negative m q hm)).value = -(m * 2 ^ q) := neg_one_mul _

theorem value_ofUnpacked_zero (s : UnpackedFloat.Sign) :
    (Exact.ofUnpacked (.zero s)).value = 0 := by
  simp [Exact.ofUnpacked, Exact.value]

theorem compare_ofUnpacked {a b : UnpackedFloat} (ha : a.isFinite) (hb : b.isFinite)
    (hca : ∀ s m q hm, a = .finite s m q hm → Canonical m q)
    (hcb : ∀ s m q hm, b = .finite s m q hm → Canonical m q) :
    a.compare b = some (compare (Exact.ofUnpacked a).value (Exact.ofUnpacked b).value) := by
  cases a with
  | infinity | notANumber => contradiction
  | zero s =>
    rw [value_ofUnpacked_zero]
    cases b with
    | infinity | notANumber => contradiction
    | zero t => rw [value_ofUnpacked_zero, compare_eq_iff_eq.mpr rfl]; rfl
    | finite t n q hn =>
      have hpos := scale_pos hn q
      cases t with
      | negative =>
        rw [value_ofUnpacked_negative, compare_gt_iff_gt.mpr (neg_neg_of_pos hpos)]
        rfl
      | positive => rw [value_ofUnpacked_positive, compare_lt_iff_lt.mpr hpos]; rfl
  | finite s m p hm =>
    have hpos := scale_pos hm p
    have hm' := hca s m p hm rfl
    cases b with
    | infinity | notANumber => contradiction
    | zero t =>
      rw [value_ofUnpacked_zero]
      cases s with
      | negative =>
        rw [value_ofUnpacked_negative, compare_lt_iff_lt.mpr (neg_neg_of_pos hpos)]
        rfl
      | positive => rw [value_ofUnpacked_positive, compare_gt_iff_gt.mpr hpos]; rfl
    | finite t n q hn =>
      have hpos' := scale_pos hn q
      have hn' := hcb t n q hn rfl
      cases s with
      | negative =>
        rw [value_ofUnpacked_negative]
        cases t with
        | negative =>
          rw [value_ofUnpacked_negative, compare_neg, ← compare_scale hm' hn']
          rfl
        | positive =>
          rw [value_ofUnpacked_positive, compare_lt_iff_lt.mpr (by linarith)]
          rfl
      | positive =>
        rw [value_ofUnpacked_positive]
        cases t with
        | negative =>
          rw [value_ofUnpacked_negative, compare_gt_iff_gt.mpr (by linarith)]
          rfl
        | positive => rw [value_ofUnpacked_positive, ← compare_scale hm' hn']; rfl

/-- Finite doubles compare as their exact values do. -/
theorem compare_unpack {x y : Float} (hx : x.isFinite) (hy : y.isFinite) :
    x.toModel.unpack.compare y.toModel.unpack = some (compare (value x) (value y)) :=
  compare_ofUnpacked hx hy (fun _ _ _ _ h => canonical_of_unpack h)
    (fun _ _ _ _ h => canonical_of_unpack h)

variable {x y : Float}

theorem lt_iff_compare :
    x < y ↔ (x.toModel.unpack.compare y.toModel.unpack == some .lt) = true := by
  change (decide (x.toModel < y.toModel)) = true ↔ _
  rw [decide_eq_true_iff]
  rfl

theorem le_iff_compare :
    x ≤ y ↔ (x.toModel.unpack.compare y.toModel.unpack).any (·.isLE) = true := by
  change (decide (x.toModel ≤ y.toModel)) = true ↔ _
  rw [decide_eq_true_iff]
  rfl

theorem lt_iff_value_lt (hx : x.isFinite) (hy : y.isFinite) : x < y ↔ value x < value y := by
  rw [lt_iff_compare, compare_unpack hx hy, beq_iff_eq, Option.some.injEq, compare_lt_iff_lt]

theorem le_iff_value_le (hx : x.isFinite) (hy : y.isFinite) : x ≤ y ↔ value x ≤ value y := by
  rw [le_iff_compare, compare_unpack hx hy, Option.any_some, ← compare_le_iff_le]
  cases compare (value x) (value y) <;> decide

theorem beq_iff_value_eq (hx : x.isFinite) (hy : y.isFinite) :
    (x == y) = true ↔ value x = value y := by
  have hbeq : (x == y) = (x.toModel.unpack.compare y.toModel.unpack == some .eq) := rfl
  rw [hbeq, compare_unpack hx hy, beq_iff_eq, Option.some.injEq, compare_eq_iff_eq]

theorem exists_exact_of_isFinite (hx : x.isFinite) :
    ∃ negative m q, Exact.ofFloat x = .finite negative m q := by
  change x.toModel.unpack.isFinite at hx
  rw [Exact.ofFloat]
  cases h : x.toModel.unpack with
  | notANumber | infinity =>
    rw [h] at hx
    contradiction
  | zero | finite => exact ⟨_, _, _, rfl⟩

theorem isInf_of_isFinite (hx : x.isFinite) : x.isInf = false := by
  change x.toModel.unpack.isFinite at hx
  change x.toModel.unpack.isInf = false
  cases h : x.toModel.unpack with
  | notANumber | zero | finite => rfl
  | infinity =>
    rw [h] at hx
    contradiction

theorem isFinite_zero : (0 : Float).isFinite := by decide +kernel

@[simp] theorem value_zero : value 0 = 0 := by
  have h : Exact.ofFloat 0 = .finite false 0 0 := by decide +kernel
  rw [value, h]
  simp [Exact.value]

theorem pos_iff_value_pos (hx : x.isFinite) : 0 < x ↔ 0 < value x := by
  rw [lt_iff_value_lt isFinite_zero hx, value_zero]

theorem nonneg_iff_value_nonneg (hx : x.isFinite) : 0 ≤ x ↔ 0 ≤ value x := by
  rw [le_iff_value_le isFinite_zero hx, value_zero]

theorem isFinite_of_pos_of_le (hy : y.isFinite) (hpos : 0 < x) (hle : x ≤ y) : x.isFinite := by
  rw [lt_iff_compare] at hpos
  rw [le_iff_compare] at hle
  have hzero : (0 : Float).toModel.unpack = .zero .positive := rfl
  have hy' : y.toModel.unpack.isFinite := hy
  change x.toModel.unpack.isFinite
  rw [hzero] at hpos
  generalize x.toModel.unpack = a at *
  generalize y.toModel.unpack = b at *
  cases a with
  | zero | finite => rfl
  | notANumber => contradiction
  | infinity s =>
    cases s with
    | negative => contradiction
    | positive =>
      cases b with
      | infinity | notANumber => contradiction
      | zero | finite => contradiction

end Montage.Decimal
