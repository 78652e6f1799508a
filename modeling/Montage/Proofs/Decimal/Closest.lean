import Mathlib
import Montage.Proofs.Decimal.Nearest
import Montage.Proofs.Decimal.Quotients

/-!
Which double a number is rounded to.  Every number from the smallest double on lies in the basin of
a double, so a product of doubles is the double that its exact value rounds to, and larger products
round to larger doubles.  A number below half of the smallest double rounds to zero.
-/

namespace Montage.Decimal

open Float.Model

/-! ## Every number has its double -/

theorem exists_rounds {t : ℚ} (h : 0 ≤ t) : ∃ m, Rounds t m := by
  have hle : (⌊t⌋₊ : ℚ) ≤ t := Nat.floor_le h
  have hlt : t < ⌊t⌋₊ + 1 := Nat.lt_floor_add_one t
  generalize ⌊t⌋₊ = n at hle hlt
  rcases lt_trichotomy t (n + 1 / 2) with hhalf | rfl | hhalf
  · exact ⟨n, by linarith, hhalf.le, .inr ⟨by linarith, hhalf⟩⟩
  · -- a half lies between two whole numbers, and one of them is even
    rcases Nat.mod_two_eq_zero_or_one n with heven | hodd
    · exact ⟨n, by linarith, le_rfl, .inl heven⟩
    · refine ⟨n + 1, ?_, ?_, .inl (by omega)⟩ <;> push_cast <;> linarith
  · refine ⟨n + 1, ?_, ?_, .inr ⟨?_, ?_⟩⟩ <;> push_cast <;> linarith

section Holds

variable {m : Nat} {q : Int} {y : ℚ}

theorem holds_of_rounds (hm : 0 < m) (hlead : 2 ^ 52 ≤ y / 2 ^ q ∨ q = -1074)
    (h : Rounds (y / 2 ^ q) m) : (Basin.ofBinary m q).Holds y := by
  have hpos : (0 : ℚ) < 2 ^ q := by positivity
  obtain ⟨hlow, hhigh, htie⟩ := h
  rw [Basin.holds_ofBinary hm, lowEnd, highEnd, ← le_div_iff₀ hpos, ← div_le_iff₀ hpos,
    ← lt_div_iff₀ hpos, ← div_lt_iff₀ hpos]
  split_ifs with heven hpower hpower
  · -- below a power of two the doubles are closer to each other
    have hge := hlead.resolve_right (by omega)
    have hm52 : (m : ℚ) = 2 ^ 52 := by exact_mod_cast hpower.1
    exact ⟨by linarith, hhigh⟩
  · exact ⟨hlow, hhigh⟩
  · rw [hpower.1] at heven
    exact absurd (by decide) heven
  · exact htie.resolve_left heven

theorem holds_of_rounds_pow (hq : -1074 ≤ q) (hlt : y / 2 ^ q < 2 ^ 53)
    (h : Rounds (y / 2 ^ q) (2 ^ 53)) : (Basin.ofBinary (2 ^ 52) (q + 1)).Holds y := by
  have hpos : (0 : ℚ) < 2 ^ q := by positivity
  have hlow := h.1
  rw [le_div_iff₀ hpos] at hlow
  rw [div_lt_iff₀ hpos] at hlt
  rw [Basin.holds_ofBinary (by decide), if_pos (by decide), lowEnd, highEnd,
    if_pos ⟨rfl, by omega⟩, zpow_add_one₀ two_ne_zero]
  push_cast at hlow ⊢
  constructor <;> linarith

/-- From the smallest double on, every number lies in the basin of a double. -/
theorem exists_holds (h : 2 ^ (-1074 : Int) ≤ y) :
    ∃ m q, 0 < m ∧ Canonical m q ∧ (Basin.ofBinary m q).Holds y := by
  have hy : 0 < y := lt_of_lt_of_le (by positivity) h
  have hlog : (2 : ℚ) ^ Int.log 2 y ≤ y := by exact_mod_cast Int.zpow_log_le_self one_lt_two hy
  have hlog' : y < 2 ^ (Int.log 2 y + 1) := by
    exact_mod_cast Int.lt_zpow_succ_log_self one_lt_two y
  -- the grid on which the number has 53 bits, unless it is finer than all grids
  obtain ⟨q, hq⟩ : ∃ q, q = max (Int.log 2 y - 52) (-1074) := ⟨_, rfl⟩
  have hpos : (0 : ℚ) < 2 ^ q := by positivity
  have hlt : y / 2 ^ q < 2 ^ 53 := by
    rw [div_lt_iff₀ hpos, ← zpow_natCast, ← zpow_add₀ two_ne_zero]
    exact hlog'.trans_le (zpow_le_zpow_right₀ one_le_two (by omega))
  have hlead : 2 ^ 52 ≤ y / 2 ^ q ∨ q = -1074 := by
    rcases max_choice (Int.log 2 y - 52) (-1074) with hmax | hmax
    · left
      rw [le_div_iff₀ hpos, ← zpow_natCast, ← zpow_add₀ two_ne_zero]
      exact (zpow_le_zpow_right₀ one_le_two (by omega)).trans hlog
    · exact .inr (hq.trans hmax)
  have hone : 1 ≤ y / 2 ^ q := by
    rcases hlead with hlead | rfl
    · exact (by norm_num : (1 : ℚ) ≤ 2 ^ 52).trans hlead
    · rwa [one_le_div hpos]
  obtain ⟨m, hm⟩ := exists_rounds (zero_le_one.trans hone)
  have hmpos : 0 < m := by
    have : (0 : ℚ) < m := by linarith [hm.2.1]
    exact_mod_cast this
  have hmle : m < 2 ^ 53 + 1 := by
    have : (m : ℚ) < 2 ^ 53 + 1 := by linarith [hm.1]
    exact_mod_cast this
  rcases Nat.lt_succ_iff_lt_or_eq.mp hmle with hmlt | rfl
  · refine ⟨m, q, hmpos, ⟨hmlt, by omega, hlead.imp_left fun hlead => ?_⟩,
      holds_of_rounds hmpos hlead hm⟩
    have : (2 ^ 52 : ℚ) < m + 1 := by linarith [hm.2.1]
    have : 2 ^ 52 < m + 1 := by exact_mod_cast this
    omega
  · exact ⟨2 ^ 52, q + 1, by decide, ⟨by decide, by omega, .inl le_rfl⟩,
      holds_of_rounds_pow (by omega) hlt hm⟩

theorem ends_of_holds (hm : 0 < m) (h : (Basin.ofBinary m q).Holds y) :
    lowEnd m q ≤ y ∧ y ≤ highEnd m q := by
  rw [Basin.holds_ofBinary hm] at h
  split at h
  · exact h
  · exact ⟨h.1.le, h.2.le⟩

theorem exponent_le_of_holds (hm : 0 < m) (hcanonical : Canonical m q)
    (h : (Basin.ofBinary m q).Holds y) (hy : y < 2 ^ (1023 : Int)) : q ≤ 971 := by
  by_contra! hlarge
  have hlow := (le_lowEnd_of_lt (by decide) hcanonical hlarge).trans (ends_of_holds hm h).1
  have hpow : (2 : ℚ) ^ (1023 : Int) = 2 ^ 52 * 2 ^ (971 : Int) := by
    rw [← zpow_natCast, ← zpow_add₀ two_ne_zero]
    rfl
  rw [hpow] at hy
  have hpos : (0 : ℚ) < 2 ^ (971 : Int) := by positivity
  clear hpow
  generalize (2 : ℚ) ^ (971 : Int) = unit at *
  linarith

end Holds

/-- Larger numbers round to larger doubles. -/
theorem scale_le_of_holds {m n : Nat} {q p : Int} {a b : ℚ} (hm0 : 0 < m) (hn0 : 0 < n)
    (hm : Canonical m q) (hn : Canonical n p) (ha : (Basin.ofBinary m q).Holds a)
    (hb : (Basin.ofBinary n p).Holds b) (h : a ≤ b) : (m : ℚ) * 2 ^ q ≤ n * 2 ^ p := by
  by_contra! hlt
  have hle : b ≤ a := (ends_of_holds hn0 hb).2.trans
    ((highEnd_le_lowEnd hn hm hlt).1.trans (ends_of_holds hm0 ha).1)
  rw [le_antisymm h hle] at ha
  exact not_holds_of_lt hn0 hm0 hn hm hlt hb ha

/-! ## Products -/

theorem value_of_exact {x : Float} {m : Nat} {q : Int} (h : Exact.ofFloat x = .finite false m q) :
    value x = m * 2 ^ q := by
  rw [value, h]
  exact one_mul _

section Products

variable {x y : Float}

theorem denotes_value (hx : x.isFinite) (hpos : 0 < x) : Denotes x (value x) := by
  obtain ⟨m, q, hm, hunpack⟩ := exists_unpack_of_pos hx hpos
  refine ⟨m, q, hm, hunpack, ?_⟩
  rw [value, Exact.ofFloat, hunpack, value_ofUnpacked_positive]

theorem value_packed {m : Nat} {q : Int} (hm : 0 < m) (hcanonical : Canonical m q) (hq : q ≤ 971) :
    value (packed (.finite .positive m q hm)) = m * 2 ^ q :=
  value_of_exact (exact_packed hm hcanonical hq)

/-- Where no limit of the doubles is met, a product is the double of its exact value. -/
theorem exists_mul_eq {a : ℚ} (hx : Fills x a) (hy : y.isFinite) (hpos : 0 < y)
    (hlow : 2 ^ (-1074 : Int) ≤ a * value y) (hhigh : a * value y < 2 ^ (1023 : Int)) :
    ∃ m q, 0 < m ∧ Canonical m q ∧ (Basin.ofBinary m q).Holds (a * value y) ∧
      (x * y).isFinite ∧ value (x * y) = m * 2 ^ q := by
  obtain ⟨m, q, hm, hcanonical, hholds⟩ := exists_holds hlow
  have hq := exponent_le_of_holds hm hcanonical hholds hhigh
  have hmul := mul_eq_packed hm hcanonical hx (denotes_value hy hpos) hholds
  refine ⟨m, q, hm, hcanonical, hholds, ?_, ?_⟩
  · rw [hmul]
    exact isFinite_packed hq
  · rw [hmul, value_packed hm hcanonical hq]

/-- The smaller of two finite doubles. -/
theorem value_smaller (hx : x.isFinite) (hy : y.isFinite) :
    (Seconds.smaller x y).isFinite ∧ value (Seconds.smaller x y) = min (value x) (value y) := by
  rw [Seconds.smaller, isNaN_of_isFinite hx, if_neg Bool.false_ne_true]
  split
  case isTrue hlt => exact ⟨hy, (min_eq_right ((lt_iff_value_lt hy hx).mp hlt).le).symm⟩
  case isFalse hlt =>
    rw [lt_iff_value_lt hy hx, not_lt] at hlt
    exact ⟨hx, (min_eq_left hlt).symm⟩

end Products

/-! ## The double closest to a real number -/

/-- No finite double is closer to the number, and of two that are as close the one with the even
mantissa is taken. -/
structure Closest (x : Float) (y : ℝ) : Prop where
  isFinite : x.isFinite
  le : ∀ z : Float, z.isFinite → |(value x : ℝ) - y| ≤ |(value z : ℝ) - y|
  even : ∀ z : Float, z.isFinite → |(value z : ℝ) - y| = |(value x : ℝ) - y| →
    (Fields.ofFloat x).mantissa % 2 ≤ (Fields.ofFloat z).mantissa % 2

theorem isFinite_one : (1 : Float).isFinite := by decide +kernel

@[simp] theorem value_one : value 1 = 1 := by
  rw [value_of_exact (by decide +kernel : Exact.ofFloat 1 = .finite false (2 ^ 52) (-52))]
  norm_num

/-- The smallest double above zero. -/
def smallest : Float := Float.ofBits 1

theorem exact_smallest : Exact.ofFloat smallest = .finite false 1 (-1074) := by decide +kernel

theorem value_smallest : value smallest = 2 ^ (-1074 : Int) := by
  rw [value_of_exact exact_smallest, Nat.cast_one, one_mul]

theorem value_smallest_pos : 0 < value smallest := by
  rw [value_smallest]
  positivity

theorem isFinite_smallest : smallest.isFinite := by decide +kernel

section Smallest

variable {x : Float} (hx : x.isFinite)

include hx

theorem smallest_le (hpos : 0 < value x) : value smallest ≤ value x := by
  obtain ⟨m, q, hm, hunpack, hvalue⟩ := denotes_value hx ((pos_iff_value_pos hx).mpr hpos)
  have hone : (1 : ℚ) ≤ m := by exact_mod_cast hm
  calc
    value smallest = 2 ^ (-1074 : Int) := value_smallest
    _ ≤ 2 ^ q := zpow_le_zpow_right₀ one_le_two (canonical_of_unpack hunpack).le
    _ ≤ m * 2 ^ q := le_mul_of_one_le_left (by positivity) hone
    _ = value x := hvalue

theorem eq_smallest (h : value x = value smallest) : x = smallest := by
  have hpos : 0 < x := by
    rw [pos_iff_value_pos hx, h]
    exact value_smallest_pos
  obtain ⟨m, q, hm, hunpack, hvalue⟩ := denotes_value hx hpos
  rw [h, value_smallest, ← one_mul ((2 : ℚ) ^ (-1074 : Int)), ← Nat.cast_one] at hvalue
  have hone : Canonical 1 (-1074) := ⟨by decide, le_rfl, .inr rfl⟩
  have hcompare := compare_scale (canonical_of_unpack hunpack) hone
  rw [hvalue, compare_eq_iff_eq.mpr rfl, Ordering.then_eq_eq, compare_eq_iff_eq,
    compare_eq_iff_eq] at hcompare
  obtain ⟨rfl, rfl⟩ := hcompare
  apply Exact.ofFloat_injective
  rw [exact_smallest, Exact.ofFloat, hunpack]
  rfl

end Smallest

namespace Closest

variable {x : Float} {y : ℝ}

theorem nonneg (h : Closest x y) (hy : 0 ≤ y) : 0 ≤ value x := by
  by_contra! hlt
  have hlt : (value x : ℝ) < 0 := by exact_mod_cast hlt
  have hzero := h.le 0 isFinite_zero
  rw [value_zero, Rat.cast_zero, abs_sub_comm, abs_of_nonneg (by linarith), zero_sub, abs_neg,
    abs_of_nonneg hy] at hzero
  linarith

theorem le_one (h : Closest x y) (hy : y ≤ 1) : value x ≤ 1 := by
  by_contra! hlt
  have hlt : (1 : ℝ) < value x := by exact_mod_cast hlt
  have hone := h.le 1 isFinite_one
  rw [value_one, Rat.cast_one, abs_of_nonneg (by linarith), abs_of_nonneg (by linarith)] at hone
  linarith

/-- A number rounds to zero up to half of the smallest double: there the two are as close, and the
mantissa of zero is even. -/
theorem pos_iff (h : Closest x y) (hy : 0 ≤ y) : 0 < value x ↔ (value smallest : ℝ) / 2 < y := by
  have hzero : |(value 0 : ℝ) - y| = y := by simp [abs_of_nonneg hy]
  constructor
  · intro hpos
    by_contra! hle
    have hge : (value smallest : ℝ) ≤ value x := by exact_mod_cast smallest_le h.isFinite hpos
    have hnear := h.le 0 isFinite_zero
    have heven := h.even 0 isFinite_zero
    rw [hzero, abs_of_nonneg (by linarith)] at hnear heven
    obtain rfl : x = smallest := by
      have hvalue : (value x : ℝ) = value smallest := by linarith
      exact eq_smallest h.isFinite (by exact_mod_cast hvalue)
    exact absurd (heven (by linarith)) (by decide +kernel)
  · intro hlt
    by_contra! hle
    have hx : value x = value 0 := value_zero ▸ le_antisymm hle (h.nonneg hy)
    have hnear := h.le smallest isFinite_smallest
    have hpos : (0 : ℝ) < value smallest := by exact_mod_cast value_smallest_pos
    rw [hx, hzero] at hnear
    rcases abs_cases ((value smallest : ℝ) - y) with habs | habs <;> linarith

/-- A double rounds to itself. -/
theorem self (hx : x.isFinite) (heven : (Fields.ofFloat x).mantissa % 2 = 0) :
    Closest x (value x) where
  isFinite := hx
  le z _ := by
    rw [sub_self, abs_zero]
    exact abs_nonneg _
  even z _ _ := heven ▸ Nat.zero_le _

theorem zero (hy : 0 ≤ y) (hle : y ≤ value smallest / 2) : Closest 0 y where
  isFinite := isFinite_zero
  le z hz := by
    rw [value_zero, Rat.cast_zero, zero_sub, abs_neg, abs_of_nonneg hy]
    rcases le_or_gt (value z) 0 with hneg | hpos
    · have hneg : (value z : ℝ) ≤ 0 := by exact_mod_cast hneg
      rw [abs_sub_comm, abs_of_nonneg (by linarith)]
      linarith
    · have hge : (value smallest : ℝ) ≤ value z := by exact_mod_cast smallest_le hz hpos
      have habs := le_abs_self ((value z : ℝ) - y)
      linarith
  even z _ _ := by
    rw [show (Fields.ofFloat 0).mantissa = 0 by decide +kernel]
    exact Nat.zero_le _

end Closest

end Montage.Decimal
