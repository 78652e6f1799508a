import Mathlib
import Montage.Proofs.Decimal.Rounding
import Montage.Proofs.Timeline.Moments

/-!
Doubles that are kept in a range.  What lies between finite bounds is finite; to clamp, to take the
smaller or the larger and to round to whole numbers all respect bounds.
-/

namespace Montage

open Float.Model

namespace Decimal

variable {low high x y : Float}

theorem isFinite_of_le_of_le (hlow : low.isFinite) (hhigh : high.isFinite) (hle : low ≤ x)
    (hge : x ≤ high) : x.isFinite := by
  rw [le_iff_compare] at hle hge
  have hlow' : low.toModel.unpack.isFinite := hlow
  have hhigh' : high.toModel.unpack.isFinite := hhigh
  change x.toModel.unpack.isFinite
  generalize x.toModel.unpack = a at *
  generalize low.toModel.unpack = b at *
  generalize high.toModel.unpack = c at *
  cases a with
  | zero | finite => rfl
  | notANumber => cases b <;> contradiction
  | infinity s =>
    cases s with
    | negative => cases b <;> contradiction
    | positive => cases c <;> contradiction

theorem le_of_not_lt (hx : x.isFinite) (hy : y.isFinite) (h : ¬x < y) : y ≤ x := by
  rw [lt_iff_value_lt hx hy, not_lt] at h
  rwa [le_iff_value_le hy hx]

theorem le_self (hx : x.isFinite) : x ≤ x := (le_iff_value_le hx hx).mpr le_rfl

theorem le_of_lt (hx : x.isFinite) (hy : y.isFinite) (h : x < y) : x ≤ y := by
  rw [lt_iff_value_lt hx hy] at h
  exact (le_iff_value_le hx hy).mpr h.le

/-- What a double is that stands for a number above zero. -/
theorem exists_unpack_of_pos (hx : x.isFinite) (hpos : 0 < x) :
    ∃ m q hm, x.toModel.unpack = .finite .positive m q hm := by
  have hx' : x.toModel.unpack.isFinite := hx
  have hzero : (0 : Float).toModel.unpack = .zero .positive := rfl
  rw [lt_iff_compare, hzero] at hpos
  cases hu : x.toModel.unpack with
  | notANumber | infinity =>
    rw [hu] at hx'
    contradiction
  | zero =>
    rw [hu] at hpos
    contradiction
  | finite s m q hm =>
    cases s with
    | positive => exact ⟨m, q, hm, rfl⟩
    | negative =>
      rw [hu] at hpos
      contradiction

section Products

open Float.Model.UnpackedFloat

theorem negative_packed {m : Nat} {q : Int} (hm : 0 < m) :
    (Fields.ofFloat (packed (.finite .positive m q hm))).negative = false := by
  have hbits : (packed (.finite .positive m q hm)).toModel.toBits.toBitVec =
      UnpackedFloat.pack Format.binary64 (.finite .positive m q hm) := rfl
  unfold Fields.ofFloat Fields.signBit
  rw [hbits, pack_finite, packedInfinity]
  split
  · rw [unpackSign_packComponents]
    rfl
  · split <;> rw [unpackSign_packComponents] <;> rfl

/-- A double without a sign is not minus infinity. -/
theorem ofFloat_ne_of_negative (h : (Fields.ofFloat x).negative = false) :
    Exact.ofFloat x ≠ .infinite true := by
  rw [← Fields.exact_ofFloat, Fields.exact, h]
  split_ifs <;> simp

/-- A product of numbers above zero does not fall to minus infinity. -/
theorem ofFloat_mul_ne (hx : x.isFinite) (hy : y.isFinite) (hx0 : 0 < x) (hy0 : 0 < y) :
    Exact.ofFloat (x * y) ≠ .infinite true := by
  obtain ⟨m₁, e₁, h₁, hunpack₁⟩ := exists_unpack_of_pos hx hx0
  obtain ⟨m₂, e₂, h₂, hunpack₂⟩ := exists_unpack_of_pos hy hy0
  apply ofFloat_ne_of_negative
  change (Fields.ofFloat
    (packed (UnpackedFloat.mul Format.binary64 x.toModel.unpack y.toModel.unpack))).negative = false
  rw [hunpack₁, hunpack₂]
  change (Fields.ofFloat (packed (roundWithAccuracy Format.binary64 .positive _ _ _))).negative =
    false
  unfold roundWithAccuracy
  dsimp only
  split
  · decide +kernel
  · exact negative_packed _

end Products

theorem isFinite_smaller (hx : Exact.ofFloat x ≠ .infinite true) (hy : y.isFinite) :
    (Seconds.smaller x y).isFinite := by
  unfold Seconds.smaller
  split
  case isTrue => exact hy
  case isFalse hnan =>
    split
    case isTrue => exact hy
    case isFalse hlt =>
      have hy' : y.toModel.unpack.isFinite := hy
      change ¬x.toModel.unpack.isNaN = true at hnan
      rw [lt_iff_compare] at hlt
      rw [Exact.ofFloat] at hx
      change x.toModel.unpack.isFinite
      generalize x.toModel.unpack = a at *
      generalize y.toModel.unpack = b at *
      cases a with
      | zero | finite => rfl
      | notANumber => exact absurd rfl hnan
      | infinity s =>
        cases s with
        | negative => exact absurd rfl hx
        | positive => cases b <;> contradiction

theorem isNaN_of_isFinite (hx : x.isFinite) : x.isNaN = false := by
  change x.toModel.unpack.isFinite at hx
  change x.toModel.unpack.isNaN = false
  cases h : x.toModel.unpack with
  | infinity | zero | finite => rfl
  | notANumber =>
    rw [h] at hx
    contradiction

theorem isFinite_larger (hx : x.isFinite) (hy : y.isFinite) : (Seconds.larger x y).isFinite := by
  rcases Seconds.larger_eq_or x y with h | h <;> rwa [h]

/-- The larger of two finite doubles is above both. -/
theorem le_larger (hx : x.isFinite) (hy : y.isFinite) :
    x ≤ Seconds.larger x y ∧ y ≤ Seconds.larger x y := by
  simp only [Seconds.larger, isNaN_of_isFinite hx, Bool.false_eq_true, if_false]
  split
  case isTrue hlt => exact ⟨le_of_lt hx hy hlt, le_self hy⟩
  case isFalse hlt => exact ⟨le_self hx, le_of_not_lt hx hy hlt⟩

theorem le_trans (hx : x.isFinite) (hy : y.isFinite) {z : Float} (hz : z.isFinite) (h : x ≤ y)
    (h' : y ≤ z) : x ≤ z := by
  rw [le_iff_value_le hx hy] at h
  rw [le_iff_value_le hy hz] at h'
  exact (le_iff_value_le hx hz).mpr (h.trans h')

theorem le_foldl_larger {xs : List Float} (hxs : ∀ y ∈ xs, y.isFinite) (hx : x.isFinite) :
    (xs.foldl Seconds.larger x).isFinite ∧
      ∀ y ∈ x :: xs, y ≤ xs.foldl Seconds.larger x := by
  induction xs generalizing x with
  | nil => simpa [hx] using le_self hx
  | cons y ys ih =>
    rw [List.forall_mem_cons] at hxs
    have hlarger := isFinite_larger hx hxs.1
    obtain ⟨hfinite, hle⟩ := ih hxs.2 hlarger
    rw [List.forall_mem_cons] at hle
    obtain ⟨hxle, hyle⟩ := le_larger hx hxs.1
    refine ⟨hfinite, ?_⟩
    rw [List.forall_mem_cons, List.forall_mem_cons]
    exact ⟨le_trans hx hlarger hfinite hxle hle.1, le_trans hxs.1 hlarger hfinite hyle hle.1, hle.2⟩

theorem le_clamp (hlow : low.isFinite) (hhigh : high.isFinite) (hle : low ≤ high)
    (hx : x.isFinite) : low ≤ Seconds.clamp low high x ∧ Seconds.clamp low high x ≤ high := by
  unfold Seconds.clamp
  split
  case isTrue => exact ⟨le_self hlow, hle⟩
  case isFalse hx_low =>
    split
    case isTrue => exact ⟨hle, le_self hhigh⟩
    case isFalse hx_high => exact ⟨le_of_not_lt hx hlow hx_low, le_of_not_lt hhigh hx hx_high⟩

namespace Ratio

variable {r : Ratio} (hr : 0 < r.den) {n : Nat}

include hr

theorem le_roundHalfUp (h : n ≤ r.value) : n ≤ r.roundHalfUp := by
  have hden : (0 : ℚ) < r.den := by exact_mod_cast hr
  rw [value, le_div_iff₀ hden] at h
  have h : n * r.den ≤ r.num := by exact_mod_cast h
  rw [roundHalfUp, Nat.le_div_iff_mul_le (by omega), Nat.mul_left_comm]
  omega

theorem roundHalfUp_le (h : r.value ≤ n) : r.roundHalfUp ≤ n := by
  have hden : (0 : ℚ) < r.den := by exact_mod_cast hr
  rw [value, div_le_iff₀ hden] at h
  have h : r.num ≤ n * r.den := by exact_mod_cast h
  rw [roundHalfUp, ← Nat.lt_succ_iff, Nat.div_lt_iff_lt_mul (by omega), Nat.mul_left_comm,
    Nat.succ_mul n]
  omega

end Ratio

/-- What is rounded stays between the whole numbers that it was between. -/
theorem le_roundWithin {limit m n : Nat} (hx : x.isFinite) (hm : m ≤ value x) (hn : value x ≤ n)
    (hlimit : m ≤ limit) : m ≤ roundWithin limit x ∧ roundWithin limit x ≤ n := by
  obtain ⟨negative, k, q, hexact⟩ := exists_exact_of_isFinite hx
  have hvalue : value x = (if negative then -1 else 1) * (k * 2 ^ q) := by
    rw [value, hexact, Exact.value]
  have hscale : (0 : ℚ) ≤ k * 2 ^ q := by positivity
  rw [roundWithin, hexact]
  rw [hvalue] at hm hn
  cases negative with
  | true =>
    have hzero : (m : ℚ) ≤ 0 := by
      simp only [if_true, neg_one_mul] at hm
      linarith
    exact ⟨by exact_mod_cast hzero, Nat.zero_le n⟩
  | false =>
    simp only [Bool.false_eq_true, if_false, one_mul, ← Ratio.value_ofBinary] at hm hn ⊢
    have hden := Ratio.den_pos_ofBinary k q
    exact ⟨le_min (Ratio.le_roundHalfUp hden hm) hlimit,
      (min_le_left _ _).trans (Ratio.roundHalfUp_le hden hn)⟩

end Decimal

end Montage
