import Mathlib
import Montage.Decimal.Reading
import Montage.Proofs.Decimal.Plain
import Montage.Proofs.Decimal.Rounding

/-!
A decimal reads as the double whose basin holds it, so the text of a double reads as the double
itself.
-/

namespace Montage.Decimal

open Float.Model Float.Model.UnpackedFloat

/-! ## Whole numbers and powers of ten -/

theorem holds_self {m : Nat} (hm : 0 < m) (q : Int) :
    (Basin.ofBinary m q).Holds (m * 2 ^ q) := by
  have hpos : (0 : ℚ) < 2 ^ q := by positivity
  have hlow : lowEnd m q < m * 2 ^ q := by
    unfold lowEnd
    gcongr
    split <;> linarith
  have hhigh : m * 2 ^ q < highEnd m q := by
    unfold highEnd
    gcongr
    linarith
  rw [Basin.holds_ofBinary hm]
  split
  · exact ⟨hlow.le, hhigh.le⟩
  · exact ⟨hlow, hhigh⟩

/-- A double above zero, and its exact value. -/
def Denotes (x : Float) (y : ℚ) : Prop :=
  ∃ m q, ∃ hm : 0 < m, x.toModel.unpack = .finite .positive m q hm ∧ m * 2 ^ q = y

/-- The same, with a mantissa that fills the double. -/
def Fills (x : Float) (y : ℚ) : Prop :=
  ∃ m q, ∃ hm : 0 < m, x.toModel.unpack = .finite .positive m q hm ∧ 2 ^ 52 ≤ m ∧ m * 2 ^ q = y

theorem Fills.denotes {x : Float} {y : ℚ} (h : Fills x y) : Denotes x y :=
  have ⟨m, q, hm, hunpack, _, hy⟩ := h
  ⟨m, q, hm, hunpack, hy⟩

section Arithmetic

variable {m : Nat} {q : Int} (hm : 0 < m) (hcanonical : Canonical m q) {x y : Float} {a b : ℚ}

include hcanonical

theorem mul_eq_packed (hx : Fills x a) (hy : Denotes y b) (h : (Basin.ofBinary m q).Holds (a * b)) :
    x * y = packed (.finite .positive m q hm) := by
  obtain ⟨m₁, e₁, h₁, hunpack₁, hlead, rfl⟩ := hx
  obtain ⟨m₂, e₂, h₂, hunpack₂, rfl⟩ := hy
  have hbits : 2 ^ 52 ≤ m₁ * m₂ := hlead.trans (Nat.le_mul_of_pos_right m₁ h₂)
  change packed (UnpackedFloat.mul Format.binary64 x.toModel.unpack y.toModel.unpack) = _
  rw [hunpack₁, hunpack₂, mul_eq hm h₁ h₂ hcanonical hbits h]

theorem div_eq_packed (hx : Denotes x a) (hy : Denotes y b)
    (h : (Basin.ofBinary m q).Holds (a / b)) : x / y = packed (.finite .positive m q hm) := by
  obtain ⟨m₁, e₁, h₁, hunpack₁, rfl⟩ := hx
  obtain ⟨m₂, e₂, h₂, hunpack₂, rfl⟩ := hy
  change packed (UnpackedFloat.div Format.binary64 x.toModel.unpack y.toModel.unpack) = _
  rw [hunpack₁, hunpack₂, div_eq hm h₁ h₂ hcanonical h]

end Arithmetic

/-- A whole number that fits into a mantissa is a double. -/
theorem fills_toFloat {n : Nat} (hn : 0 < n) (hlt : n < 2 ^ 53) : Fills n.toUInt64.toFloat n := by
  have hlog : n.log2 ≤ 52 := Nat.le_of_lt_succ ((Nat.log2_lt hn.ne').mpr hlt)
  obtain ⟨k, hk⟩ : ∃ k, n.log2 + k = 52 := ⟨52 - n.log2, by omega⟩
  have hlead : 2 ^ 52 ≤ n * 2 ^ k := by
    rw [← hk, pow_add]
    gcongr
    exact Nat.log2_self_le hn.ne'
  have hbits : n * 2 ^ k < 2 ^ 53 := by
    rw [show 53 = n.log2 + 1 + k by omega, pow_add]
    gcongr
    exact Nat.lt_log2_self
  have hvalue : ((n * 2 ^ k : Nat) : ℚ) * 2 ^ (-k : Int) = n := by
    rw [zpow_neg, zpow_natCast]
    push_cast
    field_simp
  have hpos : 0 < n * 2 ^ k := by positivity
  have hcanonical : Canonical (n * 2 ^ k) (-k) := ⟨hbits, by omega, .inl hlead⟩
  have htarget : (0 - target n 0).toNat = k := by
    unfold target
    omega
  have hround : UnpackedFloat.round Format.binary64 .positive n 0 =
      .finite .positive (n * 2 ^ k) (-k) hpos := by
    change roundWithAccuracy Format.binary64 .positive (n <<< (0 - target n 0).toNat)
      (0 - ((0 - target n 0).toNat : Int)) .exact = _
    rw [htarget, Nat.shiftLeft_eq, zero_sub]
    refine roundWithAccuracy_eq hpos hcanonical (holds_self hpos _) ?_ ?_ .positive
    · rw [mul_div_cancel_right₀ _ (by positivity)]
      exact stands_exact _
    · have hfull := (Nat.le_log2 hpos.ne').mpr hlead
      unfold target
      omega
  have hnat : n.toUInt64.toNat = n := by
    rw [Nat.toUInt64_eq, UInt64.toNat_ofNat']
    exact Nat.mod_eq_of_lt (by omega)
  have hof : UnpackedFloat.ofUInt64 Format.binary64 n.toUInt64 =
      .finite .positive (n * 2 ^ k) (-k) hpos := by
    have hcompare : compare (n : Int) 0 = .gt := compare_gt_iff_gt.mpr (by omega)
    rw [UnpackedFloat.ofUInt64, UnpackedFloat.ofNat, UnpackedFloat.ofInt, UnpackedFloat.normalize,
      hnat, hcompare]
    exact hround
  refine ⟨n * 2 ^ k, -k, hpos, ?_, hlead, hvalue⟩
  change (packed (UnpackedFloat.ofUInt64 Format.binary64 n.toUInt64)).toModel.unpack = _
  rw [hof, unpack_packed hpos hcanonical (by omega)]

/-- The double is this whole number, and its mantissa fills it. -/
def isExactly (x : Float) (n : Nat) : Bool :=
  match Exact.ofFloat x with
  | .finite false m q =>
    2 ^ 52 ≤ m && (Ratio.ofBinary m q).num == n * (Ratio.ofBinary m q).den
  | _ => false

theorem fills_of_isExactly {x : Float} {n : Nat} (h : isExactly x n) : Fills x n := by
  unfold isExactly at h
  split at h
  case h_2 => contradiction
  case h_1 m q hexact =>
    simp only [Bool.and_eq_true, decide_eq_true_eq, beq_iff_eq] at h
    have hm : 0 < m := by omega
    have hden : ((Ratio.ofBinary m q).den : ℚ) ≠ 0 := by
      exact_mod_cast (Ratio.den_pos_ofBinary m q).ne'
    refine ⟨m, q, hm, unpack_eq_of_exact hm hexact, h.1, ?_⟩
    rw [← Ratio.value_ofBinary, Ratio.value, div_eq_iff hden]
    exact_mod_cast h.2

theorem isExactly_powerOfTen : ∀ e (_ : e < Float.exactlyRepresentablePowersOfTen.size),
    isExactly Float.exactlyRepresentablePowersOfTen[e] (10 ^ e) := by
  decide +kernel

theorem fills_powerOfTen {e : Nat} (he : e < Float.exactlyRepresentablePowersOfTen.size) :
    Fills Float.exactlyRepresentablePowersOfTen[e] (10 ^ e) := by
  exact_mod_cast fills_of_isExactly (isExactly_powerOfTen e he)

section Scientific

variable {m : Nat} {q : Int} (hm : 0 < m) (hcanonical : Canonical m q)

include hcanonical

theorem ofScientific_positive {n e : Nat} (hn : 0 < n) (he : e ≤ 2 ^ 11)
    (h : (Basin.ofBinary m q).Holds (n * 10 ^ e)) :
    Float.ofScientific n false e = packed (.finite .positive m q hm) := by
  unfold Float.ofScientific
  split
  case isTrue hfast =>
    exact mul_eq_packed hm hcanonical (fills_toFloat hn hfast.1) (fills_powerOfTen _).denotes h
  case isFalse =>
    have hpow : 0 < 10 ^ e := by positivity
    have hbits : 2 ^ 52 ≤ n <<< 53 * 10 ^ e := by
      rw [Nat.shiftLeft_eq]
      nlinarith
    have hholds : (Basin.ofBinary m q).Holds
        ((n <<< 53 : Nat) * 2 ^ (-53 : Int) * ((10 ^ e : Nat) * 2 ^ (0 : Int))) := by
      have hvalue : ((n <<< 53 : Nat) * 2 ^ (-53 : Int) * ((10 ^ e : Nat) * 2 ^ (0 : Int)) : ℚ) =
          n * 10 ^ e := by
        rw [Nat.shiftLeft_eq]
        push_cast
        norm_num
        ring
      rwa [hvalue]
    have hmul := mul_eq hm (by rw [Nat.shiftLeft_eq]; omega) hpow hcanonical hbits hholds
    change packed (UnpackedFloat.ofScientific Format.binary64 n e) = _
    congr 1
    have hlarge : ¬(e : Int) > 2 ^ Format.binary64.exponentBits := by
      change ¬(e : Int) > 2 ^ 11
      omega
    have hsmall : ¬(e : Int) < -(2 ^ Format.binary64.exponentBits + (n.log2 : Int)) := by
      change ¬(e : Int) < -(2 ^ 11 + (n.log2 : Int))
      omega
    unfold UnpackedFloat.ofScientific
    rw [dif_neg hn.ne', if_neg hlarge, if_neg hsmall, if_pos (by omega)]
    exact hmul

theorem ofScientific_negative {n e : Nat} (hn : 0 < n) (he : e < 2 ^ 11 + n.log2)
    (h : (Basin.ofBinary m q).Holds (n / 10 ^ (e + 1))) :
    Float.ofScientific n true (e + 1) = packed (.finite .positive m q hm) := by
  unfold Float.ofScientific
  split
  case isTrue hfast =>
    exact div_eq_packed hm hcanonical (fills_toFloat hn hfast.1).denotes
      (fills_powerOfTen _).denotes h
  case isFalse =>
    have hpow : 0 < 10 ^ (e + 1) := by positivity
    have hholds : (Basin.ofBinary m q).Holds
        (n * 2 ^ (0 : Int) / ((10 ^ (e + 1) : Nat) * 2 ^ (0 : Int))) := by
      simpa using h
    have hdiv := div_eq hm hn hpow hcanonical hholds
    have hlarge : ¬Int.negSucc e > 2 ^ Format.binary64.exponentBits := by
      change ¬Int.negSucc e > 2 ^ 11
      omega
    have hsmall : ¬Int.negSucc e < -(2 ^ Format.binary64.exponentBits + (n.log2 : Int)) := by
      change ¬Int.negSucc e < -(2 ^ 11 + (n.log2 : Int))
      omega
    change packed (UnpackedFloat.ofScientific Format.binary64 n (Int.negSucc e)) = _
    congr 1
    unfold UnpackedFloat.ofScientific
    rw [dif_neg hn.ne', if_neg hlarge, if_neg hsmall, if_neg (by omega)]
    exact hdiv

end Scientific

/-! ## The nearest double -/

section Nearest

variable {m : Nat} {q : Int} {n : Nat} {e : Int}

theorem lt_pow_length_digitChars (n : Nat) : n < 10 ^ (digitChars n).length :=
  (Nat.length_toDigits_le_iff (by decide) Nat.length_toDigits_pos).mp le_rfl

theorem pow_length_digitChars_le (hn : 0 < n) : 10 ^ ((digitChars n).length - 1) ≤ n := by
  rcases Nat.eq_zero_or_pos ((digitChars n).length - 1) with hzero | hpos
  · rw [hzero]
    exact hn
  · by_contra hlt
    have hshort := (Nat.length_toDigits_le_iff (by decide) hpos).mpr (Nat.lt_of_not_le hlt)
    unfold digitChars at hshort hpos
    omega

theorem length_digitChars_le (hn : 0 < n) : (digitChars n).length ≤ n.log2 + 1 := by
  have hpow : 2 ^ ((digitChars n).length - 1) < 2 ^ (n.log2 + 1) := calc
    2 ^ ((digitChars n).length - 1) ≤ 10 ^ ((digitChars n).length - 1) :=
      Nat.pow_le_pow_left (by decide) _
    _ ≤ n := pow_length_digitChars_le hn
    _ < 2 ^ (n.log2 + 1) := Nat.lt_log2_self
  have hlt := (Nat.pow_lt_pow_iff_right (by decide)).mp hpow
  omega

theorem pow_two_lt_pow_ten : 2 ^ 1075 < 10 ^ 400 := by decide +kernel

/-- A decimal that rounds to a double is neither too large nor too small for one. -/
theorem size_bounds (hn : 0 < n) (hm : 0 < m) (hcanonical : Canonical m q) (hq : q ≤ 971)
    (h : (Basin.ofBinary m q).Holds (n * 10 ^ e)) :
    -400 ≤ ((digitChars n).length + e : Int) ∧ ((digitChars n).length + e : Int) ≤ 400 := by
  obtain ⟨hlow, hhigh⟩ : lowEnd m q ≤ n * 10 ^ e ∧ n * 10 ^ e ≤ highEnd m q := by
    rw [Basin.holds_ofBinary hm] at h
    split at h
    · exact h
    · exact ⟨h.1.le, h.2.le⟩
  have hlength : 0 < (digitChars n).length := Nat.length_toDigits_pos
  have hten : (0 : ℚ) < 10 ^ e := by positivity
  constructor
  · have hone : (1 : ℚ) ≤ m := by exact_mod_cast hm
    have hdigits : (n : ℚ) < 10 ^ (digitChars n).length := by
      exact_mod_cast lt_pow_length_digitChars n
    have hsmallest : (2 : ℚ) ^ (-1075 : Int) ≤ (m - 1 / 2) * 2 ^ q := calc
      (2 : ℚ) ^ (-1075 : Int) = 1 / 2 * 2 ^ (-1074 : Int) := by
        rw [show (-1075 : Int) = -1 + -1074 by rfl, zpow_add₀ two_ne_zero, zpow_neg_one, one_div]
      _ ≤ (m - 1 / 2) * 2 ^ q :=
        mul_le_mul (by linarith) (zpow_le_zpow_right₀ one_le_two hcanonical.le) (by positivity)
          (by linarith)
    have hpow : (10 : ℚ) ^ (-400 : Int) < 10 ^ ((digitChars n).length + e : Int) := calc
      (10 : ℚ) ^ (-400 : Int) < 2 ^ (-1075 : Int) := by
        rw [zpow_neg, zpow_neg, inv_lt_inv₀ (by positivity) (by positivity)]
        exact_mod_cast pow_two_lt_pow_ten
      _ ≤ (m - 1 / 2) * 2 ^ q := hsmallest
      _ ≤ lowEnd m q := half_le_lowEnd m q
      _ ≤ n * 10 ^ e := hlow
      _ < 10 ^ (digitChars n).length * 10 ^ e := by gcongr
      _ = 10 ^ ((digitChars n).length + e : Int) := by
        rw [zpow_add₀ (by norm_num), zpow_natCast]
    exact ((zpow_lt_zpow_iff_right₀ (by norm_num)).mp hpow).le
  · have hmantissa : (m : ℚ) + 1 ≤ 2 ^ 53 := by exact_mod_cast hcanonical.lt
    have hdigits : (10 : ℚ) ^ ((digitChars n).length - 1) ≤ n := by
      exact_mod_cast pow_length_digitChars_le hn
    have hpow : (10 : ℚ) ^ ((digitChars n).length - 1 + e : Int) < 10 ^ (400 : Int) := calc
      (10 : ℚ) ^ ((digitChars n).length - 1 + e : Int) =
          10 ^ ((digitChars n).length - 1) * 10 ^ e := by
        rw [zpow_add₀ (by norm_num), ← zpow_natCast, Nat.cast_sub hlength, Nat.cast_one]
      _ ≤ n * 10 ^ e := by gcongr
      _ ≤ (m + 1 / 2) * 2 ^ q := hhigh
      _ ≤ 2 ^ 53 * 2 ^ (971 : Int) :=
        mul_le_mul (by linarith) (zpow_le_zpow_right₀ one_le_two hq) (by positivity) (by positivity)
      _ = 2 ^ (1024 : Int) := by
        rw [show (1024 : Int) = 53 + 971 by rfl, zpow_add₀ two_ne_zero]
        rfl
      _ ≤ 2 ^ (1075 : Int) := zpow_le_zpow_right₀ one_le_two (by decide)
      _ < 10 ^ (400 : Int) := by exact_mod_cast pow_two_lt_pow_ten
    have := (zpow_lt_zpow_iff_right₀ (by norm_num)).mp hpow
    omega

theorem neg_packed (hm : 0 < m) (hcanonical : Canonical m q) (hq : q ≤ 971) :
    -packed (.finite .positive m q hm) = packed (.finite .negative m q hm) := by
  change packed (packed (.finite .positive m q hm)).toModel.unpack.neg = _
  rw [unpack_packed hm hcanonical hq]
  rfl

theorem nearest_eq_neg (negative : Bool) (n : Nat) (e : Int) :
    nearest negative n e = if negative then -nearest false n e else nearest false n e := by
  cases negative <;> rfl

/-- A decimal in the basin of a positive double reads as the double. -/
theorem nearest_eq_packed (hm : 0 < m) (hcanonical : Canonical m q) (hq : q ≤ 971)
    (h : (Basin.ofBinary m q).Holds (n * 10 ^ e)) :
    nearest false n e = packed (.finite .positive m q hm) := by
  have hn : 0 < n := by
    refine Nat.pos_of_ne_zero ?_
    rintro rfl
    simpa using pos_of_holds hm h
  have hlength := length_digitChars_le hn
  obtain ⟨hlow, hhigh⟩ := size_bounds hn hm hcanonical hq h
  unfold digitChars at hlength hlow hhigh
  unfold nearest
  dsimp only
  rw [if_neg Bool.false_ne_true, if_neg (by omega), if_neg (by omega)]
  cases e with
  | ofNat k =>
    rw [Int.ofNat_eq_natCast] at hhigh
    refine ofScientific_positive hm hcanonical hn ?_ ?_
    · omega
    · simpa using h
  | negSucc k =>
    refine ofScientific_negative hm hcanonical hn ?_ ?_
    · omega
    · rwa [zpow_negSucc, ← div_eq_mul_inv] at h

/-- A decimal in the basin of a double reads as the double. -/
theorem nearest_eq {x : Float} {negative : Bool} (hm : 0 < m)
    (hx : Exact.ofFloat x = .finite negative m q)
    (h : (Basin.ofBinary m q).Holds (n * 10 ^ e)) : nearest negative n e = x := by
  have hcanonical := canonical_of_ofFloat hm hx
  have hq := exponent_le_of_ofFloat hx
  apply Exact.ofFloat_injective
  rw [hx, nearest_eq_neg, nearest_eq_packed hm hcanonical hq h]
  cases negative with
  | false => exact exact_packed hm hcanonical hq
  | true =>
    rw [if_pos rfl, neg_packed hm hcanonical hq]
    exact exact_packed hm hcanonical hq

theorem nearest_zero {x : Float} {negative : Bool} (hx : Exact.ofFloat x = .finite negative 0 q) :
    nearest negative 0 e = x := by
  have hzero : nearest false 0 e = 0.0 := by
    unfold nearest
    rw [if_neg Bool.false_ne_true]
    exact if_pos (Or.inl rfl)
  apply Exact.ofFloat_injective
  rw [hx, exponent_eq_zero_of_ofFloat hx, nearest_eq_neg, hzero]
  cases negative <;> decide +kernel

/-- A decimal that stands for zero or for a number in the basin of a double reads as the double. -/
theorem Written.nearest_eq {x : Float} {negative : Bool} {w : Written} {y : ℚ}
    (hx : Exact.ofFloat x = .finite negative m q) (hvalue : w.value = y)
    (hy : if m = 0 then y = 0 else (Basin.ofBinary m q).Holds y) :
    nearest negative w.mantissa w.exponent = x := by
  subst hvalue
  split at hy
  case isTrue hm =>
    rw [Written.value, mul_eq_zero, Nat.cast_eq_zero] at hy
    rw [hy.resolve_right (by positivity)]
    exact nearest_zero (hm ▸ hx)
  case isFalse hm => exact Decimal.nearest_eq (Nat.pos_of_ne_zero hm) hx hy

end Nearest

end Montage.Decimal
