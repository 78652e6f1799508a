import Mathlib
import Montage.Proofs.Decimal.Ranges

/-!
What a quotient of doubles can be.  Divided by a number above zero, a finite double gives a number,
and divided by two or more it gives a finite one.
-/

namespace Montage.Decimal

open Float.Model Float.Model.UnpackedFloat

variable {x y : Float}

theorem isFinite_iff_exact :
    x.isFinite ↔ ∃ negative m q, Exact.ofFloat x = .finite negative m q := by
  refine ⟨exists_exact_of_isFinite, fun ⟨negative, m, q, h⟩ => ?_⟩
  rw [Exact.ofFloat] at h
  change x.toModel.unpack.isFinite
  cases hx : x.toModel.unpack with
  | zero | finite => rfl
  | notANumber | infinity =>
    rw [hx] at h
    contradiction

theorem isNaN_eq_false_iff : x.isNaN = false ↔ Exact.ofFloat x ≠ .nan := by
  change x.toModel.unpack.isNaN = false ↔ _
  rw [Exact.ofFloat]
  cases x.toModel.unpack <;> simp [Exact.ofUnpacked, UnpackedFloat.isNaN]

/-! ## Rounded mantissas -/

theorem mantissa_shift (em : ExtendedMantissa) (k : Nat) :
    (em >>> k).mantissa = em.mantissa / 2 ^ k := by
  induction k with
  | zero => simp [HShiftRight.hShiftRight, Nat.repeat]
  | succ k ih =>
    change (em >>> k).mantissa / 2 = _
    rw [ih, Nat.div_div_eq_div_mul, pow_succ]

theorem roundedMantissa_le (em : ExtendedMantissa) : em.roundedMantissa ≤ em.mantissa + 1 := by
  obtain ⟨n, round, sticky⟩ := em
  cases round <;> cases sticky
  · exact Nat.le_succ n
  · exact Nat.le_succ n
  · change n + n % 2 ≤ n + 1
    omega
  · exact Nat.le_refl _

/-- Rounding carries into one more bit at most. -/
theorem log2_roundedMantissa_le (n k : Nat) (acc : Accuracy) :
    ((ExtendedMantissa.ofMantissaAndAccuracy n acc) >>> k).roundedMantissa.log2 ≤
      n.log2 + 1 - k := by
  set r := ((ExtendedMantissa.ofMantissaAndAccuracy n acc) >>> k).roundedMantissa
  have hr : r ≤ n / 2 ^ k + 1 := by
    have hle := roundedMantissa_le ((ExtendedMantissa.ofMantissaAndAccuracy n acc) >>> k)
    rwa [mantissa_shift, mantissa_ofMantissaAndAccuracy] at hle
  have hn : n / 2 ^ k < 2 ^ (n.log2 + 1 - k) := by
    rw [Nat.div_lt_iff_lt_mul (by positivity), ← pow_add]
    exact Nat.lt_log2_self.trans_le (Nat.pow_le_pow_right two_pos (by omega))
  rcases Nat.eq_zero_or_pos r with hzero | hpos
  · rw [hzero, Nat.log2_zero]
    exact Nat.zero_le _
  · rw [← Nat.lt_succ_iff, Nat.log2_lt hpos.ne', pow_succ]
    have := Nat.two_pow_pos (n.log2 + 1 - k)
    omega

/-- How large the exponent of a rounded number can be. -/
theorem roundWithAccuracy_cases {n : Nat} {e bound : Int} (acc : Accuracy) (s : Sign)
    (he : e ≤ bound) (hn : n.log2 + e ≤ bound + 51) (hbound : -1074 ≤ bound) :
    roundWithAccuracy Format.binary64 s n e acc = .zero s ∨
      ∃ m q hm, roundWithAccuracy Format.binary64 s n e acc = .finite s m q hm ∧ q ≤ bound := by
  have hlog := log2_roundedMantissa_le n (target n e - e).toNat acc
  unfold roundWithAccuracy
  rw [shiftToTargetExponent_eq]
  dsimp only
  rw [shiftToTargetExponent_eq]
  dsimp only
  split
  case isTrue => exact .inl rfl
  case isFalse hne =>
    refine .inr ⟨_, _, Nat.pos_of_ne_zero hne, rfl, ?_⟩
    clear hne
    generalize
      (ExtendedMantissa.ofMantissaAndAccuracy n acc >>> (target n e - e).toNat).roundedMantissa = r
      at hlog ⊢
    unfold target at hlog ⊢
    omega

/-- A quotient of mantissas has no more bits than the mantissas leave it. -/
theorem log2_quotient_le {m₂ : Nat} (m₁ n : Nat) (h₂ : 0 < m₂) (hpos : 0 < (m₁ <<< n) / m₂) :
    ((m₁ <<< n) / m₂).log2 + m₂.log2 ≤ m₁.log2 + n := by
  set k := (m₁ <<< n) / m₂
  have hlt : 2 ^ (k.log2 + m₂.log2) < 2 ^ (m₁.log2 + 1 + n) := calc
    2 ^ (k.log2 + m₂.log2) = 2 ^ k.log2 * 2 ^ m₂.log2 := pow_add ..
    _ ≤ k * m₂ := Nat.mul_le_mul (Nat.log2_self_le hpos.ne') (Nat.log2_self_le h₂.ne')
    _ ≤ m₁ <<< n := Nat.div_mul_le_self ..
    _ = m₁ * 2 ^ n := Nat.shiftLeft_eq ..
    _ < 2 ^ (m₁.log2 + 1) * 2 ^ n := by
      gcongr
      exact Nat.lt_log2_self
    _ = 2 ^ (m₁.log2 + 1 + n) := (pow_add ..).symm
  have := (Nat.pow_lt_pow_iff_right (by decide)).mp hlt
  omega

theorem div_cases {m₁ m₂ : Nat} {e₁ e₂ bound : Int} (s₁ s₂ : Sign) (h₁ : 0 < m₁) (h₂ : 0 < m₂)
    (hle : m₁.log2 + e₁ - (m₂.log2 + e₂) ≤ bound + 51) (hbound : -1074 ≤ bound) :
    UnpackedFloat.div Format.binary64 (.finite s₁ m₁ e₁ h₁) (.finite s₂ m₂ e₂ h₂) =
        .zero (s₁ / s₂) ∨
      ∃ m q hm, UnpackedFloat.div Format.binary64 (.finite s₁ m₁ e₁ h₁) (.finite s₂ m₂ e₂ h₂) =
        .finite (s₁ / s₂) m q hm ∧ q ≤ bound := by
  set grid : Int := max ((m₁.log2 + 1 + e₁ - (m₂.log2 + 1 + e₂)) - 53) (-1074) with hgrid
  set e : Int := min (e₁ - e₂) grid with he
  set n : Nat := (e₁ - e₂ - e).toNat with hn
  have hbits := log2_quotient_le m₁ n h₂
  refine roundWithAccuracy_cases (n := (m₁ <<< n) / m₂) (e := e)
    (accuracyOfFraction ((m₁ <<< n) % m₂) m₂) (s₁ / s₂) (by omega) ?_ hbound
  rcases Nat.eq_zero_or_pos ((m₁ <<< n) / m₂) with hzero | hpos
  · rw [hzero, Nat.log2_zero]
    omega
  · have := hbits hpos
    omega

/-! ## Quotients of doubles -/

section Packed

variable {s : Sign} {m : Nat} {q : Int} {hm : 0 < m}

/-- What is not too large to be packed stays finite. -/
theorem isFinite_packed (hq : q ≤ 971) : (packed (.finite s m q hm)).isFinite := by
  have hbits : (packed (.finite s m q hm)).toModel.toBits.toBitVec =
      UnpackedFloat.pack Format.binary64 (.finite s m q hm) := rfl
  have hexponent : (Fields.ofFloat (packed (.finite s m q hm))).exponent ≠ 2047 := by
    unfold Fields.ofFloat Fields.exponentBits
    rw [hbits, pack_finite, if_neg (by omega)]
    split
    · rw [unpackExponent_packComponents]
      change (q + 1075).toNat % 2 ^ 11 ≠ 2047
      omega
    · rw [unpackExponent_packComponents]
      exact Nat.zero_ne_add_one 2046
  rw [isFinite_iff_exact, ← Fields.exact_ofFloat, Fields.exact, if_neg hexponent]
  split_ifs <;> exact ⟨_, _, _, rfl⟩

/-- What is too large becomes infinite. -/
theorem isNaN_packed : (packed (.finite s m q hm)).isNaN = false := by
  by_cases hq : q ≤ 971
  · exact isNaN_of_isFinite (isFinite_packed hq)
  · have hbits : (packed (.finite s m q hm)).toModel.toBits.toBitVec =
        packedInfinity Format.binary64 s := by
      change UnpackedFloat.pack Format.binary64 (.finite s m q hm) = _
      rw [pack_finite, if_pos (by omega)]
    have hmantissa : (Fields.ofFloat (packed (.finite s m q hm))).mantissa = 0 := by
      unfold Fields.ofFloat Fields.mantissaBits
      rw [hbits, packedInfinity, unpackMantissa_packComponents]
      rfl
    rw [isNaN_eq_false_iff, ← Fields.exact_ofFloat, Fields.exact, hmantissa]
    split_ifs <;> simp_all

theorem isFinite_packed_zero : (packed (.zero s)).isFinite := by
  cases s <;> decide +kernel

end Packed

theorem one_le_log2 {m : Nat} {q : Int} {hm : 0 < m}
    (hy : y.toModel.unpack = .finite .positive m q hm) (htwo : 2 ≤ value y) : 1 ≤ m.log2 + q := by
  have hvalue : value y = m * 2 ^ q := by
    rw [value, Exact.ofFloat, hy, value_ofUnpacked_positive]
  have hlt : (2 : ℚ) ^ (1 : Int) < 2 ^ (m.log2 + 1 + q : Int) := calc
    (2 : ℚ) ^ (1 : Int) ≤ m * 2 ^ q := by rwa [zpow_one, ← hvalue]
    _ < 2 ^ (m.log2 + 1) * 2 ^ q := by
      gcongr
      exact_mod_cast Nat.lt_log2_self
    _ = 2 ^ (m.log2 + 1 + q : Int) := by
      rw [zpow_add₀ two_ne_zero]
      norm_cast
  have := (zpow_lt_zpow_iff_right₀ one_lt_two).mp hlt
  omega

/-- A finite number divided by a number of at least two is finite. -/
theorem isFinite_div (hx : x.isFinite) (hy : y.isFinite) (htwo : 2 ≤ value y) :
    (x / y).isFinite := by
  have hpos : 0 < y := by
    rw [pos_iff_value_pos hy]
    linarith
  obtain ⟨m₂, e₂, h₂, hunpack₂⟩ := exists_unpack_of_pos hy hpos
  change (packed (UnpackedFloat.div Format.binary64 x.toModel.unpack y.toModel.unpack)).isFinite
  rw [hunpack₂]
  have hx' : x.toModel.unpack.isFinite := hx
  cases hunpack₁ : x.toModel.unpack with
  | notANumber | infinity =>
    rw [hunpack₁] at hx'
    contradiction
  | zero s => exact isFinite_packed_zero
  | finite s m₁ e₁ h₁ =>
    have hlog₁ : m₁.log2 ≤ 52 :=
      Nat.le_of_lt_succ ((Nat.log2_lt h₁.ne').mpr (canonical_of_unpack hunpack₁).lt)
    have he₁ : e₁ ≤ 971 := exponent_le_of_ofFloat (by rw [Exact.ofFloat, hunpack₁]; rfl)
    have hlog₂ := one_le_log2 hunpack₂ htwo
    have hle : m₁.log2 + e₁ - (m₂.log2 + e₂) ≤ 971 + 51 := by omega
    rcases div_cases s .positive h₁ h₂ hle (by decide) with hzero | ⟨m, q, hm, hfinite, hq⟩
    · rw [hzero]
      exact isFinite_packed_zero
    · rw [hfinite]
      exact isFinite_packed hq

/-- A finite number divided by a number above zero is a number, or infinite. -/
theorem isNaN_div (hx : x.isFinite) (hy : 0 < y) : (x / y).isNaN = false := by
  have hx' : x.toModel.unpack.isFinite := hx
  have hzero : (0 : Float).toModel.unpack = .zero .positive := rfl
  rw [lt_iff_compare, hzero] at hy
  change (packed (UnpackedFloat.div Format.binary64 x.toModel.unpack y.toModel.unpack)).isNaN =
    false
  generalize x.toModel.unpack = a at hx'
  generalize y.toModel.unpack = b at hy
  cases a with
  | notANumber | infinity => contradiction
  | zero s =>
    cases b with
    | notANumber | zero => contradiction
    | infinity | finite => exact isNaN_of_isFinite isFinite_packed_zero
  | finite s m₁ e₁ h₁ =>
    cases b with
    | notANumber | zero => contradiction
    | infinity => exact isNaN_of_isFinite isFinite_packed_zero
    | finite t m₂ e₂ h₂ =>
      obtain ⟨bound, hle, hbound⟩ :
          ∃ bound : Int, m₁.log2 + e₁ - (m₂.log2 + e₂) ≤ bound + 51 ∧ -1074 ≤ bound :=
        ⟨max (m₁.log2 + e₁ - (m₂.log2 + e₂)) (-1074), by omega, by omega⟩
      rcases div_cases s t h₁ h₂ hle hbound with hzero | ⟨m, q, hm, hfinite, -⟩
      · rw [hzero]
        exact isNaN_of_isFinite isFinite_packed_zero
      · rw [hfinite]
        exact isNaN_packed

/-- Only an infinity is a number and not finite. -/
theorem exists_unpack_infinity (hx : x.isNaN = false) (hinf : ¬x.isFinite) :
    ∃ s, x.toModel.unpack = .infinity s := by
  change x.toModel.unpack.isNaN = false at hx
  change ¬x.toModel.unpack.isFinite = true at hinf
  cases hu : x.toModel.unpack with
  | infinity s => exact ⟨s, rfl⟩
  | notANumber =>
    rw [hu] at hx
    contradiction
  | zero | finite =>
    rw [hu] at hinf
    exact absurd rfl hinf

theorem lt_of_unpack_negative (hx : x.toModel.unpack = .infinity .negative) (hy : y.isFinite) :
    x < y := by
  have hy' : y.toModel.unpack.isFinite := hy
  rw [lt_iff_compare, hx]
  cases hu : y.toModel.unpack with
  | zero | finite => rfl
  | notANumber | infinity =>
    rw [hu] at hy'
    contradiction

theorem lt_of_unpack_positive (hx : x.toModel.unpack = .infinity .positive) (hy : y.isFinite) :
    y < x ∧ ¬x < y := by
  have hy' : y.toModel.unpack.isFinite := hy
  rw [lt_iff_compare, lt_iff_compare, hx]
  cases hu : y.toModel.unpack with
  | zero | finite => exact ⟨rfl, Bool.false_ne_true⟩
  | notANumber | infinity =>
    rw [hu] at hy'
    contradiction

/-- What is a number is kept in a range, an infinity too. -/
theorem le_clamp_of_isNaN {low high : Float} (hlow : low.isFinite) (hhigh : high.isFinite)
    (hle : low ≤ high) (hx : x.isNaN = false) :
    low ≤ Seconds.clamp low high x ∧ Seconds.clamp low high x ≤ high := by
  by_cases hfinite : x.isFinite
  · exact le_clamp hlow hhigh hle hfinite
  · obtain ⟨s, hs⟩ := exists_unpack_infinity hx hfinite
    cases s with
    | negative =>
      rw [Seconds.clamp, if_pos (lt_of_unpack_negative hs hlow)]
      exact ⟨le_self hlow, hle⟩
    | positive =>
      rw [Seconds.clamp, if_neg (lt_of_unpack_positive hs hlow).2,
        if_pos (lt_of_unpack_positive hs hhigh).1]
      exact ⟨hle, le_self hhigh⟩

end Montage.Decimal
