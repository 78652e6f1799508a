import Mathlib
import Montage.Proofs.Decimal.Basin

/-!
Arithmetic on doubles rounds to the double whose basin holds the exact result.  A result is first
a whole mantissa with two bits for what lies below it; these bits survive every shift, so the
rounding sees the exact result on the grid of the double.
-/

namespace Montage.Decimal

open Float.Model Float.Model.UnpackedFloat

/-! ## The bits below the mantissa -/

/-- The mantissa and its two bits stand for the exact number: the first bit is a half, the second
tells whether anything is left. -/
def Stands (em : ExtendedMantissa) (t : ℚ) : Prop :=
  ∃ r : ℚ, 0 ≤ r ∧ r < 1 / 2 ∧ (em.stickyBit = true ↔ r ≠ 0) ∧
    t = em.mantissa + (if em.roundBit then 1 / 2 else 0) + r

namespace Stands

variable {em : ExtendedMantissa} {t : ℚ}

theorem le (h : Stands em t) : (em.mantissa : ℚ) ≤ t := by
  obtain ⟨r, hr, -, -, rfl⟩ := h
  split <;> linarith

theorem lt (h : Stands em t) : t < em.mantissa + 1 := by
  obtain ⟨r, -, hr, -, rfl⟩ := h
  split <;> linarith

theorem shiftRightOne (h : Stands em t) : Stands em.shiftRightOne (t / 2) := by
  obtain ⟨r, hr, hlt, hsticky, rfl⟩ := h
  obtain ⟨n, round, sticky⟩ := em
  have hn : (n : ℚ) = 2 * (n / 2 : Nat) + (n % 2 : Nat) := by
    exact_mod_cast (Nat.div_add_mod n 2).symm
  refine ⟨((if round then 1 / 2 else 0) + r) / 2, ?_, ?_, ?_, ?_⟩
  · split <;> linarith
  · split <;> linarith
  · dsimp only [ExtendedMantissa.shiftRightOne] at hsticky ⊢
    cases round with
    | true =>
      have hpos : (1 / 2 + r) / 2 ≠ 0 := by linarith
      exact iff_of_true rfl hpos
    | false => simp [hsticky]
  · dsimp only [ExtendedMantissa.shiftRightOne]
    rw [hn]
    rcases Nat.mod_two_eq_zero_or_one n with hmod | hmod <;> simp [hmod] <;> ring

theorem shift (h : Stands em t) (n : Nat) : Stands (em >>> n) (t / 2 ^ n) := by
  induction n with
  | zero => simpa [HShiftRight.hShiftRight, Nat.repeat] using h
  | succ n ih =>
    have hnext := ih.shiftRightOne
    rw [div_div, ← pow_succ] at hnext
    exact hnext

end Stands

/-- A whole number that the number rounds to: a half goes to an even one. -/
def Rounds (t : ℚ) (m : Nat) : Prop :=
  m - 1 / 2 ≤ t ∧ t ≤ m + 1 / 2 ∧ (m % 2 = 0 ∨ m - 1 / 2 < t ∧ t < m + 1 / 2)

theorem eq_of_abs_sub_lt_one {m n : Nat} (hlow : (m : ℚ) - 1 < n) (hhigh : (n : ℚ) < m + 1) :
    n = m := by
  have hle : m < n + 1 := by exact_mod_cast (by linarith : (m : ℚ) < n + 1)
  have hge : n < m + 1 := by exact_mod_cast hhigh
  omega

theorem Stands.roundedMantissa {em : ExtendedMantissa} {t : ℚ} (h : Stands em t) {m : Nat}
    (hm : Rounds t m) : em.roundedMantissa = m := by
  obtain ⟨r, hr, hlt, hsticky, rfl⟩ := h
  obtain ⟨hlow, hhigh, htie⟩ := hm
  obtain ⟨n, round, sticky⟩ := em
  cases round with
  | false =>
    have hround : (⟨n, false, sticky⟩ : ExtendedMantissa).roundedMantissa = n := by
      cases sticky <;> rfl
    simp only [Bool.false_eq_true, if_false, add_zero] at hlow hhigh
    rw [hround]
    exact eq_of_abs_sub_lt_one (by linarith) (by linarith)
  | true =>
    simp only [if_true] at hlow hhigh htie
    cases sticky with
    | true =>
      have hround : (⟨n, true, true⟩ : ExtendedMantissa).roundedMantissa = n + 1 := rfl
      have hpos : 0 < r := hr.lt_of_ne' (hsticky.mp rfl)
      rw [hround]
      apply eq_of_abs_sub_lt_one <;> push_cast <;> linarith
    | false =>
      -- exactly a half: the even one of the two neighbours
      have hround : (⟨n, true, false⟩ : ExtendedMantissa).roundedMantissa = n + n % 2 := rfl
      obtain rfl : r = 0 := not_not.mp fun hne => absurd (hsticky.mpr hne) Bool.false_ne_true
      have hle : n ≤ m := by exact_mod_cast (by linarith : (n : ℚ) ≤ m)
      have hge : m ≤ n + 1 := by exact_mod_cast (by linarith : (m : ℚ) ≤ n + 1)
      have heven : m % 2 = 0 := by
        refine htie.resolve_right fun hstrict => ?_
        have hlt : n < m := by exact_mod_cast (by linarith [hstrict.2] : (n : ℚ) < m)
        have hgt : m < n + 1 := by exact_mod_cast (by linarith [hstrict.1] : (m : ℚ) < n + 1)
        omega
      rw [hround]
      omega

/-! ## Rounding -/

/-- The exponent of the grid that a mantissa is rounded on. -/
def target (m : Nat) (e : Int) : Int := max (m.log2 + 1 + e - 53) (-1074)

theorem shiftToTargetExponent_eq (m : Nat) (e : Int) (acc : Accuracy) :
    shiftToTargetExponent Format.binary64 m e acc =
      (ExtendedMantissa.ofMantissaAndAccuracy m acc >>> (target m e - e).toNat,
        e + (target m e - e).toNat) := rfl

theorem shiftToTargetExponent_of_lt {m : Nat} {e : Int} (hm : m < 2 ^ 53) (he : -1074 ≤ e) :
    shiftToTargetExponent Format.binary64 m e .exact = (⟨m, false, false⟩, e) := by
  have hlog : m.log2 ≤ 52 := by
    rcases Nat.eq_zero_or_pos m with rfl | hpos
    · decide
    · exact Nat.le_of_lt_succ ((Nat.log2_lt hpos.ne').mpr hm)
  have hshift : (target m e - e).toNat = 0 := by
    unfold target
    omega
  rw [shiftToTargetExponent_eq, hshift]
  simp [HShiftRight.hShiftRight, Nat.repeat, ExtendedMantissa.ofMantissaAndAccuracy]

theorem shiftToTargetExponent_pow {e : Int} (he : -1074 ≤ e) :
    shiftToTargetExponent Format.binary64 (2 ^ 53) e .exact = (⟨2 ^ 52, false, false⟩, e + 1) := by
  have hshift : (target (2 ^ 53) e - e).toNat = 1 := by
    rw [target, Nat.log2_two_pow]
    omega
  rw [shiftToTargetExponent_eq, hshift]
  rfl

section Round

variable {n : Nat} {e : Int} {acc : Accuracy} {y : ℚ}

theorem mantissa_ofMantissaAndAccuracy (n : Nat) (acc : Accuracy) :
    (ExtendedMantissa.ofMantissaAndAccuracy n acc).mantissa = n := by
  cases acc with
  | exact => rfl
  | inexact o => cases o <;> rfl

/-- An exact number and its grid: the number has no more than 53 bits there. -/
theorem lt_of_stands (h : Stands (.ofMantissaAndAccuracy n acc) (y / 2 ^ e)) :
    y < 2 ^ (target n e + 53) := by
  have hlt := h.lt
  rw [mantissa_ofMantissaAndAccuracy, div_lt_iff₀ (by positivity)] at hlt
  have hbits : (n : ℚ) + 1 ≤ 2 ^ (n.log2 + 1) := by exact_mod_cast Nat.lt_log2_self
  calc
    y < (n + 1) * 2 ^ e := hlt
    _ ≤ 2 ^ (n.log2 + 1) * 2 ^ e := by gcongr
    _ = 2 ^ ((n.log2 : Int) + 1 + e) := by
      rw [zpow_add₀ two_ne_zero, ← Nat.cast_succ, zpow_natCast]
    _ ≤ 2 ^ (target n e + 53) := by
      apply zpow_le_zpow_right₀ one_le_two
      unfold target
      omega

/-- Above the smallest grid it has no fewer. -/
theorem le_of_stands (h : Stands (.ofMantissaAndAccuracy n acc) (y / 2 ^ e)) (he : e ≤ target n e)
    (htarget : -1074 < target n e) : 2 ^ (target n e + 52) ≤ y := by
  have hle := h.le
  rw [mantissa_ofMantissaAndAccuracy, le_div_iff₀ (by positivity)] at hle
  have hgrid : target n e = n.log2 + 1 + e - 53 := by
    unfold target at htarget ⊢
    omega
  have hn : n ≠ 0 := by
    rintro rfl
    rw [Nat.log2_zero] at hgrid
    omega
  have hbits : (2 : ℚ) ^ n.log2 ≤ n := by exact_mod_cast Nat.log2_self_le hn
  calc
    (2 : ℚ) ^ (target n e + 52) = 2 ^ ((n.log2 : Int) + e) := by
      rw [hgrid]
      congr 1
      omega
    _ = 2 ^ n.log2 * 2 ^ e := by rw [zpow_add₀ two_ne_zero, zpow_natCast]
    _ ≤ n * 2 ^ e := by gcongr
    _ ≤ y := hle

theorem half_le_lowEnd (m : Nat) (q : Int) : ((m : ℚ) - 1 / 2) * 2 ^ q ≤ lowEnd m q := by
  unfold lowEnd
  gcongr
  split <;> norm_num

/-- On its own grid a number rounds to the mantissa of its double. -/
theorem rounds_of_holds {m : Nat} {q : Int} (hm : 0 < m)
    (h : (Basin.ofBinary m q).Holds y) : Rounds (y / 2 ^ q) m := by
  have hpos : (0 : ℚ) < 2 ^ q := by positivity
  have hhalf := half_le_lowEnd m q
  rw [Basin.holds_ofBinary hm, highEnd] at h
  unfold Rounds
  rw [le_div_iff₀ hpos, div_le_iff₀ hpos, lt_div_iff₀ hpos, div_lt_iff₀ hpos]
  split at h
  case isTrue heven => exact ⟨hhalf.trans h.1, h.2, .inl heven⟩
  case isFalse =>
    have hlow := hhalf.trans_lt h.1
    exact ⟨hlow.le, h.2.le, .inr ⟨hlow, h.2⟩⟩

/-- The double that a number rounds to lies on the grid of the number, or it is the power of two
that ends it. -/
theorem rounds_target {m : Nat} {q : Int} (hm : 0 < m) (hcanonical : Canonical m q)
    (hholds : (Basin.ofBinary m q).Holds y)
    (h : Stands (.ofMantissaAndAccuracy n acc) (y / 2 ^ e)) (he : e ≤ target n e) :
    q = target n e ∧ Rounds (y / 2 ^ target n e) m ∨
      q = target n e + 1 ∧ m = 2 ^ 52 ∧ Rounds (y / 2 ^ target n e) (2 ^ 53) := by
  have hlt := lt_of_stands h
  have hge := le_of_stands h he
  have hgrid : -1074 ≤ target n e := le_max_right _ _
  generalize target n e = k at hlt hge hgrid ⊢
  have hrounds := rounds_of_holds hm hholds
  obtain ⟨hlow, hhigh⟩ : lowEnd m q ≤ y ∧ y ≤ highEnd m q := by
    rw [Basin.holds_ofBinary hm] at hholds
    split at hholds
    · exact hholds
    · exact ⟨hholds.1.le, hholds.2.le⟩
  have hpow (i : Int) : (2 : ℚ) ^ (i + 53) = 2 ^ 53 * 2 ^ i := by
    rw [zpow_add₀ two_ne_zero, mul_comm]
    norm_cast
  rcases lt_trichotomy q k with hlt' | rfl | hgt
  · -- a coarser grid would make the number larger
    have hmantissa : (m : ℚ) + 1 ≤ 2 ^ 53 := by exact_mod_cast hcanonical.lt
    have hpos : (0 : ℚ) < 2 ^ q := by positivity
    have hcontra : y < 2 ^ (k + 52) := calc
      y ≤ (m + 1 / 2) * 2 ^ q := hhigh
      _ < 2 ^ 53 * 2 ^ q := by
        gcongr
        linarith
      _ = 2 ^ (q + 53) := (hpow q).symm
      _ ≤ 2 ^ (k + 52) := zpow_le_zpow_right₀ one_le_two (by omega)
    have := hcanonical.le
    exact absurd (hge (by omega)) hcontra.not_ge
  · exact .inl ⟨rfl, hrounds⟩
  · -- a finer grid can only be the next one, and end there
    have hpos : (0 : ℚ) < 2 ^ k := by positivity
    rw [hpow] at hlt
    have hq : q = k + 1 := by
      by_contra hne
      have hfar := (le_lowEnd_of_lt (by omega) hcanonical (by omega : k + 1 < q)).trans hlow
      rw [zpow_add_one₀ two_ne_zero] at hfar
      linarith
    subst hq
    have hm52 : m = 2 ^ 52 := by
      by_contra hne
      have hlead : 2 ^ 52 + 1 ≤ m := by
        rcases hcanonical.lead with hlead | hmin <;> omega
      have hmantissa : (2 ^ 52 + 1 : ℚ) ≤ m := by exact_mod_cast hlead
      have hfar := (half_le_lowEnd m (k + 1)).trans hlow
      rw [zpow_add_one₀ two_ne_zero] at hfar
      nlinarith
    refine .inr ⟨rfl, hm52, ?_⟩
    have hnear := (le_lowEnd_of_lt hgrid hcanonical hgt).trans hlow
    refine ⟨?_, ?_, .inl (by norm_num)⟩
    · rw [le_div_iff₀ hpos]
      exact_mod_cast hnear
    · rw [div_le_iff₀ hpos]
      push_cast
      linarith

/-- Rounding finds the double whose basin holds the exact number. -/
theorem roundWithAccuracy_eq {m : Nat} {q : Int} (hm : 0 < m) (hcanonical : Canonical m q)
    (hholds : (Basin.ofBinary m q).Holds y)
    (h : Stands (.ofMantissaAndAccuracy n acc) (y / 2 ^ e)) (he : e ≤ target n e) (s : Sign) :
    roundWithAccuracy Format.binary64 s n e acc = .finite s m q hm := by
  have hgrid : -1074 ≤ target n e := le_max_right _ _
  have hexponent : e + ((target n e - e).toNat : Int) = target n e := by omega
  have hshift := h.shift (target n e - e).toNat
  rw [div_div, ← zpow_natCast, ← zpow_add₀ two_ne_zero, hexponent] at hshift
  unfold roundWithAccuracy
  rw [shiftToTargetExponent_eq, hexponent]
  dsimp only
  rcases rounds_target hm hcanonical hholds h he with ⟨rfl, hrounds⟩ | ⟨rfl, rfl, hrounds⟩
  · rw [hshift.roundedMantissa hrounds, shiftToTargetExponent_of_lt hcanonical.lt hgrid]
    exact dif_neg hm.ne'
  · rw [hshift.roundedMantissa hrounds, shiftToTargetExponent_pow hgrid]
    exact dif_neg hm.ne'

end Round

/-! ## Packing -/

/-- The double with this unpacked form. -/
def packed (u : UnpackedFloat) : Float := ⟨Float.Model.pack u⟩

theorem pack_finite (s : Sign) {m : Nat} (q : Int) (hm : 0 < m) :
    UnpackedFloat.pack Format.binary64 (.finite s m q hm) =
      if 2048 ≤ (q + 1075).toNat + 1 then packedInfinity Format.binary64 s
      else if m.log2 + 1 = 53 then
        packComponents Format.binary64 s (BitVec.ofNat 11 (q + 1075).toNat) (BitVec.ofNat 52 m)
      else packComponents Format.binary64 s 0#11 (BitVec.ofNat 52 m) := by
  have hbias : q + Format.binary64.exponentBias + Format.binary64.mantissaBitsWithoutImplicit =
      q + 1075 := by
    change q + (1023 : Int) + 52 = _
    omega
  rw [UnpackedFloat.pack]
  simp only [hbias]
  rfl

theorem log2_eq_iff {m : Nat} (hm : m < 2 ^ 53) (hpos : 0 < m) :
    m.log2 + 1 = 53 ↔ 2 ^ 52 ≤ m := by
  have hlt := (Nat.log2_lt (n := m) (k := 53) hpos.ne').mpr hm
  rw [← Nat.le_log2 hpos.ne']
  omega

/-- The fields of a packed double. -/
theorem ofFloat_packed {s : Sign} {m : Nat} {q : Int} (hm : 0 < m) (hcanonical : Canonical m q)
    (hq : q ≤ 971) : Fields.ofFloat (packed (.finite s m q hm)) =
      ⟨Exact.isNegativeSign s, if 2 ^ 52 ≤ m then (q + 1075).toNat else 0, m % 2 ^ 52⟩ := by
  have hle := hcanonical.le
  have hsign : decide (s.toBitVec ≠ 0#1) = Exact.isNegativeSign s := by cases s <;> rfl
  have hexponent : (BitVec.ofNat 11 (q + 1075).toNat).toNat = (q + 1075).toNat := by
    rw [BitVec.toNat_ofNat]
    omega
  have hbits : (packed (.finite s m q hm)).toModel.toBits.toBitVec =
      UnpackedFloat.pack Format.binary64 (.finite s m q hm) := rfl
  unfold Fields.ofFloat Fields.signBit Fields.exponentBits Fields.mantissaBits
  rw [hbits, pack_finite, if_neg (by omega)]
  by_cases hlead : 2 ^ 52 ≤ m
  · rw [if_pos ((log2_eq_iff hcanonical.lt hm).mpr hlead), if_pos hlead,
      unpackSign_packComponents, unpackExponent_packComponents, unpackMantissa_packComponents,
      hsign, hexponent]
    rfl
  · rw [if_neg (mt (log2_eq_iff hcanonical.lt hm).mp hlead), if_neg hlead,
      unpackSign_packComponents, unpackExponent_packComponents, unpackMantissa_packComponents,
      hsign]
    rfl

theorem exact_packed {s : Sign} {m : Nat} {q : Int} (hm : 0 < m) (hcanonical : Canonical m q)
    (hq : q ≤ 971) :
    Exact.ofFloat (packed (.finite s m q hm)) = .finite (Exact.isNegativeSign s) m q := by
  have hlt := hcanonical.lt
  have hle := hcanonical.le
  rw [← Fields.exact_ofFloat, ofFloat_packed hm hcanonical hq, Fields.exact]
  dsimp only
  by_cases hlead : 2 ^ 52 ≤ m
  · rw [if_pos hlead, if_neg (by omega), if_neg (by omega)]
    congr 1 <;> omega
  · have hmin := hcanonical.lead.resolve_left hlead
    rw [if_neg hlead, if_neg (by decide), if_pos rfl, if_neg (by omega), hmin]
    congr 1
    omega

theorem unpack_eq_of_exact {x : Float} {s : Sign} {m : Nat} {q : Int} (hm : 0 < m)
    (h : Exact.ofFloat x = .finite (Exact.isNegativeSign s) m q) :
    x.toModel.unpack = .finite s m q hm := by
  rw [Exact.ofFloat] at h
  cases hx : x.toModel.unpack with
  | notANumber | infinity =>
    rw [hx] at h
    contradiction
  | zero t =>
    rw [hx, Exact.ofUnpacked, Exact.finite.injEq] at h
    omega
  | finite t n p hn =>
    rw [hx, Exact.ofUnpacked, Exact.finite.injEq] at h
    obtain ⟨hsign, rfl, rfl⟩ := h
    cases s <;> cases t <;> first
      | rfl
      | contradiction

/-- A double that is packed again is what it was. -/
theorem unpack_packed {s : Sign} {m : Nat} {q : Int} (hm : 0 < m) (hcanonical : Canonical m q)
    (hq : q ≤ 971) : (packed (.finite s m q hm)).toModel.unpack = .finite s m q hm :=
  unpack_eq_of_exact hm (exact_packed hm hcanonical hq)

/-! ## Products and quotients -/

theorem stands_exact (n : Nat) : Stands (.ofMantissaAndAccuracy n .exact) n :=
  ⟨0, le_rfl, by norm_num, by simp [ExtendedMantissa.ofMantissaAndAccuracy],
    by simp [ExtendedMantissa.ofMantissaAndAccuracy]⟩

/-- What is left of a division tells how it stands to the exact quotient. -/
theorem stands_fraction (a : Nat) {b : Nat} (hb : 0 < b) :
    Stands (.ofMantissaAndAccuracy (a / b) (accuracyOfFraction (a % b) b)) ((a : ℚ) / b) := by
  have hbpos : (0 : ℚ) < b := by exact_mod_cast hb
  have hrest : (0 : ℚ) ≤ (a % b : Nat) := Nat.cast_nonneg _
  have hlt : ((a % b : Nat) : ℚ) < b := by exact_mod_cast Nat.mod_lt a hb
  have hquotient : (a : ℚ) / b = (a / b : Nat) + (a % b : Nat) / b := by
    have hsum : (b : ℚ) * (a / b : Nat) + (a % b : Nat) = a := by
      exact_mod_cast Nat.div_add_mod a b
    rw [div_eq_iff hbpos.ne', add_mul, div_mul_cancel₀ _ hbpos.ne']
    linarith
  rw [hquotient, accuracyOfFraction]
  generalize a % b = r at hrest hlt ⊢
  split
  case isTrue hzero =>
    rw [hzero, Nat.cast_zero, zero_div, add_zero]
    exact stands_exact _
  case isFalse hne =>
    have hpos : (0 : ℚ) < r := by exact_mod_cast Nat.pos_of_ne_zero hne
    rcases lt_trichotomy (2 * r) b with hhalf | hhalf | hhalf
    · rw [compare_lt_iff_lt.mpr hhalf]
      have hhalf' : (2 * r : ℚ) < b := by exact_mod_cast hhalf
      refine ⟨r / b, by positivity, ?_, iff_of_true rfl (by positivity), ?_⟩
      · rw [div_lt_div_iff₀ hbpos two_pos]
        linarith
      · simp [ExtendedMantissa.ofMantissaAndAccuracy]
    · rw [compare_eq_iff_eq.mpr hhalf]
      have hhalf' : (2 * r : ℚ) = b := by exact_mod_cast hhalf
      refine ⟨0, le_rfl, by norm_num, by simp [ExtendedMantissa.ofMantissaAndAccuracy], ?_⟩
      have hvalue : (r : ℚ) / b = 1 / 2 := by
        rw [div_eq_div_iff hbpos.ne' two_ne_zero]
        linarith
      simp [ExtendedMantissa.ofMantissaAndAccuracy, hvalue]
    · rw [compare_gt_iff_gt.mpr hhalf]
      have hhalf' : (b : ℚ) < 2 * r := by exact_mod_cast hhalf
      have hover : 1 / 2 < (r : ℚ) / b := by
        rw [div_lt_div_iff₀ two_pos hbpos]
        linarith
      have hunder : (r : ℚ) / b < 1 := by rwa [div_lt_one hbpos]
      refine ⟨r / b - 1 / 2, by linarith, by linarith, iff_of_true rfl (by linarith), ?_⟩
      simp only [ExtendedMantissa.ofMantissaAndAccuracy, if_true]
      ring

section Arithmetic

variable {m : Nat} {q : Int} (hm : 0 < m) {m₁ m₂ : Nat} {e₁ e₂ : Int} (h₁ : 0 < m₁) (h₂ : 0 < m₂)

/-- A product of mantissas that fill the double. -/
theorem mul_eq (hcanonical : Canonical m q) (hbits : 2 ^ 52 ≤ m₁ * m₂)
    (hholds : (Basin.ofBinary m q).Holds (m₁ * 2 ^ e₁ * (m₂ * 2 ^ e₂))) :
    UnpackedFloat.mul Format.binary64 (.finite .positive m₁ e₁ h₁) (.finite .positive m₂ e₂ h₂) =
      .finite .positive m q hm := by
  refine roundWithAccuracy_eq hm hcanonical hholds ?_ ?_ .positive
  · have hvalue : (m₁ * 2 ^ e₁ * (m₂ * 2 ^ e₂) : ℚ) / 2 ^ (e₁ + e₂) = (m₁ * m₂ : Nat) := by
      rw [zpow_add₀ two_ne_zero]
      push_cast
      field_simp
    rw [hvalue]
    exact stands_exact _
  · have hlog := (Nat.le_log2 (Nat.mul_pos h₁ h₂).ne').mpr hbits
    unfold target
    omega

theorem div_eq (hcanonical : Canonical m q)
    (hholds : (Basin.ofBinary m q).Holds (m₁ * 2 ^ e₁ / (m₂ * 2 ^ e₂))) :
    UnpackedFloat.div Format.binary64 (.finite .positive m₁ e₁ h₁) (.finite .positive m₂ e₂ h₂) =
      .finite .positive m q hm := by
  -- the dividend is shifted until the quotient fills the double
  set grid : Int := max ((m₁.log2 + 1 + e₁ - (m₂.log2 + 1 + e₂)) - 53) (-1074) with hgrid
  set e : Int := min (e₁ - e₂) grid with he
  set n : Nat := (e₁ - e₂ - e).toNat with hn
  change roundWithAccuracy Format.binary64 .positive ((m₁ <<< n) / m₂) e
    (accuracyOfFraction ((m₁ <<< n) % m₂) m₂) = _
  refine roundWithAccuracy_eq hm hcanonical hholds ?_ ?_ .positive
  · have hvalue : (m₁ * 2 ^ e₁ / (m₂ * 2 ^ e₂) : ℚ) / 2 ^ e = ((m₁ <<< n : Nat) : ℚ) / m₂ := by
      have hsplit : e₁ = e₂ + (e + (n : Int)) := by omega
      have hm₂ : (m₂ : ℚ) ≠ 0 := by exact_mod_cast h₂.ne'
      rw [hsplit, zpow_add₀ two_ne_zero, zpow_add₀ two_ne_zero, zpow_natCast, Nat.shiftLeft_eq]
      push_cast
      field_simp
    rw [hvalue]
    exact stands_fraction _ h₂
  · rcases le_or_gt e (-1074) with hsmall | hlarge
    · exact hsmall.trans (le_max_right _ _)
    · have hquotient : 2 ^ 52 ≤ (m₁ <<< n) / m₂ := by
        rw [Nat.le_div_iff_mul_le h₂, Nat.shiftLeft_eq]
        calc
          2 ^ 52 * m₂ ≤ 2 ^ 52 * 2 ^ (m₂.log2 + 1) := by
            gcongr
            exact Nat.lt_log2_self.le
          _ = 2 ^ (m₂.log2 + 53) := by rw [← pow_add, add_comm]
          _ ≤ 2 ^ (m₁.log2 + n) := Nat.pow_le_pow_right two_pos (by omega)
          _ = 2 ^ m₁.log2 * 2 ^ n := pow_add _ _ _
          _ ≤ m₁ * 2 ^ n := by
            gcongr
            exact Nat.log2_self_le h₁.ne'
      have hlog := (Nat.le_log2 (by omega)).mpr hquotient
      unfold target
      omega

end Arithmetic

end Montage.Decimal
