import Mathlib
import Montage.Decimal.Exact

/-!
A double is told by its exact value, the sign of a zero included: the exact value can be read off
its three fields, and the fields off the exact value.
-/

namespace Montage.Decimal

open Float.Model

/-- The fields of a double. -/
structure Fields where
  negative : Bool
  exponent : Nat
  mantissa : Nat

namespace Fields

variable (x : Float)

def signBit : BitVec 1 :=
  @UnpackedFloat.unpackSign Format.binary64 x.toModel.toBits.toBitVec

def exponentBits : BitVec 11 :=
  @UnpackedFloat.unpackExponent Format.binary64 x.toModel.toBits.toBitVec

def mantissaBits : BitVec 52 :=
  @UnpackedFloat.unpackMantissa Format.binary64 x.toModel.toBits.toBitVec

def ofFloat : Fields where
  negative := signBit x ≠ 0#1
  exponent := (exponentBits x).toNat
  mantissa := (mantissaBits x).toNat

def exact (f : Fields) : Exact :=
  if f.exponent = 2047 then if f.mantissa = 0 then .infinite f.negative else .nan
  else if f.exponent = 0 then
    if f.mantissa = 0 then .finite f.negative 0 0 else .finite f.negative f.mantissa (-1074)
  else .finite f.negative (2 ^ 52 + f.mantissa) (f.exponent - 1075)

theorem toNat_one_append (v : BitVec 52) : ((1#1 : BitVec 1) ++ v).toNat = 2 ^ 52 + v.toNat := by
  rw [BitVec.toNat_append, ← Nat.shiftLeft_add_eq_or_of_lt v.isLt]
  rfl

theorem isNegativeSign_ofBitVec (b : BitVec 1) :
    Exact.isNegativeSign (UnpackedFloat.Sign.ofBitVec b) = decide (b ≠ 0#1) := by
  by_cases h : b = 0#1 <;> simp [UnpackedFloat.Sign.ofBitVec, h, Exact.isNegativeSign]

theorem exponentBits_eq_ones_iff : exponentBits x = -1#11 ↔ (ofFloat x).exponent = 2047 :=
  BitVec.toNat_inj.symm

theorem exponentBits_eq_zero_iff : exponentBits x = 0#11 ↔ (ofFloat x).exponent = 0 :=
  BitVec.toNat_inj.symm

theorem mantissaBits_eq_zero_iff : mantissaBits x = 0#52 ↔ (ofFloat x).mantissa = 0 :=
  BitVec.toNat_inj.symm

/-- The exact value of a double, from its fields. -/
theorem exact_ofFloat : (ofFloat x).exact = Exact.ofFloat x := by
  have hbias : (Format.binary64.exponentBias : Int) +
      Format.binary64.mantissaBitsWithoutImplicit = 1075 := rfl
  unfold Exact.ofFloat Float.Model.unpack UnpackedFloat.unpack
  dsimp only
  change _ = Exact.ofUnpacked (if exponentBits x = -1#11 then
    if mantissaBits x = 0#52 then _ else _ else if exponentBits x = 0#11 then
    if h : mantissaBits x = 0#52 then _ else _ else _)
  by_cases hones : exponentBits x = -1#11
  · rw [if_pos hones, exact, if_pos ((exponentBits_eq_ones_iff x).mp hones)]
    by_cases hmantissa : mantissaBits x = 0#52
    · rw [if_pos hmantissa, if_pos ((mantissaBits_eq_zero_iff x).mp hmantissa)]
      exact congrArg Exact.infinite (isNegativeSign_ofBitVec _).symm
    · rw [if_neg hmantissa, if_neg (mt (mantissaBits_eq_zero_iff x).mpr hmantissa)]
      rfl
  · rw [if_neg hones, exact, if_neg (mt (exponentBits_eq_ones_iff x).mpr hones)]
    by_cases hzero : exponentBits x = 0#11
    · rw [if_pos hzero, if_pos ((exponentBits_eq_zero_iff x).mp hzero)]
      by_cases hmantissa : mantissaBits x = 0#52
      · rw [dif_pos hmantissa, if_pos ((mantissaBits_eq_zero_iff x).mp hmantissa),
          Exact.ofUnpacked, isNegativeSign_ofBitVec]
        rfl
      · rw [dif_neg hmantissa, if_neg (mt (mantissaBits_eq_zero_iff x).mpr hmantissa),
          Exact.ofUnpacked, isNegativeSign_ofBitVec]
        have hexponent : @UnpackedFloat.unpackExponent Format.binary64
            x.toModel.toBits.toBitVec = 0#11 := hzero
        rw [hexponent]
        rfl
    · rw [if_neg hzero, if_neg (mt (exponentBits_eq_zero_iff x).mpr hzero),
        Exact.ofUnpacked, isNegativeSign_ofBitVec, toNat_one_append, hbias]
      rfl

/-- Only what is no number has several fields. -/
theorem exact_injOn {f g : Fields} (hf : f.mantissa < 2 ^ 52) (hg : g.mantissa < 2 ^ 52)
    (hn : f.exact ≠ .nan) (h : f.exact = g.exact) : f = g := by
  obtain ⟨s, e, m⟩ := f
  obtain ⟨t, p, n⟩ := g
  simp only at hf hg
  unfold exact at h hn
  dsimp only at h hn
  split_ifs at h hn <;>
    simp only [Exact.finite.injEq, Exact.infinite.injEq, not_true_eq_false, ne_eq] at h hn <;>
    rw [Fields.mk.injEq]
  · exact ⟨h, by omega, by omega⟩
  all_goals exact ⟨h.1, by omega, by omega⟩

theorem toNat_signBit : (signBit x).toNat = x.toModel.toBits.toNat / 2 ^ 63 % 2 := by
  simp only [signBit, UnpackedFloat.unpackSign, BitVec.toNat_cast, BitVec.extractLsb_toNat,
    Nat.shiftRight_eq_div_pow]
  rfl

theorem toNat_exponentBits :
    (exponentBits x).toNat = x.toModel.toBits.toNat / 2 ^ 52 % 2 ^ 11 := by
  simp only [exponentBits, UnpackedFloat.unpackExponent, BitVec.toNat_cast,
    BitVec.extractLsb_toNat, Nat.shiftRight_eq_div_pow]
  rfl

theorem toNat_mantissaBits : (mantissaBits x).toNat = x.toModel.toBits.toNat % 2 ^ 52 := by
  simp only [mantissaBits, UnpackedFloat.unpackMantissa, BitVec.toNat_cast,
    BitVec.extractLsb_toNat]
  rfl

end Fields

theorem eq_of_toBits_eq {x y : Float} (h : x.toModel.toBits = y.toModel.toBits) : x = y := by
  obtain ⟨⟨a, ha⟩⟩ := x
  obtain ⟨⟨b, hb⟩⟩ := y
  simp only at h
  subst h
  rfl

theorem Fields.ofFloat_injective : Function.Injective ofFloat := by
  intro x y h
  have hsign : (signBit x).toNat = (signBit y).toNat := by
    have hnegative := congrArg Fields.negative h
    simp only [ofFloat, decide_eq_decide, ne_eq, not_iff_not, ← BitVec.toNat_inj] at hnegative
    have hx := (signBit x).isLt
    have hy := (signBit y).isLt
    simp only [BitVec.toNat_zero] at hnegative
    omega
  have hexponent := congrArg Fields.exponent h
  have hmantissa := congrArg Fields.mantissa h
  simp only [ofFloat, toNat_exponentBits, toNat_mantissaBits] at hexponent hmantissa
  rw [toNat_signBit, toNat_signBit] at hsign
  have hx := x.toModel.toBits.toNat_lt
  have hy := y.toModel.toBits.toNat_lt
  exact eq_of_toBits_eq (UInt64.toNat.inj (by omega))

theorem Fields.eq_of_exact_ofFloat_eq_nan {x : Float} (h : (ofFloat x).exact = .nan) :
    x.toModel.toBits.toBitVec = UnpackedFloat.packedNaN Format.binary64 := by
  unfold exact at h
  split_ifs at h with hexponent hmantissa
  exact x.toModel.valid.eq_packedNaN ((exponentBits_eq_ones_iff x).mpr hexponent)
    (mt (mantissaBits_eq_zero_iff x).mp hmantissa)

/-- No two doubles have the same exact value: there is one that is no number, and the two zeros
differ in sign. -/
theorem Exact.ofFloat_injective : Function.Injective Exact.ofFloat := by
  intro x y h
  rw [← Fields.exact_ofFloat, ← Fields.exact_ofFloat] at h
  by_cases hnan : (Fields.ofFloat x).exact = .nan
  · apply eq_of_toBits_eq
    apply UInt64.toBitVec_inj.mp
    rw [Fields.eq_of_exact_ofFloat_eq_nan hnan, Fields.eq_of_exact_ofFloat_eq_nan (h ▸ hnan)]
  · exact Fields.ofFloat_injective (Fields.exact_injOn (BitVec.isLt _) (BitVec.isLt _) hnan h)

/-- The exponent of the largest doubles. -/
theorem exponent_le_of_ofFloat {x : Float} {negative : Bool} {m : Nat} {q : Int}
    (h : Exact.ofFloat x = .finite negative m q) : q ≤ 971 := by
  have hlt : (Fields.ofFloat x).exponent < 2 ^ 11 := BitVec.isLt _
  rw [← Fields.exact_ofFloat] at h
  unfold Fields.exact at h
  split_ifs at h <;> simp only [Exact.finite.injEq] at h <;> omega

end Montage.Decimal
