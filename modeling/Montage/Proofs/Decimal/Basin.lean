import Mathlib
import Montage.Decimal.Shortest
import Montage.Proofs.Decimal.Value

/-!
The digits of a double round to that double and to no other.  The basin of a double is the stretch
of the reals that round to it: two basins share no point, and the search for the shortest digits
ends in the basin it set out from, because with seventeen digits the grid is finer than any basin.
-/

namespace Montage.Decimal

namespace Ratio

def value (r : Ratio) : ℚ := r.num / r.den

theorem den_pos_ofBinary (m : Nat) (q : Int) : 0 < (ofBinary m q).den := by
  cases q with
  | ofNat k => exact Nat.one_pos
  | negSucc k => exact Nat.pow_pos (by decide)

theorem value_ofBinary (m : Nat) (q : Int) : (ofBinary m q).value = m * 2 ^ q := by
  cases q with
  | ofNat k => simp [value, ofBinary]
  | negSucc k =>
    simp [value, ofBinary, zpow_negSucc, div_eq_mul_inv]

theorem num_pos_ofBinary {m : Nat} (hm : 0 < m) (q : Int) : 0 < (ofBinary m q).num := by
  cases q with
  | ofNat k => exact Nat.mul_pos hm (Nat.pow_pos (by decide))
  | negSucc k => exact hm

theorem den_pos_scaleDown {r : Ratio} (hr : 0 < r.den) (e : Int) : 0 < (r.scaleDown e).den := by
  cases e with
  | ofNat k => exact Nat.mul_pos hr (Nat.pow_pos (by decide))
  | negSucc k => exact hr

theorem one_le_value {r : Ratio} (hr : 0 < r.den) (h : r.floor ≠ 0) : 1 ≤ r.value := by
  have hle : r.den ≤ r.num := (Nat.div_pos_iff.mp (Nat.pos_of_ne_zero h)).2
  rw [value, one_le_div (by exact_mod_cast hr)]
  exact_mod_cast hle

theorem value_scaleDown (r : Ratio) (e : Int) : (r.scaleDown e).value = r.value / 10 ^ e := by
  cases e with
  | ofNat k => simp [value, scaleDown, div_div]
  | negSucc k => simp [value, scaleDown, zpow_negSucc, div_mul_eq_mul_div]

end Ratio

namespace Basin

/-- The reals of a basin, its ends among them if it is closed. -/
def Holds (b : Basin) (x : ℚ) : Prop :=
  if b.closed then b.low ≤ x * b.den ∧ x * b.den ≤ b.high
  else b.low < x * b.den ∧ x * b.den < b.high

theorem contains_iff (b : Basin) (d : Nat) : b.contains d ↔ b.Holds d := by
  unfold contains Holds
  split
  · rw [decide_eq_true_iff]
    exact_mod_cast Iff.rfl
  · rw [decide_eq_true_iff]
    exact_mod_cast Iff.rfl

theorem holds_scaleDown (b : Basin) (e : Int) (x : ℚ) :
    (b.scaleDown e).Holds x ↔ b.Holds (x * 10 ^ e) := by
  cases e with
  | ofNat k =>
    have h : x * ((b.den * Nat.pow 10 k : Nat) : ℚ) = x * 10 ^ (Int.ofNat k) * b.den := by
      simp
      ring
    unfold Holds scaleDown
    simp only [h]
  | negSucc k =>
    have hpos : (0 : ℚ) < 10 ^ (k + 1) := by positivity
    have hpow : ((Nat.pow 10 (k + 1) : Nat) : ℚ) = 10 ^ (k + 1) := Nat.cast_pow ..
    have h : x * 10 ^ (Int.negSucc k) * b.den = x * b.den / 10 ^ (k + 1) := by
      rw [zpow_negSucc]
      ring
    unfold Holds scaleDown
    simp only [h, le_div_iff₀ hpos, div_le_iff₀ hpos, lt_div_iff₀ hpos, div_lt_iff₀ hpos,
      Nat.cast_mul, hpow]

end Basin

/-- The ends of the basin of `m * 2 ^ q`. -/
def lowEnd (m : Nat) (q : Int) : ℚ := (m - if m = 2 ^ 52 ∧ -1074 < q then 1 / 4 else 1 / 2) * 2 ^ q

def highEnd (m : Nat) (q : Int) : ℚ := (m + 1 / 2) * 2 ^ q

namespace Basin

variable {m : Nat} {q : Int}

theorem den_pos_ofBinary : 0 < (ofBinary m q).den := Ratio.den_pos_ofBinary 1 (q - 2)

theorem unit_mul (a : ℚ) :
    a * (Ratio.ofBinary 1 (q - 2)).num = a / 4 * 2 ^ q * (ofBinary m q).den := by
  have hden : ((Ratio.ofBinary 1 (q - 2)).den : ℚ) ≠ 0 := by
    exact_mod_cast (Ratio.den_pos_ofBinary 1 (q - 2)).ne'
  have hunit := Ratio.value_ofBinary 1 (q - 2)
  rw [Ratio.value, div_eq_iff hden, zpow_sub₀ two_ne_zero] at hunit
  rw [hunit]
  change _ = a / 4 * 2 ^ q * (Ratio.ofBinary 1 (q - 2)).den
  norm_num
  ring

theorem low_ofBinary (hm : 0 < m) :
    ((ofBinary m q).low : ℚ) = lowEnd m q * (ofBinary m q).den := by
  have hlow : ((ofBinary m q).low : ℚ) =
      (4 * m - if m = 2 ^ 52 ∧ -1074 < q then 1 else 2) * (Ratio.ofBinary 1 (q - 2)).num := by
    change (((4 * m - if m = Nat.pow 2 52 ∧ -1074 < q then 1 else 2) * _ : Nat) : ℚ) = _
    rw [Nat.cast_mul, Nat.cast_sub (by split <;> omega)]
    push_cast
    rfl
  rw [hlow, unit_mul, lowEnd]
  split <;> ring

theorem high_ofBinary : ((ofBinary m q).high : ℚ) = highEnd m q * (ofBinary m q).den := by
  have hhigh : ((ofBinary m q).high : ℚ) = (4 * m + 2) * (Ratio.ofBinary 1 (q - 2)).num := by
    change (((4 * m + 2) * _ : Nat) : ℚ) = _
    push_cast
    rfl
  rw [hhigh, unit_mul, highEnd]
  ring

theorem holds_ofBinary (hm : 0 < m) (x : ℚ) :
    (ofBinary m q).Holds x ↔
      if m % 2 = 0 then lowEnd m q ≤ x ∧ x ≤ highEnd m q else lowEnd m q < x ∧ x < highEnd m q := by
  have hden : (0 : ℚ) < (ofBinary m q).den := by exact_mod_cast den_pos_ofBinary
  have hclosed : (ofBinary m q).closed = true ↔ m % 2 = 0 := decide_eq_true_iff
  unfold Holds
  rw [low_ofBinary hm, high_ofBinary]
  simp only [hclosed, mul_le_mul_iff_of_pos_right hden, mul_lt_mul_iff_of_pos_right hden]

end Basin

section Apart

variable {m n : Nat} {p q : Int}

theorem lowEnd_of_lt (hm : Canonical m q) (h : m < n) : lowEnd n q = (n - 1 / 2) * 2 ^ q := by
  rw [lowEnd, if_neg]
  rintro ⟨rfl, hq⟩
  rcases hm.lead with hlead | rfl <;> omega

theorem le_lowEnd_of_lt (hq : -1074 ≤ q) (hn : Canonical n p) (h : q < p) :
    (2 ^ 53 - 1 / 2) * 2 ^ q ≤ lowEnd n p := by
  have hlead : 2 ^ 52 ≤ n := by
    rcases hn.lead with hlead | rfl <;> omega
  have hmantissa : (2 ^ 52 - 1 / 4 : ℚ) ≤
      n - if n = 2 ^ 52 ∧ -1074 < p then 1 / 4 else 1 / 2 := by
    split
    case isTrue hn => rw [hn.1, Nat.cast_pow, Nat.cast_ofNat]
    case isFalse hn =>
      have hne : n ≠ 2 ^ 52 := fun he => hn ⟨he, by omega⟩
      have hle : (2 ^ 52 + 1 : ℚ) ≤ n := by exact_mod_cast (by omega : 2 ^ 52 + 1 ≤ n)
      linarith
  calc
    (2 ^ 53 - 1 / 2 : ℚ) * 2 ^ q = (2 ^ 52 - 1 / 4) * 2 ^ (q + 1) := by
      rw [zpow_add_one₀ two_ne_zero]
      ring
    _ ≤ (n - if n = 2 ^ 52 ∧ -1074 < p then 1 / 4 else 1 / 2) * 2 ^ p :=
      mul_le_mul hmantissa (zpow_le_zpow_right₀ one_le_two h) (by positivity)
        (le_trans (by norm_num) hmantissa)

/-- Basins follow each other in the order of their doubles, and where two of them meet the point
belongs to the double with the even mantissa. -/
theorem highEnd_le_lowEnd (hm : Canonical m q) (hn : Canonical n p)
    (h : (m : ℚ) * 2 ^ q < n * 2 ^ p) :
    highEnd m q ≤ lowEnd n p ∧ (m % 2 = 0 → n % 2 = 0 → highEnd m q < lowEnd n p) := by
  have hpos : (0 : ℚ) < 2 ^ q := by positivity
  rcases lt_trichotomy p q with hlt | rfl | hlt
  · exact absurd h (hn.scale_lt hm hlt).not_gt
  · have hmn : m < n := by exact_mod_cast (mul_lt_mul_iff_of_pos_right hpos).mp h
    rw [lowEnd_of_lt hm hmn, highEnd]
    refine ⟨?_, fun hme hne => ?_⟩
    · have hle : (m : ℚ) + 1 ≤ n := by exact_mod_cast hmn
      gcongr
      linarith
    · have hle : (m : ℚ) + 2 ≤ n := by exact_mod_cast (by omega : m + 2 ≤ n)
      gcongr
      linarith
  · have hlow := le_lowEnd_of_lt hm.le hn hlt
    refine ⟨le_trans ?_ hlow, fun hme _ => lt_of_lt_of_le ?_ hlow⟩
    · have hle : (m : ℚ) + 1 ≤ 2 ^ 53 := by exact_mod_cast hm.lt
      rw [highEnd]
      gcongr
      linarith
    · have hle : (m : ℚ) + 2 ≤ 2 ^ 53 := by
        have hlt := hm.lt
        exact_mod_cast (by omega : m + 2 ≤ 2 ^ 53)
      rw [highEnd]
      gcongr
      linarith

theorem not_holds_of_lt {x : ℚ} (hm0 : 0 < m) (hn0 : 0 < n) (hm : Canonical m q)
    (hn : Canonical n p) (h : (m : ℚ) * 2 ^ q < n * 2 ^ p) (hx : (Basin.ofBinary m q).Holds x) :
    ¬(Basin.ofBinary n p).Holds x := by
  intro hy
  obtain ⟨hle, hlt⟩ := highEnd_le_lowEnd hm hn h
  rw [Basin.holds_ofBinary hm0] at hx
  rw [Basin.holds_ofBinary hn0] at hy
  split at hx <;> split at hy
  case isTrue.isTrue hme hne => exact absurd (hx.2.trans_lt (hlt hme hne)) hy.1.not_gt
  case isTrue.isFalse => exact absurd (hx.2.trans hle) hy.1.not_ge
  case isFalse.isTrue => exact absurd (hx.2.trans_le hle) hy.1.not_gt
  case isFalse.isFalse => exact absurd (hx.2.trans_le hle) hy.1.not_gt

theorem pos_of_holds {x : ℚ} (hm : 0 < m) (hx : (Basin.ofBinary m q).Holds x) : 0 < x := by
  have hone : (1 : ℚ) ≤ m := by exact_mod_cast hm
  have hlow : 0 < lowEnd m q := by
    apply mul_pos _ (by positivity)
    split <;> linarith
  rw [Basin.holds_ofBinary hm] at hx
  split at hx
  case isTrue => exact hlow.trans_le hx.1
  case isFalse => exact hlow.trans hx.1

/-- No real rounds to two doubles. -/
theorem eq_of_holds {x : ℚ} (hm0 : 0 < m) (hn0 : 0 < n) (hm : Canonical m q) (hn : Canonical n p)
    (hx : (Basin.ofBinary m q).Holds x) (hy : (Basin.ofBinary n p).Holds x) : m = n ∧ q = p := by
  rcases lt_trichotomy ((m : ℚ) * 2 ^ q) (n * 2 ^ p) with h | h | h
  · exact absurd hy (not_holds_of_lt hm0 hn0 hm hn h hx)
  · have hcompare := compare_scale hm hn
    rw [compare_eq_iff_eq.mpr h, Ordering.then_eq_eq, compare_eq_iff_eq, compare_eq_iff_eq]
      at hcompare
    exact hcompare.symm
  · exact absurd hx (not_holds_of_lt hn0 hm0 hn hm h hy)

end Apart

namespace Basin

theorem contains_of_nearest?_eq_some {b : Basin} {tie : Tie} {d : Nat}
    (h : b.nearest? tie = some d) : b.contains d := by
  unfold nearest? at h
  dsimp only at h
  split at h
  case h_1 => contradiction
  case h_2 hlow _ => exact Option.some.inj h ▸ hlow
  case h_3 _ hhigh => exact Option.some.inj h ▸ hhigh
  case h_4 hlow hhigh =>
    split_ifs at h
    · exact Option.some.inj h ▸ hlow
    · exact Option.some.inj h ▸ hhigh
    · cases tie with
      | up => exact Option.some.inj h ▸ hhigh
      | even =>
        rw [← Option.some.inj h]
        cases Nat.mod_two_eq_zero_or_one (b.value / b.den) with
        | inl heven => rwa [heven]
        | inr hodd => rwa [hodd]

/-- A basin that is wider than a step of the grid holds a point of the grid beside its value. -/
theorem nearest?_ne_none {b : Basin} (hden : 0 < b.den) (hlow : b.low < b.value)
    (hhigh : b.value < b.high) (hwide : b.low + b.den < b.high) (tie : Tie) :
    b.nearest? tie ≠ none := by
  intro hnone
  have hneither : b.contains (b.value / b.den) = false ∧
      b.contains (b.value / b.den + 1) = false := by
    unfold nearest? at hnone
    dsimp only at hnone
    split at hnone
    case h_1 hbelow habove => exact ⟨hbelow, habove⟩
    case h_2 | h_3 => contradiction
    case h_4 => cases tie <;> split_ifs at hnone
  have hfloor := Nat.div_mul_le_self b.value b.den
  have hnext := Nat.lt_mul_div_succ b.value hden
  rw [Nat.mul_comm, Nat.add_mul, Nat.one_mul] at hnext
  unfold contains at hneither
  rw [Nat.add_mul, Nat.one_mul] at hneither
  generalize b.value / b.den * b.den = below at hneither hfloor hnext
  cases hclosed : b.closed <;> simp [hclosed] at hneither <;> omega

end Basin

theorem contains_of_searchGrids {b : Basin} {tie : Tie} {top : Int} {fuel count : Nat} {d : Digits}
    (h : searchGrids b tie top fuel count = some d) :
    (b.scaleDown d.exponent).contains d.digits := by
  induction fuel generalizing count with
  | zero => contradiction
  | succ fuel ih =>
    rw [searchGrids] at h
    split at h
    case h_1 digits hdigits =>
      rw [← Option.some.inj h]
      exact Basin.contains_of_nearest?_eq_some hdigits
    case h_2 => exact ih h

/-- The search does not pass a grid with a point that reads back. -/
theorem searchGrids_ne_none {b : Basin} {tie : Tie} {top : Int} {fuel count k : Nat}
    (hk : (b.scaleDown (top - k)).nearest? tie ≠ none) (hle : count ≤ k) (hlt : k < count + fuel) :
    searchGrids b tie top fuel count ≠ none := by
  induction fuel generalizing count with
  | zero => omega
  | succ fuel ih =>
    rw [searchGrids]
    split
    case h_1 => exact Option.some_ne_none _
    case h_2 hnone =>
      have hne : count ≠ k := fun he => hk (he ▸ hnone)
      exact ih (by omega) (by omega)

theorem stripZeros_value (fuel d : Nat) (e : Int) :
    ((stripZeros fuel d e).digits : ℚ) * 10 ^ (stripZeros fuel d e).exponent = d * 10 ^ e := by
  induction fuel generalizing d e with
  | zero => rfl
  | succ fuel ih =>
    rw [stripZeros]
    split
    case isTrue h =>
      have hd : (d : ℚ) = (d / 10 : Nat) * 10 := by
        exact_mod_cast (Nat.div_mul_cancel (Nat.dvd_of_mod_eq_zero h.2)).symm
      rw [ih, hd, zpow_add_one₀ (by norm_num)]
      ring
    case isFalse => rfl

set_option maxRecDepth 10000 in
/-- The quotient 30103 / 100000 stands for the logarithm of two: over the exponents of doubles it
never leads past the next power of ten. -/
theorem pow_ten_guess : ∀ n < 1075, 10 ^ (n * 30103 / 100000) ≤ 2 ^ n ∧
    2 ^ n ≤ 10 ^ ((n * 30103 + 99999) / 100000) := by
  decide +kernel

theorem zpow_ten_guess {k : Int} (hlow : -1074 ≤ k) (hhigh : k ≤ 1023) :
    (10 : ℚ) ^ (k * 30103).fdiv 100000 ≤ 2 ^ k := by
  cases k with
  | ofNat n =>
    rw [Int.ofNat_eq_natCast] at hhigh ⊢
    have hguess : ((n : Int) * 30103).fdiv 100000 = (n * 30103 / 100000 : Nat) := by
      rw [Int.fdiv_eq_ediv_of_nonneg _ (by decide)]
      simp
    rw [hguess, zpow_natCast, zpow_natCast]
    exact_mod_cast (pow_ten_guess n (by omega)).1
  | negSucc n =>
    have hguess : (Int.negSucc n * 30103).fdiv 100000 =
        -(((n + 1) * 30103 + 99999) / 100000 : Nat) := by
      rw [Int.fdiv_eq_ediv_of_nonneg _ (by decide)]
      omega
    have hpow := (pow_ten_guess (n + 1) (by omega)).2
    rw [hguess, zpow_neg, zpow_natCast, zpow_negSucc]
    gcongr
    exact_mod_cast hpow

theorem zpow_magnitude_le {m : Nat} {q : Int} (hm : 0 < m) (h : Canonical m q) (hq : q ≤ 971) :
    (10 : ℚ) ^ (magnitude m q - 1) ≤ m * 2 ^ q := by
  have hlog : m.log2 ≤ 52 := Nat.le_of_lt_succ ((Nat.log2_lt hm.ne').mpr h.lt)
  have hpow : (2 : ℚ) ^ m.log2 ≤ m := by exact_mod_cast Nat.log2_self_le hm.ne'
  have hmin := h.le
  have hguess := zpow_ten_guess (k := m.log2 + q) (by omega) (by omega)
  unfold magnitude
  dsimp only
  generalize (((m.log2 : Int) + q) * 30103).fdiv 100000 = guess at hguess
  split
  case isTrue =>
    calc
      (10 : ℚ) ^ (guess + 1 - 1) = 10 ^ guess := by rw [add_sub_cancel_right]
      _ ≤ 2 ^ ((m.log2 : Int) + q) := hguess
      _ = 2 ^ m.log2 * 2 ^ q := by rw [zpow_add₀ two_ne_zero, zpow_natCast]
      _ ≤ m * 2 ^ q := by gcongr
  case isFalse hfloor =>
    -- the guess was too low: the number reaches the next power of ten
    have hscaled := ((Ratio.ofBinary m q).value_scaleDown (guess + 1))
    rw [Ratio.value_ofBinary] at hscaled
    have hone : 1 ≤ ((Ratio.ofBinary m q).scaleDown (guess + 1)).value :=
      Ratio.one_le_value (Ratio.den_pos_scaleDown (Ratio.den_pos_ofBinary m q) _) hfloor
    rw [hscaled, one_le_div (by positivity)] at hone
    rwa [show guess + 2 - 1 = guess + 1 by omega]

/-- Seventeen digits suffice: the step of their grid is shorter than the basin. -/
theorem lowEnd_add_step_lt {m : Nat} {q : Int} (hm : 0 < m) (h : Canonical m q) (hq : q ≤ 971) :
    lowEnd m q + 10 ^ (magnitude m q - 17) < highEnd m q := by
  have hpos : (0 : ℚ) < 2 ^ q := by positivity
  have hlt : (m : ℚ) < 2 ^ 53 := by exact_mod_cast h.lt
  have hstep : (10 : ℚ) ^ (magnitude m q - 17) ≤ m / 10 ^ 16 * 2 ^ q := by
    calc
      (10 : ℚ) ^ (magnitude m q - 17) = 10 ^ (magnitude m q - 1) / 10 ^ 16 := by
        rw [show magnitude m q - 17 = magnitude m q - 1 - 16 by omega,
          zpow_sub₀ (by norm_num)]
        norm_cast
      _ ≤ m * 2 ^ q / 10 ^ 16 := by
        gcongr
        exact zpow_magnitude_le hm h hq
      _ = m / 10 ^ 16 * 2 ^ q := by ring
  have hwidth : lowEnd m q + m / 10 ^ 16 * 2 ^ q < highEnd m q := by
    rw [lowEnd, highEnd, ← add_mul, mul_lt_mul_iff_of_pos_right hpos]
    split
    case isTrue hm =>
      rw [hm.1]
      norm_num
    case isFalse => linarith
  linarith

theorem Basin.nearest?_scaleDown_ne_none {b : Basin} {e : Int} (hden : 0 < b.den)
    (hlow : b.low < b.value) (hhigh : b.value < b.high)
    (hwide : (b.low : ℚ) + 10 ^ e * b.den < b.high) (tie : Tie) :
    (b.scaleDown e).nearest? tie ≠ none := by
  cases e with
  | ofNat k =>
    have hstep : 0 < b.den * Nat.pow 10 k := Nat.mul_pos hden (Nat.pow_pos (by decide))
    refine nearest?_ne_none (b := b.scaleDown (.ofNat k)) hstep hlow hhigh ?_ tie
    rw [Int.ofNat_eq_natCast, zpow_natCast] at hwide
    have hnat : b.low + 10 ^ k * b.den < b.high := by exact_mod_cast hwide
    rwa [Nat.mul_comm] at hnat
  | negSucc k =>
    have hpow : 0 < Nat.pow 10 (k + 1) := Nat.pow_pos (by decide)
    refine nearest?_ne_none (b := b.scaleDown (.negSucc k)) hden
      (Nat.mul_lt_mul_of_pos_right hlow hpow) (Nat.mul_lt_mul_of_pos_right hhigh hpow) ?_ tie
    have hscale : (0 : ℚ) < 10 ^ (k + 1) := by positivity
    rw [zpow_negSucc, ← mul_lt_mul_iff_of_pos_right hscale, add_mul, mul_right_comm,
      inv_mul_cancel₀ hscale.ne', one_mul] at hwide
    exact_mod_cast hwide

theorem searchGrids_ofBinary_ne_none (tie : Tie) {m : Nat} {q : Int} (hm : 0 < m)
    (h : Canonical m q) (hq : q ≤ 971) :
    searchGrids (Basin.ofBinary m q) tie (magnitude m q) 17 1 ≠ none := by
  have hden : 0 < (Basin.ofBinary m q).den := Basin.den_pos_ofBinary
  have hunit : 0 < (Ratio.ofBinary 1 (q - 2)).num := Ratio.num_pos_ofBinary Nat.one_pos _
  apply searchGrids_ne_none (k := 17) _ (by omega) (by omega)
  apply Basin.nearest?_scaleDown_ne_none hden
  · refine Nat.mul_lt_mul_of_pos_right ?_ hunit
    split <;> omega
  · exact Nat.mul_lt_mul_of_pos_right (by omega) hunit
  · have hden' : (0 : ℚ) < (Basin.ofBinary m q).den := by exact_mod_cast hden
    rw [Basin.low_ofBinary hm, Basin.high_ofBinary, ← add_mul,
      mul_lt_mul_iff_of_pos_right hden']
    exact lowEnd_add_step_lt hm h hq

/-- The shortest digits of a double round to it. -/
theorem holds_shortest (tie : Tie) {m : Nat} {q : Int} (hm : 0 < m) (h : Canonical m q)
    (hq : q ≤ 971) : (Basin.ofBinary m q).Holds
      ((shortest tie m q).digits * 10 ^ (shortest tie m q).exponent) := by
  unfold shortest
  split
  case h_1 d hd =>
    rw [stripZeros_value, ← Basin.holds_scaleDown, ← Basin.contains_iff]
    exact contains_of_searchGrids hd
  case h_2 hnone => exact absurd hnone (searchGrids_ofBinary_ne_none tie hm h hq)

end Montage.Decimal
