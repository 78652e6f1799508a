import Mathlib
import Montage.Proofs.Command.Validity
import Montage.Proofs.Decimal.Closest

/-!
The taps of echoes and reverbs.  All delays are in the range that is asked of the delay in the
settings, and those of a reverb never fall from one reflection to the next.  Its decays are powers,
which are at most one but may be too small for a double: then a reflection has the decay zero, which
is not in the range that is asked of the decay in the settings.
-/

namespace Montage

open Decimal

namespace AudioStage

/-- What is heard again, and when. -/
def taps : AudioStage → List EchoTap
  | .echo _ _ tap => [tap]
  | .reverb _ _ taps => taps
  | _ => []

/-- The stage is no echo and no reverb. -/
def IsDry (a : AudioStage) : Prop := a.isEcho = false ∧ a.isReverb = false

theorem IsDry.taps_eq {a : AudioStage} (h : a.IsDry) : a.taps = [] := by
  cases a with
  | echo => exact absurd h.1.symm Bool.false_ne_true
  | reverb => exact absurd h.2.symm Bool.false_ne_true
  | declick | declip | normalize | delay => rfl

end AudioStage

/-- Apart from the echo or the reverb a track has dry stages only. -/
theorem AudioTrack.mem_stages {t : AudioTrack} {pow : Power} {sampleRate : UInt32} {a : AudioStage}
    (h : a ∈ t.stages pow sampleRate) : a ∈ t.reflectionStages pow ∨ a.IsDry := by
  simp only [stages, List.mem_append, List.mem_singleton, List.mem_ite_nil_left,
    List.mem_ite_nil_right] at h
  obtain (((⟨-, rfl⟩ | ⟨-, rfl⟩) | h) | rfl) | ⟨-, rfl⟩ := h
  case inl.inl.inr => exact .inl h
  all_goals exact .inr ⟨rfl, rfl⟩

/-! ## The delays of a reverb -/

def tapDelay (delayMs : Float) (i : Nat) : Float :=
  Seconds.smaller (Float.ofNat (i + 1) * delayMs) maxEchoDelayMs

def tapExponent (i : Nat) : Float := 1.0 + 0.6 * Float.ofNat i

section Reflections

variable {pow : Power} {delayMs decay : Float}

theorem reverbTaps_eq : reverbTaps pow delayMs decay = (List.range reverbTapCount).map fun i =>
    ⟨tapDelay delayMs i, pow decay (tapExponent i)⟩ := rfl

theorem getElem?_reverbTaps {i : Nat} (hi : i < reverbTapCount) :
    (reverbTaps pow delayMs decay)[i]? =
      some ⟨tapDelay delayMs i, pow decay (tapExponent i)⟩ := by
  simp [reverbTaps_eq, hi]

theorem forall_mem_reverbTaps {p : EchoTap → Prop} :
    (∀ tap ∈ reverbTaps pow delayMs decay, p tap) ↔
      ∀ i < reverbTapCount, p ⟨tapDelay delayMs i, pow decay (tapExponent i)⟩ := by
  simp only [reverbTaps_eq, List.forall_mem_map, List.mem_range]

end Reflections

theorem isFinite_maxEchoDelayMs : maxEchoDelayMs.isFinite := by decide +kernel

theorem value_maxEchoDelayMs : value maxEchoDelayMs = 90000 := by
  have hexact : Exact.ofFloat maxEchoDelayMs = .finite false (90000 * 2 ^ 36) (-36) := by
    decide +kernel
  rw [value_of_exact hexact]
  norm_num

theorem fills_ofNat {i : Nat} (hi : i < reverbTapCount) : Fills (Float.ofNat (i + 1)) (i + 1) := by
  have hexact : ∀ i < reverbTapCount, isExactly (Float.ofNat (i + 1)) (i + 1) := by decide +kernel
  exact_mod_cast fills_of_isExactly (hexact i hi)

section Delays

variable {delayMs : Float} (hpos : 0 < delayMs) (hle : delayMs ≤ 90000)

include hpos hle

theorem exists_tapDelay_eq {i : Nat} (hi : i < reverbTapCount) :
    ∃ m q, 0 < m ∧ Canonical m q ∧ (Basin.ofBinary m q).Holds (((i : ℚ) + 1) * value delayMs) ∧
      (tapDelay delayMs i).isFinite ∧ value (tapDelay delayMs i) = min (m * 2 ^ q : ℚ) 90000 := by
  have hfinite := isFinite_of_pos_of_le isFinite_maxEchoDelayMs hpos hle
  have hvalue : 0 < value delayMs := (pos_iff_value_pos hfinite).mp hpos
  have hmax : value delayMs ≤ 90000 := by
    rw [← value_maxEchoDelayMs]
    exact (le_iff_value_le hfinite isFinite_maxEchoDelayMs).mp hle
  have hone : (1 : ℚ) ≤ i + 1 := by exact_mod_cast Nat.le_add_left 1 i
  have hten : (i : ℚ) + 1 ≤ 10 := by exact_mod_cast hi
  have hlow : 2 ^ (-1074 : Int) ≤ ((i : ℚ) + 1) * value delayMs := calc
    (2 : ℚ) ^ (-1074 : Int) = value smallest := value_smallest.symm
    _ ≤ value delayMs := smallest_le hfinite hvalue
    _ ≤ (i + 1) * value delayMs := le_mul_of_one_le_left hvalue.le hone
  have hhigh : ((i : ℚ) + 1) * value delayMs < 2 ^ (1023 : Int) := calc
    ((i : ℚ) + 1) * value delayMs ≤ 10 * 90000 := by
      gcongr
    _ < 2 ^ (20 : Int) := by norm_num
    _ ≤ 2 ^ (1023 : Int) := zpow_le_zpow_right₀ one_le_two (by decide)
  obtain ⟨m, q, hm, hcanonical, hholds, hproduct, hmul⟩ :=
    exists_mul_eq (fills_ofNat hi) hfinite hpos hlow hhigh
  obtain ⟨hsmaller, hmin⟩ := value_smaller hproduct isFinite_maxEchoDelayMs
  rw [hmul, value_maxEchoDelayMs] at hmin
  exact ⟨m, q, hm, hcanonical, hholds, hsmaller, hmin⟩

theorem isEchoDelay_tapDelay {i : Nat} (hi : i < reverbTapCount) :
    isEchoDelay (tapDelay delayMs i) := by
  obtain ⟨m, q, hm, -, -, hfinite, hvalue⟩ := exists_tapDelay_eq hpos hle hi
  have hscale := scale_pos hm q
  have hmax : (90000 : Float) = maxEchoDelayMs := rfl
  rw [isEchoDelay_iff, pos_iff_value_pos hfinite, hvalue, hmax,
    le_iff_value_le hfinite isFinite_maxEchoDelayMs, hvalue, value_maxEchoDelayMs]
  exact ⟨lt_min hscale (by norm_num), min_le_right _ _⟩

/-- A later reflection is not heard earlier. -/
theorem tapDelay_mono {i j : Nat} (hij : i ≤ j) (hj : j < reverbTapCount) :
    tapDelay delayMs i ≤ tapDelay delayMs j := by
  obtain ⟨m, q, hm, hcanonical, hholds, hfinite, hvalue⟩ :=
    exists_tapDelay_eq hpos hle (hij.trans_lt hj)
  obtain ⟨n, p, hn, hcanonical', hholds', hfinite', hvalue'⟩ := exists_tapDelay_eq hpos hle hj
  have hdelay : 0 < value delayMs :=
    (pos_iff_value_pos (isFinite_of_pos_of_le isFinite_maxEchoDelayMs hpos hle)).mp hpos
  have hproduct : ((i : ℚ) + 1) * value delayMs ≤ (j + 1) * value delayMs := by gcongr
  rw [le_iff_value_le hfinite hfinite', hvalue, hvalue']
  exact min_le_min_right _ (scale_le_of_holds hm hn hcanonical hcanonical' hholds hholds' hproduct)

theorem pairwise_reverbTaps (pow : Power) (decay : Float) :
    (reverbTaps pow delayMs decay).Pairwise fun tap later => tap.delayMs ≤ later.delayMs := by
  rw [reverbTaps_eq, List.pairwise_map]
  refine List.pairwise_lt_range.imp_of_mem fun {i j} _ hj hij => ?_
  exact tapDelay_mono hpos hle hij.le (List.mem_range.mp hj)

end Delays

/-! ## The decays of a reverb -/

/-- The power is the double closest to the real power. -/
def Power.RoundsAt (pow : Power) (base exponent : Float) : Prop :=
  Closest (pow base exponent) ((value base : ℝ) ^ (value exponent : ℝ))

theorem tapExponent_bounds {i : Nat} (hi : i < reverbTapCount) :
    1 ≤ value (tapExponent i) ∧ value (tapExponent i) ≤ 13 / 2 := by
  have hbounds : ∀ i < reverbTapCount, (tapExponent i).isFinite ∧ 1 ≤ tapExponent i ∧
      tapExponent i ≤ 6.5 := by decide +kernel
  have hmax : value 6.5 = 13 / 2 := by
    have hexact : Exact.ofFloat 6.5 = .finite false (13 * 2 ^ 49) (-50) := by decide +kernel
    rw [value_of_exact hexact]
    norm_num
  obtain ⟨hfinite, hlow, hhigh⟩ := hbounds i hi
  rw [le_iff_value_le isFinite_one hfinite, value_one] at hlow
  rw [le_iff_value_le hfinite (by decide +kernel), hmax] at hhigh
  exact ⟨hlow, hhigh⟩

/-- Whether the decay of a reflection is in the range that is asked of the one in the settings. -/
theorem tapDecay_within {pow : Power} {decay : Float} {i : Nat} (hi : i < reverbTapCount)
    (hpow : pow.RoundsAt decay (tapExponent i)) (hpos : 0 < decay) (hle : decay ≤ 1) :
    0 ≤ pow decay (tapExponent i) ∧ pow decay (tapExponent i) ≤ 1 ∧
      (isShare (pow decay (tapExponent i)) ↔
        (value smallest : ℝ) / 2 < (value decay : ℝ) ^ (value (tapExponent i) : ℝ)) := by
  have hfinite := isFinite_of_pos_of_le isFinite_one hpos hle
  rw [pos_iff_value_pos hfinite] at hpos
  rw [le_iff_value_le hfinite isFinite_one, value_one] at hle
  have hbase : (0 : ℝ) ≤ value decay ∧ (value decay : ℝ) ≤ 1 :=
    ⟨by exact_mod_cast hpos.le, by exact_mod_cast hle⟩
  have hexponent : (0 : ℝ) ≤ value (tapExponent i) := by
    exact_mod_cast zero_le_one.trans (tapExponent_bounds hi).1
  have hnonneg := Real.rpow_nonneg hbase.1 (value (tapExponent i) : ℝ)
  have hone := hpow.le_one (Real.rpow_le_one hbase.1 hbase.2 hexponent)
  rw [isShare_iff, pos_iff_value_pos hpow.isFinite, nonneg_iff_value_nonneg hpow.isFinite,
    le_iff_value_le hpow.isFinite isFinite_one, value_one, hpow.pos_iff hnonneg]
  exact ⟨hpow.nonneg hnonneg, hone, and_iff_left hone⟩

theorem value_smallest_eq_rpow : (value smallest : ℝ) = 2 ^ (-1074 : ℝ) := by
  rw [value_smallest, Rat.cast_zpow, Rat.cast_ofNat, ← Real.rpow_intCast]
  norm_cast

/-- With a decay that is not too small no reflection fades to zero. -/
theorem smallest_lt_rpow {decay : Float} {i : Nat} (hi : i < reverbTapCount)
    (hlow : 1e-48 ≤ decay) (hle : decay ≤ 1) :
    (value smallest : ℝ) / 2 < (value decay : ℝ) ^ (value (tapExponent i) : ℝ) := by
  have hleast : (1e-48 : Float).isFinite := by decide +kernel
  have hfinite := isFinite_of_le_of_le hleast isFinite_one hlow hle
  have hvalue : (2 : ℚ) ^ (-160 : Int) ≤ value 1e-48 := by
    have hexact : Exact.ofFloat 1e-48 = .finite false 6582018229284824 (-212) := by decide +kernel
    rw [value_of_exact hexact]
    norm_num
  rw [le_iff_value_le hleast hfinite] at hlow
  rw [le_iff_value_le hfinite isFinite_one, value_one] at hle
  have hbase : (2 : ℝ) ^ (-160 : ℝ) ≤ value decay := by
    have hcast := hvalue.trans hlow
    rify at hcast
    rwa [← Real.rpow_intCast, Int.cast_neg, Int.cast_ofNat] at hcast
  have hone : (value decay : ℝ) ≤ 1 := by exact_mod_cast hle
  have hexponent := (tapExponent_bounds hi).2
  rify at hexponent
  have hpos : (0 : ℝ) < value smallest := by exact_mod_cast value_smallest_pos
  calc
    (value smallest : ℝ) / 2 < value smallest := half_lt_self hpos
    _ = 2 ^ (-1074 : ℝ) := value_smallest_eq_rpow
    _ ≤ 2 ^ (-160 * (13 / 2) : ℝ) := by
      apply Real.rpow_le_rpow_of_exponent_le one_le_two
      norm_num
    _ = ((2 : ℝ) ^ (-160 : ℝ)) ^ (13 / 2 : ℝ) := Real.rpow_mul zero_le_two _ _
    _ ≤ (value decay : ℝ) ^ (13 / 2 : ℝ) := by gcongr
    _ ≤ (value decay : ℝ) ^ (value (tapExponent i) : ℝ) :=
      Real.rpow_le_rpow_of_exponent_ge (lt_of_lt_of_le (by positivity) hbase) hone hexponent

/-! ## What a chain emits -/

/-- Every delay that a chain emits is in the range that is asked of the settings, and the delays of
a reverb do not fall.  The decay of an echo is in its range too.  The decay of a reflection is at
most one, and it is above zero exactly if the power rounds to more than zero. -/
theorem AudioTrack.taps_within {pow : Power} {t : AudioTrack} {index : Nat} {sampleRate : UInt32}
    {c : AudioChain}
    (hpow : t.reverb.enabled → ∀ i < reverbTapCount,
      pow.RoundsAt t.reverb.decay (tapExponent i))
    (h : t.chain pow index sampleRate = .ok c) :
    ∀ stage ∈ c.stages,
      (∀ tap ∈ stage.taps, isEchoDelay tap.delayMs ∧ 0 ≤ tap.decay ∧ tap.decay ≤ 1) ∧
      stage.taps.Pairwise (fun tap later => tap.delayMs ≤ later.delayMs) ∧
      (stage.isEcho → ∀ tap ∈ stage.taps, isShare tap.decay) ∧
      (stage.isReverb → ∀ i < reverbTapCount, ∃ tap, stage.taps[i]? = some tap ∧
        (isShare tap.decay ↔ (value smallest : ℝ) / 2 <
          (value t.reverb.decay : ℝ) ^ (value (tapExponent i) : ℝ)) ∧
        (1e-48 ≤ t.reverb.decay → isShare tap.decay)) := by
  obtain ⟨hfaults, rfl⟩ := eq_of_chain_eq_ok h
  have hvalid := faults_eq_nil_iff.mp hfaults
  intro stage hstage
  rcases mem_stages hstage with hstage | hdry
  · unfold reflectionStages at hstage
    split at hstage
    case isTrue hreverb =>
      obtain ⟨⟨hdelay, hdelay'⟩, hdecay, hdecay'⟩ := hvalid.reverb hreverb
      obtain rfl := List.mem_singleton.mp hstage
      have htap {i : Nat} (hi : i < reverbTapCount) :=
        tapDecay_within hi (hpow hreverb i hi) hdecay hdecay'
      refine ⟨forall_mem_reverbTaps.mpr fun i hi => ?_, pairwise_reverbTaps hdelay hdelay' _ _,
        fun hecho => absurd hecho Bool.false_ne_true, fun _ i hi => ?_⟩
      · exact ⟨isEchoDelay_tapDelay hdelay hdelay' hi, (htap hi).1, (htap hi).2.1⟩
      · exact ⟨_, getElem?_reverbTaps hi, (htap hi).2.2,
          fun hlow => (htap hi).2.2.mpr (smallest_lt_rpow hi hlow hdecay')⟩
    case isFalse hreverb =>
      split at hstage
      case isTrue hecho =>
        obtain ⟨hdelay, hdecay, -⟩ := hvalid.echo (Bool.eq_false_of_not_eq_true hreverb) hecho
        obtain rfl := List.mem_singleton.mp hstage
        have hfinite := isFinite_of_pos_of_le isFinite_one hdecay.1 hdecay.2
        simp only [AudioStage.taps, List.forall_mem_singleton]
        exact ⟨⟨isEchoDelay_iff.mpr hdelay, le_of_lt isFinite_zero hfinite hdecay.1, hdecay.2⟩,
          List.pairwise_singleton _ _, fun _ => isShare_iff.mpr hdecay,
          fun h => absurd h Bool.false_ne_true⟩
      case isFalse => contradiction
  · rw [hdry.taps_eq, hdry.1, hdry.2]
    simp

/-- A reverb without decay: all of its reflections are as loud as the first. -/
def AudioTrack.sampleHall : AudioTrack :=
  { ofFile "choir.mp3" with reverb := ⟨true, 12000, 1⟩ }

theorem AudioTrack.taps_within_hall :
    (∀ i < reverbTapCount, Power.RoundsAt (fun _ _ => 1) sampleHall.reverb.decay (tapExponent i)) ∧
      ∃ c, sampleHall.chain (fun _ _ => 1) 0 48000 = .ok c ∧
        ∃ stage ∈ c.stages, stage.isReverb ∧ ∀ i < reverbTapCount,
          ∃ tap, stage.taps[i]? = some tap ∧ isShare tap.decay := by
  have hpow : ∀ i < reverbTapCount,
      Power.RoundsAt (fun _ _ => 1) sampleHall.reverb.decay (tapExponent i) := by
    intro i _
    have hone := Closest.self isFinite_one (by decide +kernel)
    change Closest 1 ((value 1 : ℝ) ^ _)
    rwa [value_one, Rat.cast_one, Real.one_rpow, ← Rat.cast_one, ← value_one]
  have hvalid : sampleHall.faults 0 = [] := by decide +kernel
  have hchain : sampleHall.chain (fun _ _ => 1) 0 48000 =
      .ok ⟨0, sampleHall.stages (fun _ _ => 1) 48000⟩ := by
    rw [chain_eq, hvalid, verdict_nil]
  obtain ⟨stage, hstage, hreverb⟩ : ∃ stage ∈ sampleHall.stages (fun _ _ => 1) 48000,
      stage.isReverb := by decide +kernel
  refine ⟨hpow, _, hchain, stage, hstage, hreverb, fun i hi => ?_⟩
  obtain ⟨tap, htap, -, hshare⟩ :=
    (taps_within (fun _ => hpow) hchain stage hstage).2.2.2 hreverb i hi
  exact ⟨tap, htap, hshare (by decide +kernel)⟩

/-- A reverb that dies away at once. -/
def AudioTrack.sampleFading : AudioTrack :=
  { ofFile "choir.mp3" with reverb := ⟨true, 100, 1e-280⟩ }

/-- Powers as far as that reverb asks for them: all but the first are too small for a double. -/
def Power.fading : Power := fun base exponent => if exponent == 1 then base else 0

theorem value_fading_le : (value 1e-280 : ℝ) ≤ 2 ^ (-930 : ℝ) := by
  have hexact : Exact.ofFloat 1e-280 = .finite false 8174961907854212 (-983) := by decide +kernel
  have hle : value 1e-280 ≤ 2 ^ (-930 : Int) := calc
    value 1e-280 = 8174961907854212 * 2 ^ (-983 : Int) := value_of_exact hexact
    _ ≤ 2 ^ 53 * 2 ^ (-983 : Int) := by
      gcongr
      norm_num
    _ = 2 ^ (-930 : Int) := by
      rw [← zpow_natCast, ← zpow_add₀ two_ne_zero]
      rfl
  rify at hle
  rwa [← Real.rpow_intCast, Int.cast_neg, Int.cast_ofNat] at hle

theorem Power.roundsAt_fading {i : Nat} (hi : i < reverbTapCount) :
    fading.RoundsAt 1e-280 (tapExponent i) := by
  rcases Nat.eq_zero_or_pos i with rfl | hpos
  · have hone : fading 1e-280 (tapExponent 0) = 1e-280 := by decide +kernel
    have hexponent : tapExponent 0 = 1 := by decide +kernel
    rw [RoundsAt, hone, hexponent, value_one, Rat.cast_one, Real.rpow_one]
    exact Closest.self (by decide +kernel) (by decide +kernel)
  · have hlater : ∀ i < reverbTapCount, 0 < i → fading 1e-280 (tapExponent i) = 0 ∧
        (tapExponent i).isFinite ∧ 1.5 ≤ tapExponent i := by decide +kernel
    obtain ⟨hzero, hfinite, hexponent⟩ := hlater i hi hpos
    have hmin : value 1.5 = 3 / 2 := by
      have hexact : Exact.ofFloat 1.5 = .finite false (3 * 2 ^ 51) (-52) := by decide +kernel
      rw [value_of_exact hexact]
      norm_num
    rw [le_iff_value_le (by decide +kernel) hfinite, hmin] at hexponent
    rify at hexponent
    have hbase : (0 : ℝ) < value 1e-280 := by
      rw [Rat.cast_pos, ← pos_iff_value_pos (by decide +kernel)]
      decide +kernel
    have hone : (value 1e-280 : ℝ) ≤ 1 :=
      value_fading_le.trans (Real.rpow_le_one_of_one_le_of_nonpos one_le_two (by norm_num))
    rw [RoundsAt, hzero]
    refine Closest.zero (Real.rpow_nonneg hbase.le _) ?_
    calc
      (value 1e-280 : ℝ) ^ (value (tapExponent i) : ℝ) ≤ (value 1e-280 : ℝ) ^ (3 / 2 : ℝ) :=
        Real.rpow_le_rpow_of_exponent_ge hbase hone hexponent
      _ ≤ ((2 : ℝ) ^ (-930 : ℝ)) ^ (3 / 2 : ℝ) :=
        Real.rpow_le_rpow hbase.le value_fading_le (by norm_num)
      _ = 2 ^ (-930 * (3 / 2) : ℝ) := (Real.rpow_mul zero_le_two _ _).symm
      _ ≤ 2 ^ (-1074 - 1 : ℝ) := by
        apply Real.rpow_le_rpow_of_exponent_le one_le_two
        norm_num
      _ = value smallest / 2 := by
        rw [value_smallest_eq_rpow, Real.rpow_sub two_pos, Real.rpow_one]

theorem AudioTrack.taps_fade :
    (∀ i < reverbTapCount, Power.fading.RoundsAt sampleFading.reverb.decay (tapExponent i)) ∧
      ∃ c, sampleFading.chain Power.fading 0 48000 = .ok c ∧
        ∃ stage ∈ c.stages, ∃ tap ∈ stage.taps, ¬isShare tap.decay := by
  have hvalid : sampleFading.faults 0 = [] := by decide +kernel
  have hchain : sampleFading.chain Power.fading 0 48000 =
      .ok ⟨0, sampleFading.stages Power.fading 48000⟩ := by
    rw [chain_eq, hvalid, verdict_nil]
  refine ⟨fun i hi => Power.roundsAt_fading hi, _, hchain, ?_⟩
  decide +kernel

end Montage
