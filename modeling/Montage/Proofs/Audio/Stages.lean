import Mathlib
import Montage.Proofs.Audio.Chain
import Montage.Proofs.Decimal.Plain
import Montage.Proofs.Text.Records

/-!
The stages of a track, read back from their text.  Gains, delays and decays are lists of numbers,
the name of the filter tells which stage it is, and the number of taps tells a reverb from an echo.
-/

namespace Montage

open Text Decimal

namespace Text.Record

def gains : Record (Float × Float) where
  names := ["aecho=", ":"]
  numbers := fun (i, o) => [plain i, plain o]
  length_numbers _ := rfl
  ends := by decide
  numeral a := by simp
  injective := by
    rintro ⟨i, o⟩ ⟨i', o'⟩ heq
    simpa using heq

def format : Record (UInt32 × Float) where
  names := ["aformat=sample_fmts=fltp:sample_rates=", ":channel_layouts=stereo,volume="]
  numbers := fun (r, v) => [toString r.toNat, plain v]
  length_numbers _ := rfl
  ends := by decide
  numeral a := by simp
  injective := by
    rintro ⟨r, v⟩ ⟨r', v'⟩ heq
    simpa [Nat.repr_inj, UInt32.toNat_inj] using heq

def delay : Record Nat where
  names := ["adelay=", "|"]
  numbers n := [toString n, toString n]
  length_numbers _ := rfl
  ends := by decide
  numeral n := by simp
  injective m n h := by simpa [Nat.repr_inj] using h

end Text.Record

section Echoes

variable {s t : List Char}

theorem joinWith_plain_append_inj {xs ys : List Float} (hx : xs ≠ []) (hy : ys ≠ [])
    (hs : Closes s) (ht : Closes t)
    (h : (joinWith "|" (xs.map plain)).toList ++ s = (joinWith "|" (ys.map plain)).toList ++ t) :
    xs = ys ∧ s = t := by
  have hnumber {x y : Float} {s t : List Char} (_ : True) (_ : True) (hs : Stops s)
      (ht : Stops t) (h : (plain x).toList ++ s = (plain y).toList ++ t) : x = y ∧ s = t := by
    obtain ⟨hplain, hrest⟩ := numeral_append_inj (numeral_plain x) (numeral_plain y) hs ht h
    exact ⟨plain_injective hplain, hrest⟩
  exact joinWith_append_inj (by simp) (fun _ => by simp [isNumeral]) hnumber hx hy
    (fun _ _ => trivial) (fun _ _ => trivial) hs.stops ht.stops hs.head_ne_bar ht.head_ne_bar h

theorem toList_echoText (inGain outGain : Float) (taps : List EchoTap) :
    (echoText inGain outGain taps).toList = Record.gains.chars (inGain, outGain) ++
      ':' :: ((joinWith "|" ((taps.map (·.delayMs)).map plain)).toList ++
        ':' :: (joinWith "|" ((taps.map (·.decay)).map plain)).toList) := by
  unfold echoText
  simp [Record.chars_eq, Record.gains, Function.comp_def]

theorem EchoTap.eq_of_map_eq {taps taps' : List EchoTap}
    (hdelays : taps.map (·.delayMs) = taps'.map (·.delayMs))
    (hdecays : taps.map (·.decay) = taps'.map (·.decay)) : taps = taps' := by
  have hzip (taps : List EchoTap) :
      List.zipWith EchoTap.mk (taps.map (·.delayMs)) (taps.map (·.decay)) = taps := by
    simp [List.zipWith_map]
  rw [← hzip taps, hdelays, hdecays, hzip]

theorem echoText_append_inj {inGain outGain inGain' outGain' : Float} {taps taps' : List EchoTap}
    (hne : taps ≠ []) (hne' : taps' ≠ []) (hs : Closes s) (ht : Closes t)
    (h : (echoText inGain outGain taps).toList ++ s =
      (echoText inGain' outGain' taps').toList ++ t) :
    (inGain = inGain' ∧ outGain = outGain' ∧ taps = taps') ∧ s = t := by
  simp only [toList_echoText, List.append_assoc, List.cons_append] at h
  obtain ⟨hgains, h⟩ :=
    Record.gains.append_inj (closes_colon _).stops (closes_colon _).stops h
  obtain ⟨hdelays, h⟩ := joinWith_plain_append_inj (by simpa using hne) (by simpa using hne')
    (closes_colon _) (closes_colon _) (List.cons.inj h).2
  obtain ⟨hdecays, hrest⟩ := joinWith_plain_append_inj (by simpa using hne) (by simpa using hne')
    hs ht (List.cons.inj h).2
  rw [Prod.mk.injEq] at hgains
  exact ⟨⟨hgains.1, hgains.2, EchoTap.eq_of_map_eq hdelays hdecays⟩, hrest⟩

end Echoes

namespace AudioStage

/-- A reverb has more taps than the one of an echo. -/
def Legible : AudioStage → Prop
  | .reverb _ _ taps => 1 < taps.length
  | _ => True

def filter : AudioStage → String
  | .declick => "adeclick"
  | .declip => "adeclip"
  | .echo .. | .reverb .. => "aecho"
  | .normalize .. => "aformat"
  | .delay _ => "adelay"

theorem leadingName_text (a : AudioStage) {s : List Char} (hs : Closes s) :
    leadingName (a.text.toList ++ s) = a.filter := by
  cases a with
  | declick => exact leadingName_append "adeclick" (by simp) hs
  | declip => exact leadingName_append "adeclip" (by simp) hs
  | echo | reverb =>
    unfold text echoText
    simp [leadingName, filter]
  | normalize | delay =>
    unfold text
    simp [leadingName, filter]

theorem Legible.taps_ne_nil {inGain outGain : Float} {taps : List EchoTap}
    (h : (reverb inGain outGain taps).Legible) : taps ≠ [] :=
  List.ne_nil_of_length_pos (Nat.zero_lt_of_lt h)

theorem toList_normalize (sampleRate : UInt32) (volume : Float) :
    (normalize sampleRate volume).text.toList = Record.format.chars (sampleRate, volume) := by
  unfold text
  simp [Record.chars_eq, Record.format]

theorem toList_delay (ms : Nat) : (delay ms).text.toList = Record.delay.chars ms := by
  unfold text
  simp [Record.chars_eq, Record.delay]

/-- A stage ends where the next one starts. -/
theorem append_inj {a b : AudioStage} (ha : a.Legible) (hb : b.Legible) {s t : List Char}
    (hs : Closes s) (ht : Closes t) (h : a.text.toList ++ s = b.text.toList ++ t) :
    a = b ∧ s = t := by
  have hfilter : a.filter = b.filter := by
    rw [← leadingName_text a hs, h, leadingName_text b ht]
  cases a <;> cases b <;> simp [filter] at hfilter
  case declick.declick | declip.declip => exact ⟨rfl, List.append_cancel_left h⟩
  case echo.echo =>
    obtain ⟨⟨rfl, rfl, htaps⟩, hrest⟩ := echoText_append_inj (by simp) (by simp) hs ht h
    exact ⟨by rw [List.singleton_inj.mp htaps], hrest⟩
  case echo.reverb =>
    obtain ⟨⟨-, -, rfl⟩, -⟩ := echoText_append_inj (by simp) hb.taps_ne_nil hs ht h
    exact absurd hb (by simp [Legible])
  case reverb.echo =>
    obtain ⟨⟨-, -, rfl⟩, -⟩ := echoText_append_inj ha.taps_ne_nil (by simp) hs ht h
    exact absurd ha (by simp [Legible])
  case reverb.reverb =>
    obtain ⟨⟨rfl, rfl, rfl⟩, hrest⟩ :=
      echoText_append_inj ha.taps_ne_nil hb.taps_ne_nil hs ht h
    exact ⟨rfl, hrest⟩
  case normalize.normalize =>
    rw [toList_normalize, toList_normalize] at h
    obtain ⟨heq, hrest⟩ := Record.format.append_inj hs.stops ht.stops h
    rw [Prod.mk.injEq] at heq
    exact ⟨by rw [heq.1, heq.2], hrest⟩
  case delay.delay =>
    rw [toList_delay, toList_delay] at h
    obtain ⟨rfl, hrest⟩ := Record.delay.append_inj hs.stops ht.stops h
    exact ⟨rfl, hrest⟩

end AudioStage

namespace AudioTrack

variable {t : AudioTrack} {pow : Power}

theorem legible_reflectionStages : ∀ a ∈ t.reflectionStages pow, a.Legible := by
  have htaps (delayMs decay : Float) : 1 < (reverbTaps pow delayMs decay).length := by
    simp [reverbTaps, reverbTapCount]
  unfold reflectionStages
  split
  · simpa [AudioStage.Legible] using htaps _ _
  · split <;> simp [AudioStage.Legible]

theorem legible_stages (sampleRate : UInt32) : ∀ a ∈ t.stages pow sampleRate, a.Legible := by
  unfold stages
  simp only [List.forall_mem_append]
  refine ⟨⟨⟨⟨?_, ?_⟩, legible_reflectionStages⟩, by simp [AudioStage.Legible]⟩, ?_⟩
  all_goals split <;> simp [AudioStage.Legible]

theorem stages_ne_nil (t : AudioTrack) (pow : Power) (sampleRate : UInt32) :
    t.stages pow sampleRate ≠ [] :=
  List.ne_nil_of_mem (a := .normalize sampleRate t.volume) (by simp [stages])

end AudioTrack

end Montage
