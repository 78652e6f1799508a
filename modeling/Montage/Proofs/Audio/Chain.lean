import Mathlib
import Montage.Audio.Chain
import Montage.Proofs.Verdict

/-!
What is wrong with an audio track, and the chain of one with which nothing is wrong.
-/

namespace Montage

namespace AudioTrack

variable (t : AudioTrack) (index : Nat)

def complaint (ok : Bool) (p : Parameter) : List CompileError :=
  complain (ok = true) (.invalidParameter (.audio index) p)

/-- What is wrong with the echo or the reverb, whichever is heard. -/
def reflectionFaults : List CompileError :=
  if t.reverb.enabled then
    complaint index (isEchoDelay t.reverb.delayMs) (.reverbDelay t.reverb.delayMs) ++
      complaint index (isShare t.reverb.decay) (.reverbDecay t.reverb.decay)
  else if t.echo.enabled then
    complaint index (isEchoDelay t.echo.delayMs) (.echoDelay t.echo.delayMs) ++
      (complaint index (isShare t.echo.decay) (.echoDecay t.echo.decay) ++
        (complaint index (isShare t.echo.inGain) (.echoInGain t.echo.inGain) ++
          complaint index (isShare t.echo.outGain) (.echoOutGain t.echo.outGain)))
  else []

/-- What is wrong with a track, in the order it is looked for. -/
def faults : List CompileError :=
  complaint index (isLevel t.volume) (.volume t.volume) ++
    (complaint index (isLevel t.startTime) (.startTime t.startTime) ++ t.reflectionFaults index)

variable (pow : Power)

def reflectionStages : List AudioStage :=
  if t.reverb.enabled then
    [.reverb reverbInGain reverbOutGain (reverbTaps pow t.reverb.delayMs t.reverb.decay)]
  else if t.echo.enabled then
    [.echo t.echo.inGain t.echo.outGain ⟨t.echo.delayMs, t.echo.decay⟩]
  else []

def stages (sampleRate : UInt32) : List AudioStage :=
  (if t.declick then [.declick] else []) ++ (if t.declip then [.declip] else [])
    ++ t.reflectionStages pow ++ [.normalize sampleRate t.volume]
    ++ (if startDelayMs t.startTime = 0 then [] else [.delay (startDelayMs t.startTime)])

variable {t index pow}

theorem require_eq (ok : Bool) (p : Parameter) :
    require index ok p = verdict (complaint index ok p) () := by
  cases ok <;> rfl

theorem reflections_eq :
    t.reflections pow index = verdict (t.reflectionFaults index) (t.reflectionStages pow) := by
  unfold reflections reflectionFaults reflectionStages
  split
  · simp only [require_eq]
    apply verdict_bind
    intro _
    exact verdict_bind_ok rfl
  · split
    · simp only [require_eq]
      apply verdict_bind
      intro _
      apply verdict_bind
      intro _
      apply verdict_bind
      intro _
      exact verdict_bind_ok rfl
    · rfl

theorem chain_eq (sampleRate : UInt32) :
    t.chain pow index sampleRate = verdict (t.faults index) ⟨index, t.stages pow sampleRate⟩ := by
  unfold chain faults
  rw [require_eq, require_eq, reflections_eq]
  apply verdict_bind
  intro _
  apply verdict_bind
  intro _
  exact verdict_bind_ok rfl

theorem eq_of_chain_eq_ok {sampleRate : UInt32} {c : AudioChain}
    (h : t.chain pow index sampleRate = .ok c) :
    t.faults index = [] ∧ c = ⟨index, t.stages pow sampleRate⟩ := by
  rw [chain_eq, verdict_eq_ok_iff] at h
  exact ⟨h.1, h.2.symm⟩

end AudioTrack

end Montage
