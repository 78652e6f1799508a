import Montage.Decimal.Exact
import Montage.Fault
import Montage.Timeline.Track

/-!
What is done to one audio track, stage by stage: clicks and clipping are mended first, then comes
the echo or the reverb, then one format and the volume, and last the shift to its place on the
timeline.  Settings out of range are refused, never adjusted.
-/

namespace Montage

/-- How doubles are raised to powers.  What depends on it takes it as a parameter, for the last
digit of a power is the business of whoever computes it. -/
abbrev Power := Float → Float → Float

structure EchoTap where
  delayMs : Float
  decay : Float
  deriving DecidableEq, Repr

inductive AudioStage
  | declick
  | declip
  | echo (inGain outGain : Float) (tap : EchoTap)
  | reverb (inGain outGain : Float) (taps : List EchoTap)
  /-- Two channels at a common rate, then the volume. -/
  | normalize (sampleRate : UInt32) (volume : Float)
  | delay (ms : Nat)
  deriving DecidableEq, Repr

/-- The stages of one track, which is known by its place among the tracks. -/
structure AudioChain where
  track : Nat
  stages : List AudioStage
  deriving DecidableEq, Repr

namespace AudioStage

def isEcho : AudioStage → Bool
  | .echo .. => true
  | _ => false

def isReverb : AudioStage → Bool
  | .reverb .. => true
  | _ => false

end AudioStage

namespace AudioChain

def hasEcho (c : AudioChain) : Bool := c.stages.any (·.isEcho)

def hasReverb (c : AudioChain) : Bool := c.stages.any (·.isReverb)

end AudioChain

/-- The longest delay the processor takes, in milliseconds. -/
def maxEchoDelayMs : Float := 90000

def reverbTapCount : Nat := 10

def reverbInGain : Float := 0.8

def reverbOutGain : Float := 0.9

/-- Each reflection comes one delay later than the one before, up to the longest delay, and decays
by the base raised to 1, 1.6, 2.2 and so on. -/
def reverbTaps (pow : Power) (delayMs decay : Float) : List EchoTap :=
  (List.range reverbTapCount).map fun i =>
    { delayMs := Seconds.smaller (Float.ofNat (i + 1) * delayMs) maxEchoDelayMs
      decay := pow decay (1.0 + 0.6 * Float.ofNat i) }

def isLevel (x : Float) : Bool := x.isFinite && !(x < 0)

def isEchoDelay (x : Float) : Bool := x.isFinite && (0 : Float) < x && x ≤ maxEchoDelayMs

def isShare (x : Float) : Bool := x.isFinite && (0 : Float) < x && x ≤ 1

/-- The start of a track in whole milliseconds, as far as a double word goes. -/
def startDelayMs (startTime : Float) : Nat :=
  Decimal.roundWithin (UInt64.size - 1) (startTime * 1000)

namespace AudioTrack

def require (index : Nat) (ok : Bool) (p : Parameter) : Except CompileError Unit :=
  if ok then .ok () else .error (.invalidParameter (.audio index) p)

/-- The stage of the echo or the reverb.  A reverb leaves no room for an echo, whose settings are
then not looked at. -/
def reflections (pow : Power) (t : AudioTrack) (index : Nat) :
    Except CompileError (List AudioStage) := do
  if t.reverb.enabled then
    require index (isEchoDelay t.reverb.delayMs) (.reverbDelay t.reverb.delayMs)
    require index (isShare t.reverb.decay) (.reverbDecay t.reverb.decay)
    return [.reverb reverbInGain reverbOutGain (reverbTaps pow t.reverb.delayMs t.reverb.decay)]
  else if t.echo.enabled then
    require index (isEchoDelay t.echo.delayMs) (.echoDelay t.echo.delayMs)
    require index (isShare t.echo.decay) (.echoDecay t.echo.decay)
    require index (isShare t.echo.inGain) (.echoInGain t.echo.inGain)
    require index (isShare t.echo.outGain) (.echoOutGain t.echo.outGain)
    return [.echo t.echo.inGain t.echo.outGain ⟨t.echo.delayMs, t.echo.decay⟩]
  else return []

def chain (pow : Power) (t : AudioTrack) (index : Nat) (sampleRate : UInt32) :
    Except CompileError AudioChain := do
  require index (isLevel t.volume) (.volume t.volume)
  require index (isLevel t.startTime) (.startTime t.startTime)
  let reflections ← t.reflections pow index
  let delay := startDelayMs t.startTime
  return {
    track := index
    stages :=
      (if t.declick then [.declick] else []) ++ (if t.declip then [.declip] else [])
        ++ reflections ++ [.normalize sampleRate t.volume]
        ++ (if delay = 0 then [] else [.delay delay]) }

end AudioTrack

end Montage
