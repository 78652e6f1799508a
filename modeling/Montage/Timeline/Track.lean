import Montage.Geometry
import Montage.Interval

/-!
What lies on the timeline: video tracks, audio tracks, and the adjustments made to the picture of
a file.
-/

namespace Montage

/-- A stretch of the timeline laid out in a template.  The file at a place fills the region at that
place; an empty name leaves the region blank. -/
structure VideoTrack where
  files : List String
  layout : String
  interval : Interval
  resolutions : List Size
  deriving DecidableEq, Repr

/-- An echo with one reflection. -/
structure EchoSettings where
  enabled : Bool
  delayMs : Float
  decay : Float
  inGain : Float
  outGain : Float
  deriving DecidableEq, Repr

namespace EchoSettings

def standard : EchoSettings := ⟨false, 1000, 0.5, 0.6, 0.3⟩

end EchoSettings

/-- A reverb, from which a bank of reflections is derived. -/
structure ReverbSettings where
  enabled : Bool
  delayMs : Float
  decay : Float
  deriving DecidableEq, Repr

namespace ReverbSettings

def standard : ReverbSettings := ⟨false, 100, 0.5⟩

end ReverbSettings

structure AudioTrack where
  file : String
  startTime : Float
  volume : Float
  declick : Bool
  declip : Bool
  echo : EchoSettings
  reverb : ReverbSettings
  deriving DecidableEq, Repr

namespace AudioTrack

/-- The gain of a clip that names none. -/
def standardVolume : Float := 1

/-- A clip from the start of the timeline, as loud as it is and without effects. -/
def ofFile (file : String) : AudioTrack :=
  ⟨file, 0, 1, false, false, .standard, .standard⟩

end AudioTrack

structure ColorBalance where
  r : Float
  g : Float
  b : Float
  deriving DecidableEq, Repr

/-- Adjustments to every tile that shows the file. -/
structure VideoEffects where
  file : String
  brightness : Option Float
  contrast : Option Float
  balance : Option ColorBalance
  blurRadius : Option Float
  deriving DecidableEq, Repr

namespace VideoEffects

def ofFile (file : String) : VideoEffects := ⟨file, none, none, none, none⟩

/-- The value moved into the range; one that is not finite is dropped. -/
def within (low high : Float) (x : Float) : Option Float :=
  if x.isFinite then some (Seconds.clamp low high x) else none

/-- Every value moved into the range that the processor takes.  A balance with a channel that is
not finite is dropped as a whole. -/
def clamped (fx : VideoEffects) : VideoEffects where
  file := fx.file
  brightness := fx.brightness.bind (within (-1) 1)
  contrast := fx.contrast.bind (within (-1000) 1000)
  balance := fx.balance.bind fun c => do
    return ⟨← within 0.1 10 c.r, ← within 0.1 10 c.g, ← within 0.1 10 c.b⟩
  blurRadius := fx.blurRadius.bind (within 1 50)

def isIdentity (fx : VideoEffects) : Bool :=
  fx.brightness.isNone && fx.contrast.isNone && fx.balance.isNone && fx.blurRadius.isNone

end VideoEffects

end Montage
