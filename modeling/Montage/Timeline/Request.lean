import Montage.Timeline.Mode
import Montage.Timeline.Track

/-!
A render request: everything that one command is compiled from.
-/

namespace Montage

structure Request where
  mode : OutputMode
  canvas : Size
  framesPerSecond : UInt32
  aspectRatio : AspectRatio
  videoBitrate : String
  audioBitrate : String
  bufferSize : String
  sampleRate : UInt32
  /-- The file of a render. -/
  outputFile : String
  /-- The manifest of a preview. -/
  manifest : String
  effects : List VideoEffects
  videoTracks : List VideoTrack
  audioTracks : List AudioTrack
  deriving DecidableEq, Repr

namespace Request

def standardFps : UInt32 := 60

def standardVideoBitrate : String := "6M"

def standardAudioBitrate : String := "320k"

def standardBufferSize : String := "32M"

def standardSampleRate : UInt32 := 48000

def standardOutputFile : String := "output.mp4"

def standardManifest : String := "stream.mpd"

/-- An empty timeline with the standard settings. -/
def ofMode (mode : OutputMode) : Request where
  mode
  canvas := .fullHD
  framesPerSecond := standardFps
  aspectRatio := .widescreen
  videoBitrate := standardVideoBitrate
  audioBitrate := standardAudioBitrate
  bufferSize := standardBufferSize
  sampleRate := standardSampleRate
  outputFile := standardOutputFile
  manifest := standardManifest
  effects := []
  videoTracks := []
  audioTracks := []

/-- The latest finite end of a video track, and zero if there is none. -/
def duration (r : Request) : Float :=
  ((r.videoTracks.map (·.interval.stop)).filter Float.isFinite).foldl Seconds.larger 0

/-- The frame rate; one stands in for zero. -/
def effectiveFps (r : Request) : UInt32 := if r.framesPerSecond = 0 then 1 else r.framesPerSecond

end Request

end Montage
