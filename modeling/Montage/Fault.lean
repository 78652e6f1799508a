import Montage.Geometry
import Montage.Interval
import Montage.Decimal.Text
import Montage.Text.Quoted
import Montage.Timeline.Mode
import Montage.Layout.Kind

/-!
Why a request is not compiled.  A rejection names the first thing wrong with the request; the
other faults would be wrong turns of the compilation itself.
-/

namespace Montage

inductive TrackRef
  | video (index : Nat)
  | audio (index : Nat)
  deriving DecidableEq, Repr

def TrackRef.text : TrackRef → String
  | .video i => "video track " ++ toString i
  | .audio i => "audio track " ++ toString i

/-- A setting of a track that is out of range, with its value. -/
inductive Parameter
  | volume (x : Float)
  | startTime (x : Float)
  | reverbDelay (x : Float)
  | reverbDecay (x : Float)
  | echoDelay (x : Float)
  | echoDecay (x : Float)
  | echoInGain (x : Float)
  | echoOutGain (x : Float)
  | interval (i : Interval)
  | resolution (s : Size)
  deriving DecidableEq, Repr

def Parameter.name : Parameter → String
  | .volume _ => "volume"
  | .startTime _ => "start_time"
  | .reverbDelay _ => "reverb.delay_ms"
  | .reverbDecay _ => "reverb.decay"
  | .echoDelay _ => "echo.delay_ms"
  | .echoDecay _ => "echo.decay"
  | .echoInGain _ => "echo.in_gain"
  | .echoOutGain _ => "echo.out_gain"
  | .interval _ => "interval"
  | .resolution _ => "resolution"

def Parameter.value : Parameter → String
  | .volume x | .startTime x | .reverbDelay x | .reverbDecay x | .echoDelay x | .echoDecay x
  | .echoInGain x | .echoOutGain x => Decimal.plain x
  | .interval i => "[" ++ Decimal.plain i.start ++ ", " ++ Decimal.plain i.stop ++ ")"
  | .resolution s => s.text

inductive TileList
  | files
  | resolutions
  deriving DecidableEq, Repr

def TileList.name : TileList → String
  | .files => "files"
  | .resolutions => "resolutions"

inductive CanvasFault
  | empty
  /-- A region of the layout has no pixels. -/
  | tooSmall (kind : LayoutKind)
  deriving DecidableEq, Repr

def CanvasFault.reason : CanvasFault → String
  | .empty => "width and height must be non-zero"
  | .tooSmall kind => "too small for the " ++ kind.name ++ " layout"

inductive Operation
  | encode
  | thumbnails
  | exportFile
  deriving DecidableEq, Repr

def Operation.name : Operation → String
  | .encode => "encode"
  | .thumbnails => "thumbnails"
  | .exportFile => "export"

inductive CompileError
  | invalidLayout (name : String)
  | layoutMismatch (track : TrackRef) (layout : LayoutKind) (list : TileList)
      (expected actual : Nat)
  | invalidParameter (track : TrackRef) (parameter : Parameter)
  | invalidCanvas (size : Size) (fault : CanvasFault)
  | invalidMode (mode : OutputMode) (operation : Operation)
  deriving DecidableEq, Repr

def CompileError.message : CompileError → String
  | .invalidLayout name => "Invalid layout kind: " ++ Text.quoted name
  | .layoutMismatch track layout list expected actual =>
    "Layout mismatch on " ++ track.text ++ ": " ++ layout.name ++ " expects "
      ++ toString expected ++ " " ++ list.name ++ ", got " ++ toString actual
  | .invalidParameter track p =>
    "Invalid parameter on " ++ track.text ++ ": " ++ p.name ++ " = " ++ p.value
  | .invalidCanvas size fault => "Invalid canvas " ++ size.text ++ ": " ++ fault.reason
  | .invalidMode mode operation =>
    "Output mode " ++ mode.name ++ " cannot be used for " ++ operation.name

end Montage
