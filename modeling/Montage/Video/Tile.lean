import Montage.Fault
import Montage.Graph.Basic
import Montage.Layout.Fit
import Montage.Layout.Template
import Montage.Timeline.Track

/-!
Tiles: the regions of all video tracks, checked and measured before anything is built from them.
-/

namespace Montage

/-- Why no command comes out. -/
inductive Fault
  | rejected (e : CompileError)
  | overflow (o : Overflow)
  /-- A source that was never declared is read. -/
  | unknownSource (id : Nat)
  /-- The finished graph breaks the rule of edges. -/
  | unlinked (e : EdgeError)
  deriving DecidableEq, Repr

def Fault.message : Fault → String
  | .rejected e => e.message
  | .overflow o => o.message
  | .unknownSource _ => "index out of bounds"
  | .unlinked e => e.message

def Fault.ofOverflow {α : Type} : Except Overflow α → Except Fault α
  | .ok a => .ok a
  | .error o => .error (.overflow o)

def Fault.ofRejection {α : Type} : Except CompileError α → Except Fault α
  | .ok a => .ok a
  | .error e => .error (.rejected e)

/-- One region of one track.  A blank one has no file. -/
structure Tile where
  file : Option String
  fit : Fit
  region : Rect
  interval : Interval
  deriving DecidableEq, Repr

namespace Tile

/-- The tile for one file of a track.  A blank one is as large as its region. -/
def plan (track : TrackRef) (interval : Interval) (file : String) (native : Size)
    (region : Rect) : Except Fault Tile := do
  let native := if file.isEmpty then region.size else native
  match ← Fault.ofOverflow (fitAndCrop native region.size) with
  | some fit =>
    return ⟨if file.isEmpty then none else some file, fit, region, interval⟩
  | none => .error (.rejected (.invalidParameter track (.resolution native)))

def planTrack (canvas : Size) (t : VideoTrack) (index : Nat) : Except Fault (List Tile) := do
  let track := TrackRef.video index
  let kind ← match LayoutKind.named? t.layout with
    | some kind => pure kind
    | none => .error (.rejected (.invalidLayout t.layout))
  if t.files.length ≠ kind.regionCount then
    .error (.rejected (.layoutMismatch track kind .files kind.regionCount t.files.length))
  if t.resolutions.length ≠ t.files.length then
    .error (.rejected
      (.layoutMismatch track kind .resolutions t.files.length t.resolutions.length))
  if !t.interval.isValid then
    .error (.rejected (.invalidParameter track (.interval t.interval)))
  let regions ← Fault.ofOverflow (kind.template canvas)
  if regions.any (·.size.isEmpty) then
    .error (.rejected (.invalidCanvas canvas (.tooSmall kind)))
  ((t.files.zip t.resolutions).zip regions).mapM fun ((file, native), region) =>
    plan track t.interval file native region

def planAll (tracks : List VideoTrack) (canvas : Size) : Except Fault (List Tile) := do
  if canvas.isEmpty then .error (.rejected (.invalidCanvas canvas .empty))
  let tiles ← tracks.zipIdx.mapM fun (t, i) => planTrack canvas t i
  return tiles.flatten

end Tile

end Montage
