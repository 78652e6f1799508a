import Montage.Source
import Montage.Video.Tile

/-!
The visible half of a graph.  Every tile is scaled, cut and laid over the canvas so far while its
interval lasts.  A file that several tiles show is copied first, so that each of them reads a pad
of its own.
-/

namespace Montage

/-- What the picture needs to know of the request beside its tracks. -/
structure VideoSettings where
  canvas : Size
  fps : UInt32
  /-- How long the background and the blank tiles last. -/
  duration : Float
  effects : List VideoEffects

namespace VideoSettings

/-- The adjustments for a file; the last entry for it counts. -/
def effectsFor? (s : VideoSettings) (file : String) : Option VideoEffects :=
  s.effects.reverse.find? (·.file == file)

def colorNode (s : VideoSettings) (size : Size) (out : Pad) : Node :=
  ⟨.color size s.fps s.duration, [], [out]⟩

def scaleCropNode (s : VideoSettings) (t : Tile) (input out : Pad) : Node :=
  let grade := (t.file.bind s.effectsFor?).bind Grade.ofEffects
  ⟨.scaleCrop t.fit.fitted t.fit.crop grade, [input], [out]⟩

end VideoSettings

/-- How the tiles that show one source get at its picture. -/
inductive Tap
  | direct
  | copies (next : Nat)
  deriving DecidableEq, Repr

abbrev Taps := List Tap

namespace Registry

/-- The input node of every source that is shown, and a node for its copies if there are to be
several.  Sources that are not shown keep their place but get no node. -/
def sourceNodes (r : Registry) : List Node :=
  r.entries.zipIdx.flatMap fun (source, i) =>
    let stream := Pad.stream i .video
    let input : Node := ⟨.input i .video, [], [stream]⟩
    let copies : Node :=
      ⟨.split source.uses, [stream], (List.range source.uses).map (Pad.copy i)⟩
    if source.uses = 0 then [] else if source.uses = 1 then [input] else [input, copies]

def taps (r : Registry) : Taps :=
  r.entries.map fun source => if 1 < source.uses then .copies 0 else .direct

end Registry

/-- The pad for the next tile that shows a source, and the taps after it. -/
def Taps.take (taps : Taps) (id : SourceId) : Except Fault (Pad × Taps) :=
  match taps[id.index]? with
  | none => .error (.unknownSource id.index)
  | some .direct => .ok (Pad.stream id.index .video, taps)
  | some (.copies k) => .ok (Pad.copy id.index k, taps.set id.index (.copies (k + 1)))

def Registry.acquireAll (r : Registry) : List Tile → Registry × List (Option SourceId)
  | [] => (r, [])
  | t :: rest =>
    match t.file with
    | none =>
      let (r, ids) := r.acquireAll rest
      (r, none :: ids)
    | some path =>
      let (r, id) := r.acquire path
      let (r, ids) := r.acquireAll rest
      (r, some id :: ids)

/-- The pad that the picture of a tile comes from.  A blank tile brings its own node. -/
def VideoSettings.feed (s : VideoSettings) (taps : Taps) (n : Nat) (t : Tile) :
    Option SourceId → Except Fault (List Node × Pad × Taps)
  | none => .ok ([s.colorNode t.region.size (Pad.blank n)], Pad.blank n, taps)
  | some id => (taps.take id).map fun (pad, taps) => ([], pad, taps)

/-- Lays tiles over a canvas, the first of them being tile number `n`.  The last one makes the
finished picture. -/
def VideoSettings.paint (s : VideoSettings) (n : Nat) (canvas : Pad) (taps : Taps) :
    List (Tile × Option SourceId) → Except Fault (List Node × Pad)
  | [] => .ok ([], canvas)
  | (t, id) :: rest => do
    let (blank, input, taps) ← s.feed taps n t id
    let next := if rest.isEmpty then Pad.videoOut else Pad.canvas n
    let scaled := Pad.tile n
    let overlay : Node :=
      ⟨.overlay t.region.origin.x t.region.origin.y t.interval, [canvas, scaled], [next]⟩
    let (nodes, out) ← s.paint (n + 1) next taps rest
    return (blank ++ [s.scaleCropNode t input scaled, overlay] ++ nodes, out)

/-- A tile that fills the canvas from the start needs nothing under it. -/
def Tile.standsAlone (t : Tile) (canvas : Size) : Bool :=
  t.region.coversCanvas canvas && t.interval.start == 0

/-- The graph of the picture and its last pad.  The files of all tiles are registered in place, and
stay registered even if no graph comes out. -/
def drawVideo (tracks : List VideoTrack) (s : VideoSettings) :
    ExceptT Fault (StateM Registry) (Graph × Pad) := do
  let tiles ← liftExcept (Tile.planAll tracks s.canvas)
  let ids ← modifyGet fun sources => (sources.acquireAll tiles).swap
  let sources ← get
  let inputs := sources.sourceNodes
  match tiles, ids with
  | [t], [id] =>
    if t.standsAlone s.canvas then
      let (blank, input, _) ← liftExcept (s.feed sources.taps 0 t id)
      let nodes := inputs ++ blank ++ [s.scaleCropNode t input Pad.videoOut]
      return (⟨nodes⟩, Pad.videoOut)
  | _, _ => pure ()
  let background := s.colorNode s.canvas Pad.background
  let (nodes, out) ← liftExcept (s.paint 0 Pad.background sources.taps (tiles.zip ids))
  return (⟨inputs ++ [background] ++ nodes⟩, out)

/-- The graph of the picture, its last pad, and the registry with the files of all tiles. -/
def assembleVideo (tracks : List VideoTrack) (sources : Registry) (s : VideoSettings) :
    Except Fault (Graph × Pad × Registry) :=
  match (drawVideo tracks s).run.run sources with
  | (.ok (graph, out), sources) => .ok (graph, out, sources)
  | (.error f, _) => .error f

end Montage
