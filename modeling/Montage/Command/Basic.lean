import Montage.Graph.Text
import Montage.Source
import Montage.Timeline.Request
import Montage.Video.Tile

/-!
A processor command: the declared inputs, the graph as text, which pads go to the output, and how
the output is encoded.
-/

namespace Montage

namespace Operation

def forMode : OutputMode → Operation
  | .thumbnail => .thumbnails
  | .preview => .encode
  | .render => .encode

def allows : Operation → OutputMode → Bool
  | .encode, m => m != .thumbnail
  | .thumbnails, m => m == .thumbnail
  | .exportFile, m => m == .render

def check (op : Operation) (mode : OutputMode) : Except CompileError Unit :=
  if op.allows mode then .ok () else .error (.invalidMode mode op)

end Operation

structure GraphOutputs where
  video : Pad
  audio : Option Pad
  deriving DecidableEq, Repr

def GraphOutputs.terminals (o : GraphOutputs) : List Pad := o.video :: o.audio.toList

structure Command where
  mode : OutputMode
  args : List String
  filterGraph : String
  duration : Float
  hasAudio : Bool
  output : String
  deriving DecidableEq, Repr

namespace Command

/-- The arguments in one line, for reading only. -/
def display (c : Command) : String := String.intercalate " " c.args

/-- Where stills are written: numbered, with at least four digits. -/
def stillsPattern : String := "thumbs/%04d.png"

def description : String := "description=Made with VideoBones"

/-- Every command starts with these: overwrite, keep quiet, and report progress line by line. -/
def globalArgs : List String := ["-y", "-hide_banner", "-nostats", "-progress", "pipe:1"]

/-- The declaration of one input; a preview reads its inputs no faster than they play. -/
def inputArgs (mode : OutputMode) (path : String) : List String :=
  (if mode = .preview then ["-re"] else []) ++ ["-i", path]

def outputFor (r : Request) : String :=
  match r.mode with
  | .thumbnail => stillsPattern
  | .preview => r.manifest
  | .render => r.outputFile

def stillsArgs (r : Request) (output : String) : List String :=
  ["-preset", "ultrafast", "-aspect", r.aspectRatio.text, "-r", "1", output]

def encodeArgs (r : Request) (hasAudio : Bool) (output : String) : List String :=
  let live := r.mode = .preview
  let fps := toString r.effectiveFps.toNat
  ["-c:v", "libx264", "-preset", if live then "ultrafast" else "medium"]
    ++ (if live then ["-tune", "zerolatency"] else [])
    ++ ["-x264opts", "keyint=" ++ fps ++ ":min-keyint=" ++ fps ++ ":no-scenecut",
        "-b:v", r.videoBitrate, "-maxrate", r.videoBitrate, "-bufsize", r.bufferSize,
        "-r", fps, "-aspect", r.aspectRatio.text]
    ++ (if hasAudio then
          ["-c:a", "aac", "-b:a", r.audioBitrate, "-ac", "2", "-ar", toString r.sampleRate.toNat]
        else [])
    ++ ["-metadata", description]
    ++ (if live then ["-f", "dash", output] else ["-f", "mp4", "-movflags", "+faststart", output])

def outputArgs (r : Request) (hasAudio : Bool) : List String :=
  match r.mode with
  | .thumbnail => stillsArgs r (outputFor r)
  | _ => encodeArgs r hasAudio (outputFor r)

def mapArgs (p : Pad) : List String := ["-map", p.reference]

end Command

/-- The command for a graph.  Sources are declared in the order of their identities and the files
of audio tracks after them, which is how the graph numbers its inputs. -/
def linearize (g : Graph) (outputs : GraphOutputs) (sources : Registry) (r : Request)
    (op : Operation) : Except CompileError Command := do
  op.check r.mode
  let filterGraph := g.text
  let audio := if r.mode = .thumbnail then none else outputs.audio
  let inputs := sources.paths ++ r.audioTracks.map (·.file)
  return {
    mode := r.mode
    args :=
      Command.globalArgs ++ inputs.flatMap (Command.inputArgs r.mode)
        ++ (if filterGraph.isEmpty then [] else ["-filter_complex", filterGraph])
        ++ Command.mapArgs outputs.video ++ audio.toList.flatMap Command.mapArgs
        ++ Command.outputArgs r audio.isSome
    filterGraph
    duration := r.duration
    hasAudio := audio.isSome
    output := Command.outputFor r }

end Montage
