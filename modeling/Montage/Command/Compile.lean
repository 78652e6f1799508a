import Montage.Audio.Mix
import Montage.Command.Basic
import Montage.Video.Assembly

/-!
From a request to a command.  Everything is checked before anything is written: a request that is
rejected leaves nothing behind.
-/

namespace Montage

namespace Request

def videoSettings (r : Request) : VideoSettings where
  canvas := r.canvas
  fps := r.effectiveFps
  duration := r.duration
  effects := r.effects

/-- The graph of a request with its outputs and its sources.  Audio is checked in every mode and
becomes part of the graph unless only stills are wanted. -/
def assemble (pow : Power) (r : Request) : Except Fault (Graph × GraphOutputs × Registry) := do
  let (picture, video, sources) ← assembleVideo r.videoTracks .empty r.videoSettings
  let sound ← Fault.ofRejection
    (mixAudio pow r.audioTracks r.sampleRate sources.size r.duration)
  match sound with
  | some (sound, pad) =>
    if r.mode = .thumbnail then return (picture, ⟨video, none⟩, sources)
    else return (picture.merge sound, ⟨video, some pad⟩, sources)
  | none => return (picture, ⟨video, none⟩, sources)

def compileFor (pow : Power) (op : Operation) (r : Request) : Except Fault Command := do
  let (graph, outputs, sources) ← r.assemble pow
  match graph.checkEdges outputs.terminals with
  | .error e => .error (.unlinked e)
  | .ok () => Fault.ofRejection (linearize graph outputs sources r op)

def compile (pow : Power) (r : Request) : Except Fault Command :=
  r.compileFor pow (Operation.forMode r.mode)

end Request

end Montage
