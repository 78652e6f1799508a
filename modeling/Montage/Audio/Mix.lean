import Montage.Graph.Basic

/-!
The audible half of a graph: every track through its own stages, and all of them into one mix.
-/

namespace Montage

def AudioChain.nodes (offset : Nat) (c : AudioChain) : List Node :=
  let stream := Pad.stream (offset + c.track) .audio
  [⟨.input (offset + c.track) .audio, [], [stream]⟩,
   ⟨.audioChain c, [stream], [Pad.track c.track]⟩]

/-- The mix of all tracks, which are read from the inputs from `offset` on.  It ends with its
longest track or, if that is later, with the timeline.  There is no mix of no tracks. -/
def mixAudio (pow : Power) (tracks : List AudioTrack) (sampleRate : UInt32) (offset : Nat)
    (timeline : Float) : Except CompileError (Option (Graph × Pad)) := do
  let chains ← tracks.zipIdx.mapM fun (t, i) => t.chain pow i sampleRate
  if chains.isEmpty then return none
  let mix : Node :=
    { kind := .mix chains.length
        (if timeline.isFinite && (0 : Float) < timeline then some timeline else none)
      inputs := chains.map fun c => Pad.track c.track
      outputs := [Pad.audioOut] }
  return some (⟨chains.flatMap (·.nodes offset) ++ [mix]⟩, Pad.audioOut)

end Montage
