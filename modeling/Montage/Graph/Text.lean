import Montage.Graph.Basic

/-!
Graphs in the processor's notation: one chain for each node, stage by stage, with semicolons
between them.  Declared inputs are referred to and have no chain of their own.
-/

namespace Montage

namespace Pad

def reference (p : Pad) : String := "[" ++ p.label ++ "]"

end Pad

def joinWith (separator : String) (parts : List String) : String :=
  String.intercalate separator parts

/-- Gains, then all delays, then all decays. -/
def echoText (inGain outGain : Float) (taps : List EchoTap) : String :=
  "aecho=" ++ Decimal.plain inGain ++ ":" ++ Decimal.plain outGain
    ++ ":" ++ joinWith "|" (taps.map fun t => Decimal.plain t.delayMs)
    ++ ":" ++ joinWith "|" (taps.map fun t => Decimal.plain t.decay)

def AudioStage.text : AudioStage → String
  | .declick => "adeclick"
  | .declip => "adeclip"
  | .echo inGain outGain tap => echoText inGain outGain [tap]
  | .reverb inGain outGain taps => echoText inGain outGain taps
  | .normalize sampleRate volume =>
    "aformat=sample_fmts=fltp:sample_rates=" ++ toString sampleRate.toNat
      ++ ":channel_layouts=stereo,volume=" ++ Decimal.plain volume
  | .delay ms => "adelay=" ++ toString ms ++ "|" ++ toString ms

def Equalizer.text (e : Equalizer) : String :=
  "eq=contrast=" ++ Decimal.plain e.contrast ++ ":brightness=" ++ Decimal.plain e.brightness
    ++ ":gamma_r=" ++ Decimal.plain e.gammaR ++ ":gamma_g=" ++ Decimal.plain e.gammaG
    ++ ":gamma_b=" ++ Decimal.plain e.gammaB ++ ","

/-- The filters of a grade, each with a comma after it, ready to stand before the scaling. -/
def Grade.text (g : Grade) : String :=
  (g.equalizer.map Equalizer.text).getD ""
    ++ (g.blur.map fun r => "avgblur=sizeX=" ++ toString r ++ ",").getD ""

/-- What a node does, without its pads. -/
def NodeKind.text : NodeKind → Option String
  | .input .. => none
  | .color size fps duration =>
    some ("color=c=black:s=" ++ size.text ++ ":r=" ++ toString fps.toNat
      ++ ":d=" ++ Decimal.plain duration)
  | .split fanout => some ("split=" ++ toString fanout)
  | .scaleCrop resolution crop grade =>
    some ((grade.map Grade.text).getD ""
      ++ "scale=" ++ toString resolution.width.toNat ++ ":" ++ toString resolution.height.toNat
      ++ ",crop=" ++ toString crop.size.width.toNat ++ ":" ++ toString crop.size.height.toNat
      ++ ":" ++ toString crop.origin.x.toNat ++ ":" ++ toString crop.origin.y.toNat)
  | .overlay x y enable =>
    some ("overlay=x=" ++ toString x.toNat ++ ":y=" ++ toString y.toNat
      ++ ":enable='gte(t," ++ Decimal.plain enable.start
      ++ ")*lt(t," ++ Decimal.plain enable.stop ++ ")':eof_action=pass")
  | .audioChain chain => some (joinWith "," (chain.stages.map AudioStage.text))
  | .mix inputs padTo =>
    some ("amix=inputs=" ++ toString inputs ++ ":duration=longest"
      ++ (padTo.map fun t => ",apad=whole_dur=" ++ Decimal.plain t).getD "")

def Node.text (n : Node) : Option String :=
  n.kind.text.map fun body =>
    String.join (n.inputs.map Pad.reference) ++ body ++ String.join (n.outputs.map Pad.reference)

def Graph.text (g : Graph) : String := joinWith ";" (g.ordered.filterMap Node.text)

end Montage
