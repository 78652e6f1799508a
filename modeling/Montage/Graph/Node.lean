import Montage.Audio.Chain

/-!
The nodes of a filter graph and the pads that join them.  A node reads the pads it lists as
inputs and writes those it lists as outputs; an edge is a pad that one node writes and another
reads.
-/

namespace Montage

inductive StreamKind
  | video
  | audio
  deriving DecidableEq, Repr

def StreamKind.specifier : StreamKind → String
  | .video => "v"
  | .audio => "a"

structure Pad where
  label : String
  deriving DecidableEq, Repr

namespace Pad

def videoOut : Pad := ⟨"vout"⟩

def audioOut : Pad := ⟨"aout"⟩

/-- The black canvas under all tiles. -/
def background : Pad := ⟨"bg"⟩

def stream (index : Nat) (kind : StreamKind) : Pad := ⟨toString index ++ ":" ++ kind.specifier⟩

/-- One of the copies of an input that several tiles show. -/
def copy (index k : Nat) : Pad := ⟨"src" ++ toString index ++ "_" ++ toString k⟩

def blank (n : Nat) : Pad := ⟨"blank" ++ toString n⟩

/-- A tile in its final size. -/
def tile (n : Nat) : Pad := ⟨"tile" ++ toString n⟩

/-- The canvas with all tiles up to this one. -/
def canvas (n : Nat) : Pad := ⟨"canvas" ++ toString n⟩

def track (n : Nat) : Pad := ⟨"a" ++ toString n⟩

end Pad

/-- An adjustment of contrast, brightness and gamma; 1, 0 and 1 change nothing. -/
structure Equalizer where
  contrast : Float
  brightness : Float
  gammaR : Float
  gammaG : Float
  gammaB : Float
  deriving DecidableEq, Repr

/-- What is done to the picture of a tile before it is scaled. -/
structure Grade where
  equalizer : Option Equalizer
  blur : Option Nat
  deriving DecidableEq, Repr

/-- The grade for adjustments moved into range; none if nothing is adjusted. -/
def Grade.ofEffects (effects : VideoEffects) : Option Grade :=
  let fx := effects.clamped
  if fx.isIdentity then none
  else
    let equalizer : Equalizer :=
      { contrast := fx.contrast.getD 1
        brightness := fx.brightness.getD 0
        gammaR := (fx.balance.map (·.r)).getD 1
        gammaG := (fx.balance.map (·.g)).getD 1
        gammaB := (fx.balance.map (·.b)).getD 1 }
    some
      { equalizer :=
          if fx.brightness.isSome || fx.contrast.isSome || fx.balance.isSome then some equalizer
          else none
        blur := fx.blurRadius.map (Decimal.roundWithin (UInt32.size - 1)) }

inductive NodeKind
  | input (index : Nat) (stream : StreamKind)
  | color (size : Size) (fps : UInt32) (duration : Float)
  | split (fanout : Nat)
  | scaleCrop (resolution : Size) (crop : Rect) (grade : Option Grade)
  /-- Lays the second input over the first while the interval lasts. -/
  | overlay (x y : UInt32) (enable : Interval)
  | audioChain (chain : AudioChain)
  /-- As long as its longest input, then silence up to a time. -/
  | mix (inputs : Nat) (padTo : Option Float)
  deriving DecidableEq, Repr

/-- The rank of a node in the written order. -/
inductive Stage
  | source
  | split
  | scaleCrop
  | overlay
  | audioChain
  | mix
  deriving DecidableEq, Repr

def Stage.all : List Stage := [.source, .split, .scaleCrop, .overlay, .audioChain, .mix]

def NodeKind.stage : NodeKind → Stage
  | .input .. => .source
  | .color .. => .source
  | .split .. => .split
  | .scaleCrop .. => .scaleCrop
  | .overlay .. => .overlay
  | .audioChain .. => .audioChain
  | .mix .. => .mix

structure Node where
  kind : NodeKind
  inputs : List Pad
  outputs : List Pad
  deriving DecidableEq, Repr

def Node.stage (n : Node) : Stage := n.kind.stage

end Montage
