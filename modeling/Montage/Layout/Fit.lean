import Montage.Geometry
import Montage.Interval

/-!
Scaling a picture to cover a region and cutting off what sticks out, evenly on both sides.  The
axis that fits exactly is found by comparing whole products, so rounding the other one down never
takes it below the region.
-/

namespace Montage

structure Fit where
  /-- The picture is divided by this. -/
  ratio : Float
  fitted : Size
  /-- The part of it that is kept. -/
  crop : Rect
  deriving DecidableEq, Repr

/-- The sides of the smallest scaling of `native` that covers `region`, rounded down. -/
def coveringSides (native region : Size) : Except Overflow (UInt64 × UInt64) := do
  let nw := native.width.toUInt64
  let nh := native.height.toUInt64
  let rw := region.width.toUInt64
  let rh := region.height.toUInt64
  let wide ← Word.mul nw rh
  let tall ← Word.mul nh rw
  if tall ≤ wide then return (← Word.div wide nh, rh)
  else return (rw, ← Word.div tall nw)

def coveringRatio (native region : Size) : Float :=
  let quotient (a b : UInt32) : Float := Float.ofNat a.toNat / Float.ofNat b.toNat
  Seconds.smaller (quotient native.width region.width) (quotient native.height region.height)

/-- The scaled picture and its middle part; none when a side is zero or the scaled picture has a
side beyond a word. -/
def fitAndCrop (native region : Size) : Except Overflow (Option Fit) := do
  if native.isEmpty || region.isEmpty then return none
  let (w, h) ← coveringSides native region
  match Word.narrow? w, Word.narrow? h with
  | some w, some h =>
    let x ← Word.sub w region.width
    let y ← Word.sub h region.height
    return some
      { ratio := coveringRatio native region
        fitted := ⟨w, h⟩
        crop := ⟨⟨x / 2, y / 2⟩, region⟩ }
  | _, _ => return none

end Montage
