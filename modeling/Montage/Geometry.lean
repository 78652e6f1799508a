import Montage.Word

/-!
Sizes, points and rectangles, in whole pixels.
-/

namespace Montage

structure Size where
  width : UInt32
  height : UInt32
  deriving DecidableEq, Repr

namespace Size

/-- The canvas of a request that names none. -/
def fullHD : Size := ⟨1920, 1080⟩

def area (s : Size) : UInt64 := s.width.toUInt64 * s.height.toUInt64

def isEmpty (s : Size) : Bool := s.width == 0 || s.height == 0

/-- At least as large as the other on both axes. -/
def covers (s t : Size) : Bool := t.width ≤ s.width && t.height ≤ s.height

def text (s : Size) : String := toString s.width.toNat ++ "x" ++ toString s.height.toNat

end Size

structure Point where
  x : UInt32
  y : UInt32
  deriving DecidableEq, Repr

structure Rect where
  origin : Point
  size : Size
  deriving DecidableEq, Repr

namespace Rect

def right (r : Rect) : Except Overflow UInt32 := Word.add r.origin.x r.size.width

def bottom (r : Rect) : Except Overflow UInt32 := Word.add r.origin.y r.size.height

/-- Whether the two share a pixel.  An edge is computed only when the answer still hangs on it. -/
def overlaps (a b : Rect) : Except Overflow Bool := do
  unless a.origin.x < (← b.right) do return false
  unless b.origin.x < (← a.right) do return false
  unless a.origin.y < (← b.bottom) do return false
  return b.origin.y < (← a.bottom)

end Rect

end Montage
