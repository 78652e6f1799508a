import Montage.Geometry
import Montage.Layout.Kind

/-!
A layout on a canvas is a list of regions.  Of an odd side the right or bottom half takes the
pixel left over, so the regions fill the canvas.
-/

namespace Montage

/-- The regions of a layout, in the order of a track's files. -/
def LayoutKind.template (kind : LayoutKind) (canvas : Size) : Except Overflow (List Rect) := do
  let w := canvas.width
  let h := canvas.height
  let left := w / 2
  let top := h / 2
  let right ← Word.sub w left
  let bottom ← Word.sub h top
  return match kind with
    | .single => [⟨⟨0, 0⟩, ⟨w, h⟩⟩]
    | .quad =>
      [⟨⟨0, 0⟩, ⟨left, top⟩⟩,
       ⟨⟨left, 0⟩, ⟨right, top⟩⟩,
       ⟨⟨0, top⟩, ⟨left, bottom⟩⟩,
       ⟨⟨left, top⟩, ⟨right, bottom⟩⟩]
    | .sidebarLeft =>
      [⟨⟨0, 0⟩, ⟨left, h⟩⟩,
       ⟨⟨left, 0⟩, ⟨right, top⟩⟩,
       ⟨⟨left, top⟩, ⟨right, bottom⟩⟩]
    | .bannerTop =>
      [⟨⟨0, 0⟩, ⟨w, top⟩⟩,
       ⟨⟨0, top⟩, ⟨left, bottom⟩⟩,
       ⟨⟨left, top⟩, ⟨right, bottom⟩⟩]

def Rect.coversCanvas (r : Rect) (canvas : Size) : Bool :=
  r.origin == ⟨0, 0⟩ && r.size == canvas

end Montage
