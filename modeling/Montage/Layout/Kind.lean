/-!
The screen layouts a video track can name, by word or by glyph.
-/

namespace Montage

inductive LayoutKind
  /-- One region covers the canvas. -/
  | single
  | quad
  /-- The left half, and the right half split in two. -/
  | sidebarLeft
  /-- The top half, and the bottom half split in two. -/
  | bannerTop
  deriving DecidableEq, Repr

namespace LayoutKind

def all : List LayoutKind := [.single, .quad, .sidebarLeft, .bannerTop]

def regionCount : LayoutKind → Nat
  | .single => 1
  | .quad => 4
  | .sidebarLeft => 3
  | .bannerTop => 3

def name : LayoutKind → String
  | .single => "single"
  | .quad => "quad"
  | .sidebarLeft => "sidebar-left"
  | .bannerTop => "banner-top"

def glyph : LayoutKind → String
  | .single => "."
  | .quad => "...."
  | .sidebarLeft => "|.."
  | .bannerTop => "_.."

/-- The layout with this name or glyph, in exactly this spelling. -/
def named? (s : String) : Option LayoutKind := all.find? fun k => s == k.name || s == k.glyph

end LayoutKind

end Montage
