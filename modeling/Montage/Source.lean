/-!
The files that a command declares as inputs.  Every file is declared once, at the place where it
was first named, and the registry counts how many tiles show it.
-/

namespace Montage

structure SourceId where
  index : Nat
  deriving DecidableEq, Repr

structure Source where
  path : String
  uses : Nat
  deriving DecidableEq, Repr

structure Registry where
  entries : List Source
  deriving DecidableEq, Repr

namespace Registry

def empty : Registry := ⟨[]⟩

def size (r : Registry) : Nat := r.entries.length

def isEmpty (r : Registry) : Bool := r.entries.isEmpty

def get? (r : Registry) (path : String) : Option SourceId :=
  (r.entries.findIdx? (·.path == path)).map SourceId.mk

/-- The identity of a file, which is the next one for a file not named before. -/
def register (r : Registry) (path : String) : Registry × SourceId :=
  match r.get? path with
  | some id => (r, id)
  | none => (⟨r.entries ++ [⟨path, 0⟩]⟩, ⟨r.entries.length⟩)

/-- One more tile shows the file.  An identity that was never given out changes nothing. -/
def addUse (r : Registry) (id : SourceId) : Registry :=
  ⟨r.entries.modify id.index fun s => { s with uses := s.uses + 1 }⟩

def acquire (r : Registry) (path : String) : Registry × SourceId :=
  let (r, id) := r.register path
  (r.addUse id, id)

def usageCount (r : Registry) (id : SourceId) : Nat := (r.entries[id.index]?.map (·.uses)).getD 0

def path? (r : Registry) (id : SourceId) : Option String := r.entries[id.index]?.map (·.path)

/-- The paths in the order of their identities. -/
def paths (r : Registry) : List String := r.entries.map (·.path)

end Registry

end Montage
