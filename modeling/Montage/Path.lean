/-!
Paths as text.  Joining neither resolves nor tidies anything.
-/

namespace Montage.Path

def isAbsolute (p : String) : Bool := p.toList.head? == some '/'

def endsInSlash (p : String) : Bool := p.toList.getLast? == some '/'

/-- Whether there is a zero byte in the path, which no file system takes. -/
def hasZero (p : String) : Bool := p.toList.contains '\x00'

/-- A path seen from a base.  An absolute path stays as it is. -/
def join (base p : String) : String :=
  if isAbsolute p || base.isEmpty then p
  else if endsInSlash base then base ++ p
  else base ++ "/" ++ p

def splitSlashes : List Char → List (List Char)
  | [] => [[]]
  | c :: rest =>
    if c = '/' then [] :: splitSlashes rest
    else match splitSlashes rest with
      | [] => [[c]]
      | first :: more => (c :: first) :: more

def names (p : String) : List String :=
  ((splitSlashes p.toList).map String.ofList).filter (· ≠ "")

/-- Drops slashes, and points that stand for the place before them, from the end of a path that is
read backwards. -/
def dropEnd : List Char → List Char
  | '/' :: rest => dropEnd rest
  | '.' :: '/' :: rest => dropEnd rest
  | rest => rest

/-- The path without its last name, if it has one. -/
def parent? (p : String) : Option String :=
  let back := dropEnd p.toList.reverse
  if back.isEmpty then none
  else
    let dir := back.dropWhile (· ≠ '/')
    match dropEnd dir with
    | [] => some (if dir.isEmpty then "" else "/")
    | rest => some (String.ofList rest.reverse)

/-- What follows the last point of a file name, unless the name starts with that point. -/
def extension? (name : String) : Option String :=
  let back := name.toList.reverse
  match back.dropWhile (· ≠ '.') with
  | _ :: _ :: _ =>
    if name = ".." then none else some (String.ofList (back.takeWhile (· ≠ '.')).reverse)
  | _ => none

end Montage.Path
