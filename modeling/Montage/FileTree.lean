import Montage.Path

/-!
A tree of files as a value.  Every operation either yields the tree after it or says, as a file
system would, why it cannot be done.
-/

namespace Montage

inductive IoError
  | notFound
  | permissionDenied
  | alreadyExists
  | notDirectory
  | isDirectory
  | notText
  | zeroInPath
  | zeroInArgument
  deriving DecidableEq, Repr

def IoError.message : IoError → String
  | .notFound => "No such file or directory (os error 2)"
  | .permissionDenied => "Permission denied (os error 13)"
  | .alreadyExists => "File exists (os error 17)"
  | .notDirectory => "Not a directory (os error 20)"
  | .isDirectory => "Is a directory (os error 21)"
  | .notText => "stream did not contain valid UTF-8"
  | .zeroInPath => "file name contained an unexpected NUL byte"
  | .zeroInArgument => "nul byte found in provided data"

abbrev Bytes := List UInt8

def Bytes.ofString (s : String) : Bytes := s.toUTF8.toList

def Bytes.text? (b : Bytes) : Option String := String.fromUTF8? ⟨b.toArray⟩

/-- A place in the tree: the names on the way down from the root. -/
abbrev Place := List String

inductive Entry
  | file (content : Bytes) (executable : Bool)
  | directory
  deriving DecidableEq, Repr

structure FileTree where
  entries : List (Place × Entry)
  deriving DecidableEq, Repr

namespace FileTree

def empty : FileTree := ⟨[]⟩

def entry? (t : FileTree) (p : Place) : Option Entry :=
  if p = [] then some .directory else t.entries.lookup p

def isDirectory (t : FileTree) (p : Place) : Bool := t.entry? p == some .directory

def put (t : FileTree) (p : Place) (e : Entry) : FileTree :=
  ⟨(p, e) :: t.entries.filter (·.1 != p)⟩

def prune (t : FileTree) (p : Place) : FileTree :=
  ⟨t.entries.filter fun e => !p.isPrefixOf e.1⟩

/-- The place that names lead to.  All places on the way have to be directories; the last one need
not exist. -/
def walk (t : FileTree) (start : Place) : List String → Except IoError Place
  | [] => .ok start
  | name :: rest =>
    match t.entry? start with
    | none => .error .notFound
    | some (.file ..) => .error .notDirectory
    | some .directory =>
      if name = "." then t.walk start rest
      else if name = ".." then t.walk start.dropLast rest
      else t.walk (start ++ [name]) rest

/-- Where the way of a path begins, seen from a working directory. -/
def startOf (dir : Place) (path : String) : Except IoError Place :=
  if Path.hasZero path then .error .zeroInPath
  else .ok (if Path.isAbsolute path then [] else dir)

/-- The place that a path names, seen from a working directory.  A slash at the end asks for a
directory. -/
def locate (t : FileTree) (dir : Place) (path : String) : Except IoError Place := do
  if path.isEmpty then .error .notFound
  let p ← t.walk (← startOf dir path) (Path.names path)
  match t.entry? p with
  | some (.file ..) => if Path.endsInSlash path then .error .notDirectory else return p
  | _ => return p

def pathExists (t : FileTree) (dir : Place) (path : String) : Except IoError Bool :=
  match t.locate dir path with
  | .ok p => .ok (t.entry? p).isSome
  | .error .notFound => .ok false
  | .error e => .error e

def read (t : FileTree) (dir : Place) (path : String) : Except IoError Bytes := do
  match t.entry? (← t.locate dir path) with
  | none => .error .notFound
  | some .directory => .error .isDirectory
  | some (.file content _) => return content

def readText (t : FileTree) (dir : Place) (path : String) : Except IoError String := do
  match (← t.read dir path).text? with
  | some s => return s
  | none => .error .notText

/-- The place of a file that can be written, made empty unless `keep` holds. -/
def openFile (t : FileTree) (dir : Place) (path : String) (keep : Bool) :
    Except IoError (FileTree × Place) := do
  let p ← t.locate dir path
  match t.entry? p with
  | none =>
    if Path.endsInSlash path then .error .isDirectory
    else return (t.put p (.file [] false), p)
  | some .directory => .error .isDirectory
  | some (.file _ executable) => return (if keep then t else t.put p (.file [] executable), p)

def append (t : FileTree) (p : Place) (more : Bytes) : FileTree :=
  match t.entry? p with
  | some (.file content executable) => t.put p (.file (content ++ more) executable)
  | _ => t

def write (t : FileTree) (dir : Place) (path : String) (content : Bytes) :
    Except IoError FileTree := do
  let (t, p) ← t.openFile dir path false
  return if content.isEmpty then t else t.append p content

def makeDirectory (t : FileTree) (dir : Place) (path : String) : Except IoError FileTree := do
  let p ← t.walk (← startOf dir path) (Path.names path)
  if (t.entry? p).isSome then .error .alreadyExists else return t.put p .directory

/-- Makes the directories that are missing on the way. -/
def makeWay (t : FileTree) (start : Place) : List String → Except IoError FileTree
  | [] => .ok t
  | name :: rest =>
    if name = "." then t.makeWay start rest
    else if name = ".." then t.makeWay start.dropLast rest
    else
      let p := start ++ [name]
      match t.entry? p with
      | some .directory => t.makeWay p rest
      | none =>
        if t.isDirectory start then (t.put p .directory).makeWay p rest else .error .notFound
      | some (.file ..) => .error (if rest.isEmpty then .alreadyExists else .notDirectory)

def makeDirectories (t : FileTree) (dir : Place) (path : String) : Except IoError FileTree := do
  t.makeWay (← startOf dir path) (Path.names path)

def removeFile (t : FileTree) (dir : Place) (path : String) : Except IoError FileTree := do
  let p ← t.locate dir path
  match t.entry? p with
  | none => .error .notFound
  | some .directory => .error .isDirectory
  | some (.file ..) => return t.prune p

def removeTree (t : FileTree) (dir : Place) (path : String) : Except IoError FileTree := do
  let p ← t.locate dir path
  match t.entry? p with
  | none => .error .notFound
  | some (.file ..) => .error .notDirectory
  | some .directory => return t.prune p

def childNames (t : FileTree) (dir : Place) (path : String) : Except IoError (List String) := do
  let p ← t.locate dir path
  match t.entry? p with
  | none => .error .notFound
  | some (.file ..) => .error .notDirectory
  | some .directory =>
    return t.entries.filterMap fun e =>
      if e.1.dropLast = p then e.1.getLast? else none

/-- The stills in a directory, in the order of their names. -/
def listStills (t : FileTree) (dir : Place) (path : String) : Except IoError (List String) := do
  let stills := (← t.childNames dir path).filter fun n => Path.extension? n = some "png"
  return (stills.mergeSort fun a b => !decide (b < a)).map (Path.join path)

/-- All that is below a place, by relative path: a file with its content, a directory with a slash
after its name. -/
def listing (t : FileTree) (p : Place) : List (String × Option Bytes) :=
  let below := t.entries.filterMap fun (q, e) =>
    if p.isPrefixOf q && p.length < q.length then
      let relative := String.intercalate "/" (q.drop p.length)
      match e with
      | .directory => some (relative ++ "/", none)
      | .file content _ => some (relative, some content)
    else none
  below.mergeSort fun a b => !decide (b.1 < a.1)

end FileTree

end Montage
