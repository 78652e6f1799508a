import Montage.CommandLine.Program

/-!
The program itself: it gathers what the command line can see, runs it, and carries out what it
leaves behind.  A processor is a script here, so nothing else is started.
-/

namespace Montage.CommandLine

def pathOf (p : Place) : String := "/" ++ String.intercalate "/" p

/-- How deep directories are gathered. -/
def gatherDepth : Nat := 32

/-- Takes up a file, or a directory with all that is below it.  Whatever is a file may be run. -/
def gather : Nat → FileTree → Place → IO FileTree
  | 0, files, _ => return files
  | depth + 1, files, p => do
    let path := (← IO.currentDir) / pathOf p
    if ← path.isDir then
      let entries ← path.readDir
      entries.foldlM (fun files e => gather depth files (p ++ [e.fileName])) (files.put p .directory)
    else if ← path.pathExists then
      return files.put p (.file (← IO.FS.readBinFile path).data.toList true)
    else return files

/-- Takes up the directories on the way to a place, and the place if it is one. -/
def gatherWay (files : FileTree) (p : Place) : IO FileTree :=
  (List.range p.length).foldlM (fun files n => do
    let way := p.take (n + 1)
    if ← ((← IO.currentDir) / pathOf way).isDir then return files.put way .directory
    else return files) files

/-- Takes up what a path names, seen from a working directory. -/
def gatherPath (place : Place) (files : FileTree) (path : String) : IO FileTree := do
  let full := Path.join (pathOf place) path
  let real ← try pure (← IO.FS.realPath full).toString catch _ => pure full
  let p := Path.names real
  gather gatherDepth (← gatherWay files p) p

/-- Makes the files on disk those of a tree, where they were another's before. -/
def carryOut (before after : FileTree) : IO Unit := do
  for (p, _) in before.entries do
    if (after.entry? p).isNone then
      let path := (← IO.currentDir) / pathOf p
      if ← path.isDir then IO.FS.removeDirAll path
      else if ← path.pathExists then IO.FS.removeFile path
  for (p, e) in after.entries.reverse do
    if before.entry? p != some e then
      match e with
      | .directory => IO.FS.createDirAll (pathOf p)
      | .file content _ => do
        IO.FS.createDirAll (pathOf p.dropLast)
        IO.FS.writeBinFile (pathOf p) ⟨content.toArray⟩

def variableNames : List String := ["HOME", "XDG_CONFIG_HOME", "FFMPEG_BIN", "TMPDIR"]

/-- The files that the arguments are about: first the settings, then what these name. -/
def gatherFor (s : Surroundings) (i : Invocation) : IO Surroundings := do
  let take (s : Surroundings) (paths : List String) : IO Surroundings :=
    return { s with files := ← paths.foldlM (gatherPath s.place) s.files }
  let s ← take s [s.configFile i]
  let c := s.config i
  let engine := s.engine Float.pow c i
  match i.command with
  | .compile request .. => take s [request]
  | .layout .. => return s
  | .render request _ | .preview request | .thumbnails request =>
    take s [request, c.scratch, Path.join c.scratch engine.binary]

def runHere (args : List String) : IO UInt32 := do
  let place := Path.names (← IO.currentDir).toString
  let environment ← variableNames.filterMapM fun name => do
    return (← IO.getEnv name).map fun value => (name, value)
  let input ← if args.contains "-" then (← IO.getStdin).readBinToEnd else pure .empty
  let bare : Surroundings := ⟨args, environment, input.data.toList, .empty, place⟩
  let s ← match Invocation.ofArguments args with
    | none => pure bare
    | some i => gatherFor { bare with files := ← gatherWay .empty place } i
  let exit := run Float.pow s
  (← IO.getStdout).putStr exit.out
  (← IO.getStderr).write ⟨exit.err.toArray⟩
  carryOut s.files exit.files
  return exit.code.toUInt32

end Montage.CommandLine

def main (args : List String) : IO UInt32 := Montage.CommandLine.runHere args
