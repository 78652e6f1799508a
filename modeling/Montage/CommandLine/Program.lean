import Montage.CommandLine.Arguments
import Montage.Engine.Session
import Montage.Timeline.Document

/-!
The program behind the command line, as a function of all that it sees.  Failures end in one
message on the error output, after whatever had been printed by then.
-/

namespace Montage.CommandLine

/-- What a program sees when it starts. -/
structure Surroundings where
  args : List String
  environment : List (String × String)
  input : Bytes
  files : FileTree
  place : Place

/-- What a program leaves behind. -/
structure Exit where
  code : UInt8
  out : String
  err : Bytes
  files : FileTree

structure Console where
  out : String
  err : Bytes
  files : FileTree

/-- A program prints and changes files, and may stop with a message. -/
abbrev Program (α : Type) := ExceptT String (StateM Console) α

def print (s : String) : Program Unit := modify fun c => { c with out := c.out ++ s }

def printLine (s : String) : Program Unit := print (s ++ "\n")

/-- The text of a request file, or of the standard input for a single hyphen. -/
def requestText (s : Surroundings) (path : String) : Program String := do
  if path = "-" then
    match s.input.text? with
    | some text => return text
    | none => throw IoError.notText.message
  else
    match (← get).files.readText s.place path with
    | .ok text => return text
    | .error e => throw ("Failed to read request " ++ path ++ ": " ++ e.message)

/-- Puts the mode into a request, whatever mode it had. -/
def withMode (mode : Option OutputMode) : Json.Value → Json.Value
  | .object members => match mode with
    | some m => .object (Json.insertMember "output_mode" (.string m.name) members)
    | none => .object members
  | v => v

/-- The request in a text, with its mode replaced if one is given. -/
def requestOf (text : String) (mode : Option OutputMode) : Except String Request :=
  match (Json.Document.ofString text).value? with
  | none => .error "Request is not valid JSON"
  | some v => match (withMode mode v).read Request.reader with
    | .ok r => .ok r
    | .error e => .error ("Invalid render request: " ++ e.message)

def loadRequest (s : Surroundings) (path : String) (mode : Option OutputMode) :
    Program Request := do
  match requestOf (← requestText s path) mode with
  | .ok r => return r
  | .error message => throw message

/-! ## Subcommands -/

def commandJson (c : Command) : Json.Value :=
  .object
    [("mode", .string c.mode.name), ("args", .array (c.args.map .string)),
     ("filter_graph", .string c.filterGraph), ("duration_secs", .ofFloat c.duration),
     ("has_audio", .bool c.hasAudio), ("output", .string c.output)]

def runCompile (pow : Power) (s : Surroundings) (path : String) (mode : Option OutputMode)
    (json : Bool) : Program Unit := do
  match (← loadRequest s path mode).compile pow with
  | .error f => throw f.message
  | .ok c =>
    if json then printLine (commandJson c).pretty
    else do
      printLine ("# mode: " ++ c.mode.name)
      printLine ("# duration: " ++ Decimal.fixed 3 c.duration ++ "s")
      printLine ("# output: " ++ c.output)
      c.args.forM printLine

def runLayout (name : String) (canvas : Size) : Program Unit := do
  match LayoutKind.named? name with
  | none => throw (CompileError.invalidLayout name).message
  | some kind => match kind.template canvas with
    | .error o => throw o.message
    | .ok regions =>
      printLine (kind.name ++ " (" ++ kind.glyph ++ ") on " ++ canvas.text ++ ": "
        ++ toString kind.regionCount ++ " region(s)")
      regions.zipIdx.forM fun (r, i) =>
        printLine ("  [" ++ toString i ++ "] " ++ r.size.text ++ " at ("
          ++ toString r.origin.x.toNat ++ ", " ++ toString r.origin.y.toNat ++ ")")

def leave (session : Session) : Program Unit :=
  modify fun c => { c with files := session.state.files, err := c.err ++ session.errors }

/-- Has the engine do a job and waits for the run that it starts, if there is one. -/
def runJob (engine : Engine) (job : Job) :
    Program (Session × Option (Except EngineError Reply)) := do
  let (session, answer) := (Session.start engine (← get).files).ask job
  let session := match answer with
    | some (.ok (.started run _)) => session.awaitEnd run
    | _ => session
  leave session
  return (session, answer)

def progressLine (r : Report) : String :=
  "\r  Progress: " ++ Decimal.fixed 1 (r.fraction * 100) ++ "% (" ++ Decimal.fixed 1 r.seconds
    ++ "s, " ++ toString r.frames ++ " frames)  "

def runRender (engine : Engine) (s : Surroundings) (path : String) (output : Option String) :
    Program Unit := do
  let request ← loadRequest s path (some .render)
  let request := { request with outputFile := output.getD request.outputFile }
  printLine ("Rendering " ++ path)
  printLine ("  ffmpeg: " ++ engine.binary)
  printLine ("  Output: " ++ engine.config.resolveOutput request.outputFile)
  printLine ("  Duration: " ++ Decimal.fixed 1 request.duration ++ "s")
  let (session, answer) ← runJob engine (.exportFile request)
  (session.reports 0).forM fun r => print (progressLine r)
  match answer with
  | some (.ok (.exported path)) => printLine ("\nRender complete: " ++ path)
  | some (.error e) => throw ("\nRender failed: " ++ e.message)
  | _ => throw "\nRender interrupted"

/-- The end of a job that was only started. -/
def endingOf (session : Session) : Option (Except EngineError Reply) →
    Except String (Command × Outcome × List String)
  | some (.ok (.started run c)) => match session.ending? run with
    | some (outcome, stills) => .ok (c, outcome, stills)
    | none => .error "channel closed"
  | some (.error e) => .error e.message
  | _ => .error "channel closed"

def runPreview (engine : Engine) (s : Surroundings) (path : String) : Program Unit := do
  let request ← loadRequest s path (some .preview)
  let (session, answer) ← runJob engine (.start request)
  match endingOf session answer with
  | .error message => throw message
  | .ok (c, outcome, _) =>
    printLine ("Streaming preview to " ++ engine.outputOf c)
    printLine "Press Ctrl-C to stop."
    if outcome.isSuccess then printLine "Preview finished."
    else throw ("Preview ended: " ++ outcome.text)

def runThumbnails (engine : Engine) (s : Surroundings) (path : String) : Program Unit := do
  let request ← loadRequest s path (some .thumbnail)
  let (session, answer) ← runJob engine (.thumbnails request)
  match endingOf session answer with
  | .error message => throw message
  | .ok (_, outcome, stills) =>
    if !outcome.isSuccess then throw ("Thumbnail extraction failed: " ++ outcome.text)
    printLine (toString stills.length ++ " thumbnail(s):")
    stills.forM fun still => printLine ("  " ++ still)

/-! ## The whole program -/

namespace Surroundings

def value? (s : Surroundings) (name : String) : Option String := s.environment.lookup name

def configFile (s : Surroundings) (i : Invocation) : String :=
  i.config.getD (Config.standardFile (s.value? "XDG_CONFIG_HOME") (s.value? "HOME"))

/-- The settings: those of the file, with what the invocation says itself. -/
def config (s : Surroundings) (i : Invocation) : Config :=
  let temporary := (s.value? "TMPDIR").getD "/tmp"
  let c := Config.ofText temporary (s.files.readText s.place (s.configFile i)).toOption
  { c with
    scratch := i.scratch.getD c.scratch
    logging := if i.verbose then { c.logging with level := "debug" } else c.logging }

/-- The files once the log is open; a log that cannot be opened changes nothing. -/
def openLog (s : Surroundings) (c : Config) : FileTree :=
  match c.logging.file with
  | none => s.files
  | some path => match s.files.openFile s.place path true with
    | .ok (files, _) => files
    | .error _ => s.files

def engine (pow : Power) (s : Surroundings) (c : Config) (i : Invocation) : Engine where
  pow
  config := c
  binary := i.binary.getD (c.processor.resolve (s.value? "FFMPEG_BIN"))
  place := s.place

end Surroundings

def runSubcommand (pow : Power) (s : Surroundings) (c : Config) (i : Invocation) : Program Unit :=
  let engine := s.engine pow c i
  match i.command with
  | .compile request mode json => runCompile pow s request mode json
  | .render request output => runRender engine s request output
  | .preview request => runPreview engine s request
  | .thumbnails request => runThumbnails engine s request
  | .layout kind canvas => runLayout kind canvas

/-- Runs the program: 0 if all went well, 1 after a failure, 2 for arguments that do not fit. -/
def run (pow : Power) (s : Surroundings) : Exit :=
  match Invocation.ofArguments s.args with
  | none => ⟨2, "", Bytes.ofString "usage: bones [OPTIONS] <COMMAND>\n", s.files⟩
  | some i =>
    let c := s.config i
    match ((runSubcommand pow s c i).run).run ⟨"", [], s.openLog c⟩ with
    | (.ok (), console) => ⟨0, console.out, console.err, console.files⟩
    | (.error message, console) =>
      ⟨1, console.out, console.err ++ Bytes.ofString ("Error: " ++ message ++ "\n"),
       console.files⟩

end Montage.CommandLine
