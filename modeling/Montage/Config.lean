import Montage.Json.Parser
import Montage.Json.Reading
import Montage.Path

/-!
Settings of the program: where the processor works, which processor to run, and how to log.
-/

namespace Montage

open Json (Value Reader Record Field)

structure ProcessorConfig where
  /-- The processor to run, if it is not to be looked up. -/
  binary : Option String
  deriving DecidableEq, Repr

structure LoggingConfig where
  level : String
  json : Bool
  file : Option String
  deriving DecidableEq, Repr

structure Config where
  scratch : String
  processor : ProcessorConfig
  logging : LoggingConfig
  deriving DecidableEq, Repr

namespace ProcessorConfig

def standard : ProcessorConfig := ⟨none⟩

structure Draft where
  binary : Option (Option String) := none

def record : Record Draft ProcessorConfig where
  name := "FfmpegConfig"
  fields :=
    [.of "binary" (·.binary) (fun d a => { d with binary := some a })
       (Reader.stringAs "path string").optional]
  least := 1
  empty := {}
  complete d := .ok ⟨d.binary.getD none⟩

def toJson (c : ProcessorConfig) : Value := .object [("binary", .ofOption .string c.binary)]

/-- The processor to run: what the environment names, else what the settings name, else the one
that is found by its usual name. -/
def resolve (c : ProcessorConfig) (environment : Option String) : String :=
  match environment.filter (· ≠ "") with
  | some path => path
  | none => c.binary.getD "ffmpeg"

end ProcessorConfig

namespace LoggingConfig

def standard : LoggingConfig := ⟨"info", false, none⟩

structure Draft where
  level : Option String := none
  json : Option Bool := none
  file : Option (Option String) := none

def record : Record Draft LoggingConfig where
  name := "LoggingConfig"
  fields :=
    [.of "level" (·.level) (fun d a => { d with level := some a }) Reader.string,
     .of "json" (·.json) (fun d a => { d with json := some a }) Reader.bool,
     .of "file" (·.file) (fun d a => { d with file := some a })
       (Reader.stringAs "path string").optional]
  least := 0
  empty := {}
  complete d := .ok
    { level := d.level.getD standard.level
      json := d.json.getD standard.json
      file := d.file.getD standard.file }

def toJson (c : LoggingConfig) : Value :=
  .object
    [("level", .string c.level), ("json", .bool c.json), ("file", .ofOption .string c.file)]

end LoggingConfig

namespace Config

def standard (temporary : String) : Config :=
  ⟨Path.join temporary "videobones", .standard, .standard⟩

structure Draft where
  scratch : Option String := none
  processor : Option ProcessorConfig := none
  logging : Option LoggingConfig := none

def record (temporary : String) : Record Draft Config where
  name := "AppConfig"
  fields :=
    [.of "scratch_dir" (·.scratch) (fun d a => { d with scratch := some a })
       (Reader.stringAs "path string"),
     .of "ffmpeg" (·.processor) (fun d a => { d with processor := some a })
       ProcessorConfig.record.reader,
     .of "logging" (·.logging) (fun d a => { d with logging := some a })
       LoggingConfig.record.reader]
  least := 0
  empty := {}
  complete d := .ok
    { scratch := d.scratch.getD (standard temporary).scratch
      processor := d.processor.getD (standard temporary).processor
      logging := d.logging.getD (standard temporary).logging }

def toJson (c : Config) : Value :=
  .object
    [("scratch_dir", .string c.scratch), ("ffmpeg", c.processor.toJson),
     ("logging", c.logging.toJson)]

/-- The settings in a file's text; whatever is wrong with it, the standard ones. -/
def ofText (temporary : String) (text : Option String) : Config :=
  match text.map fun t => (Json.Document.ofString t).read (record temporary).reader with
  | some (.ok c) => c
  | _ => standard temporary

def thumbnailsDir (c : Config) : String := Path.join c.scratch "thumbs"

/-- Where an output lands: the processor works in the scratch directory. -/
def resolveOutput (c : Config) (path : String) : String := Path.join c.scratch path

def standardFile (configHome home : Option String) : String :=
  let base := configHome.getD (Path.join (home.getD "/tmp") ".config")
  Path.join (Path.join base "videobones") "config.json"

end Config

end Montage
