import Montage.Json.Parser
import Montage.Json.Reading
import Montage.Timeline.Request

/-!
Requests as JSON.  Every record is written as an object with its fields in order; it is read from
an object in any order, or from an array in order, and most fields may be left out.
-/

namespace Montage

open Json (Value Reader Record Field)

namespace Size

structure Draft where
  width : Option UInt32 := none
  height : Option UInt32 := none

def record : Record Draft Size where
  name := "Resolution"
  fields :=
    [.of "width" (·.width) (fun d a => { d with width := some a }) Reader.word,
     .of "height" (·.height) (fun d a => { d with height := some a }) Reader.word]
  least := 2
  empty := {}
  complete d := do
    let some width := d.width | throw "width"
    let some height := d.height | throw "height"
    return ⟨width, height⟩

def toJson (s : Size) : Value :=
  .object [("width", .ofNat s.width.toNat), ("height", .ofNat s.height.toNat)]

end Size

namespace Interval

def reader : Reader Interval := fun o t =>
  (Reader.pair Reader.float Reader.float o t).map fun (a, b) => ⟨a, b⟩

def toJson (i : Interval) : Value := .array [.ofFloat i.start, .ofFloat i.stop]

end Interval

namespace VideoTrack

structure Draft where
  files : Option (List String) := none
  layout : Option String := none
  interval : Option Interval := none
  resolutions : Option (List Size) := none

def record : Record Draft VideoTrack where
  name := "VideoTrack"
  fields :=
    [.of "files" (·.files) (fun d a => { d with files := some a }) Reader.string.list,
     { Field.of "layout" (·.layout) (fun d a => { d with layout := some a }) Reader.string with
       alias? := some "screen_style" },
     .of "interval" (·.interval) (fun d a => { d with interval := some a }) Interval.reader,
     .of "resolutions" (·.resolutions) (fun d a => { d with resolutions := some a })
       Size.record.reader.list]
  least := 4
  empty := {}
  complete d := do
    let some files := d.files | throw "files"
    let some layout := d.layout | throw "layout"
    let some interval := d.interval | throw "interval"
    let some resolutions := d.resolutions | throw "resolutions"
    return ⟨files, layout, interval, resolutions⟩

def toJson (t : VideoTrack) : Value :=
  .object
    [("files", .array (t.files.map .string)),
     ("layout", .string t.layout),
     ("interval", t.interval.toJson),
     ("resolutions", .array (t.resolutions.map Size.toJson))]

end VideoTrack

namespace EchoSettings

structure Draft where
  enabled : Option Bool := none
  delayMs : Option Float := none
  decay : Option Float := none
  inGain : Option Float := none
  outGain : Option Float := none

def record : Record Draft EchoSettings where
  name := "EchoSettings"
  fields :=
    [.of "enabled" (·.enabled) (fun d a => { d with enabled := some a }) Reader.bool,
     .of "delay_ms" (·.delayMs) (fun d a => { d with delayMs := some a }) Reader.float,
     .of "decay" (·.decay) (fun d a => { d with decay := some a }) Reader.float,
     .of "in_gain" (·.inGain) (fun d a => { d with inGain := some a }) Reader.float,
     .of "out_gain" (·.outGain) (fun d a => { d with outGain := some a }) Reader.float]
  least := 0
  empty := {}
  complete d := .ok
    { enabled := d.enabled.getD standard.enabled
      delayMs := d.delayMs.getD standard.delayMs
      decay := d.decay.getD standard.decay
      inGain := d.inGain.getD standard.inGain
      outGain := d.outGain.getD standard.outGain }

def toJson (e : EchoSettings) : Value :=
  .object
    [("enabled", .bool e.enabled), ("delay_ms", .ofFloat e.delayMs), ("decay", .ofFloat e.decay),
     ("in_gain", .ofFloat e.inGain), ("out_gain", .ofFloat e.outGain)]

end EchoSettings

namespace ReverbSettings

structure Draft where
  enabled : Option Bool := none
  delayMs : Option Float := none
  decay : Option Float := none

def record : Record Draft ReverbSettings where
  name := "ReverbSettings"
  fields :=
    [.of "enabled" (·.enabled) (fun d a => { d with enabled := some a }) Reader.bool,
     .of "delay_ms" (·.delayMs) (fun d a => { d with delayMs := some a }) Reader.float,
     .of "decay" (·.decay) (fun d a => { d with decay := some a }) Reader.float]
  least := 0
  empty := {}
  complete d := .ok
    { enabled := d.enabled.getD standard.enabled
      delayMs := d.delayMs.getD standard.delayMs
      decay := d.decay.getD standard.decay }

def toJson (r : ReverbSettings) : Value :=
  .object
    [("enabled", .bool r.enabled), ("delay_ms", .ofFloat r.delayMs), ("decay", .ofFloat r.decay)]

end ReverbSettings

namespace AudioTrack

structure Draft where
  file : Option String := none
  startTime : Option Float := none
  volume : Option Float := none
  declick : Option Bool := none
  declip : Option Bool := none
  echo : Option EchoSettings := none
  reverb : Option ReverbSettings := none

def record : Record Draft AudioTrack where
  name := "AudioTrack"
  fields :=
    [.of "file" (·.file) (fun d a => { d with file := some a }) Reader.string,
     .of "start_time" (·.startTime) (fun d a => { d with startTime := some a }) Reader.float,
     .of "volume" (·.volume) (fun d a => { d with volume := some a }) Reader.float,
     .of "declick" (·.declick) (fun d a => { d with declick := some a }) Reader.bool,
     .of "declip" (·.declip) (fun d a => { d with declip := some a }) Reader.bool,
     .of "echo" (·.echo) (fun d a => { d with echo := some a }) EchoSettings.record.reader,
     .of "reverb" (·.reverb) (fun d a => { d with reverb := some a })
       ReverbSettings.record.reader]
  least := 1
  empty := {}
  complete d := do
    let some file := d.file | throw "file"
    return {
      file
      startTime := d.startTime.getD 0
      volume := d.volume.getD standardVolume
      declick := d.declick.getD false
      declip := d.declip.getD false
      echo := d.echo.getD .standard
      reverb := d.reverb.getD .standard }

def toJson (t : AudioTrack) : Value :=
  .object
    [("file", .string t.file), ("start_time", .ofFloat t.startTime), ("volume", .ofFloat t.volume),
     ("declick", .bool t.declick), ("declip", .bool t.declip), ("echo", t.echo.toJson),
     ("reverb", t.reverb.toJson)]

end AudioTrack

namespace ColorBalance

structure Draft where
  r : Option Float := none
  g : Option Float := none
  b : Option Float := none

def record : Record Draft ColorBalance where
  name := "ColorBalance"
  fields :=
    [.of "r" (·.r) (fun d a => { d with r := some a }) Reader.float,
     .of "g" (·.g) (fun d a => { d with g := some a }) Reader.float,
     .of "b" (·.b) (fun d a => { d with b := some a }) Reader.float]
  least := 3
  empty := {}
  complete d := do
    let some r := d.r | throw "r"
    let some g := d.g | throw "g"
    let some b := d.b | throw "b"
    return ⟨r, g, b⟩

def toJson (c : ColorBalance) : Value :=
  .object [("r", .ofFloat c.r), ("g", .ofFloat c.g), ("b", .ofFloat c.b)]

end ColorBalance

namespace VideoEffects

structure Draft where
  file : Option String := none
  brightness : Option (Option Float) := none
  contrast : Option (Option Float) := none
  balance : Option (Option ColorBalance) := none
  blurRadius : Option (Option Float) := none

def record : Record Draft VideoEffects where
  name := "VideoEffects"
  fields :=
    [.of "file" (·.file) (fun d a => { d with file := some a }) Reader.string,
     .of "brightness" (·.brightness) (fun d a => { d with brightness := some a })
       Reader.float.optional,
     .of "contrast" (·.contrast) (fun d a => { d with contrast := some a }) Reader.float.optional,
     .of "balance" (·.balance) (fun d a => { d with balance := some a })
       ColorBalance.record.reader.optional,
     .of "blur_radius" (·.blurRadius) (fun d a => { d with blurRadius := some a })
       Reader.float.optional]
  least := 1
  empty := {}
  complete d := do
    let some file := d.file | throw "file"
    return {
      file
      brightness := d.brightness.getD none
      contrast := d.contrast.getD none
      balance := d.balance.getD none
      blurRadius := d.blurRadius.getD none }

def toJson (fx : VideoEffects) : Value :=
  .object
    [("file", .string fx.file),
     ("brightness", .ofOption .ofFloat fx.brightness),
     ("contrast", .ofOption .ofFloat fx.contrast),
     ("balance", .ofOption ColorBalance.toJson fx.balance),
     ("blur_radius", .ofOption .ofFloat fx.blurRadius)]

end VideoEffects

namespace OutputMode

def reader : Reader OutputMode := Reader.choice (all.map name) named?

end OutputMode

namespace AspectRatio

def reader : Reader AspectRatio := fun o t => do
  let s ← Reader.string o t
  match parse s with
  | .ok r => .ok r
  | .error e => .error (.mismatch (.refused e.message))

end AspectRatio

namespace Request

structure Draft where
  mode : Option OutputMode := none
  canvas : Option Size := none
  framesPerSecond : Option UInt32 := none
  aspectRatio : Option AspectRatio := none
  videoBitrate : Option String := none
  audioBitrate : Option String := none
  bufferSize : Option String := none
  sampleRate : Option UInt32 := none
  outputFile : Option String := none
  manifest : Option String := none
  effects : Option (List VideoEffects) := none
  videoTracks : Option (List VideoTrack) := none
  audioTracks : Option (List AudioTrack) := none

def pathReader : Reader String := Reader.stringAs "path string"

def record : Record Draft Request where
  name := "RenderRequest"
  fields :=
    [.of "output_mode" (·.mode) (fun d a => { d with mode := some a }) OutputMode.reader,
     .of "canvas" (·.canvas) (fun d a => { d with canvas := some a }) Size.record.reader,
     .of "frames_per_second" (·.framesPerSecond) (fun d a => { d with framesPerSecond := some a })
       Reader.word,
     .of "aspect_ratio" (·.aspectRatio) (fun d a => { d with aspectRatio := some a })
       AspectRatio.reader,
     .of "video_bitrate" (·.videoBitrate) (fun d a => { d with videoBitrate := some a })
       Reader.string,
     .of "audio_bitrate" (·.audioBitrate) (fun d a => { d with audioBitrate := some a })
       Reader.string,
     .of "buffer_size" (·.bufferSize) (fun d a => { d with bufferSize := some a }) Reader.string,
     .of "audio_sample_rate" (·.sampleRate) (fun d a => { d with sampleRate := some a })
       Reader.word,
     .of "output_file" (·.outputFile) (fun d a => { d with outputFile := some a }) pathReader,
     .of "preview_manifest" (·.manifest) (fun d a => { d with manifest := some a }) pathReader,
     .of "video_effects" (·.effects) (fun d a => { d with effects := some a })
       VideoEffects.record.reader.list,
     .of "video_tracks" (·.videoTracks) (fun d a => { d with videoTracks := some a })
       VideoTrack.record.reader.list,
     .of "audio_tracks" (·.audioTracks) (fun d a => { d with audioTracks := some a })
       AudioTrack.record.reader.list]
  least := 1
  empty := {}
  complete d := do
    let some mode := d.mode | throw "output_mode"
    return {
      mode
      canvas := d.canvas.getD .fullHD
      framesPerSecond := d.framesPerSecond.getD standardFps
      aspectRatio := d.aspectRatio.getD .widescreen
      videoBitrate := d.videoBitrate.getD standardVideoBitrate
      audioBitrate := d.audioBitrate.getD standardAudioBitrate
      bufferSize := d.bufferSize.getD standardBufferSize
      sampleRate := d.sampleRate.getD standardSampleRate
      outputFile := d.outputFile.getD standardOutputFile
      manifest := d.manifest.getD standardManifest
      effects := d.effects.getD []
      videoTracks := d.videoTracks.getD []
      audioTracks := d.audioTracks.getD [] }

def reader : Reader Request := record.reader

def toJson (r : Request) : Value :=
  .object
    [("output_mode", .string r.mode.name),
     ("canvas", r.canvas.toJson),
     ("frames_per_second", .ofNat r.framesPerSecond.toNat),
     ("aspect_ratio", .string r.aspectRatio.text),
     ("video_bitrate", .string r.videoBitrate),
     ("audio_bitrate", .string r.audioBitrate),
     ("buffer_size", .string r.bufferSize),
     ("audio_sample_rate", .ofNat r.sampleRate.toNat),
     ("output_file", .string r.outputFile),
     ("preview_manifest", .string r.manifest),
     ("video_effects", .array (r.effects.map VideoEffects.toJson)),
     ("video_tracks", .array (r.videoTracks.map VideoTrack.toJson)),
     ("audio_tracks", .array (r.audioTracks.map AudioTrack.toJson))]

def ofJson (text : String) : Except Json.ReadError Request :=
  (Json.Document.ofString text).read reader

end Request

end Montage
