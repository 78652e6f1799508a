import Mathlib
import Montage.Proofs.Json.RoundTrip
import Montage.Timeline.Document

/-!
Requests whose JSON was edited by hand.  In every object the members may come in another order,
members that belong to no field may be added, a field may stand under its other name, and, where
cuts are allowed, a field with a standard value may be left out.
-/

namespace Montage

namespace Json

variable {α : Type}

/-- A value of the edited text, and what it stands for. -/
abbrev Shows (α : Type) := Value → α → Prop

/-- The value as it is written. -/
def Same (f : α → Value) (a : α) : Shows α := fun v a' => v = f a ∧ a' = a

/-- Under the names of a field stands one member.  Nothing is said of other members. -/
def Keeps (ms : List (String × Value)) (names : List String) (shows : Shows α) (a : α) : Prop :=
  ∃ key v, ms.filter (·.1 ∈ names) = [(key, v)] ∧ shows v a

/-- Or none does, where cuts are allowed, and the standard value takes its place. -/
def Spares (cut : Prop) (ms : List (String × Value)) (names : List String) (shows : Shows α)
    (standard a : α) : Prop :=
  Keeps ms names shows a ∨ cut ∧ ms.filter (·.1 ∈ names) = [] ∧ a = standard

/-- An object whose members are edited. -/
def ObjectOf (edited : List (String × Value) → α → Prop) : Shows α := fun v a =>
  ∃ ms, v = .object ms ∧ edited ms a

/-- An array with its items edited one by one. -/
inductive Each (shows : α → Shows α) : List α → List Value → List α → Prop
  | nil : Each shows [] [] []
  | cons {a a' : α} {v : Value} {as as' : List α} {vs : List Value} :
      shows a v a' → Each shows as vs as' → Each shows (a :: as) (v :: vs) (a' :: as')

def ArrayOf (shows : α → Shows α) (as : List α) : Shows (List α) := fun v as' =>
  ∃ vs, v = .array vs ∧ Each shows as vs as'

/-- Nothing, or something edited. -/
inductive Maybe (shows : α → Shows α) : Option α → Shows (Option α)
  | none : Maybe shows none .null none
  | some {a a' : α} {v : Value} : shows a v a' → Maybe shows (some a) v (some a')

/-! ### As it is written -/

/-- What is written shows the thing itself. -/
def Writes (f : α → Value) (shows : α → Shows α) : Prop := ∀ a, shows a (f a) a

theorem Writes.same {f : α → Value} : Writes f (Same f) := fun _ => ⟨rfl, rfl⟩

theorem Writes.arrayOf {f : α → Value} {shows : α → Shows α} (h : Writes f shows) :
    Writes (fun as => .array (as.map f)) (ArrayOf shows) := by
  refine fun as => ⟨_, rfl, ?_⟩
  induction as with
  | nil => exact .nil
  | cons a as ih => exact .cons (h a) ih

theorem Writes.maybe {f : α → Value} {shows : α → Shows α} (h : Writes f shows) :
    Writes (Value.ofOption f) (Maybe shows)
  | none => .none
  | some a => .some (h a)

section Members

variable {ms : List (String × Value)} {names : List String} {f : α → Value} {shows : α → Shows α}

theorem Keeps.written (h : Writes f shows) {a : α} {key : String}
    (hms : ms.filter (·.1 ∈ names) = [(key, f a)]) : Keeps ms names (shows a) a :=
  ⟨key, f a, hms, h a⟩

theorem Spares.written (h : Writes f shows) {cut : Prop} {standard a : α} {key : String}
    (hms : ms.filter (·.1 ∈ names) = [(key, f a)]) : Spares cut ms names (shows a) standard a :=
  .inl (.written h hms)

end Members

/-! ### Nothing left out -/

/-- What is shown is the thing itself. -/
def Faithful (shows : α → Shows α) : Prop := ∀ a v a', shows a v a' → a' = a

theorem Faithful.same {f : α → Value} : Faithful (Same f) := fun _ _ _ h => h.2

theorem Faithful.objectOf {edited : α → List (String × Value) → α → Prop}
    (h : ∀ a ms a', edited a ms a' → a' = a) : Faithful fun a => ObjectOf (edited a) :=
  fun a _ a' ⟨ms, _, hms⟩ => h a ms a' hms

theorem Faithful.arrayOf {shows : α → Shows α} (h : Faithful shows) : Faithful (ArrayOf shows) := by
  rintro as v as' ⟨vs, -, heach⟩
  induction heach with
  | nil => rfl
  | cons hshows _ ih => rw [h _ _ _ hshows, ih]

theorem Faithful.maybe {shows : α → Shows α} (h : Faithful shows) : Faithful (Maybe shows) := by
  rintro a? v a?' hmaybe
  cases hmaybe with
  | none => rfl
  | some hshows => rw [h _ _ _ hshows]

section Members

variable {ms : List (String × Value)} {names : List String} {shows : α → Shows α} {a a' : α}

theorem Keeps.eq (h : Keeps ms names (shows a) a') (hshows : Faithful shows) : a' = a := by
  obtain ⟨key, v, -, hv⟩ := h
  exact hshows a v a' hv

theorem Spares.eq {cut : Prop} {standard : α} (h : Spares cut ms names (shows a) standard a')
    (hcut : ¬cut) (hshows : Faithful shows) : a' = a :=
  h.elim (·.eq hshows) fun hleft => absurd hleft.1 hcut

end Members

end Json

open Json (Value Same Keeps Spares ObjectOf Maybe Writes Faithful)

/-! ## Requests of finite numbers -/

structure Interval.IsFinite (i : Interval) : Prop where
  start : i.start.isFinite
  stop : i.stop.isFinite

structure EchoSettings.IsFinite (e : EchoSettings) : Prop where
  delayMs : e.delayMs.isFinite
  decay : e.decay.isFinite
  inGain : e.inGain.isFinite
  outGain : e.outGain.isFinite

structure ReverbSettings.IsFinite (r : ReverbSettings) : Prop where
  delayMs : r.delayMs.isFinite
  decay : r.decay.isFinite

structure AudioTrack.IsFinite (t : AudioTrack) : Prop where
  startTime : t.startTime.isFinite
  volume : t.volume.isFinite
  echo : t.echo.IsFinite
  reverb : t.reverb.IsFinite

structure ColorBalance.IsFinite (c : ColorBalance) : Prop where
  r : c.r.isFinite
  g : c.g.isFinite
  b : c.b.isFinite

structure VideoEffects.IsFinite (fx : VideoEffects) : Prop where
  brightness : ∀ x ∈ fx.brightness, x.isFinite
  contrast : ∀ x ∈ fx.contrast, x.isFinite
  balance : ∀ c ∈ fx.balance, c.IsFinite
  blurRadius : ∀ x ∈ fx.blurRadius, x.isFinite

structure Request.IsFinite (r : Request) : Prop where
  effects : ∀ fx ∈ r.effects, fx.IsFinite
  videoTracks : ∀ t ∈ r.videoTracks, t.interval.IsFinite
  audioTracks : ∀ t ∈ r.audioTracks, t.IsFinite

/-! ## Edited objects -/

variable (cut : Prop) (ms : List (String × Value))

structure Size.Edited (s s' : Size) : Prop where
  width : Keeps ms ["width"] (Same (fun n => .ofNat n.toNat) s.width) s'.width
  height : Keeps ms ["height"] (Same (fun n => .ofNat n.toNat) s.height) s'.height

structure VideoTrack.Edited (t t' : VideoTrack) : Prop where
  files : Keeps ms ["files"] (Same (fun files => .array (files.map .string)) t.files) t'.files
  layout : Keeps ms ["layout", "screen_style"] (Same .string t.layout) t'.layout
  interval : Keeps ms ["interval"] (Same Interval.toJson t.interval) t'.interval
  resolutions : Keeps ms ["resolutions"]
    (Json.ArrayOf (fun s => ObjectOf fun ms => Size.Edited ms s) t.resolutions) t'.resolutions

structure EchoSettings.Edited (e e' : EchoSettings) : Prop where
  enabled : Spares cut ms ["enabled"] (Same .bool e.enabled) standard.enabled e'.enabled
  delayMs : Spares cut ms ["delay_ms"] (Same .ofFloat e.delayMs) standard.delayMs e'.delayMs
  decay : Spares cut ms ["decay"] (Same .ofFloat e.decay) standard.decay e'.decay
  inGain : Spares cut ms ["in_gain"] (Same .ofFloat e.inGain) standard.inGain e'.inGain
  outGain : Spares cut ms ["out_gain"] (Same .ofFloat e.outGain) standard.outGain e'.outGain

structure ReverbSettings.Edited (r r' : ReverbSettings) : Prop where
  enabled : Spares cut ms ["enabled"] (Same .bool r.enabled) standard.enabled r'.enabled
  delayMs : Spares cut ms ["delay_ms"] (Same .ofFloat r.delayMs) standard.delayMs r'.delayMs
  decay : Spares cut ms ["decay"] (Same .ofFloat r.decay) standard.decay r'.decay

structure AudioTrack.Edited (t t' : AudioTrack) : Prop where
  file : Keeps ms ["file"] (Same .string t.file) t'.file
  startTime : Spares cut ms ["start_time"] (Same .ofFloat t.startTime)
    (ofFile t.file).startTime t'.startTime
  volume : Spares cut ms ["volume"] (Same .ofFloat t.volume) (ofFile t.file).volume t'.volume
  declick : Spares cut ms ["declick"] (Same .bool t.declick) (ofFile t.file).declick t'.declick
  declip : Spares cut ms ["declip"] (Same .bool t.declip) (ofFile t.file).declip t'.declip
  echo : Spares cut ms ["echo"] (ObjectOf fun ms => EchoSettings.Edited cut ms t.echo)
    (ofFile t.file).echo t'.echo
  reverb : Spares cut ms ["reverb"] (ObjectOf fun ms => ReverbSettings.Edited cut ms t.reverb)
    (ofFile t.file).reverb t'.reverb

structure ColorBalance.Edited (c c' : ColorBalance) : Prop where
  r : Keeps ms ["r"] (Same .ofFloat c.r) c'.r
  g : Keeps ms ["g"] (Same .ofFloat c.g) c'.g
  b : Keeps ms ["b"] (Same .ofFloat c.b) c'.b

structure VideoEffects.Edited (fx fx' : VideoEffects) : Prop where
  file : Keeps ms ["file"] (Same .string fx.file) fx'.file
  brightness : Spares cut ms ["brightness"] (Maybe (Same .ofFloat) fx.brightness)
    (ofFile fx.file).brightness fx'.brightness
  contrast : Spares cut ms ["contrast"] (Maybe (Same .ofFloat) fx.contrast)
    (ofFile fx.file).contrast fx'.contrast
  balance : Spares cut ms ["balance"]
    (Maybe (fun c => ObjectOf fun ms => ColorBalance.Edited ms c) fx.balance)
    (ofFile fx.file).balance fx'.balance
  blurRadius : Spares cut ms ["blur_radius"] (Maybe (Same .ofFloat) fx.blurRadius)
    (ofFile fx.file).blurRadius fx'.blurRadius

structure Request.Edited (r r' : Request) : Prop where
  mode : Keeps ms ["output_mode"] (Same (fun mode => .string mode.name) r.mode) r'.mode
  canvas : Spares cut ms ["canvas"] (ObjectOf fun ms => Size.Edited ms r.canvas)
    (ofMode r.mode).canvas r'.canvas
  framesPerSecond : Spares cut ms ["frames_per_second"]
    (Same (fun n => .ofNat n.toNat) r.framesPerSecond)
    (ofMode r.mode).framesPerSecond r'.framesPerSecond
  aspectRatio : Spares cut ms ["aspect_ratio"] (Same (fun a => .string a.text) r.aspectRatio)
    (ofMode r.mode).aspectRatio r'.aspectRatio
  videoBitrate : Spares cut ms ["video_bitrate"] (Same .string r.videoBitrate)
    (ofMode r.mode).videoBitrate r'.videoBitrate
  audioBitrate : Spares cut ms ["audio_bitrate"] (Same .string r.audioBitrate)
    (ofMode r.mode).audioBitrate r'.audioBitrate
  bufferSize : Spares cut ms ["buffer_size"] (Same .string r.bufferSize)
    (ofMode r.mode).bufferSize r'.bufferSize
  sampleRate : Spares cut ms ["audio_sample_rate"] (Same (fun n => .ofNat n.toNat) r.sampleRate)
    (ofMode r.mode).sampleRate r'.sampleRate
  outputFile : Spares cut ms ["output_file"] (Same .string r.outputFile)
    (ofMode r.mode).outputFile r'.outputFile
  manifest : Spares cut ms ["preview_manifest"] (Same .string r.manifest)
    (ofMode r.mode).manifest r'.manifest
  effects : Spares cut ms ["video_effects"]
    (Json.ArrayOf (fun fx => ObjectOf fun ms => VideoEffects.Edited cut ms fx) r.effects)
    (ofMode r.mode).effects r'.effects
  videoTracks : Spares cut ms ["video_tracks"]
    (Json.ArrayOf (fun t => ObjectOf fun ms => VideoTrack.Edited ms t) r.videoTracks)
    (ofMode r.mode).videoTracks r'.videoTracks
  audioTracks : Spares cut ms ["audio_tracks"]
    (Json.ArrayOf (fun t => ObjectOf fun ms => AudioTrack.Edited cut ms t) r.audioTracks)
    (ofMode r.mode).audioTracks r'.audioTracks

/-! ## Edits that change nothing -/

section Written

variable {cut}

theorem Size.edited_toJson : Writes toJson fun s => ObjectOf fun ms => Size.Edited ms s :=
  fun _ => ⟨_, rfl, .written .same rfl, .written .same rfl⟩

theorem VideoTrack.edited_toJson :
    Writes toJson fun t => ObjectOf fun ms => VideoTrack.Edited ms t :=
  fun _ => ⟨_, rfl, .written .same rfl, .written .same rfl, .written .same rfl,
    .written (.arrayOf Size.edited_toJson) rfl⟩

theorem EchoSettings.edited_toJson :
    Writes toJson fun e => ObjectOf fun ms => EchoSettings.Edited cut ms e :=
  fun _ => ⟨_, rfl, .written .same rfl, .written .same rfl, .written .same rfl, .written .same rfl,
    .written .same rfl⟩

theorem ReverbSettings.edited_toJson :
    Writes toJson fun v => ObjectOf fun ms => ReverbSettings.Edited cut ms v :=
  fun _ => ⟨_, rfl, .written .same rfl, .written .same rfl, .written .same rfl⟩

theorem AudioTrack.edited_toJson :
    Writes toJson fun t => ObjectOf fun ms => AudioTrack.Edited cut ms t :=
  fun _ => ⟨_, rfl, .written .same rfl, .written .same rfl, .written .same rfl, .written .same rfl,
    .written .same rfl, .written EchoSettings.edited_toJson rfl,
    .written ReverbSettings.edited_toJson rfl⟩

theorem ColorBalance.edited_toJson :
    Writes toJson fun c => ObjectOf fun ms => ColorBalance.Edited ms c :=
  fun _ => ⟨_, rfl, .written .same rfl, .written .same rfl, .written .same rfl⟩

theorem VideoEffects.edited_toJson :
    Writes toJson fun fx => ObjectOf fun ms => VideoEffects.Edited cut ms fx :=
  fun _ => ⟨_, rfl, .written .same rfl, .written (.maybe .same) rfl, .written (.maybe .same) rfl,
    .written (.maybe ColorBalance.edited_toJson) rfl, .written (.maybe .same) rfl⟩

theorem Request.edited_toJson :
    Writes toJson fun r => ObjectOf fun ms => Request.Edited cut ms r :=
  fun _ => ⟨_, rfl,
    { mode := .written .same rfl
      canvas := .written Size.edited_toJson rfl
      framesPerSecond := .written .same rfl
      aspectRatio := .written .same rfl
      videoBitrate := .written .same rfl
      audioBitrate := .written .same rfl
      bufferSize := .written .same rfl
      sampleRate := .written .same rfl
      outputFile := .written .same rfl
      manifest := .written .same rfl
      effects := .written (.arrayOf VideoEffects.edited_toJson) rfl
      videoTracks := .written (.arrayOf VideoTrack.edited_toJson) rfl
      audioTracks := .written (.arrayOf AudioTrack.edited_toJson) rfl }⟩

end Written

/-! ## Edits that leave nothing out -/

section Whole

variable {cut}

theorem Size.faithful : Faithful fun s => ObjectOf fun ms => Size.Edited ms s := by
  refine .objectOf fun ⟨_, _⟩ ms ⟨_, _⟩ h => ?_
  rw [mk.injEq]
  exact ⟨h.width.eq .same, h.height.eq .same⟩

theorem VideoTrack.faithful : Faithful fun t => ObjectOf fun ms => VideoTrack.Edited ms t := by
  refine .objectOf fun ⟨_, _, _, _⟩ ms ⟨_, _, _, _⟩ h => ?_
  rw [mk.injEq]
  exact ⟨h.files.eq .same, h.layout.eq .same, h.interval.eq .same,
    h.resolutions.eq (.arrayOf Size.faithful)⟩

theorem EchoSettings.faithful (hcut : ¬cut) :
    Faithful fun e => ObjectOf fun ms => EchoSettings.Edited cut ms e := by
  refine .objectOf fun ⟨_, _, _, _, _⟩ ms ⟨_, _, _, _, _⟩ h => ?_
  rw [mk.injEq]
  exact ⟨h.enabled.eq hcut .same, h.delayMs.eq hcut .same, h.decay.eq hcut .same,
    h.inGain.eq hcut .same, h.outGain.eq hcut .same⟩

theorem ReverbSettings.faithful (hcut : ¬cut) :
    Faithful fun v => ObjectOf fun ms => ReverbSettings.Edited cut ms v := by
  refine .objectOf fun ⟨_, _, _⟩ ms ⟨_, _, _⟩ h => ?_
  rw [mk.injEq]
  exact ⟨h.enabled.eq hcut .same, h.delayMs.eq hcut .same, h.decay.eq hcut .same⟩

theorem AudioTrack.faithful (hcut : ¬cut) :
    Faithful fun t => ObjectOf fun ms => AudioTrack.Edited cut ms t := by
  refine .objectOf fun ⟨_, _, _, _, _, _, _⟩ ms ⟨_, _, _, _, _, _, _⟩ h => ?_
  rw [mk.injEq]
  exact ⟨h.file.eq .same, h.startTime.eq hcut .same, h.volume.eq hcut .same,
    h.declick.eq hcut .same, h.declip.eq hcut .same,
    h.echo.eq hcut (EchoSettings.faithful hcut), h.reverb.eq hcut (ReverbSettings.faithful hcut)⟩

theorem ColorBalance.faithful : Faithful fun c => ObjectOf fun ms => ColorBalance.Edited ms c := by
  refine .objectOf fun ⟨_, _, _⟩ ms ⟨_, _, _⟩ h => ?_
  rw [mk.injEq]
  exact ⟨h.r.eq .same, h.g.eq .same, h.b.eq .same⟩

theorem VideoEffects.faithful (hcut : ¬cut) :
    Faithful fun fx => ObjectOf fun ms => VideoEffects.Edited cut ms fx := by
  refine .objectOf fun ⟨_, _, _, _, _⟩ ms ⟨_, _, _, _, _⟩ h => ?_
  rw [mk.injEq]
  exact ⟨h.file.eq .same, h.brightness.eq hcut (.maybe .same), h.contrast.eq hcut (.maybe .same),
    h.balance.eq hcut (.maybe ColorBalance.faithful), h.blurRadius.eq hcut (.maybe .same)⟩

/-- Where nothing is left out, an edit shows the request itself. -/
theorem Request.faithful (hcut : ¬cut) :
    Faithful fun r => ObjectOf fun ms => Request.Edited cut ms r := by
  refine .objectOf fun r ms r' h => ?_
  cases r
  cases r'
  rw [mk.injEq]
  exact ⟨h.mode.eq .same, h.canvas.eq hcut Size.faithful, h.framesPerSecond.eq hcut .same,
    h.aspectRatio.eq hcut .same, h.videoBitrate.eq hcut .same, h.audioBitrate.eq hcut .same,
    h.bufferSize.eq hcut .same, h.sampleRate.eq hcut .same, h.outputFile.eq hcut .same,
    h.manifest.eq hcut .same, h.effects.eq hcut (.arrayOf (VideoEffects.faithful hcut)),
    h.videoTracks.eq hcut (.arrayOf VideoTrack.faithful),
    h.audioTracks.eq hcut (.arrayOf (AudioTrack.faithful hcut))⟩

end Whole

end Montage
