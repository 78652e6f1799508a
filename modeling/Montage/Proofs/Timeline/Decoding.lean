import Mathlib
import Montage.Proofs.Timeline.AspectRatio
import Montage.Proofs.Timeline.Editing
import Montage.Proofs.Timeline.Fields

/-!
Reading edited requests.  Every value reads as what it stands for, so an edited request reads as
the request with the standard values in the places of what was left out.
-/

namespace Montage

/-! ## Scalars -/

namespace Json

variable {α β : Type}

/-- The values that a reader takes for what they stand for. -/
def Reads (r : Reader α) (shows : Shows α) : Prop :=
  ∀ v a, shows v a → r .text v.echo = .ok a

theorem Reads.same {r : Reader α} {f : α → Value} {a : α} (h : r .text (f a).echo = .ok a) :
    Reads r (Same f a) := by
  rintro v a' ⟨rfl, rfl⟩
  exact h

theorem read_string (s : String) : Reader.string .text (Value.string s).echo = .ok s := rfl

theorem read_word (n : UInt32) : Reader.word .text (Value.ofNat n.toNat).echo = .ok n := by
  have hlt : n.toNat < UInt32.size := n.toNat_lt
  have hecho : (Value.ofNat n.toNat).echo = .number (.ok (.whole n.toNat)) := by
    have hword : n.toNat < UInt64.size := hlt.trans (by decide)
    rw [Value.ofNat, Value.echo, Number.echo, Number.ofWritten]
    simp [hword]
  rw [hecho, Reader.word, if_pos ⟨Int.natCast_nonneg _, Int.ofNat_lt.mpr hlt⟩, Int.toNat_natCast,
    UInt32.ofNat_toNat]

theorem read_float {x : Float} (hx : x.isFinite) :
    Reader.float .text (Value.ofFloat x).echo = .ok x := by
  rw [Value.ofFloat, Value.echo, Number.echo, if_pos hx]
  rfl

theorem read_strings (texts : List String) :
    Reader.string.list .text (Value.array (texts.map .string)).echo = .ok texts := by
  rw [Value.echo]
  change Reader.list.go Reader.string .text (echoItems (texts.map .string)) = .ok texts
  induction texts with
  | nil => rfl
  | cons s texts ih =>
    rw [List.map_cons, echoItems, Reader.list.go, read_string, ok_bind, ih]
    rfl

namespace Reads

theorem string (s : String) : Reads Reader.string (Same .string s) := same (read_string s)

theorem bool (b : Bool) : Reads Reader.bool (Same .bool b) := same rfl

theorem word (n : UInt32) : Reads Reader.word (Same (fun n => .ofNat n.toNat) n) :=
  same (read_word n)

theorem float {x : Float} (hx : x.isFinite) : Reads Reader.float (Same .ofFloat x) :=
  same (read_float hx)

theorem strings (texts : List String) :
    Reads Reader.string.list (Same (fun texts => .array (texts.map .string)) texts) :=
  same (read_strings texts)

end Reads

theorem Reads.arrayOf {r : Reader α} {shows : α → Shows α} {as : List α}
    (h : ∀ a ∈ as, Reads r (shows a)) : Reads r.list (ArrayOf shows as) := by
  rintro v as' ⟨vs, rfl, heach⟩
  rw [Value.echo]
  change Reader.list.go r .text (echoItems vs) = .ok as'
  induction heach with
  | nil => rfl
  | @cons a a' v as as' vs hshows _ ih =>
    rw [List.forall_mem_cons] at h
    rw [echoItems, Reader.list.go, h.1 v a' hshows, ok_bind, ih h.2]
    rfl

theorem Reads.maybe {r : Reader α} {shows : α → Shows α} {a? : Option α}
    (hnull : ∀ a, r .text .null ≠ .ok a) (h : ∀ a ∈ a?, Reads r (shows a)) :
    Reads r.optional (Maybe shows a?) := by
  rintro v a?' hmaybe
  cases hmaybe with
  | none => rfl
  | @some a a' v hshows =>
    have hread := h a rfl v a' hshows
    unfold Reader.optional
    split
    case h_1 hecho => exact absurd (hecho ▸ hread) (hnull a')
    case h_2 => rw [hread]; rfl

theorem Record.reader_null_ne {δ : Type} (record : Record δ α) (a : α) :
    record.reader .text .null ≠ .ok a := by
  change Except.error _ ≠ Except.ok a
  exact nofun

section Members

variable {ms : List (String × Value)} {names : List String} {shows : Shows α} {r : Reader α}
  {cut : Prop} {standard a : α}

theorem chunk_echoPairs (names : List String) (ms : List (String × Value)) :
    Record.chunk names (echoPairs ms) =
      (ms.filter (·.1 ∈ names)).map fun m => (m.1, m.2.echo) := by
  rw [Record.chunk, echoPairs, List.filter_map]
  rfl

theorem Keeps.finds (h : Keeps ms names shows a) (hr : Reads r shows) :
    Record.Finds .text (echoPairs ms) names r (some a) := by
  obtain ⟨key, v, hfilter, hshows⟩ := h
  refine .found key v.echo a ?_ (hr v a hshows)
  rw [chunk_echoPairs, hfilter]
  rfl

theorem Spares.exists_finds (h : Spares cut ms names shows standard a) (hr : Reads r shows) :
    ∃ a?, Record.Finds .text (echoPairs ms) names r a? ∧ a?.getD standard = a := by
  rcases h with hkeeps | ⟨-, hfilter, rfl⟩
  · exact ⟨some a, hkeeps.finds hr, rfl⟩
  · refine ⟨none, .missing ?_, rfl⟩
    rw [chunk_echoPairs, hfilter]
    rfl

/-- An object whose members come to a whole record. -/
theorem Record.Orderly.reads_objectOf {δ : Type} {record : Record δ α} (hrecord : record.Orderly)
    {edited : List (String × Value) → α → Prop}
    (h : ∀ ms a, edited ms a → ∃ d,
      Record.Collects .text (echoPairs ms) record.fields record.empty d ∧
        record.complete d = .ok a) :
    Reads record.reader (ObjectOf edited) := by
  rintro v a ⟨ms, rfl, hedited⟩
  obtain ⟨d, hcollects, hcomplete⟩ := h ms a hedited
  rw [Value.echo, echoMembers_eq]
  refine hrecord.reader_object (fun m hm => ?_) hcollects hcomplete
  obtain ⟨m, -, rfl⟩ := List.mem_map.mp hm
  exact m.2.skip_echo

end Members

end Json

open Json (Reads ObjectOf Value)
open Json.Record (Collects)

/-! ## Records -/

theorem Size.reads (s : Size) : Reads record.reader (ObjectOf fun ms => Size.Edited ms s) := by
  refine orderly_record.reads_objectOf fun ms s' h => ?_
  have hwidth := h.width.finds (Reads.word s.width)
  have hheight := h.height.finds (Reads.word s.height)
  exact ⟨⟨some s'.width, some s'.height⟩,
    .of (⟨·, none⟩) (fun _ => rfl) rfl hwidth <|
    .of (⟨some s'.width, ·⟩) (fun _ => rfl) rfl hheight <|
    .nil _, rfl⟩

theorem Interval.reads {i : Interval} (hi : i.IsFinite) : Reads reader (Json.Same toJson i) := by
  refine Reads.same ?_
  have hstart := Json.read_float hi.start
  have hstop := Json.read_float hi.stop
  rw [reader, toJson, Json.Value.echo, Json.echoItems, Json.echoItems, Json.echoItems,
    Json.Reader.pair]
  dsimp only
  rw [Json.Reader.pair.item, hstart]
  dsimp only [Except.map]
  rw [ok_bind]
  dsimp only
  rw [Json.Reader.pair.item, hstop]
  rfl

theorem VideoTrack.reads {t : VideoTrack} (ht : t.interval.IsFinite) :
    Reads record.reader (ObjectOf fun ms => VideoTrack.Edited ms t) := by
  refine orderly_record.reads_objectOf fun ms t' h => ?_
  have hfiles := h.files.finds (Reads.strings t.files)
  have hlayout := h.layout.finds (Reads.string t.layout)
  have hinterval := h.interval.finds (Interval.reads ht)
  have hresolutions := h.resolutions.finds (Reads.arrayOf fun s _ => s.reads)
  exact ⟨⟨some t'.files, some t'.layout, some t'.interval, some t'.resolutions⟩,
    .of (⟨·, none, none, none⟩) (fun _ => rfl) rfl hfiles <|
    .part ⟨fun _ => rfl, fun _ _ _ => rfl⟩ (⟨some t'.files, ·, none, none⟩) (fun _ => rfl) rfl
      hlayout <|
    .of (⟨some t'.files, some t'.layout, ·, none⟩) (fun _ => rfl) rfl hinterval <|
    .of (⟨some t'.files, some t'.layout, some t'.interval, ·⟩) (fun _ => rfl) rfl hresolutions <|
    .nil _, rfl⟩

theorem EchoSettings.reads {cut : Prop} {e : EchoSettings} (he : e.IsFinite) :
    Reads record.reader (ObjectOf fun ms => EchoSettings.Edited cut ms e) := by
  refine orderly_record.reads_objectOf fun ms e' h => ?_
  obtain ⟨enabled?, henabled, hread₁⟩ := h.enabled.exists_finds (Reads.bool _)
  obtain ⟨delay?, hdelay, hread₂⟩ := h.delayMs.exists_finds (Reads.float he.delayMs)
  obtain ⟨decay?, hdecay, hread₃⟩ := h.decay.exists_finds (Reads.float he.decay)
  obtain ⟨inGain?, hinGain, hread₄⟩ := h.inGain.exists_finds (Reads.float he.inGain)
  obtain ⟨outGain?, houtGain, hread₅⟩ := h.outGain.exists_finds (Reads.float he.outGain)
  refine ⟨⟨enabled?, delay?, decay?, inGain?, outGain?⟩,
    .of (⟨·, none, none, none, none⟩) (fun _ => rfl) rfl henabled <|
    .of (⟨enabled?, ·, none, none, none⟩) (fun _ => rfl) rfl hdelay <|
    .of (⟨enabled?, delay?, ·, none, none⟩) (fun _ => rfl) rfl hdecay <|
    .of (⟨enabled?, delay?, decay?, ·, none⟩) (fun _ => rfl) rfl hinGain <|
    .of (⟨enabled?, delay?, decay?, inGain?, ·⟩) (fun _ => rfl) rfl houtGain <|
    .nil _, ?_⟩
  change Except.ok (EchoSettings.mk _ _ _ _ _) = _
  rw [hread₁, hread₂, hread₃, hread₄, hread₅]

theorem ReverbSettings.reads {cut : Prop} {v : ReverbSettings} (hv : v.IsFinite) :
    Reads record.reader (ObjectOf fun ms => ReverbSettings.Edited cut ms v) := by
  refine orderly_record.reads_objectOf fun ms v' h => ?_
  obtain ⟨enabled?, henabled, hread₁⟩ := h.enabled.exists_finds (Reads.bool _)
  obtain ⟨delay?, hdelay, hread₂⟩ := h.delayMs.exists_finds (Reads.float hv.delayMs)
  obtain ⟨decay?, hdecay, hread₃⟩ := h.decay.exists_finds (Reads.float hv.decay)
  refine ⟨⟨enabled?, delay?, decay?⟩,
    .of (⟨·, none, none⟩) (fun _ => rfl) rfl henabled <|
    .of (⟨enabled?, ·, none⟩) (fun _ => rfl) rfl hdelay <|
    .of (⟨enabled?, delay?, ·⟩) (fun _ => rfl) rfl hdecay <|
    .nil _, ?_⟩
  change Except.ok (ReverbSettings.mk _ _ _) = _
  rw [hread₁, hread₂, hread₃]

theorem AudioTrack.reads {cut : Prop} {t : AudioTrack} (ht : t.IsFinite) :
    Reads record.reader (ObjectOf fun ms => AudioTrack.Edited cut ms t) := by
  refine orderly_record.reads_objectOf fun ms t' h => ?_
  have hfile := h.file.finds (Reads.string t.file)
  obtain ⟨start?, hstart, hread₁⟩ := h.startTime.exists_finds (Reads.float ht.startTime)
  obtain ⟨volume?, hvolume, hread₂⟩ := h.volume.exists_finds (Reads.float ht.volume)
  obtain ⟨declick?, hdeclick, hread₃⟩ := h.declick.exists_finds (Reads.bool _)
  obtain ⟨declip?, hdeclip, hread₄⟩ := h.declip.exists_finds (Reads.bool _)
  obtain ⟨echo?, hecho, hread₅⟩ := h.echo.exists_finds (EchoSettings.reads ht.echo)
  obtain ⟨reverb?, hreverb, hread₆⟩ := h.reverb.exists_finds (ReverbSettings.reads ht.reverb)
  refine ⟨⟨some t'.file, start?, volume?, declick?, declip?, echo?, reverb?⟩,
    .of (⟨·, none, none, none, none, none, none⟩) (fun _ => rfl) rfl hfile <|
    .of (⟨some t'.file, ·, none, none, none, none, none⟩) (fun _ => rfl) rfl hstart <|
    .of (⟨some t'.file, start?, ·, none, none, none, none⟩) (fun _ => rfl) rfl hvolume <|
    .of (⟨some t'.file, start?, volume?, ·, none, none, none⟩) (fun _ => rfl) rfl hdeclick <|
    .of (⟨some t'.file, start?, volume?, declick?, ·, none, none⟩) (fun _ => rfl) rfl hdeclip <|
    .of (⟨some t'.file, start?, volume?, declick?, declip?, ·, none⟩) (fun _ => rfl) rfl hecho <|
    .of (⟨some t'.file, start?, volume?, declick?, declip?, echo?, ·⟩) (fun _ => rfl) rfl
      hreverb <|
    .nil _, ?_⟩
  change Except.ok (AudioTrack.mk t'.file (start?.getD (ofFile t.file).startTime)
    (volume?.getD (ofFile t.file).volume) (declick?.getD (ofFile t.file).declick)
    (declip?.getD (ofFile t.file).declip) (echo?.getD (ofFile t.file).echo)
    (reverb?.getD (ofFile t.file).reverb)) = _
  rw [hread₁, hread₂, hread₃, hread₄, hread₅, hread₆]

theorem ColorBalance.reads {c : ColorBalance} (hc : c.IsFinite) :
    Reads record.reader (ObjectOf fun ms => ColorBalance.Edited ms c) := by
  refine orderly_record.reads_objectOf fun ms c' h => ?_
  have hr := h.r.finds (Reads.float hc.r)
  have hg := h.g.finds (Reads.float hc.g)
  have hb := h.b.finds (Reads.float hc.b)
  exact ⟨⟨some c'.r, some c'.g, some c'.b⟩,
    .of (⟨·, none, none⟩) (fun _ => rfl) rfl hr <|
    .of (⟨some c'.r, ·, none⟩) (fun _ => rfl) rfl hg <|
    .of (⟨some c'.r, some c'.g, ·⟩) (fun _ => rfl) rfl hb <|
    .nil _, rfl⟩

theorem Json.reads_optional_float {x? : Option Float} (h : ∀ x ∈ x?, x.isFinite) :
    Reads Json.Reader.float.optional (Json.Maybe (Json.Same .ofFloat) x?) :=
  Reads.maybe (fun _ => nofun) fun x hx => Reads.float (h x hx)

theorem VideoEffects.reads {cut : Prop} {fx : VideoEffects} (hfx : fx.IsFinite) :
    Reads record.reader (ObjectOf fun ms => VideoEffects.Edited cut ms fx) := by
  refine orderly_record.reads_objectOf fun ms fx' h => ?_
  have hfile := h.file.finds (Reads.string fx.file)
  obtain ⟨brightness?, hbrightness, hread₁⟩ :=
    h.brightness.exists_finds (Json.reads_optional_float hfx.brightness)
  obtain ⟨contrast?, hcontrast, hread₂⟩ :=
    h.contrast.exists_finds (Json.reads_optional_float hfx.contrast)
  obtain ⟨balance?, hbalance, hread₃⟩ := h.balance.exists_finds
    (Reads.maybe (Json.Record.reader_null_ne _) fun c hc => ColorBalance.reads (hfx.balance c hc))
  obtain ⟨blur?, hblur, hread₄⟩ :=
    h.blurRadius.exists_finds (Json.reads_optional_float hfx.blurRadius)
  refine ⟨⟨some fx'.file, brightness?, contrast?, balance?, blur?⟩,
    .of (⟨·, none, none, none, none⟩) (fun _ => rfl) rfl hfile <|
    .of (⟨some fx'.file, ·, none, none, none⟩) (fun _ => rfl) rfl hbrightness <|
    .of (⟨some fx'.file, brightness?, ·, none, none⟩) (fun _ => rfl) rfl hcontrast <|
    .of (⟨some fx'.file, brightness?, contrast?, ·, none⟩) (fun _ => rfl) rfl hbalance <|
    .of (⟨some fx'.file, brightness?, contrast?, balance?, ·⟩) (fun _ => rfl) rfl hblur <|
    .nil _, ?_⟩
  change Except.ok (VideoEffects.mk fx'.file (brightness?.getD (ofFile fx.file).brightness)
    (contrast?.getD (ofFile fx.file).contrast) (balance?.getD (ofFile fx.file).balance)
    (blur?.getD (ofFile fx.file).blurRadius)) = _
  rw [hread₁, hread₂, hread₃, hread₄]

theorem OutputMode.read_name (mode : OutputMode) :
    reader .text (Value.string mode.name).echo = .ok mode := by
  cases mode <;> decide

theorem AspectRatio.read_text {a : AspectRatio} (hnum : a.num ≠ 0) (hden : a.den ≠ 0) :
    reader .text (Value.string a.text).echo = .ok a := by
  rw [reader, Json.read_string, ok_bind, parse_text hnum hden]

namespace Request

theorem reads {cut : Prop} {r : Request} (hr : r.IsFinite) (hnum : r.aspectRatio.num ≠ 0)
    (hden : r.aspectRatio.den ≠ 0) :
    Reads record.reader (ObjectOf fun ms => Request.Edited cut ms r) := by
  refine orderly_record.reads_objectOf fun ms r' h => ?_
  have hmode := h.mode.finds (Reads.same (OutputMode.read_name r.mode))
  obtain ⟨canvas?, hcanvas, hread₁⟩ := h.canvas.exists_finds r.canvas.reads
  obtain ⟨fps?, hfps, hread₂⟩ := h.framesPerSecond.exists_finds (Reads.word _)
  obtain ⟨aspect?, haspect, hread₃⟩ :=
    h.aspectRatio.exists_finds (Reads.same (AspectRatio.read_text hnum hden))
  obtain ⟨video?, hvideo, hread₄⟩ := h.videoBitrate.exists_finds (Reads.string _)
  obtain ⟨audio?, haudio, hread₅⟩ := h.audioBitrate.exists_finds (Reads.string _)
  obtain ⟨buffer?, hbuffer, hread₆⟩ := h.bufferSize.exists_finds (Reads.string _)
  obtain ⟨rate?, hrate, hread₇⟩ := h.sampleRate.exists_finds (Reads.word _)
  obtain ⟨output?, houtput, hread₈⟩ :=
    h.outputFile.exists_finds (r := pathReader) (Reads.same rfl)
  obtain ⟨manifest?, hmanifest, hread₉⟩ :=
    h.manifest.exists_finds (r := pathReader) (Reads.same rfl)
  obtain ⟨effects?, heffects, hread₁₀⟩ := h.effects.exists_finds
    (Reads.arrayOf fun fx hfx => VideoEffects.reads (hr.effects fx hfx))
  obtain ⟨tracks?, htracks, hread₁₁⟩ := h.videoTracks.exists_finds
    (Reads.arrayOf fun t ht => VideoTrack.reads (hr.videoTracks t ht))
  obtain ⟨sounds?, hsounds, hread₁₂⟩ := h.audioTracks.exists_finds
    (Reads.arrayOf fun t ht => AudioTrack.reads (hr.audioTracks t ht))
  refine ⟨⟨some r'.mode, canvas?, fps?, aspect?, video?, audio?, buffer?, rate?, output?,
      manifest?, effects?, tracks?, sounds?⟩,
    .of (fun x => { mode := x }) (fun _ => rfl) rfl hmode <|
    .of (fun x => { mode := some r'.mode, canvas := x }) (fun _ => rfl) rfl hcanvas <|
    .of (fun x => { mode := some r'.mode, canvas := canvas?, framesPerSecond := x })
      (fun _ => rfl) rfl hfps <|
    .of (⟨some r'.mode, canvas?, fps?, ·, none, none, none, none, none, none, none, none, none⟩)
      (fun _ => rfl) rfl haspect <|
    .of (⟨some r'.mode, canvas?, fps?, aspect?, ·, none, none, none, none, none, none, none, none⟩)
      (fun _ => rfl) rfl hvideo <|
    .of (⟨some r'.mode, canvas?, fps?, aspect?, video?, ·, none, none, none, none, none, none,
      none⟩) (fun _ => rfl) rfl haudio <|
    .of (⟨some r'.mode, canvas?, fps?, aspect?, video?, audio?, ·, none, none, none, none, none,
      none⟩) (fun _ => rfl) rfl hbuffer <|
    .of (⟨some r'.mode, canvas?, fps?, aspect?, video?, audio?, buffer?, ·, none, none, none, none,
      none⟩) (fun _ => rfl) rfl hrate <|
    .of (⟨some r'.mode, canvas?, fps?, aspect?, video?, audio?, buffer?, rate?, ·, none, none, none,
      none⟩) (fun _ => rfl) rfl houtput <|
    .of (⟨some r'.mode, canvas?, fps?, aspect?, video?, audio?, buffer?, rate?, output?, ·, none,
      none, none⟩) (fun _ => rfl) rfl hmanifest <|
    .of (⟨some r'.mode, canvas?, fps?, aspect?, video?, audio?, buffer?, rate?, output?, manifest?,
      ·, none, none⟩) (fun _ => rfl) rfl heffects <|
    .of (⟨some r'.mode, canvas?, fps?, aspect?, video?, audio?, buffer?, rate?, output?, manifest?,
      effects?, ·, none⟩) (fun _ => rfl) rfl htracks <|
    .of (⟨some r'.mode, canvas?, fps?, aspect?, video?, audio?, buffer?, rate?, output?, manifest?,
      effects?, tracks?, ·⟩) (fun _ => rfl) rfl hsounds <|
    .nil _, ?_⟩
  change Except.ok (Request.mk r'.mode (canvas?.getD (ofMode r.mode).canvas)
    (fps?.getD (ofMode r.mode).framesPerSecond) (aspect?.getD (ofMode r.mode).aspectRatio)
    (video?.getD (ofMode r.mode).videoBitrate) (audio?.getD (ofMode r.mode).audioBitrate)
    (buffer?.getD (ofMode r.mode).bufferSize) (rate?.getD (ofMode r.mode).sampleRate)
    (output?.getD (ofMode r.mode).outputFile) (manifest?.getD (ofMode r.mode).manifest)
    (effects?.getD (ofMode r.mode).effects) (tracks?.getD (ofMode r.mode).videoTracks)
    (sounds?.getD (ofMode r.mode).audioTracks)) = _
  rw [hread₁, hread₂, hread₃, hread₄, hread₅, hread₆, hread₇, hread₈, hread₉, hread₁₀, hread₁₁,
    hread₁₂]

/-- An edited request reads as what it shows. -/
theorem ofJson_objectOf {cut : Prop} {r r' : Request} {v : Value} (hr : r.IsFinite)
    (hnum : r.aspectRatio.num ≠ 0) (hden : r.aspectRatio.den ≠ 0)
    (h : ObjectOf (fun ms => Request.Edited cut ms r) v r') : ofJson v.compact = .ok r' := by
  have hread : reader .text v.echo = .ok r' := reads hr hnum hden v r' h
  rw [ofJson, Json.ofString_compact, Json.Document.read, hread]
  rfl

/-- A clip with a commentary. -/
def commentary : Request :=
  { ofMode .render with
    videoBitrate := "4M"
    videoTracks := [⟨["talk.mp4"], "solo", ⟨0, 5⟩, [⟨640, 480⟩]⟩]
    audioTracks := [⟨"voice.webm", 2, 1.5, true, false, .standard, .standard⟩] }

/-- The tracks before the mode, a note, the other name of the layout, and of the commentary no more
than its file and its start. -/
def commentaryEdited : Value :=
  .object
    [("audio_tracks", .array
      [.object [("start_time", .ofFloat 2), ("file", .string "voice.webm")]]),
     ("note", .array [.null, .bool true]),
     ("video_tracks", .array
      [.object
        [("screen_style", .string "solo"),
         ("files", .array [.string "talk.mp4"]),
         ("resolutions", .array [.object [("height", .ofNat 480), ("width", .ofNat 640)]]),
         ("interval", .array [.ofFloat 0, .ofFloat 5])]]),
     ("video_bitrate", .string "4M"),
     ("output_mode", .string "render")]

/-- What is left of it. -/
def commentaryLeft : Request :=
  { commentary with audioTracks := [{ AudioTrack.ofFile "voice.webm" with startTime := 2 }] }

theorem commentary_isFinite : commentary.IsFinite where
  effects _ h := nomatch h
  videoTracks t h := by
    obtain rfl := List.mem_singleton.mp h
    exact ⟨by decide, by decide⟩
  audioTracks t h := by
    obtain rfl := List.mem_singleton.mp h
    exact ⟨by decide, by decide, ⟨by decide, by decide, by decide, by decide⟩, by decide, by decide⟩

theorem commentary_edited :
    ObjectOf (fun ms => Request.Edited True ms commentary) commentaryEdited commentaryLeft :=
  ⟨_, rfl,
    { mode := .written .same rfl
      canvas := .inr ⟨trivial, rfl, rfl⟩
      framesPerSecond := .inr ⟨trivial, rfl, rfl⟩
      aspectRatio := .inr ⟨trivial, rfl, rfl⟩
      videoBitrate := .written .same rfl
      audioBitrate := .inr ⟨trivial, rfl, rfl⟩
      bufferSize := .inr ⟨trivial, rfl, rfl⟩
      sampleRate := .inr ⟨trivial, rfl, rfl⟩
      outputFile := .inr ⟨trivial, rfl, rfl⟩
      manifest := .inr ⟨trivial, rfl, rfl⟩
      effects := .inr ⟨trivial, rfl, rfl⟩
      videoTracks :=
        .inl ⟨_, _, rfl, _, rfl, .cons ⟨_, rfl,
          { files := .written .same rfl
            layout := .written .same rfl
            interval := .written .same rfl
            resolutions := ⟨_, _, rfl, _, rfl,
              .cons ⟨_, rfl, .written .same rfl, .written .same rfl⟩ .nil⟩ }⟩ .nil⟩
      audioTracks :=
        .inl ⟨_, _, rfl, _, rfl, .cons ⟨_, rfl,
          { file := .written .same rfl
            startTime := .written .same rfl
            volume := .inr ⟨trivial, rfl, rfl⟩
            declick := .inr ⟨trivial, rfl, rfl⟩
            declip := .inr ⟨trivial, rfl, rfl⟩
            echo := .inr ⟨trivial, rfl, rfl⟩
            reverb := .inr ⟨trivial, rfl, rfl⟩ }⟩ .nil⟩ }⟩

end Request

end Montage
