import Mathlib
import Montage.Proofs.Command.Validity

/-!
Settings that nothing looks at: those of effects that are not heard, the sizes of files that are
not there, adjustments that are not used, and how a layout is spelled.  Whatever they are, the
request is compiled to the same command or refused with the same complaint.
-/

namespace Montage

/-- Settings of a track that are not heard. -/
inductive AudioTrack.Inert (t : AudioTrack) : AudioTrack → Prop
  | drowned (echo : EchoSettings) : t.reverb.enabled → Inert t { t with echo }
  | echo (echo : EchoSettings) : t.echo.enabled = false → echo.enabled = false →
      Inert t { t with echo }
  | reverb (reverb : ReverbSettings) : t.reverb.enabled = false → reverb.enabled = false →
      Inert t { t with reverb }

/-- Settings of a track that are not seen. -/
inductive VideoTrack.Inert (t : VideoTrack) : VideoTrack → Prop
  | resolution (i : Nat) (native : Size) : t.files[i]? = some "" →
      Inert t { t with resolutions := t.resolutions.set i native }
  | layout (kind : LayoutKind) : t.layout = kind.name → Inert t { t with layout := kind.glyph }

/-- An entry does not count if its file is not shown or a later entry is about the same file. -/
def VideoEffects.IsSpent (Shown : String → Prop) (fx : VideoEffects) (later : List VideoEffects) :
    Prop :=
  ¬Shown fx.file ∨ ∃ fx' ∈ later, fx'.file = fx.file

/-- Adjustments that come down to the same, where only some files are shown. -/
inductive VideoEffects.Inert (Shown : String → Prop) : List VideoEffects → List VideoEffects → Prop
  | remove (before after : List VideoEffects) (fx : VideoEffects) : fx.IsSpent Shown after →
      Inert Shown (before ++ fx :: after) (before ++ after)
  | adjust (before after : List VideoEffects) (fx fx' : VideoEffects) : fx.IsSpent Shown after →
      fx'.file = fx.file → Inert Shown (before ++ fx :: after) (before ++ fx' :: after)
  | swap (before after : List VideoEffects) (fx fx' : VideoEffects) : fx.file ≠ fx'.file →
      Inert Shown (before ++ fx :: fx' :: after) (before ++ fx' :: fx :: after)

namespace Request

/-- Whether a tile shows a file. -/
def Shows (r : Request) (file : String) : Prop := ∃ p ∈ r.panes, p.tile.file = some file

/-- A change to a request that nothing looks at. -/
inductive Inert : Request → Request → Prop
  | sound (r : Request) (before after : List AudioTrack) {t t' : AudioTrack} : t.Inert t' →
      Inert { r with audioTracks := before ++ t :: after }
        { r with audioTracks := before ++ t' :: after }
  | picture (r : Request) (before after : List VideoTrack) {t t' : VideoTrack} : t.Inert t' →
      Inert { r with videoTracks := before ++ t :: after }
        { r with videoTracks := before ++ t' :: after }
  | effects (r : Request) {effects : List VideoEffects} :
      VideoEffects.Inert r.Shows r.effects effects → Inert r { r with effects }
  | fps (r : Request) : Inert { r with framesPerSecond := 0 } { r with framesPerSecond := 1 }

end Request

namespace AudioTrack.Inert

variable {t t' : AudioTrack} (h : t.Inert t')

include h

theorem file_eq : t'.file = t.file := by cases h <;> rfl

theorem faults_eq (index : Nat) : t'.faults index = t.faults index := by
  cases h with
  | drowned echo hreverb => simp only [faults, reflectionFaults, hreverb, if_true]
  | echo echo hecho hecho' => simp [faults, reflectionFaults, hecho, hecho']
  | reverb reverb hreverb hreverb' => simp [faults, reflectionFaults, hreverb, hreverb']

theorem stages_eq (pow : Power) (sampleRate : UInt32) :
    t'.stages pow sampleRate = t.stages pow sampleRate := by
  cases h with
  | drowned echo hreverb => simp only [stages, reflectionStages, hreverb, if_true]
  | echo echo hecho hecho' => simp [stages, reflectionStages, hecho, hecho']
  | reverb reverb hreverb hreverb' => simp [stages, reflectionStages, hreverb, hreverb']

end AudioTrack.Inert

/-- What does not look at the size listed for a blank region does not see it changed. -/
theorem VideoTrack.map_panes_set {α : Type} {f : Pane → α}
    (hf : ∀ p native, p.file = "" → f { p with native } = f p) (t : VideoTrack) {i : Nat}
    (hi : t.files[i]? = some "") (native : Size) (canvas : Size) :
    (panes { t with resolutions := t.resolutions.set i native } canvas).map f =
      (t.panes canvas).map f := by
  unfold panes
  cases LayoutKind.named? t.layout with
  | none => rfl
  | some kind =>
    apply List.ext_getElem?
    intro k
    simp only [List.getElem?_map, List.zip, List.getElem?_zipWith]
    by_cases hk : i = k
    · subst hk
      rw [hi, List.getElem?_set_self']
      cases t.resolutions[i]? with
      | none => rfl
      | some size => cases (kind.regions canvas)[i]? with
        | none => rfl
        | some region => exact congrArg some (hf ⟨"", size, region, t.interval⟩ native rfl)
    · rw [List.getElem?_set_ne hk]

namespace VideoTrack.Inert

variable {t t' : VideoTrack} (h : t.Inert t') (canvas : Size)

include h

theorem interval_eq : t'.interval = t.interval := by cases h <;> rfl

theorem map_tile_panes_eq : (t'.panes canvas).map Pane.tile = (t.panes canvas).map Pane.tile := by
  cases h with
  | resolution i native hi =>
    refine map_panes_set (fun p native hp => ?_) t hi native canvas
    simp [Pane.tile, Pane.shown, hp]
  | layout kind hlayout =>
    simp only [panes, hlayout, LayoutKind.named?_name, LayoutKind.named?_glyph]

theorem faults_eq (index : Nat) : t'.faults canvas index = t.faults canvas index := by
  cases h with
  | resolution i native hi =>
    have hpanes := map_panes_set
      (f := fun p => complain p.Fillable
        (CompileError.invalidParameter (.video index) (.resolution p.native)))
      (fun p native hp => by simp [complain, Pane.Fillable, hp]) t hi native canvas
    simp only [faults, List.length_set, List.flatMap_def, hpanes]
  | layout kind hlayout =>
    simp only [faults, panes, hlayout, LayoutKind.named?_name, LayoutKind.named?_glyph]

end VideoTrack.Inert

/-- The last entry about a file that is shown stays the last. -/
theorem VideoEffects.Inert.find?_eq {Shown : String → Prop} {fxs fxs' : List VideoEffects}
    (h : Inert Shown fxs fxs') {file : String} (hfile : Shown file) :
    fxs'.reverse.find? (·.file == file) = fxs.reverse.find? (·.file == file) := by
  have hspent {fx : VideoEffects} {later : List VideoEffects} (h : fx.IsSpent Shown later)
      (hfx : fx.file = file) : ∃ found, later.reverse.find? (·.file == file) = some found := by
    rcases h with h | ⟨fx', hmem, hfx'⟩
    · exact absurd (hfx ▸ hfile) h
    · rw [← Option.isSome_iff_exists, List.find?_isSome]
      exact ⟨fx', List.mem_reverse.mpr hmem, by simp [hfx', hfx]⟩
  cases h with
  | remove before after fx h =>
    by_cases hfx : fx.file = file
    · obtain ⟨found, hfound⟩ := hspent h hfx
      simp [List.find?_append, hfound]
    · simp [List.find?_append, hfx]
  | adjust before after fx fx' h heq =>
    by_cases hfx : fx.file = file
    · obtain ⟨found, hfound⟩ := hspent h hfx
      simp [List.find?_append, hfound]
    · simp [List.find?_append, hfx, heq]
  | swap before after fx fx' hne =>
    by_cases hfx : fx.file = file
    · have hfx' : fx'.file ≠ file := fun heq => hne (hfx.trans heq.symm)
      simp [List.find?_append, hfx, hfx']
    · by_cases hfx' : fx'.file = file <;> simp [List.find?_append, hfx, hfx']

namespace VideoSettings

variable {s : VideoSettings} {effects : List VideoEffects}

theorem scaleCropNode_of_effects {t : Tile} (h : ∀ file, t.file = some file →
      { s with effects }.effectsFor? file = s.effectsFor? file) (input out : Pad) :
    { s with effects }.scaleCropNode t input out = s.scaleCropNode t input out := by
  simp only [scaleCropNode]
  cases hfile : t.file with
  | none => rfl
  | some file => simp only [Option.bind_some, h file hfile]

/-- The picture sees the adjustments for the files of its tiles alone. -/
theorem pictureNodes_of_effects (r : Registry) {items : List (Tile × Option SourceId)}
    (h : ∀ item ∈ items, ∀ file, item.1.file = some file →
      { s with effects }.effectsFor? file = s.effectsFor? file) :
    { s with effects }.pictureNodes r items = s.pictureNodes r items := by
  have hbackdrop (n : Nat) (t : Tile) (id : Option SourceId) :
      { s with effects }.backdrop n t id = s.backdrop n t id := by
    cases id <;> rfl
  have hstack : { s with effects }.stackNodes r items = s.stackNodes r items := by
    refine congrArg _ (List.flatMap_congr fun l hl => ?_)
    have htile := h _ (Registry.mem_items_of_mem_layers hl)
    simp only [Layer.nodes, hbackdrop, fitting, scaleCropNode_of_effects htile]
  rcases items with _ | ⟨⟨t, id⟩, _ | ⟨item, rest⟩⟩
  · exact hstack
  · have hlone : { s with effects }.loneNodes r t id = s.loneNodes r t id := by
      rw [loneNodes, loneNodes, hbackdrop, scaleCropNode_of_effects (h (t, id) (by simp))]
    have halone : t.standsAlone { s with effects }.canvas = t.standsAlone s.canvas := rfl
    rw [pictureNodes, pictureNodes, halone, hlone, hstack]
  · exact hstack

end VideoSettings

namespace Request

variable {r r' : Request}

/-- Two requests that come down to the same: they differ in nothing but their frame rates, tracks
and adjustments, and of these the same is left once the checks are passed. -/
structure Agrees (r r' : Request) : Prop where
  rest : r' = { r with
    framesPerSecond := r'.framesPerSecond
    effects := r'.effects
    videoTracks := r'.videoTracks
    audioTracks := r'.audioTracks }
  fps : r'.effectiveFps = r.effectiveFps
  effects : ∀ file, r.Shows file →
    r'.videoSettings.effectsFor? file = r.videoSettings.effectsFor? file
  duration : r'.duration = r.duration
  tiles : Tile.planAll r'.videoTracks r'.canvas = Tile.planAll r.videoTracks r.canvas
  files : r'.audioTracks.map (·.file) = r.audioTracks.map (·.file)
  chains : ∀ pow, chainAll pow r'.audioTracks r'.sampleRate =
    chainAll pow r.audioTracks r.sampleRate

theorem Inert.agrees (h : r.Inert r') : r.Agrees r' := by
  cases h with
  | fps r => exact ⟨rfl, rfl, fun _ _ => rfl, rfl, rfl, rfl, fun _ => rfl⟩
  | effects r h => exact ⟨rfl, rfl, fun _ hfile => h.find?_eq hfile, rfl, rfl, rfl, fun _ => rfl⟩
  | sound r before after h =>
    refine ⟨rfl, rfl, fun _ _ => rfl, rfl, rfl, by simp [h.file_eq], fun pow => ?_⟩
    rw [chainAll_eq, chainAll_eq]
    simp only [soundFaults, List.zipIdx_append, List.zipIdx_cons, List.flatMap_append,
      List.flatMap_cons, List.map_append, List.map_cons, h.faults_eq, h.stages_eq]
  | picture r before after h =>
    refine ⟨rfl, rfl, fun _ _ => rfl, by simp [duration, h.interval_eq], ?_, rfl, fun _ => rfl⟩
    rw [planAll_eq, planAll_eq]
    simp only [pictureFaults, panes, List.zipIdx_append, List.zipIdx_cons, List.flatMap_append,
      List.flatMap_cons, List.map_append, h.faults_eq, h.map_tile_panes_eq]

theorem outputArgs_of_agrees (h : r.Agrees r') (hasAudio : Bool) :
    Command.outputArgs r' hasAudio = Command.outputArgs r hasAudio := by
  have hfps := h.fps
  rw [h.rest] at hfps ⊢
  simp only [Command.outputArgs, Command.outputFor, Command.stillsArgs, Command.encodeArgs, hfps]

end Request

namespace Plan

variable {pow : Power} {r r' : Request} (p : Plan pow r) (h : r.Agrees r')

def transfer : Plan pow r' where
  tiles := p.tiles
  chains := p.chains
  planned := h.tiles.trans p.planned
  chained := List.mapM_eq_ok_iff.mp ((h.chains pow).trans (List.mapM_eq_ok_iff.mpr p.chained))

theorem hasSound_of_agrees (h : r.Agrees r') : r'.hasSound ↔ r.hasSound := by
  have hmode : r'.mode = r.mode := congrArg (·.mode) h.rest
  have htracks : r'.audioTracks = [] ↔ r.audioTracks = [] := by
    rw [← List.map_eq_nil_iff (f := (·.file)), h.files, List.map_eq_nil_iff]
  exact and_congr (by rw [hmode]) htracks.not

theorem picture_transfer : (p.transfer h).picture = p.picture := by
  have hsettings : r'.videoSettings = { r.videoSettings with effects := r'.effects } := by
    have hcanvas : r'.canvas = r.canvas := congrArg (·.canvas) h.rest
    simp only [Request.videoSettings, hcanvas, h.fps, h.duration]
  have hitems : ∀ item ∈ p.items, ∀ file, item.1.file = some file →
      { r.videoSettings with effects := r'.effects }.effectsFor? file =
        r.videoSettings.effectsFor? file := by
    intro item hitem file hfile
    have htile := (List.of_mem_zip hitem).1
    rw [p.tiles_eq] at htile
    obtain ⟨pane, hpane, heq⟩ := List.mem_map.mp htile
    exact h.effects file ⟨pane, hpane, heq ▸ hfile⟩
  have hpicture := VideoSettings.pictureNodes_of_effects p.registry hitems
  rw [picture, hsettings]
  exact congrArg _ hpicture

theorem graph_transfer : (p.transfer h).graph = p.graph := by
  have hsound : (p.transfer h).sound = p.sound := by
    simp only [sound, hasSound_of_agrees h, h.duration]
    rfl
  rw [graph, graph, hsound, p.picture_transfer h]

theorem outputs_transfer : (p.transfer h).outputs = p.outputs := by
  simp only [outputs, hasSound_of_agrees h]
  rfl

theorem command_transfer : (p.transfer h).command = p.command := by
  have hmode : r'.mode = r.mode := congrArg (·.mode) h.rest
  have houtput : Command.outputFor r' = Command.outputFor r := by rw [h.rest]; rfl
  have hregistry : (p.transfer h).registry = p.registry := rfl
  simp only [command, p.graph_transfer h, p.outputs_transfer h, h.files, hmode, houtput, hregistry,
    h.duration, Request.outputArgs_of_agrees h]

end Plan

namespace Request

variable {r r' : Request}

theorem Agrees.compile_eq (h : r.Agrees r') (pow : Power) : r'.compile pow = r.compile pow := by
  cases compiles pow r (.forMode r.mode) with
  | planned p _ => rw [p.compile_eq, (p.transfer h).compile_eq, p.command_transfer h]
  | badTiles f hf hcompile =>
    rw [compile, compileFor, assemble_eq_error_of_tiles (h.tiles.trans hf), compile, hcompile]
    rfl
  | badChains tiles e htiles he hcompile =>
    rw [compile, compileFor, assemble_eq_error_of_chains (h.tiles.trans htiles)
      ((h.chains pow).trans he), compile, hcompile]
    rfl

/-- Settings that nothing looks at change neither the command nor the complaint, in whatever number
they are changed. -/
theorem compile_eq_of_inert (h : Relation.EqvGen Inert r r') (pow : Power) :
    r.compile pow = r'.compile pow := by
  induction h with
  | rel r r' h => exact (h.agrees.compile_eq pow).symm
  | refl r => rfl
  | symm r r' _ ih => exact ih.symm
  | trans r r' r'' _ _ ih ih' => exact ih.trans ih'

/-- The sample with an entry that a later one replaces, a size for its blank region, a layout in
words, and another delay for an echo that is not heard. -/
def sampleVaried : Request :=
  { sample with
    effects := { VideoEffects.ofFile "a.mp4" with contrast := some 5 } :: sample.effects
    videoTracks :=
      [{ files := ["a.mp4", "b.mp4", "", "a.mp4"]
         layout := "quad"
         interval := ⟨0, 4⟩
         resolutions := [⟨16, 9⟩, ⟨4, 3⟩, ⟨7, 7⟩, ⟨16, 9⟩] },
       { files := ["a.mp4"], layout := "single", interval := ⟨2, 6.5⟩, resolutions := [⟨16, 9⟩] }]
    audioTracks :=
      [{ AudioTrack.ofFile "a.mp4" with echo := { EchoSettings.standard with delayMs := -7 } }] }

theorem compile_sampleVaried : Relation.EqvGen Inert sample sampleVaried ∧
    sample.compile Float.pow = sampleVaried.compile Float.pow := by
  let resized : Request := { sample with
    videoTracks := (sample.videoTracks.take 1).map ({ · with
      resolutions := [⟨16, 9⟩, ⟨4, 3⟩, ⟨7, 7⟩, ⟨16, 9⟩] }) ++ sample.videoTracks.drop 1 }
  let worded : Request := { sample with videoTracks := sampleVaried.videoTracks }
  let muted : Request := { worded with audioTracks := sampleVaried.audioTracks }
  have hresized : Inert sample resized :=
    .picture sample [] (sample.videoTracks.drop 1) (.resolution 2 ⟨7, 7⟩ rfl)
  have hworded : Inert worded resized :=
    .picture sample (resized.videoTracks.take 1) [] (.layout .single rfl)
  have hmuted : Inert worded muted := .sound worded [] [] (.echo _ rfl rfl)
  have hreplaced : Inert sampleVaried muted :=
    .effects sampleVaried (.remove [] sample.effects _ (.inr ⟨_, List.mem_singleton_self _, rfl⟩))
  have h : Relation.EqvGen Inert sample sampleVaried :=
    .trans _ _ _ (.rel _ _ hresized) <| .trans _ _ _ (.symm _ _ (.rel _ _ hworded)) <|
      .trans _ _ _ (.rel _ _ hmuted) (.symm _ _ (.rel _ _ hreplaced))
  exact ⟨h, compile_eq_of_inert h Float.pow⟩

end Request

end Montage
