import Mathlib
import Montage.Proofs.Command.Consistency
import Montage.Proofs.Command.Validity

/-!
One timeline in the three output modes.  A mode decides whether the sound is wired up and how the
output is encoded; what is wrong with a request, its picture, its inputs and its duration are the
same in all of them, and the sound is written after the whole picture.
-/

namespace Montage

namespace Graph

/-- A graph whose written nodes come after the overlays is written after one without such nodes. -/
theorem emitted_merge {picture sound : Graph}
    (hp : ∀ n ∈ picture.nodes, n.stage.rank ≤ Stage.overlay.rank)
    (hs : ∀ n ∈ sound.nodes, n.kind.text.isSome → Stage.overlay.rank < n.stage.rank) :
    (picture.merge sound).emitted = picture.emitted ++ sound.emitted := by
  have hpicture (s : Stage) (h : Stage.overlay.rank < s.rank) : picture.atStage s = [] := by
    apply atStage_eq_nil
    rintro n hn rfl
    exact absurd (hp n hn) (by omega)
  have hsound (s : Stage) (h : s.rank ≤ Stage.overlay.rank) :
      (sound.atStage s).filter (·.kind.text.isSome) = [] := by
    rw [List.filter_eq_nil_iff]
    rintro n hn htext
    obtain ⟨hmem, rfl⟩ := mem_atStage.mp hn
    exact absurd (hs n hmem htext) (by omega)
  simp only [emitted, ordered, Stage.all, List.flatMap_cons, List.flatMap_nil, atStage_merge,
    List.filter_append, hpicture .audioChain (by decide), hpicture .mix (by decide),
    hsound .source (by decide), hsound .split (by decide), hsound .scaleCrop (by decide),
    hsound .overlay (by decide), List.append_nil, List.nil_append, List.append_assoc]

theorem text_merge (picture sound : Graph)
    (hp : ∀ n ∈ picture.nodes, n.stage.rank ≤ Stage.overlay.rank)
    (hs : ∀ n ∈ sound.nodes, n.kind.text.isSome → Stage.overlay.rank < n.stage.rank)
    (hpne : picture.emitted ≠ []) (hsne : sound.emitted ≠ []) :
    (picture.merge sound).text = picture.text ++ ";" ++ sound.text := by
  rw [text_eq, text_eq, text_eq, emitted_merge hp hs, List.map_append, List.map_append]
  exact String.intercalate_append_of_ne_nil (by simpa using hpne) (by simpa using hsne)

end Graph

theorem overlay_lt_of_mem_soundNodes {offset : Nat} {chains : List AudioChain} {timeline : Float}
    {n : Node} (hn : n ∈ soundNodes offset chains timeline) (htext : n.kind.text.isSome) :
    Stage.overlay.rank < n.stage.rank := by
  obtain ⟨c, -, rfl | rfl⟩ | rfl := mem_soundNodes.mp hn
  · contradiction
  · exact (by decide : Stage.overlay.rank < Stage.audioChain.rank)
  · exact (by decide : Stage.overlay.rank < Stage.mix.rank)

theorem emitted_soundNodes_ne_nil (offset : Nat) (chains : List AudioChain) (timeline : Float) :
    (Graph.mk (soundNodes offset chains timeline)).emitted ≠ [] := by
  apply List.ne_nil_of_mem (a := mixNode chains timeline)
  rw [Graph.emitted, List.mem_filter, (Graph.ordered_perm _).mem_iff]
  exact ⟨mem_soundNodes.mpr (.inr rfl), rfl⟩

namespace Command

/-- The options of a command line in order, a flag with no value and any other with the argument
after it.  The last argument is no option. -/
def options : List String → List (String × Option String)
  | [] => []
  | [_] => []
  | option :: value :: rest =>
    if option ∈ flags then (option, none) :: options (value :: rest)
    else (option, some value) :: options rest

theorem options_flag {option value : String} {rest : List String} (h : option ∈ flags) :
    options (option :: value :: rest) = (option, none) :: options (value :: rest) := by
  rw [options, if_pos h]

theorem options_cons {option value : String} {rest : List String} (h : option ∉ flags) :
    options (option :: value :: rest) = (option, some value) :: options rest := by
  rw [options, if_neg h]

def declaration (pace : List String) (path : String) : List (String × Option String) :=
  pace.map (·, none) ++ [("-i", some path)]

/-- The flags that stand before every input in a mode. -/
def paceFlags (mode : OutputMode) : List String := if mode = .preview then ["-re"] else []

theorem options_inputArgs (mode : OutputMode) (path : String) (rest : List String) :
    options (inputArgs mode path ++ rest) =
      declaration (paceFlags mode) path ++ options rest := by
  have hinput : options ("-i" :: path :: rest) = ("-i", some path) :: options rest :=
    options_cons (by simp [flags])
  by_cases h : mode = .preview
  · rw [inputArgs, paceFlags, if_pos h]
    exact (options_flag (by simp [flags])).trans (congrArg _ hinput)
  · rw [inputArgs, paceFlags, if_neg h]
    exact hinput

theorem options_inputs (mode : OutputMode) (paths rest : List String) :
    options (paths.flatMap (inputArgs mode) ++ rest) =
      paths.flatMap (declaration (paceFlags mode)) ++ options rest := by
  induction paths with
  | nil => rfl
  | cons path paths ih =>
    rw [List.flatMap_cons, List.append_assoc, options_inputArgs, ih, List.flatMap_cons,
      List.append_assoc]

/-- An option that neither declares an input nor says how one is read. -/
def IsSetting (o : String × Option String) : Prop := o.1 ≠ "-i" ∧ o.1 ≠ "-re"

/-- The paths are declared one after the other, each directly after the flags `pace`, and nothing
else on the command line is about inputs. -/
def Declares (c : Command) (pace paths : List String) : Prop :=
  ∃ front back, options c.args = front ++ paths.flatMap (declaration pace) ++ back ∧
    ∀ o ∈ front ++ back, IsSetting o

theorem isSetting_options_mapArgs (pads : List Pad) {rest : List String}
    (h : ∀ o ∈ options rest, IsSetting o) :
    ∀ o ∈ options (pads.flatMap mapArgs ++ rest), IsSetting o := by
  induction pads with
  | nil => exact h
  | cons p pads ih =>
    have hmap : options ((p :: pads).flatMap mapArgs ++ rest) =
        ("-map", some p.reference) :: options (pads.flatMap mapArgs ++ rest) :=
      options_cons (by simp [flags])
    rw [hmap, List.forall_mem_cons]
    exact ⟨by simp [IsSetting], ih⟩

theorem isSetting_options_outputArgs (r : Request) (hasAudio : Bool) :
    ∀ o ∈ options (outputArgs r hasAudio), IsSetting o := by
  cases hm : r.mode with
  | thumbnail => simp [outputArgs, hm, stillsArgs, options, flags, IsSetting]
  | preview | render =>
    cases hasAudio <;> simp [outputArgs, hm, encodeArgs, options, flags, IsSetting]

end Command

namespace Plan

variable {pow : Power} {r : Request} (p : Plan pow r)

theorem rank_le_of_mem_picture {n : Node} (hn : n ∈ p.picture) :
    n.stage.rank ≤ Stage.overlay.rank := by
  cases List.mem_append.mp hn with
  | inl hn => rcases Registry.stage_of_mem_sourceNodes hn with h | h <;> rw [h] <;> decide
  | inr hn =>
    cases VideoSettings.isPictureNode_of_mem hn with
    | color => exact (by decide : Stage.source.rank ≤ Stage.overlay.rank)
    | scaleCrop => exact (by decide : Stage.scaleCrop.rank ≤ Stage.overlay.rank)
    | overlay => exact Nat.le_refl _

theorem declares : p.command.Declares (Command.paceFlags r.mode) p.declared := by
  have hglobal (rest : List String) : Command.options (Command.globalArgs ++ rest) =
      [("-y", none), ("-hide_banner", none), ("-nostats", none), ("-progress", some "pipe:1")] ++
        Command.options rest := by
    simp [Command.globalArgs, Command.options, Command.flags]
  have hmaps := Command.isSetting_options_mapArgs p.outputs.terminals
    (Command.isSetting_options_outputArgs r p.outputs.audio.isSome)
  rw [Command.Declares, args_eq, hglobal, Command.options_inputs]
  refine ⟨_, _, (List.append_assoc ..).symm, List.forall_mem_append.mpr ⟨?_, ?_⟩⟩
  · simp [Command.IsSetting]
  · split
    case isTrue => exact hmaps
    case isFalse =>
      rw [List.cons_append, List.cons_append, List.nil_append,
        Command.options_cons (by simp [Command.flags]), List.forall_mem_cons]
      exact ⟨by simp [Command.IsSetting], hmaps⟩

end Plan

namespace Request

def withMode (r : Request) (mode : OutputMode) : Request := { r with mode }

theorem hasSound_withMode {r : Request} {mode : OutputMode} :
    (r.withMode mode).hasSound ↔ mode ≠ .thumbnail ∧ r.audioTracks ≠ [] := Iff.rfl

/-- The commands for one timeline in the three modes: stills have the picture only, and a preview
and a render have the same picture and the same sound. -/
structure SameTimeline (pow : Power) (r : Request) (stills preview render : Command) : Prop where
  graph : preview.filterGraph = render.filterGraph
  maps : preview.values "-map" = render.values "-map"
  preview_audio : preview.hasAudio ↔ r.audioTracks ≠ []
  render_audio : render.hasAudio ↔ r.audioTracks ≠ []
  stills_audio : stills.hasAudio = false
  stills_maps : ∃ picture, stills.values "-map" = [picture] ∧
    render.values "-map" =
      picture :: (if r.audioTracks = [] then [] else [Pad.audioOut.reference])
  graph_silent : r.audioTracks = [] → render.filterGraph = stills.filterGraph
  graph_sound : r.audioTracks ≠ [] → ∃ sound,
    mixAudio pow r.audioTracks r.sampleRate r.videoPaths.length r.duration =
        .ok (some (sound, Pad.audioOut)) ∧
      render.filterGraph = stills.filterGraph ++ ";" ++ sound.text
  stills_duration : stills.duration = render.duration
  preview_duration : preview.duration = render.duration
  stills_inputs : stills.Declares [] (r.videoPaths ++ r.audioTracks.map (·.file))
  preview_inputs : preview.Declares ["-re"] (r.videoPaths ++ r.audioTracks.map (·.file))
  render_inputs : render.Declares [] (r.videoPaths ++ r.audioTracks.map (·.file))

end Request

namespace Plan

variable {pow : Power} {r : Request} (p : Plan pow r)

/-- The plan of a request is its plan in every mode. -/
def withMode (mode : OutputMode) : Plan pow (r.withMode mode) :=
  ⟨p.tiles, p.chains, p.planned, p.chained⟩

theorem sound_withMode {mode : OutputMode} (h : mode ≠ .thumbnail) :
    (p.withMode mode).sound =
      if r.audioTracks = [] then [] else soundNodes p.registry.size p.chains r.duration := by
  simp only [sound, Request.hasSound_withMode, h, ne_eq, not_false_iff, true_and, ite_not]
  rfl

theorem audio_withMode {mode : OutputMode} (h : mode ≠ .thumbnail) :
    (p.withMode mode).outputs.audio =
      if r.audioTracks = [] then none else some Pad.audioOut := by
  simp only [outputs, Request.hasSound_withMode, h, ne_eq, not_false_iff, true_and, ite_not]
  rfl

theorem sound_stills : (p.withMode .thumbnail).sound = [] := by
  simp [sound, Request.hasSound_withMode]

theorem audio_stills : (p.withMode .thumbnail).outputs.audio = none := by
  simp [outputs, Request.hasSound_withMode]

theorem graph_stills : (p.withMode .thumbnail).graph = ⟨p.picture⟩ := by
  rw [graph, sound_stills, List.append_nil]
  rfl

theorem graph_withMode {mode : OutputMode} (h : mode ≠ .thumbnail) :
    (p.withMode mode).graph = ⟨p.picture ++
      if r.audioTracks = [] then [] else soundNodes p.registry.size p.chains r.duration⟩ := by
  rw [graph, p.sound_withMode h]
  rfl

theorem text_withMode {mode : OutputMode} (h : mode ≠ .thumbnail)
    (htracks : r.audioTracks ≠ []) :
    (p.withMode mode).graph.text = (p.withMode .thumbnail).graph.text ++ ";" ++
      (Graph.mk (soundNodes p.registry.size p.chains r.duration)).text := by
  have hpicture := (p.withMode .thumbnail).emitted_ne_nil
  rw [graph_stills] at hpicture
  rw [p.graph_withMode h, if_neg htracks, graph_stills]
  exact Graph.text_merge ⟨p.picture⟩ ⟨soundNodes p.registry.size p.chains r.duration⟩
    (fun _ => p.rank_le_of_mem_picture) (fun _ => overlay_lt_of_mem_soundNodes) hpicture
    (emitted_soundNodes_ne_nil _ _ _)

theorem sameTimeline : r.SameTimeline pow (p.withMode .thumbnail).command
    (p.withMode .preview).command (p.withMode .render).command where
  graph := by
    change Graph.text _ = Graph.text _
    rw [p.graph_withMode (by decide), p.graph_withMode (by decide)]
  maps := by
    rw [values_maps, values_maps, GraphOutputs.terminals, GraphOutputs.terminals,
      p.audio_withMode (by decide), p.audio_withMode (by decide)]
    rfl
  preview_audio := by
    change (Option.isSome _) = true ↔ _
    rw [p.audio_withMode (by decide)]
    split <;> simp_all
  render_audio := by
    change (Option.isSome _) = true ↔ _
    rw [p.audio_withMode (by decide)]
    split <;> simp_all
  stills_audio := congrArg Option.isSome p.audio_stills
  stills_maps := by
    refine ⟨p.outputs.video.reference, ?_, ?_⟩
    · rw [values_maps, GraphOutputs.terminals, p.audio_stills]
      rfl
    · rw [values_maps, GraphOutputs.terminals, p.audio_withMode (by decide)]
      split <;> rfl
  graph_silent htracks := by
    change Graph.text _ = Graph.text _
    rw [p.graph_withMode (by decide), if_pos htracks, List.append_nil, graph_stills]
  graph_sound htracks := by
    refine ⟨_, ?_, p.text_withMode (by decide) htracks⟩
    rw [← p.size_eq, mixAudio_eq p.chained, if_neg htracks]
    rfl
  stills_duration := rfl
  preview_duration := rfl
  stills_inputs := by
    rw [← p.paths_eq]
    exact (p.withMode .thumbnail).declares
  preview_inputs := by
    rw [← p.paths_eq]
    exact (p.withMode .preview).declares
  render_inputs := by
    rw [← p.paths_eq]
    exact (p.withMode .render).declares

end Plan

/-- A timeline is refused alike in every mode, or compiled to commands that agree. -/
theorem Request.compile_withMode (pow : Power) (r : Request) :
    (∃ f, ∀ mode, (r.withMode mode).compile pow = .error f) ∨
      ∃ stills preview render, (r.withMode .thumbnail).compile pow = .ok stills ∧
        (r.withMode .preview).compile pow = .ok preview ∧
        (r.withMode .render).compile pow = .ok render ∧
        r.SameTimeline pow stills preview render := by
  rcases compile_eq_of_faults pow r with ⟨-, c, hc⟩ | ⟨e, hhead, -⟩
  · obtain ⟨p, -⟩ := exists_plan hc
    exact .inr ⟨_, _, _, (p.withMode .thumbnail).compile_eq, (p.withMode .preview).compile_eq,
      (p.withMode .render).compile_eq, p.sameTimeline⟩
  · refine .inl ⟨.rejected e, fun mode => ?_⟩
    -- the faults are those of the tracks and the canvas, whatever the mode
    have hfaults : (r.withMode mode).faults.head? = some e := hhead
    rcases compile_eq_of_faults pow (r.withMode mode) with ⟨hnil, -⟩ | ⟨e', hhead', he'⟩
    · rw [hnil] at hfaults
      contradiction
    · rw [hfaults] at hhead'
      rw [he', Option.some.inj hhead']

end Montage
