import Mathlib
import Montage.Command.Compile
import Montage.Proofs.Audio.Mix
import Montage.Proofs.Video.Panes
import Montage.Proofs.Video.Wiring

/-!
What a command is compiled from.  A plan holds the tiles and the chains of a request that passed
its checks; the graph, the registry and the command are functions of it, and nothing after the
checks can fail.
-/

namespace Montage

structure Plan (pow : Power) (r : Request) where
  tiles : List Tile
  chains : List AudioChain
  planned : Tile.planAll r.videoTracks r.canvas = .ok tiles
  chained : Chained pow r.audioTracks r.sampleRate chains

/-- Whether sound goes to the output. -/
def Request.hasSound (r : Request) : Prop := r.mode ≠ .thumbnail ∧ r.audioTracks ≠ []

instance (r : Request) : Decidable r.hasSound := inferInstanceAs (Decidable (_ ∧ _))

namespace Plan

variable {pow : Power} {r : Request} (p : Plan pow r)

def registry : Registry := (Registry.empty.acquireAll p.tiles).1

def items : List (Tile × Option SourceId) :=
  p.tiles.zip (Registry.empty.acquireAll p.tiles).2

def layers : List Layer := p.registry.layers p.items

def picture : List Node :=
  p.registry.sourceNodes ++ r.videoSettings.pictureNodes p.registry p.items

def sound : List Node :=
  if r.hasSound then soundNodes p.registry.size p.chains r.duration else []

def graph : Graph := ⟨p.picture ++ p.sound⟩

def outputs : GraphOutputs where
  video := (PadName.finished p.tiles.length).pad
  audio := if r.hasSound then some PadName.audioOut.pad else none

theorem verdict_tiles : r.pictureFaults = [] ∧ r.panes.map Pane.tile = p.tiles := by
  have h := p.planned
  rw [Request.planAll_eq, verdict_eq_ok_iff, List.map_eq_nil_iff] at h
  exact h

theorem pictureFaults_eq (p : Plan pow r) : r.pictureFaults = [] := p.verdict_tiles.1

theorem tiles_eq : p.tiles = r.panes.map Pane.tile := p.verdict_tiles.2.symm

/-- The sources of a plan are the files that are shown. -/
theorem paths_eq : p.registry.paths = r.videoPaths := by
  have hempty : Registry.empty.paths.Nodup := List.nodup_nil
  rw [registry, Registry.paths_acquireAll hempty, p.tiles_eq,
    Request.filterMap_file_tiles p.pictureFaults_eq]
  rfl

theorem size_eq : p.registry.size = r.videoPaths.length := by
  rw [← Registry.length_paths, paths_eq]

theorem length_items : p.items.length = p.tiles.length := by
  simp [items, Registry.acquireAll_ids]

theorem map_snd_items : p.items.map (·.2) = (Registry.empty.acquireAll p.tiles).2 :=
  List.map_snd_zip (by simp [Registry.acquireAll_ids])

theorem counts : p.registry.Counts (p.items.map (·.2)) where
  index_lt id hid := by
    rw [map_snd_items] at hid
    exact Registry.index_lt_of_mem_acquireAll hid
  usage id := by
    rw [map_snd_items, registry, Registry.usageCount_acquireAll]
    simp [Registry.usageCount, Registry.empty]

theorem linked_picture : Linked p.picture [(PadName.finished p.tiles.length).pad] := by
  rw [← length_items]
  exact VideoSettings.linked_picture p.counts

theorem linked : Linked p.graph.nodes p.outputs.terminals := by
  unfold graph outputs GraphOutputs.terminals sound
  split
  case isTrue =>
    refine p.linked_picture.append (linked_soundNodes p.chained) ?_
    intro q hp hs
    rw [(written_soundNodes p.chained).mem_iff] at hs
    obtain ⟨n, hn, rfl⟩ := List.mem_map.mp hs
    exact VideoSettings.part_of_mem_written_picture hp (part_of_mem_soundNames hn)
  case isFalse => simpa using p.linked_picture

theorem assemble_eq : r.assemble pow = .ok (p.graph, p.outputs, p.registry) := by
  have hvideo := assembleVideo_eq .empty r.videoSettings p.planned
  have haudio := mixAudio_eq p.chained p.registry.size r.duration
  rw [Request.assemble, hvideo]
  simp only [bind, Except.bind]
  unfold registry at haudio
  rw [haudio]
  unfold graph outputs sound picture items registry Request.hasSound
  by_cases htracks : r.audioTracks = []
  · simp [htracks, Fault.ofRejection, pure, Except.pure]
  · by_cases hmode : r.mode = .thumbnail
    · simp [htracks, hmode, Fault.ofRejection, pure, Except.pure]
    · simp [htracks, hmode, Fault.ofRejection, pure, Except.pure, Graph.merge]

def command : Command :=
  let inputs := p.registry.paths ++ r.audioTracks.map (·.file)
  { mode := r.mode
    args :=
      Command.globalArgs ++ inputs.flatMap (Command.inputArgs r.mode)
        ++ (if p.graph.text.isEmpty then [] else ["-filter_complex", p.graph.text])
        ++ Command.mapArgs p.outputs.video ++ p.outputs.audio.toList.flatMap Command.mapArgs
        ++ Command.outputArgs r p.outputs.audio.isSome
    filterGraph := p.graph.text
    duration := r.duration
    hasAudio := p.outputs.audio.isSome
    output := Command.outputFor r }

theorem allows_forMode (mode : OutputMode) : (Operation.forMode mode).allows mode = true := by
  cases mode <;> rfl

theorem compileFor_eq (op : Operation) :
    r.compileFor pow op =
      if op.allows r.mode then .ok p.command else .error (.rejected (.invalidMode r.mode op)) := by
  have haudio : (if r.mode = .thumbnail then none else p.outputs.audio) = p.outputs.audio := by
    by_cases hmode : r.mode = .thumbnail <;> simp [outputs, Request.hasSound, hmode]
  rw [Request.compileFor, p.assemble_eq]
  simp only [bind, Except.bind]
  rw [Graph.checkEdges_eq_ok_iff.mpr p.linked]
  by_cases hop : op.allows r.mode
  · simp only [linearize, Operation.check, hop, if_true, bind, Except.bind, haudio]
    rfl
  · simp only [linearize, Operation.check, hop, bind, Except.bind]
    rfl

theorem compile_eq : r.compile pow = .ok p.command := by
  rw [Request.compile, p.compileFor_eq, if_pos (allows_forMode r.mode)]

end Plan

namespace Request

variable {pow : Power} {r : Request}

def chainAll (pow : Power) (tracks : List AudioTrack) (sampleRate : UInt32) :
    Except CompileError (List AudioChain) :=
  tracks.zipIdx.mapM fun (t, i) => t.chain pow i sampleRate

theorem assemble_eq_error_of_tiles {f : Fault}
    (h : Tile.planAll r.videoTracks r.canvas = .error f) : r.assemble pow = .error f := by
  have hvideo : assembleVideo r.videoTracks .empty r.videoSettings = .error f := by
    rw [assembleVideo, drawVideo_of_error h]
  rw [assemble, hvideo]
  rfl

theorem assemble_eq_error_of_chains {tiles : List Tile} {e : CompileError}
    (h : Tile.planAll r.videoTracks r.canvas = .ok tiles)
    (hc : chainAll pow r.audioTracks r.sampleRate = .error e) :
    r.assemble pow = .error (.rejected e) := by
  have hvideo := assembleVideo_eq .empty r.videoSettings h
  have haudio : mixAudio pow r.audioTracks r.sampleRate (Registry.empty.acquireAll tiles).1.size
      r.duration = .error e := by
    rw [mixAudio, ← chainAll, hc]
    rfl
  rw [assemble, hvideo]
  simp only [bind, Except.bind]
  rw [haudio]
  rfl

/-- A request is compiled from a plan, or it fails where its tiles or else its chains do. -/
inductive Compiles (pow : Power) (r : Request) (op : Operation) : Prop
  | planned (p : Plan pow r) (eq : r.compileFor pow op =
      if op.allows r.mode then .ok p.command else .error (.rejected (.invalidMode r.mode op)))
  | badTiles (f : Fault) (tiles_eq : Tile.planAll r.videoTracks r.canvas = .error f)
      (eq : r.compileFor pow op = .error f)
  | badChains (tiles : List Tile) (e : CompileError)
      (tiles_eq : Tile.planAll r.videoTracks r.canvas = .ok tiles)
      (chains_eq : chainAll pow r.audioTracks r.sampleRate = .error e)
      (eq : r.compileFor pow op = .error (.rejected e))

theorem compiles (pow : Power) (r : Request) (op : Operation) : r.Compiles pow op := by
  cases ht : Tile.planAll r.videoTracks r.canvas with
  | error f =>
    refine .badTiles f ht ?_
    rw [compileFor, assemble_eq_error_of_tiles ht]
    rfl
  | ok tiles =>
    cases hc : chainAll pow r.audioTracks r.sampleRate with
    | error e =>
      refine .badChains tiles e ht hc ?_
      rw [compileFor, assemble_eq_error_of_chains ht hc]
      rfl
    | ok chains =>
      exact .planned ⟨tiles, chains, ht, List.mapM_eq_ok_iff.mp hc⟩ (Plan.compileFor_eq _ op)

/-- Every command is the command of a plan. -/
theorem exists_plan {c : Command} (h : r.compile pow = .ok c) :
    ∃ p : Plan pow r, c = p.command := by
  cases compiles pow r (.forMode r.mode) with
  | planned p _ => exact ⟨p, Except.ok.inj (h.symm.trans p.compile_eq)⟩
  | badTiles f _ hf =>
    rw [compile, hf] at h
    contradiction
  | badChains tiles e _ _ he =>
    rw [compile, he] at h
    contradiction

/-- A preview of two overlapping tracks, with a blank region, a file that three tiles show, and a
voice from one of the same files. -/
def sample : Request :=
  { ofMode .preview with
    canvas := ⟨8, 6⟩
    effects := [{ VideoEffects.ofFile "a.mp4" with brightness := some 0.5 }]
    videoTracks :=
      [{ files := ["a.mp4", "b.mp4", "", "a.mp4"]
         layout := "quad"
         interval := ⟨0, 4⟩
         resolutions := [⟨16, 9⟩, ⟨4, 3⟩, ⟨0, 0⟩, ⟨16, 9⟩] },
       { files := ["a.mp4"], layout := ".", interval := ⟨2, 6.5⟩, resolutions := [⟨16, 9⟩] }]
    audioTracks := [AudioTrack.ofFile "a.mp4"] }

set_option maxRecDepth 100000 in
theorem exists_compile_sample : ∃ c, sample.compile Float.pow = .ok c := by
  have h : (sample.compile Float.pow).toOption.isSome := by decide +kernel
  cases hc : sample.compile Float.pow with
  | ok c => exact ⟨c, rfl⟩
  | error f =>
    rw [hc] at h
    contradiction

end Request

end Montage
