import Mathlib
import Montage.Proofs.Command.Arguments
import Montage.Proofs.Command.Validity

/-!
Other names for the same files.  A file is known by its name alone, so names that are told apart
as before, and are empty where they were, lead to the same graph; only the declared inputs show
them.
-/

namespace Montage

/-- Other names for files: different files stay different, and no name stays no name. -/
structure Renames (f : String → String) : Prop where
  injective : Function.Injective f
  empty : f "" = ""

theorem Renames.isEmpty_eq {f : String → String} (h : Renames f) (s : String) :
    (f s).isEmpty = s.isEmpty := by
  have heq : f s = "" ↔ s = "" := by
    constructor
    · intro hs
      exact h.injective (hs.trans h.empty.symm)
    · rintro rfl
      exact h.empty
  rw [Bool.eq_iff_iff, String.isEmpty_iff, String.isEmpty_iff, heq]

def VideoTrack.rename (f : String → String) (t : VideoTrack) : VideoTrack :=
  { t with files := t.files.map f }

def AudioTrack.rename (f : String → String) (t : AudioTrack) : AudioTrack :=
  { t with file := f t.file }

def VideoEffects.rename (f : String → String) (fx : VideoEffects) : VideoEffects :=
  { fx with file := f fx.file }

def Tile.rename (f : String → String) (t : Tile) : Tile := { t with file := t.file.map f }

def Pane.rename (f : String → String) (p : Pane) : Pane := { p with file := f p.file }

def Registry.rename (f : String → String) (r : Registry) : Registry :=
  ⟨r.entries.map fun source => { source with path := f source.path }⟩

def VideoSettings.rename (f : String → String) (s : VideoSettings) : VideoSettings :=
  { s with effects := s.effects.map (·.rename f) }

/-- A request with other names for the files of its picture and for those of its sound. -/
def Request.rename (f g : String → String) (r : Request) : Request :=
  { r with
    effects := r.effects.map (·.rename f)
    videoTracks := r.videoTracks.map (·.rename f)
    audioTracks := r.audioTracks.map (·.rename g) }

variable {f g : String → String}

section Planning

theorem Pane.tile_rename (h : Renames f) (p : Pane) : (p.rename f).tile = p.tile.rename f := by
  simp only [tile, Tile.rename, rename, shown, h.isEmpty_eq]
  split <;> rfl

theorem Pane.fillable_rename (h : Renames f) (p : Pane) :
    (p.rename f).Fillable ↔ p.Fillable := by
  simp only [Fillable, rename, h.isEmpty_eq]

theorem VideoTrack.panes_rename (t : VideoTrack) (canvas : Size) :
    (t.rename f).panes canvas = (t.panes canvas).map (·.rename f) := by
  simp only [panes, rename]
  cases LayoutKind.named? t.layout with
  | none => rfl
  | some kind =>
    simp only [List.zip_map_left, List.map_map]
    rfl

theorem VideoTrack.faults_rename (h : Renames f) (t : VideoTrack) (canvas : Size) (index : Nat) :
    (t.rename f).faults canvas index = t.faults canvas index := by
  have hpanes (track : TrackRef) (p : Pane) :
      complain (p.rename f).Fillable
          (CompileError.invalidParameter track (.resolution (p.rename f).native)) =
        complain p.Fillable (.invalidParameter track (.resolution p.native)) :=
    complain_congr (p.fillable_rename h) _
  simp only [faults, panes_rename, List.flatMap_map, hpanes]
  simp only [rename, List.length_map]
  rfl

namespace Request

theorem pictureFaults_rename (h : Renames f) (r : Request) :
    (r.rename f g).pictureFaults = r.pictureFaults := by
  simp only [pictureFaults, rename, List.zipIdx_map, List.flatMap_map, Prod.map,
    VideoTrack.faults_rename h]
  rfl

theorem panes_rename (r : Request) : (r.rename f g).panes = r.panes.map (·.rename f) := by
  simp only [panes, rename, List.flatMap_map, VideoTrack.panes_rename, List.map_flatMap]

theorem planAll_rename (h : Renames f) {r : Request} {tiles : List Tile}
    (ht : Tile.planAll r.videoTracks r.canvas = .ok tiles) :
    Tile.planAll (r.rename f g).videoTracks (r.rename f g).canvas =
      .ok (tiles.map (Tile.rename f)) := by
  rw [planAll_eq, verdict_eq_ok_iff] at ht ⊢
  rw [pictureFaults_rename h, panes_rename, ← ht.2, List.map_map, List.map_map]
  exact ⟨ht.1, List.map_congr_left fun p _ => p.tile_rename h⟩

theorem soundFaults_rename (r : Request) : (r.rename f g).soundFaults = r.soundFaults := by
  simp only [soundFaults, rename, List.zipIdx_map, List.flatMap_map]
  rfl

theorem faults_rename (h : Renames f) (r : Request) : (r.rename f g).faults = r.faults := by
  rw [faults, pictureFaults_rename h, soundFaults_rename, faults]

end Request

end Planning

namespace Registry

theorem paths_rename (r : Registry) : (r.rename f).paths = r.paths.map f := by
  simp [paths, rename]

theorem get?_rename (h : Renames f) (r : Registry) (path : String) :
    (r.rename f).get? (f path) = r.get? path := by
  simp only [get?, rename, List.findIdx?_map, Function.comp_def,
    beq_eq_beq.mpr h.injective.eq_iff]

theorem addUse_rename (r : Registry) (id : SourceId) :
    (r.rename f).addUse id = (r.addUse id).rename f := by
  simp only [addUse, rename, Registry.mk.injEq]
  apply List.ext_getElem?
  intro i
  simp only [List.getElem?_map, List.getElem?_modify]
  split <;> cases r.entries[i]? <;> rfl

theorem acquire_rename (h : Renames f) (r : Registry) (path : String) :
    (r.rename f).acquire (f path) = ((r.acquire path).1.rename f, (r.acquire path).2) := by
  have hregister : (r.rename f).register (f path) =
      ((r.register path).1.rename f, (r.register path).2) := by
    unfold register
    rw [get?_rename h]
    cases r.get? path <;> simp [rename]
  simp only [acquire, hregister, addUse_rename]

/-- The registry tells files apart by their names alone, so it counts renamed tiles as it counted
them under their old names. -/
theorem acquireAll_rename (h : Renames f) (r : Registry) (ts : List Tile) :
    (r.rename f).acquireAll (ts.map (Tile.rename f)) =
      ((r.acquireAll ts).1.rename f, (r.acquireAll ts).2) := by
  induction ts generalizing r with
  | nil => rfl
  | cons t ts ih =>
    rw [List.map_cons]
    cases hf : t.file with
    | none =>
      have hf' : (t.rename f).file = none := by simp [Tile.rename, hf]
      rw [acquireAll_blank hf', acquireAll_blank hf, ih]
    | some path =>
      have hf' : (t.rename f).file = some (f path) := by simp [Tile.rename, hf]
      rw [acquireAll_file hf', acquireAll_file hf, acquire_rename h, ih]

theorem sourceNodes_rename (r : Registry) : (r.rename f).sourceNodes = r.sourceNodes := by
  simp only [sourceNodes, rename, List.zipIdx_map, List.flatMap_map]
  rfl

theorem usageCount_rename (r : Registry) (id : SourceId) :
    (r.rename f).usageCount id = r.usageCount id := by
  simp [usageCount, rename, Function.comp_def]

theorem feed_rename (r : Registry) : (r.rename f).feed = r.feed := by
  funext before id
  cases id with
  | none => rfl
  | some id => simp only [feed, usageCount_rename]

end Registry

namespace VideoSettings

/-- Which adjustments count for a file depends on which entries name it, not on the name. -/
theorem effectsFor?_rename (h : Renames f) (s : VideoSettings) (file : String) :
    (s.rename f).effectsFor? (f file) = (s.effectsFor? file).map (·.rename f) := by
  simp only [effectsFor?, rename, ← List.map_reverse, List.find?_map, Function.comp_def,
    VideoEffects.rename, beq_eq_beq.mpr h.injective.eq_iff]

theorem scaleCropNode_rename (h : Renames f) (s : VideoSettings) (t : Tile) (input out : Pad) :
    (s.rename f).scaleCropNode (t.rename f) input out = s.scaleCropNode t input out := by
  have hgrade (fx : VideoEffects) : Grade.ofEffects (fx.rename f) = Grade.ofEffects fx := rfl
  simp only [scaleCropNode, Tile.rename]
  cases t.file with
  | none => rfl
  | some file =>
    simp only [Option.map_some, Option.bind_some, effectsFor?_rename h, Option.bind_map,
      Function.comp_def, hgrade]

def renameItem (f : String → String) (item : Tile × Option SourceId) : Tile × Option SourceId :=
  (item.1.rename f, item.2)

theorem stackNodes_rename (h : Renames f) (s : VideoSettings) (r : Registry)
    (items : List (Tile × Option SourceId)) :
    (s.rename f).stackNodes (r.rename f) (items.map (renameItem f)) = s.stackNodes r items := by
  simp only [stackNodes, Registry.layers, List.zipIdx_map, List.map_map, List.flatMap_map,
    List.length_map, Registry.feed_rename]
  congr 1
  apply List.flatMap_congr
  rintro ⟨⟨t, id⟩, n⟩ -
  simp only [Layer.nodes, fitting, Prod.map, renameItem, Function.comp_apply, id_eq,
    scaleCropNode_rename h]
  cases id <;> rfl

theorem pictureNodes_rename (h : Renames f) (s : VideoSettings) (r : Registry)
    (items : List (Tile × Option SourceId)) :
    (s.rename f).pictureNodes (r.rename f) (items.map (renameItem f)) = s.pictureNodes r items := by
  have hstack := stackNodes_rename h s r
  rcases items with _ | ⟨⟨t, id⟩, _ | ⟨item, rest⟩⟩
  · exact hstack []
  · have hlone : (s.rename f).loneNodes (r.rename f) (t.rename f) id = s.loneNodes r t id := by
      rw [loneNodes, loneNodes, Registry.feed_rename, scaleCropNode_rename h]
      cases id <;> rfl
    have halone : (t.rename f).standsAlone (s.rename f).canvas = t.standsAlone s.canvas := rfl
    have hone := hstack [(t, id)]
    simp only [List.map_cons, List.map_nil, renameItem] at hone ⊢
    rw [pictureNodes, pictureNodes, halone, hlone, hone]
  · exact hstack ((t, id) :: item :: rest)

end VideoSettings

theorem Request.duration_rename (r : Request) : (r.rename f g).duration = r.duration := by
  simp only [duration, rename, List.map_map]
  rfl

theorem Request.videoSettings_rename (r : Request) :
    (r.rename f g).videoSettings = r.videoSettings.rename f := by
  simp only [videoSettings, duration_rename]
  rfl

namespace Plan

variable {pow : Power} {r : Request} (p : Plan pow r) (h : Renames f)

def rename (g : String → String) : Plan pow (r.rename f g) where
  tiles := p.tiles.map (Tile.rename f)
  chains := p.chains
  planned := Request.planAll_rename h p.planned
  chained := by
    simp only [Chained, Request.rename, List.zipIdx_map, List.forall₂_map_left_iff]
    exact p.chained

theorem acquireAll_rename : Registry.empty.acquireAll (p.rename h g).tiles =
    (p.registry.rename f, (Registry.empty.acquireAll p.tiles).2) :=
  Registry.acquireAll_rename h .empty p.tiles

theorem registry_rename : (p.rename h g).registry = p.registry.rename f :=
  congrArg Prod.fst (p.acquireAll_rename h)

theorem items_rename : (p.rename h g).items = p.items.map (VideoSettings.renameItem f) := by
  rw [items, acquireAll_rename]
  exact List.zip_map_left

theorem outputs_rename : (p.rename h g).outputs = p.outputs := by
  have hsound : (r.rename f g).hasSound ↔ r.hasSound := by simp [Request.hasSound, Request.rename]
  simp only [outputs, hsound, rename, List.length_map]

/-- The graph never sees a name. -/
theorem graph_rename : (p.rename h g).graph = p.graph := by
  have hsound : (r.rename f g).hasSound ↔ r.hasSound := by simp [Request.hasSound, Request.rename]
  have hsize : (p.registry.rename f).size = p.registry.size := by
    rw [← Registry.length_paths, Registry.paths_rename, List.length_map, Registry.length_paths]
  simp only [graph, picture, sound, hsound, p.registry_rename h, p.items_rename h, hsize,
    Registry.sourceNodes_rename, Request.videoSettings_rename, Request.duration_rename,
    VideoSettings.pictureNodes_rename h]
  rfl

theorem declared_rename : (p.rename h g).declared =
    p.registry.paths.map f ++ r.audioTracks.map fun t => g t.file := by
  rw [declared, p.registry_rename h, Registry.paths_rename]
  simp only [Request.rename, List.map_map]
  rfl

/-- Beside the declared files, the arguments are made of the graph and of settings that name no
file of a track. -/
theorem args_rename : (p.rename h g).command.args = Command.globalArgs ++
    ((p.registry.paths.map f ++ r.audioTracks.map fun t => g t.file).flatMap
        (Command.inputArgs r.mode) ++
      ((if p.graph.text.isEmpty then [] else ["-filter_complex", p.graph.text]) ++
        (p.outputs.terminals.flatMap Command.mapArgs ++
          Command.outputArgs r p.outputs.audio.isSome))) := by
  rw [args_eq, p.graph_rename h, p.outputs_rename h, p.declared_rename h]
  rfl

end Plan

theorem Command.length_inputs (mode : OutputMode) (paths : List String) :
    (paths.flatMap (inputArgs mode)).length =
      paths.length * if mode = .preview then 3 else 2 := by
  have hinput : (fun path => (inputArgs mode path).length) =
      fun _ => if mode = .preview then 3 else 2 := by
    funext path
    by_cases h : mode = .preview <;> simp [inputArgs, h]
  rw [List.length_flatMap, hinput, List.map_const', List.sum_replicate, smul_eq_mul]

/-- Two commands that differ in the files they declare and in nothing else. -/
structure Request.SameButFiles (f g : String → String) (r : Request) (c c' : Command) :
    Prop where
  mode : c'.mode = c.mode
  filterGraph : c'.filterGraph = c.filterGraph
  duration : c'.duration = c.duration
  hasAudio : c'.hasAudio = c.hasAudio
  output : c'.output = c.output
  length_args : c'.args.length = c.args.length
  args : ∃ front back,
    c.args = front ++
      (r.videoPaths ++ r.audioTracks.map (·.file)).flatMap (Command.inputArgs c.mode) ++ back ∧
    c'.args = front ++ (r.videoPaths.map f ++ r.audioTracks.map fun t => g t.file).flatMap
      (Command.inputArgs c.mode) ++ back
  inputs : c.values "-i" = r.videoPaths ++ r.audioTracks.map (·.file)
  inputs_renamed : c'.values "-i" = r.videoPaths.map f ++ r.audioTracks.map fun t => g t.file

theorem Plan.sameButFiles {pow : Power} {r : Request} (p : Plan pow r) (h : Renames f) :
    r.SameButFiles f g p.command (p.rename h g).command where
  mode := rfl
  filterGraph := congrArg Graph.text (p.graph_rename h)
  duration := r.duration_rename
  hasAudio := congrArg (·.audio.isSome) (p.outputs_rename h)
  output := rfl
  length_args := by
    rw [p.args_rename h, args_eq]
    simp only [declared, List.length_append, Command.length_inputs, List.length_map]
  args := by
    rw [p.args_rename h, args_eq, declared, p.paths_eq]
    exact ⟨_, _, (List.append_assoc ..).symm, (List.append_assoc ..).symm⟩
  inputs := by rw [p.values_inputs, declared, p.paths_eq]
  inputs_renamed := by rw [values_inputs, p.declared_rename h, p.paths_eq]

/-- A request with other names for its files is refused alike, or compiled to a command that
differs in the declared files alone. -/
theorem Request.compile_rename (pow : Power) (r : Request) (h : Renames f) (g : String → String) :
    (∃ e, r.compile pow = .error e ∧ (r.rename f g).compile pow = .error e) ∨
      ∃ c c', r.compile pow = .ok c ∧ (r.rename f g).compile pow = .ok c' ∧
        r.SameButFiles f g c c' := by
  rcases compile_eq_of_faults pow r with ⟨-, c, hc⟩ | ⟨e, hhead, he⟩
  · obtain ⟨p, rfl⟩ := exists_plan hc
    exact .inr ⟨_, _, hc, (p.rename h g).compile_eq, p.sameButFiles h⟩
  · refine .inl ⟨.rejected e, he, ?_⟩
    rcases compile_eq_of_faults pow (r.rename f g) with ⟨hnil, -⟩ | ⟨e', hhead', he'⟩
    · rw [faults_rename h] at hnil
      rw [hnil] at hhead
      contradiction
    · rw [faults_rename h, hhead] at hhead'
      rw [he', Option.some.inj hhead']

/-- Names full of the marks of the graph notation change nothing but the declared files. -/
theorem Request.compile_rename_sample :
    Renames (fun s => if s = "" then s else "];[" ++ s) ∧
      ∃ c c', sample.compile Float.pow = .ok c ∧
        (sample.rename (fun s => if s = "" then s else "];[" ++ s) fun _ => "'").compile Float.pow =
          .ok c' ∧
        sample.SameButFiles (fun s => if s = "" then s else "];[" ++ s) (fun _ => "'") c c' := by
  have h : Renames fun s => if s = "" then s else "];[" ++ s := by
    refine ⟨fun s t hst => ?_, rfl⟩
    split at hst <;> split at hst <;> simp_all
  refine ⟨h, ?_⟩
  obtain ⟨c, hc⟩ := exists_compile_sample
  rcases compile_rename Float.pow sample h fun _ => "'" with ⟨e, he, -⟩ | hsame
  · rw [hc] at he
    contradiction
  · exact hsame

end Montage
