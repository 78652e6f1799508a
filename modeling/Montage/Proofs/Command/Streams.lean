import Mathlib
import Montage.Proofs.Command.Arguments
import Montage.Proofs.Command.Wiring

/-!
The numbers of the streams.  The graph numbers its inputs as the arguments declare them, although
neither is made from the other: a pad followed back to its input leads to the file that is asked
for.
-/

namespace Montage

/-- A pad that leads back to the picture of an input: directly if one tile shows it, and through
the node of its copies if several do. -/
def Graph.LeadsTo (g : Graph) (q : Pad) (uses index : Nat) : Prop :=
  if uses = 1 then g.writer? q = some ⟨.input index .video, [], [q]⟩
  else ∃ stream copies, g.writer? q = some ⟨.split uses, [stream], copies⟩ ∧
    g.writer? stream = some ⟨.input index .video, [], [stream]⟩

namespace Request

variable (r : Request)

/-- The place of a region among the tiles of all tracks. -/
def tileIndex (track region : Nat) : Nat :=
  ((r.videoTracks.take track).map (·.files.length)).sum + region

def shows (file : String) : Nat := (r.videoTracks.flatMap (·.files)).count file

variable {r}

theorem getElem?_panes (h : r.pictureFaults = []) {t i : Nat} {track : VideoTrack}
    (ht : r.videoTracks[t]? = some track) (hi : i < track.files.length) :
    r.panes[r.tileIndex t i]? = (track.panes r.canvas)[i]? := by
  have hlength {track : VideoTrack} (hm : track ∈ r.videoTracks) :
      (track.panes r.canvas).length = track.files.length := by
    obtain ⟨k, hk⟩ := faults_eq_nil h hm
    simpa using congrArg List.length (VideoTrack.map_file_panes hk)
  have hsum : (r.videoTracks.take t).map (·.files.length) =
      (r.videoTracks.take t).map (VideoTrack.panes · r.canvas |>.length) :=
    List.map_congr_left fun u hu => (hlength (List.mem_of_mem_take hu)).symm
  rw [panes, tileIndex, hsum]
  apply List.getElem?_flatMap ht
  rwa [hlength (List.mem_of_getElem? ht)]

end Request

namespace Plan

variable {pow : Power} {r : Request} (p : Plan pow r)

theorem writer?_eq_some {n : Node} (hn : n ∈ p.graph.nodes) {q : Pad} (hq : q ∈ n.outputs) :
    p.graph.writer? q = some n :=
  Graph.writer?_eq_some p.linked.written_nodup hn hq

theorem sourceNodes_subset : p.registry.sourceNodes ⊆ p.graph.nodes :=
  fun _ hn => List.mem_append_left _ (List.mem_append_left _ hn)

theorem leadsTo_feed {n : Nat} {id : SourceId}
    (hn : (p.items.map (·.2))[n]? = some (some id)) :
    p.graph.LeadsTo (p.registry.feed ((p.items.map (·.2)).take n) (some id)).pad
      (p.registry.usageCount id) id.index := by
  have hlt := p.counts.index_lt id (List.mem_of_getElem? hn)
  have hoffer := p.counts.feed_mem_offersOf hn
  rw [Registry.mem_offersOf] at hoffer
  unfold Graph.LeadsTo
  rcases hoffer with ⟨hone, hfeed⟩ | ⟨hmany, k, hk, hfeed⟩
  · have hinput := p.sourceNodes_subset
      (Registry.inputNode_mem hlt (by rw [hone]; exact Nat.one_pos))
    rw [if_pos hone, hfeed]
    exact p.writer?_eq_some hinput (List.mem_singleton_self _)
  · have hinput := p.sourceNodes_subset (Registry.inputNode_mem hlt (Nat.zero_lt_of_lt hmany))
    have hsplit := p.sourceNodes_subset (Registry.splitNode_mem hlt hmany)
    rw [if_neg hmany.ne', hfeed]
    refine ⟨(PadName.stream id.index .video).pad, _, p.writer?_eq_some hsplit ?_,
      p.writer?_eq_some hinput (List.mem_singleton_self _)⟩
    exact List.mem_map_of_mem (List.mem_range.mpr hk)

theorem atStage_scaleCrop :
    ∃ out : Layer → Pad, p.graph.atStage .scaleCrop =
      p.layers.map fun l => r.videoSettings.scaleCropNode l.tile l.feed.pad (out l) := by
  rw [p.atStage_of_le_overlay (by decide) (by decide), layers]
  cases r.videoSettings.pictureForm p.registry p.items with
  | lone t id hitems _ hnodes =>
    refine ⟨fun _ => PadName.videoOut.pad, ?_⟩
    rw [hnodes, hitems]
    cases id <;> rfl
  | stack hnodes =>
    refine ⟨fun l => (PadName.tile l.place).pad, ?_⟩
    rw [hnodes, VideoSettings.atStage_stackNodes_scaleCrop]
    rfl

/-- The source of a file, which is the place of its path. -/
def sourceOf (file : Option String) : Option SourceId :=
  file.map fun f => ⟨p.registry.paths.idxOf f⟩

theorem getElem?_items {n : Nat} {t : Tile} (ht : p.tiles[n]? = some t) :
    p.items[n]? = some (t, p.sourceOf t.file) := by
  rw [items, List.getElem?_zip_eq_some, Registry.acquireAll_ids, List.getElem?_map, ht]
  exact ⟨rfl, rfl⟩

theorem getElem?_layers {n : Nat} {t : Tile} (ht : p.tiles[n]? = some t) :
    p.layers[n]? = some ⟨n, t, p.sourceOf t.file,
      p.registry.feed ((p.items.map (·.2)).take n) (p.sourceOf t.file)⟩ := by
  rw [layers, Registry.getElem?_layers, p.getElem?_items ht]
  rfl

theorem usageCount_idxOf {file : String} (hfile : file.isEmpty = false) :
    p.registry.usageCount ⟨p.registry.paths.idxOf file⟩ = r.shows file := by
  rw [p.counts.usage, p.map_snd_items, registry, Registry.count_idxOf, p.tiles_eq,
    Request.filterMap_file_tiles p.pictureFaults_eq, List.count_filter (by simp [hfile])]
  rfl

theorem declared_idxOf {file : String} (h : file ∈ p.registry.paths) :
    p.declared[p.registry.paths.idxOf file]? = some file := by
  have hlt := List.idxOf_lt_length_of_mem h
  rw [declared, List.getElem?_append_left hlt, List.getElem?_eq_getElem hlt,
    List.getElem_idxOf hlt]

theorem mem_paths {file : String} (hfile : file.isEmpty = false)
    (hmem : file ∈ r.videoTracks.flatMap (·.files)) : file ∈ p.registry.paths := by
  rw [p.paths_eq, Request.videoPaths, List.mem_eraseDups, List.mem_filter]
  exact ⟨hmem, by simp [hfile]⟩

theorem getElem?_tiles {n : Nat} {q : Pane} (hq : r.panes[n]? = some q) :
    p.tiles[n]? = some q.tile := by
  rw [p.tiles_eq, List.getElem?_map, hq]
  rfl

theorem mem_paths_of_mem_panes {q : Pane} (hq : q ∈ r.panes) (hfile : q.file.isEmpty = false) :
    q.file ∈ p.registry.paths := by
  apply p.mem_paths hfile
  rw [← Request.map_file_panes p.pictureFaults_eq]
  exact List.mem_map_of_mem hq

theorem nodup_feeds : ((p.graph.atStage .scaleCrop).flatMap (·.inputs)).Nodup := by
  obtain ⟨out, hnodes⟩ := p.atStage_scaleCrop
  have hinputs : (p.graph.atStage .scaleCrop).flatMap (·.inputs) =
      (p.registry.feeds (p.items.map (·.2))).map PadName.pad := by
    rw [hnodes, ← Registry.map_feed_layers, List.map_map, List.flatMap_map, List.map_eq_flatMap]
    rfl
  rw [hinputs]
  exact p.counts.nodup_feeds.map PadName.pad_injective

theorem atStage_audioChain (hsound : r.hasSound) :
    p.graph.atStage .audioChain = p.chains.map (chainNode p.registry.size) := by
  rw [p.atStage_of_overlay_lt (by decide), sound, if_pos hsound, atStage_soundNodes_audioChain]

theorem outputs_audioChain (hsound : r.hasSound) :
    (p.graph.atStage .audioChain).flatMap (·.outputs) =
      (p.chains.map (·.track)).map fun i => (PadName.track i).pad := by
  rw [p.atStage_audioChain hsound, List.flatMap_map, List.map_map, List.map_eq_flatMap]
  rfl

theorem getElem?_audioChain (hsound : r.hasSound) {j : Nat} {track : AudioTrack}
    (hj : r.audioTracks[j]? = some track) :
    ∃ chain, track.chain pow j r.sampleRate = .ok chain ∧ chain.track = j ∧ chain ∈ p.chains ∧
      (p.graph.atStage .audioChain)[j]? = some (chainNode p.registry.size chain) := by
  have hplace : r.audioTracks.zipIdx[j]? = some (track, j) := by
    simp [List.getElem?_zipIdx, hj]
  obtain ⟨chain, hchain, hok⟩ := p.chained.getElem?_eq_some hplace
  refine ⟨chain, hok, ?_, List.mem_of_getElem? hchain, ?_⟩
  · rw [(AudioTrack.eq_of_chain_eq_ok hok).2]
  · rw [p.atStage_audioChain hsound, List.getElem?_map, hchain]
    rfl

theorem hasSound_of_mem_values (h : Pad.audioOut.reference ∈ p.command.values "-map") :
    r.hasSound := by
  rw [p.values_maps, List.mem_map] at h
  obtain ⟨q, hq, hreference⟩ := h
  obtain rfl : q = PadName.audioOut.pad := by
    have hlabel := congrArg String.toList hreference
    simp only [Pad.reference, String.toList_append, List.append_cancel_right_eq,
      List.append_cancel_left_eq, String.toList_inj] at hlabel
    exact Pad.label_injective hlabel
  by_contra hnone
  rw [outputs, if_neg hnone, GraphOutputs.terminals] at hq
  have hout := List.mem_singleton.mp hq
  rw [PadName.pad_inj, PadName.finished] at hout
  split at hout <;> contradiction

end Plan

namespace Request

/-- The picture of a graph reads the files that the tiles show, as `declared` lists them. -/
structure PictureReads (r : Request) (g : Graph) (declared : List String) : Prop where
  length_tiles : (g.atStage .scaleCrop).length = (r.videoTracks.flatMap (·.files)).length
  reads : ∀ (t i : Nat) (track : VideoTrack) (file : String), r.videoTracks[t]? = some track →
    track.files[i]? = some file → file ≠ "" → ∃ pane q out n,
      (track.panes r.canvas)[i]? = some pane ∧
      (g.atStage .scaleCrop)[r.tileIndex t i]? =
        some (r.videoSettings.scaleCropNode pane.tile q out) ∧
      g.LeadsTo q (r.shows file) n ∧ declared[n]? = some file
  apart : ((g.atStage .scaleCrop).flatMap (·.inputs)).Nodup

/-- Its sound reads the files of the tracks and mixes them all. -/
structure SoundReads (pow : Power) (r : Request) (g : Graph) (declared : List String) :
    Prop where
  length_chains : (g.atStage .audioChain).length = r.audioTracks.length
  reads : ∀ (j : Nat) (track : AudioTrack), r.audioTracks[j]? = some track → ∃ chain q out n,
    track.chain pow j r.sampleRate = .ok chain ∧
      (g.atStage .audioChain)[j]? = some ⟨.audioChain chain, [q], [out]⟩ ∧
      g.writer? q = some ⟨.input n .audio, [], [q]⟩ ∧ declared[n]? = some track.file
  mixed : ∃ padTo out, g.atStage .mix =
    [⟨.mix r.audioTracks.length padTo, (g.atStage .audioChain).flatMap (·.outputs), [out]⟩]
  apart : ((g.atStage .audioChain).flatMap (·.outputs)).Nodup

end Request

namespace Plan

variable {pow : Power} {r : Request} (p : Plan pow r)

theorem pictureReads : r.PictureReads p.graph p.declared where
  length_tiles := by
    obtain ⟨out, hnodes⟩ := p.atStage_scaleCrop
    rw [hnodes, List.length_map, layers, Registry.length_layers, p.length_items, p.tiles_eq,
      List.length_map, ← Request.map_file_panes p.pictureFaults_eq, List.length_map]
  reads t i track file ht hi hne := by
    have hfile : file.isEmpty = false := by simpa using hne
    have htrack := List.mem_of_getElem? ht
    obtain ⟨k, hk⟩ := Request.faults_eq_nil p.pictureFaults_eq htrack
    rw [← VideoTrack.map_file_panes hk, List.getElem?_map, Option.map_eq_some_iff] at hi
    obtain ⟨pane, hpane, rfl⟩ := hi
    have hlt : i < track.files.length := by
      rw [← VideoTrack.map_file_panes hk, List.length_map]
      exact (List.getElem?_eq_some_iff.mp hpane).1
    have hplace : r.panes[r.tileIndex t i]? = some pane := by
      rw [Request.getElem?_panes p.pictureFaults_eq ht hlt, hpane]
    have htile := p.getElem?_tiles hplace
    have hpath := p.mem_paths_of_mem_panes (List.mem_of_getElem? hplace) hfile
    have hsource : p.sourceOf pane.tile.file = some ⟨p.registry.paths.idxOf pane.file⟩ := by
      simp [sourceOf, Pane.tile, hfile]
    obtain ⟨out, hnodes⟩ := p.atStage_scaleCrop
    have hlayer := p.getElem?_layers htile
    have hid : (p.items.map (·.2))[r.tileIndex t i]? =
        some (some ⟨p.registry.paths.idxOf pane.file⟩) := by
      rw [List.getElem?_map, p.getElem?_items htile, ← hsource]
      rfl
    rw [hsource] at hlayer
    refine ⟨pane, _, _, _, hpane, by rw [hnodes, List.getElem?_map, hlayer]; rfl, ?_,
      p.declared_idxOf hpath⟩
    rw [← p.usageCount_idxOf hfile]
    exact p.leadsTo_feed hid
  apart := p.nodup_feeds

theorem soundReads (hsound : r.hasSound) : r.SoundReads pow p.graph p.declared where
  length_chains := by
    rw [p.atStage_audioChain hsound, List.length_map, p.chained.length_eq]
  reads j track hj := by
    obtain ⟨chain, hok, htrack, hmem, hnode⟩ := p.getElem?_audioChain hsound hj
    have hinput : inputNode (p.registry.size + chain.track) .audio ∈ p.graph.nodes := by
      refine List.mem_append_right _ ?_
      rw [sound, if_pos hsound]
      exact List.mem_append_left _
        (List.mem_flatMap.mpr ⟨chain, hmem, List.mem_cons_self ..⟩)
    refine ⟨chain, _, _, p.registry.size + chain.track, hok, hnode,
      p.writer?_eq_some hinput (List.mem_singleton_self _), ?_⟩
    rw [declared, htrack, List.getElem?_append_right (by simp), Registry.length_paths,
      Nat.add_sub_cancel_left, List.getElem?_map, hj]
    rfl
  mixed := by
    have hmix : p.graph.atStage .mix = [mixNode p.chains r.duration] := by
      rw [p.atStage_of_overlay_lt (by decide), sound, if_pos hsound, atStage_soundNodes_mix]
    rw [hmix, mixNode, p.outputs_audioChain hsound, List.map_map, p.chained.length_eq]
    exact ⟨_, _, rfl⟩
  apart := by
    rw [p.outputs_audioChain hsound, p.chained.track_eq]
    exact List.nodup_range.map fun i j h => by simpa using h

end Plan

/-- Every stream that a graph reads is one of the file that stands for it in the request. -/
theorem Request.reads_of_compile_eq_ok {pow : Power} {r : Request} {c : Command}
    (h : r.compile pow = .ok c) :
    ∃ g outputs sources, r.assemble pow = .ok (g, outputs, sources) ∧ c.filterGraph = g.text ∧
      c.values "-i" = r.videoPaths ++ r.audioTracks.map (·.file) ∧
      r.PictureReads g (c.values "-i") ∧
      (Pad.audioOut.reference ∈ c.values "-map" → r.SoundReads pow g (c.values "-i")) := by
  obtain ⟨p, rfl⟩ := exists_plan h
  refine ⟨p.graph, p.outputs, p.registry, p.assemble_eq, rfl, ?_, ?_, ?_⟩
  · rw [p.values_inputs, Plan.declared, p.paths_eq]
  · rw [p.values_inputs]
    exact p.pictureReads
  · intro hmapped
    rw [p.values_inputs]
    exact p.soundReads (p.hasSound_of_mem_values hmapped)

theorem Request.reads_sample :
    ∃ c g outputs sources, sample.compile Float.pow = .ok c ∧
      sample.assemble Float.pow = .ok (g, outputs, sources) ∧
      sample.PictureReads g (c.values "-i") ∧
      (Pad.audioOut.reference ∈ c.values "-map" → sample.SoundReads Float.pow g (c.values "-i")) := by
  obtain ⟨c, hc⟩ := exists_compile_sample
  obtain ⟨g, outputs, sources, hg, -, -, hpicture, hsound⟩ := reads_of_compile_eq_ok hc
  exact ⟨c, g, outputs, sources, hc, hg, hpicture, hsound⟩

end Montage
