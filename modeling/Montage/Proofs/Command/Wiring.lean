import Mathlib
import Montage.Proofs.Command.Plan
import Montage.Proofs.Video.Stages

/-!
The written order of a plan's graph.  Every node but an overlay reads what an earlier stage writes,
and an overlay reads its tile and the canvas of the overlay before it, so no node reads a pad
before it is written.
-/

namespace Montage

namespace Stage

theorem source_lt_split : source.rank < split.rank := by decide
theorem source_lt_scaleCrop : source.rank < scaleCrop.rank := by decide
theorem source_lt_overlay : source.rank < overlay.rank := by decide
theorem source_lt_audioChain : source.rank < audioChain.rank := by decide
theorem split_lt_scaleCrop : split.rank < scaleCrop.rank := by decide
theorem scaleCrop_lt_overlay : scaleCrop.rank < overlay.rank := by decide
theorem audioChain_lt_mix : audioChain.rank < mix.rank := by decide

end Stage

/-- A node whose pads all come from stages before its own. -/
def ReadsEarlier (ns : List Node) (n : Node) : Prop :=
  ∀ q ∈ n.inputs, ∃ m ∈ ns, m.stage.rank < n.stage.rank ∧ q ∈ m.outputs

theorem ReadsEarlier.mono {ms ns : List Node} {n : Node} (h : ReadsEarlier ms n) (hs : ms ⊆ ns) :
    ReadsEarlier ns n := by
  intro q hq
  obtain ⟨m, hm, hlt, hout⟩ := h q hq
  exact ⟨m, hs hm, hlt, hout⟩

theorem Registry.readsEarlier_sourceNodes {r : Registry} {n : Node} (hn : n ∈ r.sourceNodes) :
    ReadsEarlier r.sourceNodes n := by
  intro q hq
  obtain ⟨i, hi, ⟨-, rfl⟩ | ⟨hu, rfl⟩⟩ := Registry.mem_sourceNodes.mp hn
  · simp [inputNode] at hq
  · refine ⟨inputNode i .video, inputNode_mem hi (by omega), Stage.source_lt_split, ?_⟩
    simpa [splitNode, inputNode] using hq

theorem Registry.exists_writer_of_mem_offers {r : Registry} {q : PadName} (hq : q ∈ r.offers) :
    ∃ m ∈ r.sourceNodes, m.stage.rank < Stage.scaleCrop.rank ∧ q.pad ∈ m.outputs := by
  have hw : q.pad ∈ written r.sourceNodes := by
    rw [written_sourceNodes]
    exact List.mem_map_of_mem (offers_subset_writtenNames hq)
  obtain ⟨m, hm, hout⟩ := mem_written.mp hw
  refine ⟨m, hm, ?_, hout⟩
  rcases stage_of_mem_sourceNodes hm with hs | hs <;> rw [hs]
  · exact Stage.source_lt_scaleCrop
  · exact Stage.split_lt_scaleCrop

namespace VideoSettings

variable {s : VideoSettings} {r : Registry} {ids : List (Option SourceId)}

theorem exists_writer_feed (h : r.Counts ids) {n : Nat} {t : Tile} {id : Option SourceId}
    (hn : ids[n]? = some id) :
    ∃ m ∈ r.sourceNodes ++ s.backdrop n t id, m.stage.rank < Stage.scaleCrop.rank ∧
      (r.feed (ids.take n) id).pad ∈ m.outputs := by
  cases id with
  | none =>
    refine ⟨s.colorNode t.region.size (PadName.blank n).pad, ?_, Stage.source_lt_scaleCrop, ?_⟩
    · simp [backdrop]
    · simp [Registry.Counts.feed_blank hn, colorNode]
  | some id =>
    have hoffer : r.feed (ids.take n) (some id) ∈ r.offers := by
      rw [Registry.mem_offers]
      exact ⟨id.index, h.index_lt id (List.mem_of_getElem? hn), h.feed_mem_offersOf hn⟩
    obtain ⟨m, hm, hlt, hout⟩ := Registry.exists_writer_of_mem_offers hoffer
    exact ⟨m, List.mem_append_left _ hm, hlt, hout⟩

variable {items : List (Tile × Option SourceId)}

theorem mem_layers {l : Layer} (h : l ∈ r.layers items) :
    (items.map (·.2))[l.place]? = some l.source ∧
      l.feed = r.feed ((items.map (·.2)).take l.place) l.source := by
  obtain ⟨n, hn⟩ := List.mem_iff_getElem?.mp h
  rw [Registry.getElem?_layers] at hn
  obtain ⟨⟨t, id⟩, ht, rfl⟩ := Option.map_eq_some_iff.mp hn
  exact ⟨by simp [ht], rfl⟩

theorem readsEarlier_stackNodes (h : r.Counts (items.map (·.2))) {n : Node}
    (hn : n ∈ s.stackNodes r items) (hs : n.stage ≠ .overlay) :
    ReadsEarlier (r.sourceNodes ++ s.stackNodes r items) n := by
  intro q hq
  rw [mem_stackNodes] at hn
  rcases hn with rfl | ⟨l, hl, hback | rfl | rfl⟩
  · simp [colorNode] at hq
  · obtain ⟨-, rfl⟩ := mem_backdrop.mp hback
    simp [colorNode] at hq
  · obtain ⟨hsource, hfeed⟩ := mem_layers hl
    obtain ⟨m, hm, hlt, hout⟩ := exists_writer_feed (s := s) (t := l.tile) h hsource
    obtain rfl : q = l.feed.pad := by simpa [fitting, scaleCropNode] using hq
    refine ⟨m, ?_, hlt, by rwa [hfeed]⟩
    cases List.mem_append.mp hm with
    | inl hm => exact List.mem_append_left _ hm
    | inr hm => exact List.mem_append_right _ (mem_stackNodes.mpr (.inr ⟨l, hl, .inl hm⟩))
  · exact absurd rfl hs

theorem readsEarlier_loneNodes {t : Tile} {id : Option SourceId} (h : r.Counts [id]) {n : Node}
    (hn : n ∈ s.loneNodes r t id) : ReadsEarlier (r.sourceNodes ++ s.loneNodes r t id) n := by
  intro q hq
  cases List.mem_append.mp hn with
  | inl hback =>
    obtain ⟨-, rfl⟩ := mem_backdrop.mp hback
    simp [colorNode] at hq
  | inr hn =>
    obtain ⟨m, hm, hlt, hout⟩ := exists_writer_feed (s := s) (t := t) (n := 0) h rfl
    rw [List.mem_singleton] at hn
    subst hn
    obtain rfl : q = (r.feed [] id).pad := by simpa [scaleCropNode] using hq
    refine ⟨m, ?_, hlt, by simpa using hout⟩
    cases List.mem_append.mp hm with
    | inl hm => exact List.mem_append_left _ hm
    | inr hm => exact List.mem_append_right _ (List.mem_append_left _ hm)

theorem wired_stackNodes_overlay {atHand : List Pad}
    (h : ∀ m ∈ s.stackNodes r items, m.stage.rank < Stage.overlay.rank → m.outputs ⊆ atHand) :
    Wired atHand ((r.layers items).map (Layer.overlay items.length)) := by
  apply wired_overlays (k := 0)
  · rw [Registry.map_place_layers, Registry.length_layers, List.range_eq_range']
  · simp
  · intro l hl
    apply h (s.fitting l) (mem_stackNodes.mpr (.inr ⟨l, hl, .inr (.inl rfl)⟩))
        Stage.scaleCrop_lt_overlay
    simp [fitting, scaleCropNode]
  · intro _
    apply h (s.colorNode s.canvas PadName.background.pad) (mem_stackNodes.mpr (.inl rfl))
      Stage.source_lt_overlay
    simp [colorNode, PadName.canvasBelow]

/-- The nodes of the picture above those of its sources. -/
inductive IsPictureNode (s : VideoSettings) (total : Nat) : Node → Prop
  | color (size : Size) (out : Pad) : IsPictureNode s total (s.colorNode size out)
  | scaleCrop (t : Tile) (input out : Pad) : IsPictureNode s total (s.scaleCropNode t input out)
  | overlay (l : Layer) : IsPictureNode s total (l.overlay total)

theorem isPictureNode_of_mem_backdrop {total n : Nat} {t : Tile} {id : Option SourceId}
    {node : Node} (hn : node ∈ s.backdrop n t id) : s.IsPictureNode total node := by
  rw [(mem_backdrop.mp hn).2]
  exact .color ..

theorem isPictureNode_of_mem {n : Node} (hn : n ∈ s.pictureNodes r items) :
    s.IsPictureNode items.length n := by
  cases s.pictureForm r items with
  | lone t id _ _ hnodes =>
    rw [hnodes] at hn
    cases List.mem_append.mp hn with
    | inl hn => exact isPictureNode_of_mem_backdrop hn
    | inr hn =>
      rw [List.mem_singleton.mp hn]
      exact .scaleCrop ..
  | stack hnodes =>
    rw [hnodes, mem_stackNodes] at hn
    obtain rfl | ⟨l, -, hn | rfl | rfl⟩ := hn
    · exact .color ..
    · exact isPictureNode_of_mem_backdrop hn
    · exact .scaleCrop ..
    · exact .overlay l

end VideoSettings

theorem readsEarlier_soundNodes {offset : Nat} {chains : List AudioChain} {timeline : Float}
    {n : Node} (hn : n ∈ soundNodes offset chains timeline) :
    ReadsEarlier (soundNodes offset chains timeline) n := by
  intro q hq
  obtain ⟨c, hc, rfl | rfl⟩ | rfl := mem_soundNodes.mp hn
  · simp at hq
  · exact ⟨_, mem_soundNodes.mpr (.inl ⟨c, hc, .inl rfl⟩), Stage.source_lt_audioChain, hq⟩
  · obtain ⟨c, hc, rfl⟩ := List.mem_map.mp hq
    exact ⟨_, mem_soundNodes.mpr (.inl ⟨c, hc, .inr rfl⟩), Stage.audioChain_lt_mix,
      List.mem_singleton_self _⟩

theorem stage_of_mem_soundNodes {offset : Nat} {chains : List AudioChain} {timeline : Float}
    {n : Node} (hn : n ∈ soundNodes offset chains timeline) :
    n.stage = .source ∨ n.stage = .audioChain ∨ n.stage = .mix := by
  obtain ⟨c, -, rfl | rfl⟩ | rfl := mem_soundNodes.mp hn
  · exact .inl rfl
  · exact .inr (.inl rfl)
  · exact .inr (.inr rfl)

namespace Plan

variable {pow : Power} {r : Request} (p : Plan pow r)

theorem readsEarlier {n : Node} (hn : n ∈ p.graph.nodes) (hs : n.stage ≠ .overlay) :
    ReadsEarlier p.graph.nodes n := by
  have hpicture : p.picture ⊆ p.graph.nodes := List.subset_append_left _ _
  have hsound : p.sound ⊆ p.graph.nodes := List.subset_append_right _ _
  cases List.mem_append.mp hn with
  | inl hn =>
    refine ReadsEarlier.mono ?_ hpicture
    have hcounts := p.counts
    unfold picture at hn ⊢
    cases List.mem_append.mp hn with
    | inl hn => exact (Registry.readsEarlier_sourceNodes hn).mono (List.subset_append_left _ _)
    | inr hn =>
      cases r.videoSettings.pictureForm p.registry p.items with
      | lone t id hitems _ hnodes =>
        rw [hnodes] at hn ⊢
        rw [hitems] at hcounts
        exact VideoSettings.readsEarlier_loneNodes hcounts hn
      | stack hnodes =>
        rw [hnodes] at hn ⊢
        exact VideoSettings.readsEarlier_stackNodes hcounts hn hs
  | inr hn =>
    refine ReadsEarlier.mono ?_ hsound
    unfold sound at hn ⊢
    split at hn
    case isTrue h =>
      rw [if_pos h]
      exact readsEarlier_soundNodes hn
    case isFalse => simp at hn

theorem atStage_sourceNodes {s : Stage} (hs : Stage.split.rank < s.rank) :
    (Graph.mk p.registry.sourceNodes).atStage s = [] := by
  apply Graph.atStage_eq_nil
  rintro n hn rfl
  rcases Registry.stage_of_mem_sourceNodes hn with h | h <;> rw [h] at hs <;> contradiction

theorem atStage_of_le_overlay {s : Stage} (hs : Stage.split.rank < s.rank)
    (hle : s.rank ≤ Stage.overlay.rank) :
    p.graph.atStage s =
      (Graph.mk (r.videoSettings.pictureNodes p.registry p.items)).atStage s := by
  have hsound : (Graph.mk p.sound).atStage s = [] := by
    apply Graph.atStage_eq_nil
    rintro n hn rfl
    unfold sound at hn
    split at hn
    case isTrue =>
      rcases stage_of_mem_soundNodes hn with h | h | h <;> rw [h] at hs hle <;> contradiction
    case isFalse => simp at hn
  simp [graph, picture, p.atStage_sourceNodes hs, hsound]

theorem atStage_of_overlay_lt {s : Stage} (hs : Stage.overlay.rank < s.rank) :
    p.graph.atStage s = (Graph.mk p.sound).atStage s := by
  have hpicture : (Graph.mk (r.videoSettings.pictureNodes p.registry p.items)).atStage s = [] := by
    apply Graph.atStage_eq_nil
    rintro n hn rfl
    cases VideoSettings.isPictureNode_of_mem hn <;> contradiction
  have hsplit : Stage.split.rank < s.rank := lt_trans (by decide) hs
  simp [graph, picture, p.atStage_sourceNodes hsplit, hpicture]

theorem atStage_overlay :
    p.graph.atStage .overlay = [] ∨
      p.graph.atStage .overlay = p.layers.map (Layer.overlay p.items.length) ∧
        r.videoSettings.stackNodes p.registry p.items ⊆ p.graph.nodes := by
  rw [p.atStage_of_le_overlay (by decide) (by decide)]
  cases r.videoSettings.pictureForm p.registry p.items with
  | lone t id _ _ hnodes =>
    left
    rw [hnodes]
    cases id <;> rfl
  | stack hnodes =>
    right
    refine ⟨?_, ?_⟩
    · rw [hnodes, VideoSettings.atStage_stackNodes_overlay]
      rfl
    · rw [← hnodes, graph, picture]
      intro n hn
      simp [hn]

/-- No node reads a pad before it is written. -/
theorem wired : Wired [] p.graph.ordered := by
  apply Graph.wired_ordered
  intro s atHand h
  by_cases hs : s = .overlay
  · subst hs
    rcases p.atStage_overlay with hnone | ⟨hoverlays, hstack⟩
    · rw [hnone]
      trivial
    · rw [hoverlays]
      exact VideoSettings.wired_stackNodes_overlay fun m hm => h m (hstack hm)
  · apply Wired.of_forall
    intro n hn q hq
    obtain ⟨hmem, rfl⟩ := Graph.mem_atStage.mp hn
    obtain ⟨m, hm, hlt, hout⟩ := p.readsEarlier hmem hs q hq
    exact h m hm hlt hout

end Plan

end Montage
