import Mathlib
import Montage.Proofs.Command.Arguments
import Montage.Proofs.Command.Wiring
import Montage.Proofs.Graph.Chains

/-!
A compiled command as text.  Its graph splits into chains, its labels are each written once and
read once and never before they are written, and what no chain writes is a stream of an input that
the arguments declare.
-/

namespace Montage

/-- A stream of a declared input, of which the first ones are pictures and the others sound. -/
def IsStream (pictures declared : Nat) (label : String) : Prop :=
  (∃ n < pictures, label = toString n ++ ":v") ∨
    ∃ n, pictures ≤ n ∧ n < declared ∧ label = toString n ++ ":a"

/-- Chains, and the labels that are mapped to the output, fit together. -/
structure Consistent (pictures declared : Nat) (chains : List Chain) (mapped : List String) :
    Prop where
  wellFormed : ∀ c ∈ chains, c.WellFormed
  written_once : (chains.flatMap (·.outputs)).Nodup
  read_once : (chains.flatMap (·.inputs) ++ mapped).Nodup
  read_after : ∀ (i : Nat) (c : Chain), chains[i]? = some c → ∀ l ∈ c.inputs,
    (∃ j < i, ∃ d, chains[j]? = some d ∧ l ∈ d.outputs) ∨ IsStream pictures declared l
  mapped_written : ∀ l ∈ mapped,
    (∃ c ∈ chains, l ∈ c.outputs) ∨ IsStream pictures declared l
  used_once : ∀ (i : Nat) (c : Chain), chains[i]? = some c → ∀ l ∈ c.outputs,
    ((chains.drop (i + 1)).flatMap (·.inputs) ++ mapped).count l = 1

theorem AudioStage.normalize_text_ne_empty (sampleRate : UInt32) (volume : Float) :
    (AudioStage.normalize sampleRate volume).text ≠ "" := by
  unfold text
  simp

/-- Every track is at least brought to the common format, so its chain has a text. -/
theorem AudioTrack.stages_text_ne_empty (pow : Power) (t : AudioTrack) (sampleRate : UInt32) :
    joinWith "," ((t.stages pow sampleRate).map AudioStage.text) ≠ "" :=
  joinWith_ne_empty (List.mem_map_of_mem (by simp [stages]))
    (AudioStage.normalize_text_ne_empty sampleRate t.volume)

theorem Chained.mem_chains {pow : Power} {tracks : List AudioTrack} {sampleRate : UInt32}
    {chains : List AudioChain} (h : Chained pow tracks sampleRate chains) {c : AudioChain}
    (hc : c ∈ chains) :
    c.track < tracks.length ∧ joinWith "," (c.stages.map AudioStage.text) ≠ "" := by
  constructor
  · have htrack := List.mem_map_of_mem (f := AudioChain.track) hc
    rwa [h.track_eq, List.mem_range] at htrack
  · obtain ⟨t, ht⟩ := h.exists_stages_eq hc
    rw [ht]
    exact t.stages_text_ne_empty pow sampleRate

namespace Plan

variable {pow : Power} {r : Request} (p : Plan pow r)

/-- The nodes of a plan: those of its sources, of its picture and of its sound. -/
inductive IsNode (p : Plan pow r) : Node → Prop
  | input {i : Nat} (h : i < p.registry.size) : IsNode p (inputNode i .video)
  | split (i uses : Nat) : IsNode p (splitNode i uses)
  | picture {n : Node} (h : r.videoSettings.IsPictureNode p.items.length n) : IsNode p n
  | voice {c : AudioChain} (h : c ∈ p.chains) :
      IsNode p (inputNode (p.registry.size + c.track) .audio)
  | chain {c : AudioChain} (h : c ∈ p.chains) : IsNode p (chainNode p.registry.size c)
  | mix : IsNode p (mixNode p.chains r.duration)

theorem isNode_of_mem_sound {n : Node} (hn : n ∈ p.sound) : p.IsNode n := by
  unfold sound at hn
  split at hn
  case isTrue =>
    obtain ⟨c, hc, rfl | rfl⟩ | rfl := mem_soundNodes.mp hn
    · exact .voice hc
    · exact .chain hc
    · exact .mix
  case isFalse => simp at hn

theorem isNode_of_mem {n : Node} (hn : n ∈ p.graph.nodes) : p.IsNode n := by
  cases List.mem_append.mp hn with
  | inl hn =>
    cases List.mem_append.mp hn with
    | inl hn =>
      obtain ⟨i, hi, ⟨-, rfl⟩ | ⟨-, rfl⟩⟩ := Registry.mem_sourceNodes.mp hn
      · exact .input hi
      · exact .split ..
    | inr hn => exact .picture (VideoSettings.isPictureNode_of_mem hn)
  | inr hn => exact p.isNode_of_mem_sound hn

/-- Only declared inputs have no chain, and the sound comes after the pictures. -/
theorem eq_inputNode {n : Node} (hn : n ∈ p.graph.nodes) (ht : n.kind.text = none) :
    (∃ i < p.registry.size, n = inputNode i .video) ∨
      ∃ i, p.registry.size ≤ i ∧ i < p.declared.length ∧ n = inputNode i .audio := by
  obtain ⟨i, stream, hkind⟩ := NodeKind.text_eq_none_iff.mp ht
  cases p.isNode_of_mem hn with
  | input hi => exact .inl ⟨_, hi, rfl⟩
  | voice hc =>
    refine .inr ⟨_, Nat.le_add_right .., ?_, rfl⟩
    have hlt := (p.chained.mem_chains hc).1
    simp only [declared, List.length_append, List.length_map, Registry.length_paths]
    omega
  | picture h => cases h <;> cases hkind
  | split | chain | mix => cases hkind

theorem body_ne_empty {n : Node} (hn : n ∈ p.graph.nodes) {body : String}
    (ht : n.kind.text = some body) : body ≠ "" := by
  apply NodeKind.text_ne_empty ht
  intro c hkind
  cases p.isNode_of_mem hn with
  | chain hc =>
    cases hkind
    exact (p.chained.mem_chains hc).2
  | picture h => cases h <;> cases hkind
  | input | split | voice | mix => cases hkind

theorem exists_name {q : Pad} (h : q ∈ written p.graph.nodes) :
    ∃ name : PadName, q = name.pad := by
  have hof {names : List PadName} (hq : q ∈ names.map PadName.pad) :
      ∃ name : PadName, q = name.pad := by
    obtain ⟨name, -, rfl⟩ := List.mem_map.mp hq
    exact ⟨name, rfl⟩
  obtain ⟨names, hnames, -⟩ :=
    r.videoSettings.exists_written_pictureNodes p.registry p.items
  rw [graph, picture, written_append, written_append, Registry.written_sourceNodes, hnames,
    List.append_assoc] at h
  cases List.mem_append.mp h with
  | inl h => exact hof h
  | inr h =>
    cases List.mem_append.mp h with
    | inl h => exact hof h
    | inr h =>
      unfold sound at h
      split at h
      case isTrue => exact hof ((written_soundNodes p.chained).mem_iff.mp h)
      case isFalse => simp at h

/-- The pads that are there without a chain. -/
def streams : List Pad := written (p.graph.ordered.filter (·.kind.text.isNone))

theorem mem_ordered {n : Node} : n ∈ p.graph.ordered ↔ n ∈ p.graph.nodes :=
  p.graph.ordered_perm.mem_iff

theorem mem_emitted {n : Node} :
    n ∈ p.graph.emitted ↔ n ∈ p.graph.nodes ∧ n.kind.text.isSome := by
  rw [Graph.emitted, List.mem_filter, mem_ordered]

theorem mem_streams {q : Pad} (h : q ∈ p.streams) :
    ∃ n ∈ p.graph.nodes, n.kind.text = none ∧ q ∈ n.outputs := by
  obtain ⟨n, hn, hq⟩ := mem_written.mp h
  obtain ⟨hmem, hnone⟩ := List.mem_filter.mp hn
  exact ⟨n, p.mem_ordered.mp hmem, Option.isNone_iff_eq_none.mp hnone, hq⟩

theorem isStream_of_mem_streams {q : Pad} (h : q ∈ p.streams) :
    IsStream p.registry.size p.declared.length q.label := by
  obtain ⟨n, hn, hnone, hq⟩ := p.mem_streams h
  rcases p.eq_inputNode hn hnone with ⟨i, hi, rfl⟩ | ⟨i, hle, hlt, rfl⟩
  · rw [List.mem_singleton.mp hq]
    refine .inl ⟨i, hi, ?_⟩
    rw [← String.toList_inj]
    simp [PadName.pad, Pad.stream, StreamKind.specifier]
  · rw [List.mem_singleton.mp hq]
    refine .inr ⟨i, hle, hlt, ?_⟩
    rw [← String.toList_inj]
    simp [PadName.pad, Pad.stream, StreamKind.specifier]

theorem wired_emitted : Wired p.streams p.graph.emitted := by
  refine (p.wired.mono (List.nil_subset _)).filter ?_
  intro n hn hnone q hq
  refine mem_written.mpr ⟨n, List.mem_filter.mpr ⟨hn, ?_⟩, hq⟩
  simpa using hnone

theorem nodup_streams_append : (p.streams ++ written p.graph.emitted).Nodup := by
  have hperm : (p.streams ++ written p.graph.emitted).Perm (written p.graph.nodes) := by
    refine List.Perm.trans ?_ (p.graph.ordered_perm.flatMap_right _)
    rw [streams, ← written_append]
    apply List.Perm.flatMap_right
    have hsplit := List.filter_append_perm (fun n : Node => n.kind.text.isNone) p.graph.ordered
    simpa [Graph.emitted] using hsplit
  rw [hperm.nodup_iff]
  exact p.linked.written_nodup

theorem consulted_emitted_perm : (consulted p.graph.emitted).Perm (consulted p.graph.nodes) := by
  have hkeep : consulted p.graph.emitted = consulted p.graph.ordered := by
    apply consulted_filter
    intro n hn hnone
    rcases p.eq_inputNode (p.mem_ordered.mp hn) (by simpa using hnone) with
      ⟨i, -, rfl⟩ | ⟨i, -, -, rfl⟩ <;> rfl
  rw [hkeep]
  exact p.graph.ordered_perm.flatMap_right _

theorem wellFormed_chain {n : Node} (hn : n ∈ p.graph.emitted) : n.chain.WellFormed := by
  obtain ⟨hmem, hsome⟩ := p.mem_emitted.mp hn
  obtain ⟨body, hbody⟩ := Option.isSome_iff_exists.mp hsome
  have hlabel {q : Pad} (hq : q ∈ written p.graph.nodes) : Text.Unmarked q.label := by
    obtain ⟨name, rfl⟩ := p.exists_name hq
    exact name.unmarked_label
  have hread {q : Pad} (hq : q ∈ n.inputs) : q ∈ written p.graph.nodes := by
    rw [p.linked.mem_iff]
    exact List.mem_append_left _ (mem_consulted.mpr ⟨n, hmem, hq⟩)
  constructor
  · simpa [Node.chain, hbody] using p.body_ne_empty hmem hbody
  · simpa [Node.chain, hbody] using NodeKind.unmarked_text hbody
  · intro l hl
    obtain ⟨q, hq, rfl⟩ := List.mem_map.mp hl
    exact hlabel (hread hq)
  · intro l hl
    obtain ⟨q, hq, rfl⟩ := List.mem_map.mp hl
    exact hlabel (mem_written.mpr ⟨n, hmem, hq⟩)

theorem flatMap_outputs (ns : List Node) :
    (ns.map Node.chain).flatMap (·.outputs) = (written ns).map Pad.label := by
  rw [written, List.flatMap_map, List.map_flatMap]
  rfl

theorem flatMap_inputs (ns : List Node) :
    (ns.map Node.chain).flatMap (·.inputs) = (consulted ns).map Pad.label := by
  rw [consulted, List.flatMap_map, List.map_flatMap]
  rfl

theorem nodup_read : (consulted p.graph.emitted ++ p.outputs.terminals).Nodup := by
  rw [(p.consulted_emitted_perm.append_right _).nodup_iff]
  exact p.linked.read_nodup

theorem mem_read_after {i : Nat} {n : Node} (hi : p.graph.emitted[i]? = some n) {q : Pad}
    (hq : q ∈ n.outputs) :
    q ∈ consulted (p.graph.emitted.drop (i + 1)) ++ p.outputs.terminals := by
  have hmem := (p.mem_emitted.mp (List.mem_of_getElem? hi)).1
  have hread := p.linked.mem_iff.mp (mem_written.mpr ⟨n, hmem, hq⟩)
  cases List.mem_append.mp hread with
  | inl hread =>
    rw [← p.consulted_emitted_perm.mem_iff] at hread
    exact List.mem_append_left _
      (p.wired_emitted.mem_consulted_drop p.nodup_streams_append hi hq hread)
  | inr hread => exact List.mem_append_right _ hread

theorem consistent : Consistent p.registry.size p.declared.length (p.graph.emitted.map Node.chain)
    (p.outputs.terminals.map Pad.label) where
  wellFormed c hc := by
    obtain ⟨n, hn, rfl⟩ := List.mem_map.mp hc
    exact p.wellFormed_chain hn
  written_once := by
    rw [flatMap_outputs]
    exact (List.nodup_append.mp p.nodup_streams_append).2.1.map Pad.label_injective
  read_once := by
    rw [flatMap_inputs, ← List.map_append]
    exact p.nodup_read.map Pad.label_injective
  read_after i c hc l hl := by
    rw [List.getElem?_map, Option.map_eq_some_iff] at hc
    obtain ⟨n, hn, rfl⟩ := hc
    obtain ⟨q, hq, rfl⟩ := List.mem_map.mp hl
    rcases p.wired_emitted.exists_writer hn hq with hq | ⟨j, hj, m, hm, hq⟩
    · exact .inr (p.isStream_of_mem_streams hq)
    · exact .inl ⟨j, hj, m.chain, by simp [hm], List.mem_map_of_mem hq⟩
  mapped_written l hl := by
    obtain ⟨q, hq, rfl⟩ := List.mem_map.mp hl
    have hwritten := p.linked.mem_iff.mpr (List.mem_append_right _ hq)
    obtain ⟨n, hn, hout⟩ := mem_written.mp hwritten
    cases htext : n.kind.text with
    | none =>
      refine .inr (p.isStream_of_mem_streams (mem_written.mpr ⟨n, ?_, hout⟩))
      exact List.mem_filter.mpr ⟨p.mem_ordered.mpr hn, by simp [htext]⟩
    | some body =>
      have hemitted := p.mem_emitted.mpr ⟨hn, by simp [htext]⟩
      exact .inl ⟨n.chain, List.mem_map_of_mem hemitted, List.mem_map_of_mem hout⟩
  used_once i c hc l hl := by
    rw [List.getElem?_map, Option.map_eq_some_iff] at hc
    obtain ⟨n, hn, rfl⟩ := hc
    obtain ⟨q, hq, rfl⟩ := List.mem_map.mp hl
    rw [← List.map_drop, flatMap_inputs, ← List.map_append,
      List.count_map_of_injective _ _ Pad.label_injective]
    refine List.count_eq_one_of_mem ?_ (p.mem_read_after hn hq)
    exact p.nodup_read.sublist (((List.drop_sublist _ _).flatMap _).append_right _)

theorem emitted_ne_nil : p.graph.emitted ≠ [] := by
  have hmem {n : Node} (hn : n ∈ r.videoSettings.pictureNodes p.registry p.items)
      (htext : n.kind.text.isSome) : p.graph.emitted ≠ [] := by
    apply List.ne_nil_of_mem
    refine p.mem_emitted.mpr ⟨?_, htext⟩
    exact List.mem_append_left _ (List.mem_append_right _ hn)
  cases r.videoSettings.pictureForm p.registry p.items with
  | lone t id _ _ hnodes =>
    apply hmem (n := r.videoSettings.scaleCropNode t (p.registry.feed [] id).pad
      PadName.videoOut.pad) ?_ rfl
    simp [hnodes, VideoSettings.loneNodes]
  | stack hnodes =>
    apply hmem (n := r.videoSettings.colorNode r.videoSettings.canvas PadName.background.pad) ?_ rfl
    simp [hnodes, VideoSettings.stackNodes]

end Plan

/-- The text of every command is consistent with itself and with its arguments. -/
theorem Request.consistent_of_compile_eq_ok {pow : Power} {r : Request} {c : Command}
    (h : r.compile pow = .ok c) :
    ∃ (chains : List Chain) (mapped : List String),
      c.filterGraph.toList.splitOn ';' = chains.map (·.text.toList) ∧
      c.values "-map" = mapped.map Chain.bracketed ∧
      c.values "-i" = r.videoPaths ++ r.audioTracks.map (·.file) ∧
      Consistent r.videoPaths.length (c.values "-i").length chains mapped := by
  obtain ⟨p, rfl⟩ := exists_plan h
  refine ⟨p.graph.emitted.map Node.chain, p.outputs.terminals.map Pad.label, ?_, ?_, ?_, ?_⟩
  · have htext : p.command.filterGraph = p.graph.text := rfl
    rw [htext, Graph.text_eq]
    apply Chain.splitOn_joinWith
    · simpa using p.emitted_ne_nil
    · exact p.consistent.wellFormed
  · rw [p.values_maps, List.map_map]
    rfl
  · rw [p.values_inputs, Plan.declared, p.paths_eq]
  · rw [p.values_inputs, ← p.size_eq]
    exact p.consistent

theorem Request.consistent_sample :
    ∃ c, sample.compile Float.pow = .ok c ∧ ∃ (chains : List Chain) (mapped : List String),
      c.filterGraph.toList.splitOn ';' = chains.map (·.text.toList) ∧
      Consistent sample.videoPaths.length (c.values "-i").length chains mapped := by
  obtain ⟨c, hc⟩ := exists_compile_sample
  obtain ⟨chains, mapped, htext, -, -, hconsistent⟩ := consistent_of_compile_eq_ok hc
  exact ⟨c, hc, chains, mapped, htext, hconsistent⟩

end Montage
