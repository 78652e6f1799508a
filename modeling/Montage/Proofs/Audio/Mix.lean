import Mathlib
import Montage.Audio.Mix
import Montage.Proofs.Audio.Chain
import Montage.Proofs.Graph.Links
import Montage.Proofs.Graph.PadName
import Montage.Proofs.Lists

/-!
The nodes of the sound: an input and a chain for each track, and the mix of all chains.
-/

namespace Montage

/-- The chains of the tracks, one for each and in their order. -/
def Chained (pow : Power) (tracks : List AudioTrack) (sampleRate : UInt32)
    (chains : List AudioChain) : Prop :=
  List.Forall₂ (fun (t, i) c => t.chain pow i sampleRate = .ok c) tracks.zipIdx chains

def chainNode (offset : Nat) (c : AudioChain) : Node :=
  ⟨.audioChain c, [(PadName.stream (offset + c.track) .audio).pad], [(PadName.track c.track).pad]⟩

def mixNode (chains : List AudioChain) (timeline : Float) : Node :=
  { kind := .mix chains.length
      (if timeline.isFinite && (0 : Float) < timeline then some timeline else none)
    inputs := chains.map fun c => (PadName.track c.track).pad
    outputs := [PadName.audioOut.pad] }

/-- The nodes of the sound, where its inputs are declared from `offset` on. -/
def soundNodes (offset : Nat) (chains : List AudioChain) (timeline : Float) : List Node :=
  chains.flatMap (·.nodes offset) ++ [mixNode chains timeline]

theorem atStage_soundNodes_audioChain (offset : Nat) (chains : List AudioChain)
    (timeline : Float) :
    (Graph.mk (soundNodes offset chains timeline)).atStage .audioChain =
      chains.map (chainNode offset) := by
  rw [Graph.atStage, soundNodes, List.filter_append, List.filter_flatMap, List.map_eq_flatMap]
  exact List.append_nil _

theorem atStage_soundNodes_mix (offset : Nat) (chains : List AudioChain) (timeline : Float) :
    (Graph.mk (soundNodes offset chains timeline)).atStage .mix = [mixNode chains timeline] := by
  have hnone : (chains.flatMap (·.nodes offset)).filter (·.stage == .mix) = [] := by
    rw [List.filter_flatMap, List.flatMap_eq_nil_iff]
    exact fun c _ => rfl
  rw [Graph.atStage, soundNodes, List.filter_append, hnone]
  rfl

variable {pow : Power} {tracks : List AudioTrack} {sampleRate : UInt32} {offset : Nat}
  {timeline : Float} {chains : List AudioChain}

theorem mem_soundNodes {n : Node} :
    n ∈ soundNodes offset chains timeline ↔
      (∃ c ∈ chains, n = ⟨.input (offset + c.track) .audio, [],
        [(PadName.stream (offset + c.track) .audio).pad]⟩ ∨ n = chainNode offset c) ∨
      n = mixNode chains timeline := by
  simp only [soundNodes, AudioChain.nodes, List.mem_append, List.mem_flatMap, List.mem_cons,
    List.not_mem_nil, or_false]
  rfl

namespace Chained

theorem track_eq (h : Chained pow tracks sampleRate chains) :
    chains.map (·.track) = List.range tracks.length := by
  rw [List.range_eq_range', ← List.zipIdx_map_snd 0 tracks]
  unfold Chained at h
  generalize tracks.zipIdx = placed at h
  induction h with
  | nil => rfl
  | cons hc _ ih => rw [List.map_cons, List.map_cons, ih, (AudioTrack.eq_of_chain_eq_ok hc).2]

theorem length_eq (h : Chained pow tracks sampleRate chains) : chains.length = tracks.length := by
  simpa using congrArg List.length h.track_eq

theorem exists_stages_eq (h : Chained pow tracks sampleRate chains) {c : AudioChain}
    (hc : c ∈ chains) : ∃ t : AudioTrack, c.stages = t.stages pow sampleRate := by
  obtain ⟨i, hi⟩ := List.mem_iff_getElem?.mp hc
  obtain ⟨⟨t, k⟩, -, ht⟩ := h.flip.getElem?_eq_some hi
  exact ⟨t, by rw [(AudioTrack.eq_of_chain_eq_ok ht).2]⟩

end Chained

/-- The mix of checked tracks; there is none of no tracks. -/
theorem mixAudio_eq (h : Chained pow tracks sampleRate chains) (offset : Nat)
    (timeline : Float) :
    mixAudio pow tracks sampleRate offset timeline =
      .ok (if tracks = [] then none
        else some (⟨soundNodes offset chains timeline⟩, PadName.audioOut.pad)) := by
  have hlength := h.length_eq
  rw [mixAudio, List.mapM_eq_ok_iff.mpr h]
  cases chains with
  | nil =>
    obtain rfl : tracks = [] := by simpa using hlength.symm
    rfl
  | cons c rest =>
    have hne : tracks ≠ [] := by
      rintro rfl
      simp at hlength
    rw [if_neg hne]
    rfl

def soundNames (offset count : Nat) : List PadName :=
  (List.range count).map (fun i => .stream (offset + i) .audio) ++
    (List.range count).map .track ++ [.audioOut]

theorem part_of_mem_soundNames {count : Nat} {p : PadName} (h : p ∈ soundNames offset count) :
    p.part = .sound := by
  simp only [soundNames, List.mem_append, List.mem_map, List.mem_singleton] at h
  rcases h with (⟨i, -, rfl⟩ | ⟨i, -, rfl⟩) | rfl <;> rfl

theorem nodup_soundNames (offset count : Nat) : (soundNames offset count).Nodup := by
  have hstreams : ((List.range count).map fun i =>
      PadName.stream (offset + i) .audio).Nodup :=
    List.nodup_range.map fun i j h => by simpa using h
  have htracks : ((List.range count).map PadName.track).Nodup :=
    List.nodup_range.map fun i j h => by simpa using h
  refine (hstreams.append htracks ?_).append (by simp) ?_
  · intro p hp hq
    obtain ⟨i, -, rfl⟩ := List.mem_map.mp hp
    simp at hq
  · intro p hp hq
    rw [List.mem_singleton.mp hq] at hp
    simp at hp

theorem written_soundNodes (h : Chained pow tracks sampleRate chains) :
    (written (soundNodes offset chains timeline)).Perm
      ((soundNames offset tracks.length).map PadName.pad) := by
  have hchains : (written (chains.flatMap (·.nodes offset))).Perm
      (((chains.map (·.track)).map (fun i => PadName.stream (offset + i) .audio) ++
        (chains.map (·.track)).map PadName.track).map PadName.pad) := by
    rw [written, List.flatMap_assoc, List.map_append, List.map_map, List.map_map, List.map_map,
      List.map_map, List.map_eq_flatMap, List.map_eq_flatMap]
    refine List.Perm.trans ?_ (List.flatMap_append_perm _ _ _).symm
    exact List.Perm.flatMap_left _ fun c _ => by
      simp [AudioChain.nodes, PadName.pad, Function.comp_def]
  rw [h.track_eq] at hchains
  rw [soundNodes, written_append, soundNames, List.map_append]
  exact hchains.append_right _

theorem consulted_soundNodes (h : Chained pow tracks sampleRate chains) :
    consulted (soundNodes offset chains timeline) =
      ((List.range tracks.length).map (fun i => PadName.stream (offset + i) .audio) ++
        (List.range tracks.length).map PadName.track).map PadName.pad := by
  have hchains : consulted (chains.flatMap (·.nodes offset)) =
      ((chains.map (·.track)).map fun i => PadName.stream (offset + i) .audio).map
        PadName.pad := by
    rw [consulted, List.flatMap_assoc, List.map_map, List.map_map, List.map_eq_flatMap]
    exact List.flatMap_congr fun c _ => by
      simp [AudioChain.nodes, PadName.pad, Function.comp_def]
  rw [soundNodes, consulted_append, hchains, ← h.track_eq]
  simp [mixNode, Function.comp_def]

theorem linked_soundNodes (h : Chained pow tracks sampleRate chains) :
    Linked (soundNodes offset chains timeline) [PadName.audioOut.pad] where
  written_nodup := by
    rw [(written_soundNodes h).nodup_iff]
    exact (nodup_soundNames offset tracks.length).map PadName.pad_injective
  paired := by
    refine (written_soundNodes h).trans ?_
    rw [consulted_soundNodes h, soundNames, List.map_append]
    rfl

end Montage
