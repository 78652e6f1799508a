import Mathlib
import Montage.Proofs.Command.Validity
import Montage.Proofs.Guarded.Edges
import Montage.Proofs.Guarded.Picture

/-!
No compilation runs into a trap.  With fewer than 2 ^ 32 tracks of each kind, every part of a
compilation gives under guard what it gives without, and the whole ends in a command or a rejection.
-/

namespace Montage

namespace Guarded

/-- The nodes of one track, whose input is declared after those of the picture. -/
def chainNodes (offset : Nat) (c : AudioChain) : Except Trap (List Node) := do
  let index ← add offset c.track
  let stream := Pad.stream index .audio
  return [⟨.input index .audio, [], [stream]⟩, ⟨.audioChain c, [stream], [Pad.track c.track]⟩]

def mixAudio (pow : Power) (tracks : List AudioTrack) (sampleRate : UInt32) (offset : Nat)
    (timeline : Float) : Compilation (Option (Graph × Pad)) := do
  let chains ← liftExcept (Request.chainAll pow tracks sampleRate)
  if chains.isEmpty then return none
  let nodes ← (chains.mapM (chainNodes offset) : Except Trap (List (List Node)))
  return some (⟨nodes.flatten ++ [mixNode chains timeline]⟩, Pad.audioOut)

def assemble (pow : Power) (r : Request) : Compilation (Graph × GraphOutputs × Registry) := do
  let tiles ← settle (Tile.planAll r.videoTracks r.canvas)
  let (sources, ids) ← acquireAll .empty tiles
  let (picture, video) ← draw r.videoSettings sources tiles ids
  match ← mixAudio pow r.audioTracks r.sampleRate sources.size r.duration with
  | some (sound, pad) =>
    if r.mode = .thumbnail then return (picture, ⟨video, none⟩, sources)
    else return (picture.merge sound, ⟨video, some pad⟩, sources)
  | none => return (picture, ⟨video, none⟩, sources)

/-- Compiling under guard.  The number of inputs is summed up for a note at the end. -/
def compileFor (pow : Power) (op : Operation) (r : Request) : Compilation Command := do
  let (graph, outputs, sources) ← assemble pow r
  match ← checkEdges graph outputs.terminals with
  | .error e => throwThe Trap (.unlinked e)
  | .ok () =>
    let command ← liftExcept (linearize graph outputs sources r op)
    let _ ← add sources.size r.audioTracks.length
    return command

def compile (pow : Power) (r : Request) : Compilation Command :=
  compileFor pow (.forMode r.mode) r

variable {pow : Power}

theorem chainNodes_eq {offset : Nat} {c : AudioChain} (h : offset + c.track < UInt64.size) :
    chainNodes offset c = .ok (c.nodes offset) := by
  rw [chainNodes, add_eq_ok h]
  rfl

theorem mixAudio_eq {tracks : List AudioTrack} {offset : Nat}
    (h : offset + tracks.length < UInt64.size) (sampleRate : UInt32) (timeline : Float) :
    mixAudio pow tracks sampleRate offset timeline =
      settle (Fault.ofRejection (Montage.mixAudio pow tracks sampleRate offset timeline)) := by
  unfold mixAudio Montage.mixAudio
  rw [← Request.chainAll]
  cases hchains : Request.chainAll pow tracks sampleRate with
  | error e => rfl
  | ok chains =>
    have hchained : Chained pow tracks sampleRate chains := List.mapM_eq_ok_iff.mp hchains
    have hindex : ∀ c ∈ chains, offset + c.track < UInt64.size := by
      intro c hc
      have hmem := List.mem_map_of_mem (f := (·.track)) hc
      rw [hchained.track_eq, List.mem_range] at hmem
      omega
    have hnodes : chains.mapM (chainNodes offset) = .ok (chains.map (·.nodes offset)) := by
      rw [List.mapM_eq_ok_iff, List.forall₂_map_right_iff, List.forall₂_same]
      exact fun c hc => chainNodes_eq (hindex c hc)
    rw [liftExcept_bind, hnodes]
    cases chains <;> rfl

variable {r : Request}

theorem length_tiles_lt (h : r.videoTracks.length < 2 ^ 32) {tiles : List Tile}
    (ht : Tile.planAll r.videoTracks r.canvas = .ok tiles) : tiles.length < 2 ^ 34 := by
  rw [Request.planAll_eq, verdict_eq_ok_iff] at ht
  have := r.length_panes_le
  rw [← ht.2, List.length_map]
  omega

theorem size_sources_le (tiles : List Tile) :
    (Registry.empty.acquireAll tiles).1.size ≤ tiles.length :=
  (Registry.size_acquireAll_le .empty tiles).trans_eq (Nat.zero_add _)

theorem assemble_eq (hvideo : r.videoTracks.length < 2 ^ 32)
    (haudio : r.audioTracks.length < 2 ^ 32) : assemble pow r = settle (r.assemble pow) := by
  cases htiles : Tile.planAll r.videoTracks r.canvas with
  | error f =>
    rw [Request.assemble_eq_error_of_tiles htiles, assemble, htiles]
    cases f <;> rfl
  | ok tiles =>
    have hlength := length_tiles_lt hvideo htiles
    have hword : UInt64.size = 2 ^ 64 := rfl
    have hsources := size_sources_le tiles
    have hdraw := draw_acquireAll r.videoSettings .empty tiles (by omega)
    have hmix := @mixAudio_eq pow r.audioTracks (Registry.empty.acquireAll tiles).1.size (by omega)
      r.sampleRate r.duration
    rw [assemble, htiles, settle_ok_bind, acquireAll_eq tiles (.empty (by omega)), liftM_bind]
    dsimp only
    rw [hdraw, liftM_bind]
    dsimp only
    rw [hmix, Request.assemble, assembleVideo_eq .empty r.videoSettings htiles]
    dsimp only
    rw [ok_bind]
    dsimp only
    rw [settle_bind]
    -- From the sound on both sides do the same, and nothing of it can trap.
    congr 1
    funext sound
    cases sound with
    | none => rfl
    | some sound =>
      dsimp only
      split <;> rfl

/-- Compiling under guard gives what compiling gives. -/
theorem compileFor_eq (hvideo : r.videoTracks.length < 2 ^ 32)
    (haudio : r.audioTracks.length < 2 ^ 32) (op : Operation) :
    compileFor pow op r = settle (r.compileFor pow op) := by
  have hassemble : assemble pow r = settle (r.assemble pow) := assemble_eq hvideo haudio
  cases Request.compiles pow r op with
  | badTiles f htiles heq =>
    rw [Request.assemble_eq_error_of_tiles htiles] at hassemble
    rw [heq, compileFor, hassemble]
    cases f <;> rfl
  | badChains tiles e htiles hchains heq =>
    rw [Request.assemble_eq_error_of_chains htiles hchains] at hassemble
    rw [heq, compileFor, hassemble]
    rfl
  | planned p heq =>
    have hlinked := p.linked
    have hedges := checkEdges_eq (.of_nodup hlinked.written_nodup) (.of_nodup hlinked.read_nodup)
    rw [Graph.checkEdges_eq_ok_iff.mpr hlinked] at hedges
    rw [p.assemble_eq] at hassemble
    rw [compileFor, hassemble, settle_ok_bind]
    dsimp only
    rw [hedges, liftM_bind, Request.compileFor, p.assemble_eq, ok_bind]
    dsimp only
    rw [Graph.checkEdges_eq_ok_iff.mpr hlinked]
    dsimp only
    cases linearize p.graph p.outputs p.registry r op with
    | error e => rfl
    | ok command =>
      have hinputs : p.registry.size + r.audioTracks.length < UInt64.size := by
        have hword : UInt64.size = 2 ^ 64 := rfl
        have htiles := length_tiles_lt hvideo p.planned
        have hsources : p.registry.size ≤ p.tiles.length := size_sources_le p.tiles
        omega
      rw [liftExcept_bind, add_eq_ok hinputs]
      rfl

theorem exists_answer (pow : Power) (r : Request) (op : Operation) :
    ∃ result, r.compileFor pow op = Fault.ofRejection result := by
  cases h : r.compileFor pow op with
  | ok command => exact ⟨.ok command, rfl⟩
  | error f =>
    obtain ⟨e, -, rfl⟩ := Request.compileFor_eq_error_iff.mp h
    exact ⟨.error e, rfl⟩

/-- No compilation traps.  Whatever is asked of it, compiling takes each of its steps and ends in
an answer, which is the one it gives without guards. -/
theorem compile_answers (pow : Power) (r : Request) (hvideo : r.videoTracks.length < 2 ^ 32)
    (haudio : r.audioTracks.length < 2 ^ 32) :
    (∀ op, ∃ result, (compileFor pow op r).run = .ok result ∧
        r.compileFor pow op = Fault.ofRejection result) ∧
      ∃ result, (compile pow r).run = .ok result ∧ r.compile pow = Fault.ofRejection result := by
  have hanswer (op : Operation) : ∃ result, (compileFor pow op r).run = .ok result ∧
      r.compileFor pow op = Fault.ofRejection result := by
    obtain ⟨result, hresult⟩ := exists_answer pow r op
    refine ⟨result, ?_, hresult⟩
    rw [compileFor_eq hvideo haudio, hresult, run_settle_ofRejection]
  exact ⟨hanswer, hanswer (.forMode r.mode)⟩

theorem compile_sample :
    Request.sample.videoTracks.length < 2 ^ 32 ∧ Request.sample.audioTracks.length < 2 ^ 32 ∧
      ∃ command, (compile Float.pow Request.sample).run = .ok (.ok command) ∧
        Request.sample.compile Float.pow = .ok command := by
  have hvideo : Request.sample.videoTracks.length < 2 ^ 32 := by decide
  have haudio : Request.sample.audioTracks.length < 2 ^ 32 := by decide
  obtain ⟨command, hcommand⟩ := Request.exists_compile_sample
  obtain ⟨-, result, hrun, hresult⟩ := compile_answers Float.pow Request.sample hvideo haudio
  refine ⟨hvideo, haudio, command, ?_, hcommand⟩
  cases result with
  | ok c =>
    obtain rfl : command = c := Except.ok.inj (hcommand.symm.trans hresult)
    exact hrun
  | error e =>
    rw [hresult] at hcommand
    contradiction

end Guarded

end Montage
