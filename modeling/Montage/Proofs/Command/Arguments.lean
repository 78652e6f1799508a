import Mathlib
import Montage.Proofs.Command.Plan

/-!
The arguments of a command as the processor reads them: an option that is no flag takes the
argument after it, whatever that is, so a path is never mistaken for an option.
-/

namespace Montage

namespace Command

/-- The options that take no value. -/
def flags : List String := ["-y", "-hide_banner", "-nostats", "-re"]

/-- The options of a command line with their values.  The last argument stands alone; it is what is
written. -/
def valued : List String → List (String × String)
  | [] => []
  | [_] => []
  | option :: value :: rest =>
    if option ∈ flags then valued (value :: rest) else (option, value) :: valued rest

/-- The values of one option, in order. -/
def values (c : Command) (option : String) : List String :=
  ((valued c.args).filter (·.1 == option)).map (·.2)

theorem valued_flag {option value : String} {rest : List String} (h : option ∈ flags) :
    valued (option :: value :: rest) = valued (value :: rest) := by
  rw [valued, if_pos h]

theorem valued_cons {option value : String} {rest : List String} (h : option ∉ flags) :
    valued (option :: value :: rest) = (option, value) :: valued rest := by
  rw [valued, if_neg h]

theorem valued_inputArgs (mode : OutputMode) (path : String) (rest : List String) :
    valued (inputArgs mode path ++ rest) = ("-i", path) :: valued rest := by
  have hinput : valued ("-i" :: path :: rest) = ("-i", path) :: valued rest :=
    valued_cons (by simp [flags])
  by_cases h : mode = .preview
  · rw [inputArgs, if_pos h]
    exact (valued_flag (by simp [flags])).trans hinput
  · rw [inputArgs, if_neg h]
    exact hinput

theorem valued_inputs (mode : OutputMode) (paths rest : List String) :
    valued (paths.flatMap (inputArgs mode) ++ rest) = paths.map ("-i", ·) ++ valued rest := by
  induction paths with
  | nil => rfl
  | cons path paths ih =>
    rw [List.flatMap_cons, List.append_assoc, valued_inputArgs, ih]
    rfl

theorem valued_mapArgs (pads : List Pad) (rest : List String) :
    valued (pads.flatMap mapArgs ++ rest) = pads.map (fun p => ("-map", p.reference)) ++
      valued rest := by
  induction pads with
  | nil => rfl
  | cons p pads ih =>
    have hmap (rest : List String) :
        valued (mapArgs p ++ rest) = ("-map", p.reference) :: valued rest :=
      valued_cons (by simp [flags])
    rw [List.flatMap_cons, List.append_assoc, hmap, ih]
    rfl

theorem valued_globalArgs {rest : List String} :
    valued (globalArgs ++ rest) = ("-progress", "pipe:1") :: valued rest := by
  simp [globalArgs, valued, flags]

/-- The settings of the output declare no input and map no pad. -/
theorem valued_outputArgs (r : Request) (hasAudio : Bool) :
    ∀ x ∈ valued (outputArgs r hasAudio), x.1 ≠ "-i" ∧ x.1 ≠ "-map" := by
  cases hm : r.mode with
  | thumbnail => simp [outputArgs, hm, stillsArgs, valued, flags]
  | preview | render =>
    cases hasAudio <;> simp [outputArgs, hm, encodeArgs, valued, flags]

end Command

namespace Plan

variable {pow : Power} {r : Request} (p : Plan pow r)

def declared : List String := p.registry.paths ++ r.audioTracks.map (·.file)

theorem args_eq :
    p.command.args = Command.globalArgs ++ (p.declared.flatMap (Command.inputArgs r.mode) ++
      ((if p.graph.text.isEmpty then [] else ["-filter_complex", p.graph.text]) ++
        (p.outputs.terminals.flatMap Command.mapArgs ++
          Command.outputArgs r p.outputs.audio.isSome))) := by
  have hmaps : Command.mapArgs p.outputs.video ++ p.outputs.audio.toList.flatMap Command.mapArgs =
      p.outputs.terminals.flatMap Command.mapArgs := by
    rw [GraphOutputs.terminals, List.flatMap_cons]
  rw [← hmaps]
  simp only [command, declared, List.append_assoc]

theorem valued_args :
    ∃ graph, (∀ x ∈ graph, x.1 = "-filter_complex") ∧
      Command.valued p.command.args =
        ("-progress", "pipe:1") :: (p.declared.map ("-i", ·) ++ (graph ++
          (p.outputs.terminals.map (fun q => ("-map", q.reference)) ++
            Command.valued (Command.outputArgs r p.outputs.audio.isSome)))) := by
  rw [args_eq, Command.valued_globalArgs, Command.valued_inputs]
  by_cases htext : p.graph.text.isEmpty
  · refine ⟨[], by simp, ?_⟩
    rw [if_pos htext, List.nil_append, List.nil_append, Command.valued_mapArgs]
  · refine ⟨[("-filter_complex", p.graph.text)], by simp, ?_⟩
    rw [if_neg htext, List.cons_append, List.cons_append, List.nil_append,
      Command.valued_cons (by simp [Command.flags]), Command.valued_mapArgs]
    rfl

theorem values_inputs : p.command.values "-i" = p.declared := by
  obtain ⟨graph, hgraph, hvalued⟩ := p.valued_args
  rw [Command.values, hvalued]
  have hout : (Command.valued (Command.outputArgs r p.outputs.audio.isSome)).filter
      (·.1 == "-i") = [] := by
    rw [List.filter_eq_nil_iff]
    intro x hx
    simpa using (Command.valued_outputArgs r p.outputs.audio.isSome x hx).1
  have hgraphs : graph.filter (·.1 == "-i") = [] := by
    rw [List.filter_eq_nil_iff]
    intro x hx
    simp [hgraph x hx]
  simp [hout, hgraphs, List.filter_map, Function.comp_def]

theorem values_maps :
    p.command.values "-map" = p.outputs.terminals.map Pad.reference := by
  obtain ⟨graph, hgraph, hvalued⟩ := p.valued_args
  rw [Command.values, hvalued]
  have hout : (Command.valued (Command.outputArgs r p.outputs.audio.isSome)).filter
      (·.1 == "-map") = [] := by
    rw [List.filter_eq_nil_iff]
    intro x hx
    simpa using (Command.valued_outputArgs r p.outputs.audio.isSome x hx).2
  have hgraphs : graph.filter (·.1 == "-map") = [] := by
    rw [List.filter_eq_nil_iff]
    intro x hx
    simp [hgraph x hx]
  simp [hout, hgraphs, List.filter_map, Function.comp_def]

end Plan

end Montage
