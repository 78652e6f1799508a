import Mathlib
import Montage.Proofs.Command.Modes
import Montage.Proofs.Graph.Bodies

/-!
The text of a command's graph as an encoding of the graph.  The nodes of a plan can each be told
from their chains, and the text splits into the chains, so two commands with the same text come
from graphs with the same nodes.
-/

namespace Montage

def NodeKind.isInput : NodeKind → Bool
  | .input .. => true
  | _ => false

namespace Graph

/-- The nodes that are no declared inputs, in written order. -/
def filterNodes (g : Graph) : List Node := g.ordered.filter (!·.kind.isInput)

theorem emitted_eq (g : Graph) : g.emitted = g.filterNodes := by
  have htext (k : NodeKind) : k.text.isSome = !k.isInput := by cases k <;> rfl
  simp only [emitted, filterNodes, htext]

end Graph

namespace Plan

variable {pow pow' : Power} {r r' : Request}

theorem legible_of_mem (p : Plan pow r) {n : Node} (hn : n ∈ p.graph.nodes) : n.Legible := by
  cases p.isNode_of_mem hn with
  | chain hc =>
    obtain ⟨t, ht⟩ := p.chained.exists_stages_eq hc
    constructor
    · rw [chainNode, NodeKind.Legible, ht]
      exact ⟨t.stages_ne_nil pow r.sampleRate, t.legible_stages r.sampleRate⟩
    · rintro chain hchain
      cases hchain
      rfl
  | picture h =>
    cases h with
    | scaleCrop t input out =>
      refine ⟨fun hgrade => ?_, nofun⟩
      obtain ⟨fx, -, hfx⟩ := Option.bind_eq_some_iff.mp hgrade
      exact Grade.ofEffects_ne fx hfx
    | color | overlay => exact ⟨trivial, nofun⟩
  | input | split | voice | mix => exact ⟨trivial, nofun⟩

/-- Two plans have the same text just when they have the same nodes but for inputs. -/
theorem text_eq_iff (p : Plan pow r) (p' : Plan pow' r') :
    p.graph.text = p'.graph.text ↔ p.graph.filterNodes = p'.graph.filterNodes := by
  rw [← Graph.emitted_eq, ← Graph.emitted_eq]
  constructor
  · intro h
    have hchains : p.graph.emitted.map (·.chain.text.toList) =
        p'.graph.emitted.map (·.chain.text.toList) := by
      have hsplit := congrArg (·.toList.splitOn ';') h
      simp only [Graph.text_eq] at hsplit
      rw [Chain.splitOn_joinWith (by simpa using p.emitted_ne_nil) p.consistent.wellFormed,
        Chain.splitOn_joinWith (by simpa using p'.emitted_ne_nil) p'.consistent.wellFormed,
        List.map_map, List.map_map] at hsplit
      exact hsplit
    refine List.eq_of_map_eq (fun m hm n hn hmn => ?_) hchains
    have hchain := Chain.text_injective (p.wellFormed_chain hm) (p'.wellFormed_chain hn)
      (String.toList_injective hmn)
    obtain ⟨hm, hmt⟩ := p.mem_emitted.mp hm
    obtain ⟨hn, hnt⟩ := p'.mem_emitted.mp hn
    exact Node.chain_injOn (p.legible_of_mem hm) (p'.legible_of_mem hn) hmt hnt hchain
  · intro h
    rw [Graph.text_eq, Graph.text_eq, h]

end Plan

/-- The graph text of a command can be read back: two commands have the same text just when the
graphs that were assembled for them have the same nodes in the same order, but for inputs. -/
theorem Request.filterGraph_eq_iff {pow pow' : Power} {r r' : Request} {c c' : Command}
    (hc : r.compile pow = .ok c) (hc' : r'.compile pow' = .ok c') :
    ∃ g outputs sources g' outputs' sources',
      r.assemble pow = .ok (g, outputs, sources) ∧
      r'.assemble pow' = .ok (g', outputs', sources') ∧
      (c.filterGraph = c'.filterGraph ↔ g.filterNodes = g'.filterNodes) := by
  obtain ⟨p, rfl⟩ := exists_plan hc
  obtain ⟨p', rfl⟩ := exists_plan hc'
  exact ⟨_, _, _, _, _, _, p.assemble_eq, p'.assemble_eq, p.text_eq_iff p'⟩

/-- A preview and a render of one timeline have the same nodes, for their texts are the same. -/
theorem Request.filterNodes_sample : ∃ g outputs sources g' outputs' sources',
    (sample.withMode .preview).assemble Float.pow = .ok (g, outputs, sources) ∧
    (sample.withMode .render).assemble Float.pow = .ok (g', outputs', sources') ∧
    g.filterNodes = g'.filterNodes := by
  obtain ⟨c, hc⟩ := exists_compile_sample
  obtain ⟨p, -⟩ := exists_plan hc
  obtain ⟨g, outputs, sources, g', outputs', sources', hg, hg', htext⟩ :=
    filterGraph_eq_iff (p.withMode .preview).compile_eq (p.withMode .render).compile_eq
  exact ⟨g, outputs, sources, g', outputs', sources', hg, hg', htext.mp p.sameTimeline.graph⟩

end Montage
