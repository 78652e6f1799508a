import Mathlib
import Montage.Proofs.Graph.Order
import Montage.Proofs.Video.Wiring

/-!
The nodes of the picture stage by stage.
-/

namespace Montage

def inputNode (i : Nat) (kind : StreamKind) : Node :=
  ⟨.input i kind, [], [(PadName.stream i kind).pad]⟩

def splitNode (i uses : Nat) : Node :=
  ⟨.split uses, [(PadName.stream i .video).pad],
    (List.range uses).map fun k => (PadName.copy i k).pad⟩

namespace Registry

variable {r : Registry}

theorem mem_sourceNodes {n : Node} :
    n ∈ r.sourceNodes ↔ ∃ i < r.size, 0 < r.usageCount ⟨i⟩ ∧ n = inputNode i .video ∨
      1 < r.usageCount ⟨i⟩ ∧ n = splitNode i (r.usageCount ⟨i⟩) := by
  rw [sourceNodes, List.mem_flatMap, ← exists_mem_entries_zipIdx (P := fun i uses =>
    0 < uses ∧ n = inputNode i .video ∨ 1 < uses ∧ n = splitNode i uses)]
  apply exists_congr
  rintro ⟨⟨path, uses⟩, i⟩
  rcases uses with _ | _ | uses
  · simp
  · simp [inputNode, PadName.pad]
  · simp [inputNode, splitNode, PadName.pad]

theorem stage_of_mem_sourceNodes {n : Node} (h : n ∈ r.sourceNodes) :
    n.stage = .source ∨ n.stage = .split := by
  obtain ⟨i, -, ⟨-, rfl⟩ | ⟨-, rfl⟩⟩ := mem_sourceNodes.mp h
  · exact .inl rfl
  · exact .inr rfl

theorem inputNode_mem {i : Nat} (h : i < r.size) (hu : 0 < r.usageCount ⟨i⟩) :
    inputNode i .video ∈ r.sourceNodes :=
  mem_sourceNodes.mpr ⟨i, h, .inl ⟨hu, rfl⟩⟩

theorem splitNode_mem {i : Nat} (h : i < r.size) (hu : 1 < r.usageCount ⟨i⟩) :
    splitNode i (r.usageCount ⟨i⟩) ∈ r.sourceNodes :=
  mem_sourceNodes.mpr ⟨i, h, .inr ⟨hu, rfl⟩⟩

theorem offers_subset_writtenNames : r.offers ⊆ r.writtenNames := by
  intro p hp
  obtain ⟨i, hi, hp⟩ := mem_offers.mp hp
  exact mem_writtenNames.mpr ⟨i, hi, List.mem_append_right _ hp⟩

end Registry

namespace VideoSettings

variable {s : VideoSettings} {r : Registry} {items : List (Tile × Option SourceId)}

@[simp] theorem stage_colorNode (size : Size) (out : Pad) :
    (s.colorNode size out).stage = .source := rfl

@[simp] theorem stage_fitting (l : Layer) : (s.fitting l).stage = .scaleCrop := rfl

@[simp] theorem stage_overlay (total : Nat) (l : Layer) : (l.overlay total).stage = .overlay := rfl

theorem mem_backdrop {n : Nat} {t : Tile} {id : Option SourceId} {node : Node} :
    node ∈ s.backdrop n t id ↔
      id = none ∧ node = s.colorNode t.region.size (PadName.blank n).pad := by
  cases id <;> simp [backdrop]

theorem mem_stackNodes {node : Node} :
    node ∈ s.stackNodes r items ↔ node = s.colorNode s.canvas PadName.background.pad ∨
      ∃ l ∈ r.layers items, node ∈ s.backdrop l.place l.tile l.source ∨ node = s.fitting l ∨
        node = l.overlay items.length := by
  simp [stackNodes, Layer.nodes]

theorem nodes_subset_stackNodes {l : Layer} (hl : l ∈ r.layers items) :
    l.nodes s items.length ⊆ s.stackNodes r items := by
  intro node hnode
  exact List.mem_cons_of_mem _ (List.mem_flatMap.mpr ⟨l, hl, hnode⟩)

/-- A stage at which each layer has one node, and there is nothing below the layers. -/
theorem atStage_stackNodes {stage : Stage} {f : Layer → Node} (hstage : Stage.source ≠ stage)
    (hlayer : ∀ l : Layer, (l.nodes s items.length).filter (·.stage == stage) = [f l]) :
    (Graph.mk (s.stackNodes r items)).atStage stage = (r.layers items).map f := by
  rw [Graph.atStage, stackNodes, List.filter_cons_of_neg (by simpa using hstage),
    List.filter_flatMap, List.map_eq_flatMap]
  exact List.flatMap_congr fun l _ => hlayer l

theorem atStage_stackNodes_overlay :
    (Graph.mk (s.stackNodes r items)).atStage .overlay =
      (r.layers items).map (Layer.overlay items.length) :=
  atStage_stackNodes nofun fun l => by cases h : l.source <;> simp [Layer.nodes, backdrop, h]

theorem atStage_stackNodes_scaleCrop :
    (Graph.mk (s.stackNodes r items)).atStage .scaleCrop = (r.layers items).map s.fitting :=
  atStage_stackNodes nofun fun l => by cases h : l.source <;> simp [Layer.nodes, backdrop, h]

/-- Overlays are wired when the tiles and the lowest canvas are at hand.  The induction is on the
layers from the lowest on. -/
theorem wired_overlays {ls : List Layer} {k total : Nat} {atHand : List Pad}
    (hplace : ls.map (·.place) = List.range' k ls.length) (htotal : k + ls.length = total)
    (htile : ∀ l ∈ ls, (PadName.tile l.place).pad ∈ atHand)
    (hcanvas : ls ≠ [] → (PadName.canvasBelow k).pad ∈ atHand) :
    Wired atHand (ls.map (Layer.overlay total)) := by
  induction ls generalizing k atHand with
  | nil => trivial
  | cons l ls ih =>
    rw [List.map_cons, List.length_cons, List.range'_succ, List.cons.injEq] at hplace
    obtain ⟨rfl, hplace⟩ := hplace
    rw [List.length_cons] at htotal
    constructor
    · intro p hp
      simp only [Layer.overlay, List.mem_cons, List.not_mem_nil, or_false] at hp
      rcases hp with rfl | rfl
      · exact hcanvas (by simp)
      · exact htile l (by simp)
    · apply ih hplace (by omega)
      · exact fun m hm => List.mem_append_left _ (htile m (by simp [hm]))
      · intro hne
        have hlength : ls.length ≠ 0 := by simpa using hne
        have habove : PadName.canvasAbove total l.place = PadName.canvasBelow (l.place + 1) :=
          if_neg (by omega)
        rw [← habove]
        exact List.mem_append_right _ (by simp [Layer.overlay])

end VideoSettings

end Montage
