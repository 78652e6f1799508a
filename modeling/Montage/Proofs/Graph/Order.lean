import Mathlib
import Montage.Proofs.Graph.Links

/-!
The written order.  Stages come one after the other, so a node may read whatever an earlier stage
writes; only the overlays read one another.
-/

namespace Montage

def Stage.rank (s : Stage) : Nat := Stage.all.idxOf s

theorem Stage.rank_eq_ctorIdx (s : Stage) : s.rank = s.ctorIdx := by cases s <;> rfl

theorem Stage.mem_of_rank_lt {before after : List Stage} {s t : Stage}
    (hall : Stage.all = before ++ s :: after) (h : t.rank < s.rank) : t ∈ before := by
  rw [rank_eq_ctorIdx, rank_eq_ctorIdx] at h
  have hincreasing := all_increasing
  rw [hall, List.pairwise_append, List.pairwise_cons] at hincreasing
  obtain ⟨-, ⟨hafter, -⟩, -⟩ := hincreasing
  have hmem := mem_all t
  rw [hall, List.mem_append, List.mem_cons] at hmem
  rcases hmem with hmem | rfl | hmem
  · exact hmem
  · exact absurd h (lt_irrefl _)
  · exact absurd h (hafter t hmem).asymm

namespace Graph

theorem atStage_eq_nil {ns : List Node} {s : Stage} (h : ∀ n ∈ ns, n.stage ≠ s) :
    (Graph.mk ns).atStage s = [] := by
  rw [atStage, List.filter_eq_nil_iff]
  intro n hn
  simpa using h n hn

/-- Stages that each are wired on what the stages before them write are wired one after the
other. -/
theorem wired_ordered {g : Graph}
    (h : ∀ s atHand, (∀ m ∈ g.nodes, m.stage.rank < s.rank → m.outputs ⊆ atHand) →
      Wired atHand (g.atStage s)) : Wired [] g.ordered := by
  have hrest (done rest : List Stage) (hall : Stage.all = done ++ rest) :
      Wired (written (done.flatMap g.atStage)) (rest.flatMap g.atStage) := by
    induction rest generalizing done with
    | nil => trivial
    | cons s rest ih =>
      rw [List.flatMap_cons]
      apply Wired.append
      · apply h
        intro m hm hrank p hp
        rw [mem_written]
        refine ⟨m, List.mem_flatMap.mpr ⟨m.stage, Stage.mem_of_rank_lt hall hrank, ?_⟩, hp⟩
        exact mem_atStage.mpr ⟨hm, rfl⟩
      · simpa using ih (done ++ [s]) (by simp [hall])
  exact hrest [] Stage.all rfl

end Graph

end Montage
