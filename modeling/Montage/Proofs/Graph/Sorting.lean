import Mathlib
import Montage.Graph.Text

/-!
The written order as a sort.  Gathering a list stage by stage sorts it stably, and a stable sort is
one list only; hence what a graph is written as depends on the nodes of each stage and their order,
and on nothing else about how the graph was put together.
-/

namespace Montage

namespace Stage

variable {α β : Type} {stage : α → Stage} {xs ys : List α}

/-- The stages are listed in the order of their declaration. -/
theorem all_increasing : all.Pairwise (·.ctorIdx < ·.ctorIdx) := by decide

theorem mem_all (s : Stage) : s ∈ all := by cases s <;> decide

/-- The elements of a list stage by stage. -/
def gather (stage : α → Stage) (xs : List α) : List α :=
  all.flatMap fun s => xs.filter (stage · == s)

theorem stage_eq_of_mem {x : α} {s : Stage} (hx : x ∈ xs.filter (stage · == s)) : stage x = s :=
  eq_of_beq (List.mem_filter.mp hx).2

theorem gather_map (stage : β → Stage) (f : α → β) (xs : List α) :
    gather stage (xs.map f) = (gather (fun x => stage (f x)) xs).map f := by
  simp only [gather, List.filter_map, List.map_flatMap]
  rfl

theorem filter_gather (stage : α → Stage) (xs : List α) (s : Stage) :
    (gather stage xs).filter (stage · == s) = xs.filter (stage · == s) := by
  have hgroup (t : Stage) : (xs.filter (stage · == t)).filter (stage · == s) =
      if t = s then xs.filter (stage · == s) else [] := by
    split
    case isTrue h =>
      rw [h, List.filter_filter]
      simp only [Bool.and_self]
    case isFalse h =>
      rw [List.filter_eq_nil_iff]
      intro x hx hs
      exact h ((stage_eq_of_mem hx).symm.trans (eq_of_beq hs))
  cases s <;> simp [gather, all, hgroup]

theorem gather_perm [DecidableEq α] (stage : α → Stage) (xs : List α) :
    (gather stage xs).Perm xs := by
  rw [List.perm_iff_count]
  intro x
  have hcount (s : Stage) :
      (xs.filter (stage · == s)).count x = if stage x = s then xs.count x else 0 := by
    split
    case isTrue h => exact List.count_filter (by simp [h])
    case isFalse h => exact List.count_eq_zero_of_not_mem (by simp [h])
  cases hx : stage x <;> simp [gather, all, List.count_append, hcount, hx]

theorem gather_sorted (stage : α → Stage) (xs : List α) :
    (gather stage xs).Pairwise fun x y => (stage x).ctorIdx ≤ (stage y).ctorIdx := by
  refine List.pairwise_flatMap.mpr ⟨fun s _ => ?_, all_increasing.imp fun hst x hx y hy => ?_⟩
  · refine List.pairwise_of_forall_mem_list fun x hx y hy => ?_
    rw [stage_eq_of_mem hx, stage_eq_of_mem hy]
  · rw [stage_eq_of_mem hx, stage_eq_of_mem hy]
    exact hst.le

/-- An element whose stage comes after none of the others' stages comes first. -/
theorem flatMap_filter_cons {x : α} {stages : List Stage}
    (hstages : stages.Pairwise (·.ctorIdx < ·.ctorIdx)) (hx : stage x ∈ stages)
    (h : ∀ y ∈ xs, (stage x).ctorIdx ≤ (stage y).ctorIdx) :
    stages.flatMap (fun s => (x :: xs).filter (stage · == s)) =
      x :: stages.flatMap fun s => xs.filter (stage · == s) := by
  have hskip (s : Stage) (hs : stage x ≠ s) :
      (x :: xs).filter (stage · == s) = xs.filter (stage · == s) :=
    List.filter_cons_of_neg (by simpa using hs)
  induction hstages with
  | nil => contradiction
  | @cons s rest hs _ ih =>
    rw [List.flatMap_cons, List.flatMap_cons]
    cases List.mem_cons.mp hx with
    | inl hx =>
      -- It leads the first group, and no later stage is its own.
      have hlater : rest.flatMap (fun t => (x :: xs).filter (stage · == t)) =
          rest.flatMap fun t => xs.filter (stage · == t) := by
        refine List.flatMap_congr fun t ht => hskip t ?_
        have hlt := hs t ht
        rintro rfl
        exact absurd (hx ▸ hlt) (lt_irrefl _)
      rw [hlater, List.filter_cons_of_pos (by simp [hx])]
      rfl
    | inr hx =>
      -- A stage before its own has no element at all.
      have hlt := hs _ hx
      have hnone : xs.filter (stage · == s) = [] := by
        rw [List.filter_eq_nil_iff]
        intro y hy heq
        have hle := h y hy
        rw [eq_of_beq heq] at hle
        omega
      rw [hskip s (by rintro rfl; omega), hnone, ih hx]
      rfl

theorem gather_eq_self (h : xs.Pairwise fun x y => (stage x).ctorIdx ≤ (stage y).ctorIdx) :
    gather stage xs = xs := by
  induction h with
  | nil => rfl
  | @cons x xs hx _ ih =>
    calc
      gather stage (x :: xs) = x :: gather stage xs :=
        flatMap_filter_cons all_increasing (mem_all _) hx
      _ = x :: xs := by rw [ih]

/-- There is one stable sort: the stages do not fall, and each has the elements it had. -/
theorem eq_gather_iff : ys = gather stage xs ↔
    (ys.Pairwise fun x y => (stage x).ctorIdx ≤ (stage y).ctorIdx) ∧
      ∀ s, ys.filter (stage · == s) = xs.filter (stage · == s) := by
  constructor
  · rintro rfl
    exact ⟨gather_sorted stage xs, filter_gather stage xs⟩
  · rintro ⟨hsorted, hgroups⟩
    calc
      ys = gather stage ys := (gather_eq_self hsorted).symm
      _ = gather stage xs := List.flatMap_congr fun s _ => hgroups s

theorem gather_eq_gather_iff : gather stage xs = gather stage ys ↔
    ∀ s, xs.filter (stage · == s) = ys.filter (stage · == s) := by
  rw [eq_gather_iff, and_iff_right (gather_sorted stage xs)]
  simp only [filter_gather]

theorem gather_eq_mergeSort (stage : α → Stage) (xs : List α) :
    gather stage xs = xs.mergeSort fun x y => (stage x).ctorIdx ≤ (stage y).ctorIdx := by
  have htrans (x y z : α) : decide ((stage x).ctorIdx ≤ (stage y).ctorIdx) →
      decide ((stage y).ctorIdx ≤ (stage z).ctorIdx) →
      decide ((stage x).ctorIdx ≤ (stage z).ctorIdx) := by
    simpa using Nat.le_trans
  have htotal (x y : α) : decide ((stage x).ctorIdx ≤ (stage y).ctorIdx) ||
      decide ((stage y).ctorIdx ≤ (stage x).ctorIdx) := by
    simpa using Nat.le_total _ _
  symm
  rw [eq_gather_iff]
  refine ⟨(List.pairwise_mergeSort htrans htotal xs).imp of_decide_eq_true, fun s => ?_⟩
  -- A group is in order as it stands, so that the sort keeps it, and has room for no more.
  have hgroup : (xs.filter (stage · == s)).Sublist
      (xs.mergeSort fun x y => (stage x).ctorIdx ≤ (stage y).ctorIdx) := by
    refine List.sublist_mergeSort htrans htotal ?_ List.filter_sublist
    refine List.pairwise_of_forall_mem_list fun x hx y hy => ?_
    simp [stage_eq_of_mem hx, stage_eq_of_mem hy]
  have hkept := hgroup.filter (stage · == s)
  rw [List.filter_filter] at hkept
  simp only [Bool.and_self] at hkept
  exact (hkept.eq_of_length ((List.mergeSort_perm xs _).filter _).length_eq.symm).symm

/-- The places of a list in the order of the stages that stand there, and those of one stage in
their own order. -/
structure Stable (stage : α → Stage) (xs : List α) (places : List (Fin xs.length)) : Prop where
  perm : places.Perm (List.finRange xs.length)
  stages : places.Pairwise fun i j => (stage xs[i]).ctorIdx ≤ (stage xs[j]).ctorIdx
  stable : places.Pairwise fun i j => stage xs[i] = stage xs[j] → i < j

theorem Stable.eq_gather {places : List (Fin xs.length)} (h : Stable stage xs places) :
    places = gather (fun i => stage xs[i]) (List.finRange xs.length) := by
  refine eq_gather_iff.mpr ⟨h.stages, fun s => ?_⟩
  have hplaces : (places.filter (stage xs[·] == s)).Pairwise (· < ·) := by
    refine List.pairwise_filter.mpr (h.stable.imp fun hlt hi hj => hlt ?_)
    exact (eq_of_beq hi).trans (eq_of_beq hj).symm
  have hrange : ((List.finRange xs.length).filter (stage xs[·] == s)).Pairwise (· < ·) :=
    (List.pairwise_lt_finRange _).filter _
  refine List.Perm.eq_of_pairwise (fun i j _ _ hij hji => ?_) hplaces hrange (h.perm.filter _)
  exact absurd hij hji.asymm

theorem stable_gather (stage : α → Stage) (xs : List α) :
    Stable stage xs (gather (fun i => stage xs[i]) (List.finRange xs.length)) where
  perm := gather_perm _ _
  stages := gather_sorted _ _
  stable := by
    rw [List.pairwise_iff_forall_sublist]
    intro i j hij heq
    -- Two places of one stage stand as in its group, and that is as in the list.
    have hgroup := hij.filter (stage xs[·] == stage xs[j])
    rw [filter_gather] at hgroup
    simp only [heq, List.filter_cons, beq_self_eq_true, if_true, List.filter_nil] at hgroup
    have hlt := (List.pairwise_lt_finRange _).sublist (hgroup.trans List.filter_sublist)
    simpa using hlt

/-- Whatever sorts a list stably gathers it. -/
theorem exists_stable_iff :
    (∃ places, Stable stage xs places ∧ ys = places.map (xs[·])) ↔ ys = gather stage xs := by
  have hxs : (List.finRange xs.length).map (xs[·]) = xs := List.map_get_finRange xs
  have hgather :
      (gather (fun i => stage xs[i]) (List.finRange xs.length)).map (xs[·]) = gather stage xs := by
    rw [← gather_map, hxs]
  constructor
  · rintro ⟨places, h, rfl⟩
    rw [h.eq_gather, hgather]
  · rintro rfl
    exact ⟨_, stable_gather stage xs, hgather.symm⟩

end Stage

namespace Graph

variable {g h : Graph}

@[simp] theorem atStage_append (ms ns : List Node) (s : Stage) :
    (Graph.mk (ms ++ ns)).atStage s = (Graph.mk ms).atStage s ++ (Graph.mk ns).atStage s :=
  List.filter_append ..

theorem atStage_add (g : Graph) (n : Node) (s : Stage) :
    (g.add n).atStage s = if n.stage = s then g.atStage s ++ [n] else g.atStage s := by
  rw [add, atStage_append]
  by_cases h : n.stage = s <;> simp [atStage, h]

theorem atStage_merge (g h : Graph) (s : Stage) :
    (g.merge h).atStage s = g.atStage s ++ h.atStage s := atStage_append ..

theorem ordered_eq_iff : g.ordered = h.ordered ↔ ∀ s, g.atStage s = h.atStage s :=
  Stage.gather_eq_gather_iff

theorem text_eq_of_atStage (hstages : ∀ s, g.atStage s = h.atStage s) : g.text = h.text := by
  rw [text, text, ordered_eq_iff.mpr hstages]

theorem ordered_merge (g h : Graph) :
    (g.merge h).ordered = Stage.all.flatMap fun s => g.atStage s ++ h.atStage s :=
  List.flatMap_congr fun s _ => atStage_merge g h s

end Graph

/-- The calls that put a graph together. -/
inductive Construction
  | empty
  | add (c : Construction) (n : Node)
  | merge (c d : Construction)

namespace Construction

def graph : Construction → Graph
  | empty => .empty
  | add c n => c.graph.add n
  | merge c d => c.graph.merge d.graph

/-- The nodes that a stage is given, in the order of the calls. -/
def given (s : Stage) : Construction → List Node
  | empty => []
  | add c n => if n.stage = s then c.given s ++ [n] else c.given s
  | merge c d => c.given s ++ d.given s

theorem atStage_graph (c : Construction) (s : Stage) : c.graph.atStage s = c.given s := by
  induction c with
  | empty => rfl
  | add c n ih => rw [graph, given, Graph.atStage_add, ih]
  | merge c d ihc ihd => rw [graph, given, Graph.atStage_merge, ihc, ihd]

/-- A graph is written as the nodes that were given to its stages, and the calls for one stage may
stand anywhere between those for another. -/
theorem text_graph_eq {c d : Construction} (h : ∀ s, c.given s = d.given s) :
    c.graph.text = d.graph.text := by
  apply Graph.text_eq_of_atStage
  intro s
  rw [atStage_graph, atStage_graph, h s]

end Construction

namespace Graph

/-- The written order of a graph is the stable sort of its nodes by stage and nothing else.  Graphs
are therefore written alike when each stage has the same nodes in the same order, however the calls
for different stages were interleaved, and in a merged graph each stage has its nodes of the first
graph before those of the second. -/
theorem ordered_stable (g h : Graph) :
    (∀ ns, (∃ places, Stage.Stable Node.stage g.nodes places ∧ ns = places.map (g.nodes[·])) ↔
        ns = g.ordered) ∧
      g.ordered = g.nodes.mergeSort (fun m n => m.stage.ctorIdx ≤ n.stage.ctorIdx) ∧
      (g.ordered = h.ordered ↔ ∀ s, g.atStage s = h.atStage s) ∧
      ((∀ s, g.atStage s = h.atStage s) → g.text = h.text) ∧
      (∀ c d : Construction, (∀ s, c.given s = d.given s) → c.graph.text = d.graph.text) ∧
      (g.merge h).ordered = Stage.all.flatMap fun s => g.atStage s ++ h.atStage s := by
  refine ⟨?_, ?_, ordered_eq_iff, text_eq_of_atStage, ?_, ordered_merge g h⟩
  · intro ns
    exact Stage.exists_stable_iff
  · exact Stage.gather_eq_mergeSort Node.stage g.nodes
  · intro c d hgiven
    exact Construction.text_graph_eq hgiven

def scaleNode (source tile : Pad) : Node :=
  ⟨.scaleCrop ⟨960, 540⟩ ⟨⟨0, 0⟩, ⟨960, 540⟩⟩ none, [source], [tile]⟩

/-- Two files, each added after the tile that shows it. -/
def tilesFirst : Construction :=
  (((Construction.empty.add (scaleNode (.stream 0 .video) (.tile 0))).add
    ⟨.input 0 .video, [], [.stream 0 .video]⟩).add
      (scaleNode (.stream 1 .video) (.tile 1))).add ⟨.input 1 .video, [], [.stream 1 .video]⟩

/-- The same files and tiles as two graphs that are merged. -/
def filesApart : Construction :=
  ((Construction.empty.add ⟨.input 0 .video, [], [.stream 0 .video]⟩).add
      ⟨.input 1 .video, [], [.stream 1 .video]⟩).merge
    ((Construction.empty.add (scaleNode (.stream 0 .video) (.tile 0))).add
      (scaleNode (.stream 1 .video) (.tile 1)))

theorem ordered_tilesFirst :
    (∀ s, tilesFirst.given s = filesApart.given s) ∧
      (∀ s, tilesFirst.graph.atStage s = filesApart.graph.atStage s) ∧
      tilesFirst.graph ≠ filesApart.graph ∧
      tilesFirst.graph.ordered = filesApart.graph.ordered ∧
      tilesFirst.graph.text = filesApart.graph.text := by
  have hgiven (s : Stage) : tilesFirst.given s = filesApart.given s := by cases s <;> rfl
  have hstages (s : Stage) : tilesFirst.graph.atStage s = filesApart.graph.atStage s := by
    cases s <;> rfl
  obtain ⟨-, -, hordered, -, htext, -⟩ := ordered_stable tilesFirst.graph filesApart.graph
  exact ⟨hgiven, hstages, by decide, hordered.mpr hstages, htext _ _ hgiven⟩

end Graph

end Montage
