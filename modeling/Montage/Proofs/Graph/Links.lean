import Mathlib
import Montage.Proofs.Graph.Sorting

/-!
How the nodes of a graph are joined.  A graph is linked when each of its pads is written once and
read once, which is what its edge check decides; a sequence of nodes is wired when each node reads
only what stands written before it.
-/

namespace Montage

def written (ns : List Node) : List Pad := ns.flatMap (·.outputs)

def consulted (ns : List Node) : List Pad := ns.flatMap (·.inputs)

@[simp] theorem written_nil : written [] = [] := rfl

@[simp] theorem written_cons (n : Node) (ns : List Node) :
    written (n :: ns) = n.outputs ++ written ns := List.flatMap_cons

@[simp] theorem written_append (ms ns : List Node) :
    written (ms ++ ns) = written ms ++ written ns := List.flatMap_append

@[simp] theorem consulted_nil : consulted [] = [] := rfl

@[simp] theorem consulted_cons (n : Node) (ns : List Node) :
    consulted (n :: ns) = n.inputs ++ consulted ns := List.flatMap_cons

@[simp] theorem consulted_append (ms ns : List Node) :
    consulted (ms ++ ns) = consulted ms ++ consulted ns := List.flatMap_append

theorem mem_written {p : Pad} {ns : List Node} :
    p ∈ written ns ↔ ∃ n ∈ ns, p ∈ n.outputs := List.mem_flatMap

theorem mem_consulted {p : Pad} {ns : List Node} :
    p ∈ consulted ns ↔ ∃ n ∈ ns, p ∈ n.inputs := List.mem_flatMap

/-- Each pad is written once, and read once by a node or as a terminal. -/
structure Linked (ns : List Node) (terminals : List Pad) : Prop where
  written_nodup : (written ns).Nodup
  paired : (written ns).Perm (consulted ns ++ terminals)

namespace Linked

variable {ns : List Node} {terminals : List Pad}

theorem read_nodup (h : Linked ns terminals) : (consulted ns ++ terminals).Nodup :=
  h.paired.nodup_iff.mp h.written_nodup

theorem mem_iff (h : Linked ns terminals) {p : Pad} :
    p ∈ written ns ↔ p ∈ consulted ns ++ terminals := h.paired.mem_iff

/-- Two linked lists with no pad in common stay linked side by side. -/
theorem append {ms : List Node} {ts : List Pad} (h : Linked ns terminals) (h' : Linked ms ts)
    (hd : List.Disjoint (written ns) (written ms)) :
    Linked (ns ++ ms) (terminals ++ ts) where
  written_nodup := by
    rw [written_append]
    exact h.written_nodup.append h'.written_nodup hd
  paired := by
    rw [written_append, consulted_append]
    calc
      (written ns ++ written ms).Perm
          ((consulted ns ++ terminals) ++ (consulted ms ++ ts)) := h.paired.append h'.paired
      _ = consulted ns ++ (terminals ++ consulted ms) ++ ts := by simp
      _ |>.Perm (consulted ns ++ (consulted ms ++ terminals) ++ ts) :=
        (List.perm_append_comm.append_left _).append_right _
      _ = consulted ns ++ consulted ms ++ (terminals ++ ts) := by simp

end Linked

theorem eq_of_mem_outputs {ns : List Node} (h : (written ns).Nodup) {m n : Node} (hm : m ∈ ns)
    (hn : n ∈ ns) {p : Pad} (hpm : p ∈ m.outputs) (hpn : p ∈ n.outputs) : m = n := by
  by_contra hne
  have hsymm : Std.Symm (Function.onFun List.Disjoint fun n : Node => n.outputs) :=
    ⟨fun _ _ hd => List.Disjoint.symm hd⟩
  exact (List.nodup_flatMap.mp h).2.forall hm hn hne hpm hpn

namespace Graph

def writer? (g : Graph) (p : Pad) : Option Node := g.nodes.find? (p ∈ ·.outputs)

theorem mem_of_writer?_eq_some {g : Graph} {p : Pad} {n : Node} (h : g.writer? p = some n) :
    n ∈ g.nodes ∧ p ∈ n.outputs :=
  ⟨List.mem_of_find?_eq_some h, by simpa using List.find?_some h⟩

theorem writer?_eq_some {g : Graph} (h : (written g.nodes).Nodup) {n : Node} (hn : n ∈ g.nodes)
    {p : Pad} (hp : p ∈ n.outputs) : g.writer? p = some n := by
  cases hw : g.writer? p with
  | none =>
    rw [writer?, List.find?_eq_none] at hw
    simpa [hp] using hw n hn
  | some m =>
    obtain ⟨hm, hpm⟩ := mem_of_writer?_eq_some hw
    rw [eq_of_mem_outputs h hm hn hpm hp]

theorem outputFault?_eq_none_iff {w r : List Pad} {p : Pad} :
    outputFault? w r p = none ↔ w.count p ≤ 1 ∧ r.count p = 1 := by
  unfold outputFault?
  split
  · simp; omega
  · split
    · simp; omega
    · split <;> simp <;> omega

/-- The edge check with the pads that are read gone through in an order of their own. -/
def checkEdgesIn (g : Graph) (terminals order : List Pad) : Except EdgeError Unit :=
  match g.produced.findSome? (outputFault? g.produced (g.consumed ++ terminals)) with
  | some e => .error e
  | none =>
    match order.find? fun p => !g.produced.contains p with
    | some p => .error (.dangling p)
    | none => .ok ()

theorem checkEdges_eq_checkEdgesIn (g : Graph) (terminals : List Pad) :
    g.checkEdges terminals = g.checkEdgesIn terminals (g.consumed ++ terminals) := rfl

theorem checkEdgesIn_eq_ok_iff {g : Graph} {terminals order : List Pad} :
    g.checkEdgesIn terminals order = .ok () ↔
      (∀ p ∈ written g.nodes, outputFault? (written g.nodes) (consulted g.nodes ++ terminals) p
        = none) ∧ ∀ p ∈ order, p ∈ written g.nodes := by
  unfold checkEdgesIn produced consumed
  simp only [written, consulted]
  split
  case h_1 e he =>
    obtain ⟨p, hp, hf⟩ := List.exists_of_findSome?_eq_some he
    simp only [reduceCtorEq, false_iff, not_and]
    intro h
    rw [h p hp] at hf
    contradiction
  case h_2 he =>
    rw [List.findSome?_eq_none_iff] at he
    split
    case h_1 p hp =>
      simp only [reduceCtorEq, false_iff, not_and]
      intro _ h
      have hc := List.find?_some hp
      simp [h p (List.mem_of_find?_eq_some hp)] at hc
    case h_2 hp =>
      rw [List.find?_eq_none] at hp
      exact ⟨fun _ => ⟨he, fun p h => by simpa using hp p h⟩, fun _ => rfl⟩

/-- The edge check passes exactly the linked graphs. -/
theorem checkEdges_eq_ok_iff {g : Graph} {terminals : List Pad} :
    g.checkEdges terminals = .ok () ↔ Linked g.nodes terminals := by
  rw [checkEdges_eq_checkEdgesIn, checkEdgesIn_eq_ok_iff]
  constructor
  · rintro ⟨hw, hr⟩
    have hcount (p : Pad) (hp : p ∈ written g.nodes) := outputFault?_eq_none_iff.mp (hw p hp)
    have hnw : (written g.nodes).Nodup := by
      rw [List.nodup_iff_count_le_one]
      intro p
      by_cases hp : p ∈ written g.nodes
      · exact (hcount p hp).1
      · simp [List.count_eq_zero_of_not_mem hp]
    have hnr : (consulted g.nodes ++ terminals).Nodup := by
      rw [List.nodup_iff_count_le_one]
      intro p
      by_cases hp : p ∈ consulted g.nodes ++ terminals
      · exact (hcount p (hr p hp)).2.le
      · rw [List.count_eq_zero_of_not_mem hp]; exact Nat.zero_le 1
    refine ⟨hnw, (List.perm_ext_iff_of_nodup hnw hnr).mpr fun p => ⟨fun hp => ?_, hr p⟩⟩
    exact List.count_pos_iff.mp (by rw [(hcount p hp).2]; exact Nat.one_pos)
  · intro h
    refine ⟨fun p hp => outputFault?_eq_none_iff.mpr ⟨?_, ?_⟩, fun p hp => h.mem_iff.mpr hp⟩
    · exact List.nodup_iff_count_le_one.mp h.written_nodup p
    · exact List.count_eq_one_of_mem h.read_nodup (h.mem_iff.mp hp)

theorem ordered_perm (g : Graph) : g.ordered.Perm g.nodes := Stage.gather_perm Node.stage g.nodes

theorem mem_atStage {g : Graph} {s : Stage} {n : Node} :
    n ∈ g.atStage s ↔ n ∈ g.nodes ∧ n.stage = s := by
  simp [atStage]

end Graph

/-- Each node reads only pads that are at hand or that a node before it writes. -/
def Wired : List Pad → List Node → Prop
  | _, [] => True
  | atHand, n :: rest => (∀ p ∈ n.inputs, p ∈ atHand) ∧ Wired (atHand ++ n.outputs) rest

namespace Wired

variable {atHand : List Pad} {ms ns : List Node}

theorem mono {atHand' : List Pad} (h : Wired atHand ns) (hs : atHand ⊆ atHand') :
    Wired atHand' ns := by
  induction ns generalizing atHand atHand' with
  | nil => trivial
  | cons n ns ih =>
    refine ⟨fun p hp => hs (h.1 p hp), ih h.2 ?_⟩
    exact List.append_subset.mpr ⟨List.subset_append_of_subset_left _ hs, by simp⟩

theorem append (h : Wired atHand ms) (h' : Wired (atHand ++ written ms) ns) :
    Wired atHand (ms ++ ns) := by
  induction ms generalizing atHand with
  | nil => simpa using h'
  | cons m ms ih => exact ⟨h.1, ih h.2 (by simpa using h')⟩

theorem of_forall (h : ∀ n ∈ ns, ∀ p ∈ n.inputs, p ∈ atHand) : Wired atHand ns := by
  induction ns generalizing atHand with
  | nil => trivial
  | cons n ns ih =>
    refine ⟨h n (by simp), ih fun m hm p hp => ?_⟩
    exact List.mem_append_left _ (h m (by simp [hm]) p hp)

theorem filter {keep : Node → Bool} (h : Wired atHand ns)
    (hd : ∀ n ∈ ns, keep n = false → n.outputs ⊆ atHand) : Wired atHand (ns.filter keep) := by
  induction ns generalizing atHand with
  | nil => trivial
  | cons n ns ih =>
    have htail (a : List Pad) : ∀ m ∈ ns, keep m = false → m.outputs ⊆ atHand ++ a :=
      fun m hm hk => List.subset_append_of_subset_left _ (hd m (by simp [hm]) hk)
    cases hk : keep n with
    | true =>
      rw [List.filter_cons_of_pos hk]
      exact ⟨h.1, ih h.2 (htail _)⟩
    | false =>
      rw [List.filter_cons_of_neg (by simp [hk])]
      refine (ih h.2 (htail _)).mono ?_
      exact List.append_subset.mpr ⟨List.Subset.refl _, hd n (by simp) hk⟩

/-- What a node reads is at hand or written by a node strictly before it. -/
theorem exists_writer (h : Wired atHand ns) {i : Nat} {n : Node} (hn : ns[i]? = some n) {p : Pad}
    (hp : p ∈ n.inputs) : p ∈ atHand ∨ ∃ j < i, ∃ m, ns[j]? = some m ∧ p ∈ m.outputs := by
  induction ns generalizing atHand i with
  | nil => simp at hn
  | cons m ns ih =>
    cases i with
    | zero =>
      obtain rfl : m = n := by simpa using hn
      exact .inl (h.1 p hp)
    | succ i =>
      rcases ih h.2 (by simpa using hn) with hm | ⟨j, hj, k, hk, hpk⟩
      · cases List.mem_append.mp hm with
        | inl hm => exact .inl hm
        | inr hm => exact .inr ⟨0, by omega, m, by simp, hm⟩
      · exact .inr ⟨j + 1, by omega, k, by simpa using hk, hpk⟩

/-- A pad that a list writes and reads, it reads after the node that writes it. -/
theorem mem_consulted_drop (h : Wired atHand ns) (hn : (atHand ++ written ns).Nodup) {i : Nat}
    {n : Node} (hi : ns[i]? = some n) {p : Pad} (hp : p ∈ n.outputs) (hr : p ∈ consulted ns) :
    p ∈ consulted (ns.drop (i + 1)) := by
  obtain ⟨m, hm, hpm⟩ := mem_consulted.mp hr
  obtain ⟨k, hk⟩ := List.mem_iff_getElem?.mp hm
  have hnew : p ∉ atHand := by
    intro ha
    exact (List.nodup_append.mp hn).2.2 p ha p
      (mem_written.mpr ⟨n, List.mem_of_getElem? hi, hp⟩) rfl
  obtain ha | ⟨j, hj, l, hl, hpl⟩ := h.exists_writer hk hpm
  · exact absurd ha hnew
  · obtain rfl : j = i := by
      by_contra hne
      have hdisjoint := (List.nodup_flatMap.mp (List.nodup_append.mp hn).2.1).2
      rw [List.pairwise_iff_getElem] at hdisjoint
      obtain ⟨hil, rfl⟩ := List.getElem?_eq_some_iff.mp hi
      obtain ⟨hjl, rfl⟩ := List.getElem?_eq_some_iff.mp hl
      cases Nat.lt_or_gt_of_ne hne with
      | inl hlt => exact hdisjoint j i hjl hil hlt hpl hp
      | inr hlt => exact hdisjoint i j hil hjl hlt hp hpl
    refine mem_consulted.mpr ⟨m, List.mem_of_getElem? (i := k - (j + 1)) ?_, hpm⟩
    rw [List.getElem?_drop, ← hk]
    congr 1
    omega

end Wired

theorem consulted_filter {ns : List Node} {keep : Node → Bool}
    (h : ∀ n ∈ ns, keep n = false → n.inputs = []) : consulted (ns.filter keep) = consulted ns := by
  induction ns with
  | nil => rfl
  | cons n ns ih =>
    have hrest := ih fun m hm => h m (by simp [hm])
    cases hk : keep n with
    | true => rw [List.filter_cons_of_pos hk, consulted_cons, consulted_cons, hrest]
    | false =>
      rw [List.filter_cons_of_neg (by simp [hk]), consulted_cons, h n (by simp) hk, hrest]
      rfl

end Montage
