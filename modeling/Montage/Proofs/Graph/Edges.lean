import Mathlib
import Montage.Proofs.Graph.Links

/-!
What the edge check decides.  A graph passes exactly if each of its pads is written once and read
once, so nothing hangs on the order of its nodes and pads.  A graph that does not pass is refused
for a pad that has the very fault it is refused for, and for the first such pad among those that
are written.
-/

namespace Montage

/-- Written once and read once. -/
def Pad.Joined (written read : List Pad) (p : Pad) : Prop :=
  written.count p = 1 ∧ read.count p = 1

namespace EdgeError

def pad : EdgeError → Pad
  | .duplicateProducer p => p
  | .duplicateConsumer p => p
  | .dangling p => p
  | .unconsumed p => p

/-- The pad has the fault that the error names. -/
def Holds (written read : List Pad) : EdgeError → Prop
  | .duplicateProducer p => 2 ≤ written.count p
  | .unconsumed p => written.count p = 1 ∧ read.count p = 0
  | .duplicateConsumer p => written.count p = 1 ∧ 2 ≤ read.count p
  | .dangling p => 1 ≤ read.count p ∧ written.count p = 0

/-- No pad that is looked at before has a fault.  Those that are written are looked at first. -/
def IsFirst (written read : List Pad) : EdgeError → Prop
  | .dangling _ => ∀ q ∈ written, q.Joined written read
  | e => ∃ before after, written = before ++ e.pad :: after ∧
      ∀ q ∈ before, q.Joined written read

end EdgeError

/-- The same node with its pads in another order. -/
structure Node.Rearranged (m n : Node) : Prop where
  kind_eq : m.kind = n.kind
  inputs_perm : m.inputs.Perm n.inputs
  outputs_perm : m.outputs.Perm n.outputs

namespace Graph

variable {g h : Graph} {terminals order : List Pad} {e : EdgeError}

/-- Every pad that occurs anywhere is written once and read once. -/
def EachOnce (g : Graph) (terminals : List Pad) : Prop :=
  ∀ p ∈ g.produced ++ (g.consumed ++ terminals), p.Joined g.produced (g.consumed ++ terminals)

/-- The nodes in another order, each with its pads in another order. -/
def Rearranged (g h : Graph) : Prop :=
  ∃ ns, g.nodes.Perm ns ∧ List.Forall₂ Node.Rearranged ns h.nodes

theorem eachOnce_iff_linked : g.EachOnce terminals ↔ Linked g.nodes terminals := by
  constructor
  · intro honce
    have hcount (p : Pad) : g.produced.count p = (g.consumed ++ terminals).count p ∧
        g.produced.count p ≤ 1 := by
      by_cases hp : p ∈ g.produced ++ (g.consumed ++ terminals)
      · obtain ⟨hw, hr⟩ := honce p hp
        omega
      · rw [List.mem_append, not_or] at hp
        rw [List.count_eq_zero_of_not_mem hp.1, List.count_eq_zero_of_not_mem hp.2]
        omega
    exact ⟨List.nodup_iff_count_le_one.mpr fun p => (hcount p).2,
      List.perm_iff_count.mpr fun p => (hcount p).1⟩
  · intro hlinked p hp
    have hw : p ∈ written g.nodes := by
      cases List.mem_append.mp hp with
      | inl hp => exact hp
      | inr hp => exact hlinked.mem_iff.mpr hp
    exact ⟨List.count_eq_one_of_mem hlinked.written_nodup hw,
      List.count_eq_one_of_mem hlinked.read_nodup (hlinked.mem_iff.mp hw)⟩

theorem flatMap_perm_of_forall₂ {f : Node → List Pad} {ms ns : List Node}
    (hf : ∀ m n, Node.Rearranged m n → (f m).Perm (f n))
    (hnodes : List.Forall₂ Node.Rearranged ms ns) : (ms.flatMap f).Perm (ns.flatMap f) := by
  induction hnodes with
  | nil => exact .refl _
  | cons hmn _ ih => exact (hf _ _ hmn).append ih

theorem Rearranged.produced_perm (hgh : g.Rearranged h) : g.produced.Perm h.produced := by
  obtain ⟨ns, hperm, hnodes⟩ := hgh
  exact (hperm.flatMap_right _).trans
    (flatMap_perm_of_forall₂ (fun _ _ hmn => hmn.outputs_perm) hnodes)

theorem Rearranged.consumed_perm (hgh : g.Rearranged h) : g.consumed.Perm h.consumed := by
  obtain ⟨ns, hperm, hnodes⟩ := hgh
  exact (hperm.flatMap_right _).trans
    (flatMap_perm_of_forall₂ (fun _ _ hmn => hmn.inputs_perm) hnodes)

theorem Rearranged.eachOnce_iff {ends : List Pad} (hgh : g.Rearranged h)
    (hends : terminals.Perm ends) : g.EachOnce terminals ↔ h.EachOnce ends := by
  have hwritten := hgh.produced_perm
  have hread := hgh.consumed_perm.append hends
  simp only [EachOnce, Pad.Joined, (hwritten.append hread).mem_iff, hwritten.count_eq,
    hread.count_eq]

theorem joined_of_outputFault?_eq_none {w r : List Pad} {p : Pad} (hp : p ∈ w)
    (hfault : outputFault? w r p = none) : p.Joined w r := by
  obtain ⟨hle, hread⟩ := outputFault?_eq_none_iff.mp hfault
  exact ⟨le_antisymm hle (List.count_pos_iff.mpr hp), hread⟩

/-- A fault that is found at a written pad is the fault of that pad. -/
theorem holds_of_outputFault? {w r before after : List Pad} {p : Pad}
    (hw : w = before ++ p :: after) (hbefore : ∀ q ∈ before, outputFault? w r q = none)
    (hfault : outputFault? w r p = some e) : e.Holds w r ∧ e.IsFirst w r := by
  have hp : 1 ≤ w.count p := List.count_pos_iff.mpr (by simp [hw])
  have hjoined : ∀ q ∈ before, q.Joined w r :=
    fun q hq => joined_of_outputFault?_eq_none (by simp [hw, hq]) (hbefore q hq)
  unfold outputFault? at hfault
  split at hfault
  case isTrue htwice =>
    obtain rfl := Option.some.inj hfault
    exact ⟨htwice, before, after, hw, hjoined⟩
  case isFalse hwritten =>
    have hone : w.count p = 1 := by omega
    split at hfault
    case isTrue hunread =>
      obtain rfl := Option.some.inj hfault
      exact ⟨⟨hone, hunread⟩, before, after, hw, hjoined⟩
    case isFalse =>
      split at hfault
      case isTrue htwice =>
        obtain rfl := Option.some.inj hfault
        exact ⟨⟨hone, htwice⟩, before, after, hw, hjoined⟩
      case isFalse => contradiction

theorem outputFault?_eq_none_of_joined {w r : List Pad} {p : Pad} (hp : p.Joined w r) :
    outputFault? w r p = none :=
  outputFault?_eq_none_iff.mpr ⟨hp.1.le, hp.2⟩

theorem outputFault?_of_holds {w r : List Pad} (hne : ∀ p, e ≠ .dangling p) (hholds : e.Holds w r) :
    outputFault? w r e.pad = some e := by
  cases e with
  | duplicateProducer p => exact if_pos hholds
  | unconsumed p => simp [outputFault?, EdgeError.pad, hholds.1, hholds.2]
  | duplicateConsumer p =>
    have hread : (r.count p ≠ 0) ∧ 1 < r.count p := by have := hholds.2; omega
    simp [outputFault?, EdgeError.pad, hholds.1, hread]
  | dangling p => exact absurd rfl (hne p)

theorem holds_of_checkEdgesIn (horder : ∀ p, p ∈ order ↔ p ∈ g.consumed ++ terminals)
    (herror : g.checkEdgesIn terminals order = .error e) :
    e.Holds g.produced (g.consumed ++ terminals) ∧
      e.IsFirst g.produced (g.consumed ++ terminals) := by
  unfold checkEdgesIn at herror
  split at herror
  case h_1 hfound =>
    obtain rfl := Except.error.inj herror
    obtain ⟨before, p, after, hw, hfault, hbefore⟩ := List.findSome?_eq_some_iff.mp hfound
    exact holds_of_outputFault? hw hbefore hfault
  case h_2 hnone =>
    have hjoined : ∀ q ∈ g.produced, q.Joined g.produced (g.consumed ++ terminals) :=
      fun q hq => joined_of_outputFault?_eq_none hq (List.findSome?_eq_none_iff.mp hnone q hq)
    split at herror
    case h_1 p hfound =>
      obtain rfl := Except.error.inj herror
      have hread := (horder p).mp (List.mem_of_find?_eq_some hfound)
      have hunwritten : p ∉ g.produced := by simpa using List.find?_some hfound
      exact ⟨⟨List.count_pos_iff.mpr hread, List.count_eq_zero_of_not_mem hunwritten⟩, hjoined⟩
    case h_2 => contradiction

theorem exists_order_of_holds (hholds : e.Holds g.produced (g.consumed ++ terminals))
    (hfirst : e.IsFirst g.produced (g.consumed ++ terminals)) :
    ∃ order, (∀ p, p ∈ order ↔ p ∈ g.consumed ++ terminals) ∧
      g.checkEdgesIn terminals order = .error e := by
  unfold checkEdgesIn
  cases e with
  | dangling p =>
    -- The pad itself comes up first.
    have hread : p ∈ g.consumed ++ terminals := List.count_pos_iff.mp hholds.1
    have hnone : g.produced.findSome? (outputFault? g.produced (g.consumed ++ terminals)) = none :=
      List.findSome?_eq_none_iff.mpr fun q hq => outputFault?_eq_none_of_joined (hfirst q hq)
    refine ⟨p :: (g.consumed ++ terminals), ?_, ?_⟩
    · intro q
      rw [List.mem_cons, or_iff_right_of_imp]
      rintro rfl
      exact hread
    · simp [hnone, List.count_eq_zero.mp hholds.2]
  | duplicateProducer p | unconsumed p | duplicateConsumer p =>
    obtain ⟨before, after, hw, hbefore⟩ := hfirst
    have hfault := outputFault?_of_holds (by simp) hholds
    have hfound := List.findSome?_eq_some_iff.mpr
      ⟨before, _, after, hw, hfault, fun q hq => outputFault?_eq_none_of_joined (hbefore q hq)⟩
    exact ⟨_, fun _ => Iff.rfl, by rw [hfound]⟩

/-- The errors that the edge check can report: the order in which the read pads come up decides
between dangling pads and nothing else. -/
theorem exists_order_iff :
    (∃ order, (∀ p, p ∈ order ↔ p ∈ g.consumed ++ terminals) ∧
        g.checkEdgesIn terminals order = .error e) ↔
      e.Holds g.produced (g.consumed ++ terminals) ∧
        e.IsFirst g.produced (g.consumed ++ terminals) :=
  ⟨fun ⟨_, horder, herror⟩ => holds_of_checkEdgesIn horder herror,
    fun ⟨hholds, hfirst⟩ => exists_order_of_holds hholds hfirst⟩

theorem checkEdgesIn_eq_ok_congr (horder : ∀ p, p ∈ order ↔ p ∈ g.consumed ++ terminals) :
    g.checkEdgesIn terminals order = .ok () ↔ g.checkEdges terminals = .ok () := by
  rw [checkEdges_eq_checkEdgesIn, checkEdgesIn_eq_ok_iff, checkEdgesIn_eq_ok_iff]
  simp only [horder]

/-- The edge check passes exactly the graphs in which every pad is written once and read once,
however nodes, pads and terminals are ordered.  What it refuses has the fault it names, and the
pad is the first of the written ones with a fault unless none of them has one.  All this holds in
whichever order the read pads are gone through. -/
theorem checkEdges_decides (g : Graph) (terminals : List Pad) :
    (g.checkEdges terminals = .ok () ↔ g.EachOnce terminals) ∧
      (∀ h ends, g.Rearranged h → terminals.Perm ends →
        (g.checkEdges terminals = .ok () ↔ h.checkEdges ends = .ok ())) ∧
      (∀ e, g.checkEdges terminals = .error e →
        e.Holds g.produced (g.consumed ++ terminals) ∧
          e.IsFirst g.produced (g.consumed ++ terminals)) ∧
      ∀ order, (∀ p, p ∈ order ↔ p ∈ g.consumed ++ terminals) →
        (g.checkEdgesIn terminals order = .ok () ↔ g.checkEdges terminals = .ok ()) ∧
          ∀ e, g.checkEdgesIn terminals order = .error e →
            e.Holds g.produced (g.consumed ++ terminals) ∧
              e.IsFirst g.produced (g.consumed ++ terminals) := by
  have hdecides (g : Graph) (terminals : List Pad) :
      g.checkEdges terminals = .ok () ↔ g.EachOnce terminals :=
    checkEdges_eq_ok_iff.trans eachOnce_iff_linked.symm
  refine ⟨hdecides g terminals, ?_, ?_, ?_⟩
  · intro h ends hgh hends
    rw [hdecides, hdecides, hgh.eachOnce_iff hends]
  · intro e herror
    exact holds_of_checkEdgesIn (fun _ => Iff.rfl) herror
  · intro order horder
    exact ⟨checkEdgesIn_eq_ok_congr horder, fun e => holds_of_checkEdgesIn horder⟩

/-- A stream that two nodes read. -/
def fork : Graph :=
  ⟨[⟨.input 0 .video, [], [.stream 0 .video]⟩,
    ⟨.split 2, [.stream 0 .video], [.copy 0 0, .copy 0 1]⟩,
    ⟨.split 1, [.stream 0 .video], [.tile 0]⟩]⟩

def forkRearranged : Graph :=
  ⟨[⟨.split 1, [.stream 0 .video], [.tile 0]⟩,
    ⟨.split 2, [.stream 0 .video], [.copy 0 1, .copy 0 0]⟩,
    ⟨.input 0 .video, [], [.stream 0 .video]⟩]⟩

theorem checkEdges_fork :
    let ends := [.copy 0 0, .copy 0 1, .tile 0]
    let order := (fork.consumed ++ ends).reverse
    let fault := .duplicateConsumer (.stream 0 .video)
    (fork.Rearranged forkRearranged ∧ ends.Perm ends.reverse ∧
        (∀ p, p ∈ order ↔ p ∈ fork.consumed ++ ends) ∧ fork.checkEdges ends = .error fault) ∧
      (fork.checkEdges ends = .ok () ↔ forkRearranged.checkEdges ends.reverse = .ok ()) ∧
        (fork.checkEdgesIn ends order = .ok () ↔ fork.checkEdges ends = .ok ()) ∧
          fault.Holds fork.produced (fork.consumed ++ ends) ∧
            fault.IsFirst fork.produced (fork.consumed ++ ends) := by
  intro ends order fault
  have hperm := (List.reverse_perm ends).symm
  have horder (p : Pad) : p ∈ order ↔ p ∈ fork.consumed ++ ends := List.mem_reverse
  have hnodes : fork.Rearranged forkRearranged := by
    refine ⟨fork.nodes.reverse, (List.reverse_perm _).symm, .cons ?_ (.cons ?_ (.cons ?_ .nil))⟩
    · exact ⟨rfl, .refl _, .refl _⟩
    · exact ⟨rfl, .refl _, .swap ..⟩
    · exact ⟨rfl, .refl _, .refl _⟩
  have herror : fork.checkEdges ends = .error fault := by decide +kernel
  obtain ⟨-, hrearranged, hfault, hany⟩ := checkEdges_decides fork ends
  exact ⟨⟨hnodes, hperm, horder, herror⟩, hrearranged _ _ hnodes hperm, (hany order horder).1,
    hfault _ herror⟩

end Graph

end Montage
