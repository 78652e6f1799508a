import Mathlib
import Montage.Proofs.Graph.Links
import Montage.Proofs.Guarded.Basic

/-!
The edge check as it is carried out: one pass over the nodes counts what they write and what they
read, and another one judges the counts.
-/

namespace Montage.Guarded

/-- Every count of a pad fits in its word. -/
def Fits (ps : List Pad) : Prop := ∀ p, ps.count p < UInt64.size

theorem Fits.of_append {ps qs : List Pad} (h : Fits (ps ++ qs)) : Fits ps := by
  intro p
  have := h p
  rw [List.count_append] at this
  omega

theorem Fits.of_nodup {ps : List Pad} (h : ps.Nodup) : Fits ps :=
  fun p => (List.nodup_iff_count_le_one.mp h p).trans_lt (by decide)

/-- How often each pad was counted; there is no entry for a pad that never was. -/
abbrev Tally : Type := Pad → Option Nat

namespace Tally

def empty : Tally := fun _ => none

def count (t : Tally) (p : Pad) : Except Trap Tally := do
  let n ← add ((t p).getD 0) 1
  return Function.update t p (some n)

def countAll (t : Tally) : List Pad → Except Trap Tally
  | [] => .ok t
  | p :: ps => do (← t.count p).countAll ps

/-- The tally of a list of pads. -/
def of (ps : List Pad) : Tally := fun p => if p ∈ ps then some (ps.count p) else none

theorem of_nil : of [] = empty := rfl

theorem of_eq_some {ps : List Pad} {p : Pad} (h : p ∈ ps) : of ps p = some (ps.count p) := if_pos h

theorem of_eq_none {ps : List Pad} {p : Pad} (h : p ∉ ps) : of ps p = none := if_neg h

theorem getD_of (ps : List Pad) (p : Pad) : (of ps p).getD 0 = ps.count p := by
  by_cases h : p ∈ ps
  · rw [of_eq_some h, Option.getD_some]
  · rw [of_eq_none h, Option.getD_none, List.count_eq_zero_of_not_mem h]

theorem update_of (ps : List Pad) (p : Pad) :
    Function.update (of ps) p (some (ps.count p + 1)) = of (ps ++ [p]) := by
  funext q
  by_cases hq : q = p
  · subst hq
    simp [of]
  · simp [of, hq, Ne.symm hq]

theorem count_of {ps : List Pad} {p : Pad} (h : ps.count p + 1 < UInt64.size) :
    (of ps).count p = .ok (of (ps ++ [p])) := by
  rw [count, getD_of, add_eq_ok h]
  exact congrArg Except.ok (update_of ps p)

theorem countAll_of {ps qs : List Pad} (h : Fits (ps ++ qs)) :
    (of ps).countAll qs = .ok (of (ps ++ qs)) := by
  induction qs generalizing ps with
  | nil => rw [countAll, List.append_nil]
  | cons p qs ih =>
    have hp : ps.count p + 1 < UInt64.size := by
      have := h p
      simp only [List.count_append, List.count_cons_self] at this
      omega
    have hrest : (of (ps ++ [p])).countAll qs = .ok (of (ps ++ p :: qs)) := by
      rw [ih (by simpa using h), List.append_assoc, List.singleton_append]
    rw [countAll, count_of hp]
    exact hrest

end Tally

/-- Counts what nodes write in one table and what they read in another. -/
def countNodes (written read : Tally) : List Node → Except Trap (Tally × Tally)
  | [] => .ok (written, read)
  | n :: ns => do
    let written ← written.countAll n.outputs
    let read ← read.countAll n.inputs
    countNodes written read ns

theorem countNodes_of {ws rs : List Pad} {ns : List Node}
    (hw : Fits (ws ++ written ns)) (hr : Fits (rs ++ consulted ns)) :
    countNodes (.of ws) (.of rs) ns =
      .ok (.of (ws ++ written ns), .of (rs ++ consulted ns)) := by
  induction ns generalizing ws rs with
  | nil => simp [countNodes]
  | cons n ns ih =>
    simp only [written_cons, consulted_cons, ← List.append_assoc] at hw hr ⊢
    rw [countNodes, Tally.countAll_of hw.of_append, Tally.countAll_of hr.of_append]
    exact ih hw hr

/-- What is wrong with a pad that some node writes. -/
def outputFault? (written read : Tally) (p : Pad) : Except Trap (Option EdgeError) :=
  match written p with
  | none => .error (.uncounted p)
  | some n =>
    if 1 < n then .ok (some (.duplicateProducer p))
    else
      match read p with
      | none => .ok (some (.unconsumed p))
      | some m => .ok (if 1 < m then some (.duplicateConsumer p) else none)

theorem outputFault?_of {ws rs : List Pad} {p : Pad} (h : p ∈ ws) :
    outputFault? (.of ws) (.of rs) p = .ok (Graph.outputFault? ws rs p) := by
  rw [outputFault?, Tally.of_eq_some h, Graph.outputFault?]
  by_cases hp : p ∈ rs
  · have hpos := List.count_pos_iff.mpr hp
    simp only [Tally.of_eq_some hp, hpos.ne', if_false]
    split <;> rfl
  · simp only [Tally.of_eq_none hp, List.count_eq_zero_of_not_mem hp, if_true]
    split <;> rfl

def firstFault? (written read : Tally) : List Pad → Except Trap (Option EdgeError)
  | [] => .ok none
  | p :: ps => do
    match ← outputFault? written read p with
    | some e => return some e
    | none => firstFault? written read ps

theorem firstFault?_of {ws rs ps : List Pad} (h : ps ⊆ ws) :
    firstFault? (.of ws) (.of rs) ps = .ok (ps.findSome? (Graph.outputFault? ws rs)) := by
  induction ps with
  | nil => rfl
  | cons p ps ih =>
    rw [List.cons_subset] at h
    rw [firstFault?, outputFault?_of h.1, List.findSome?_cons]
    cases Graph.outputFault? ws rs p with
    | none => exact ih h.2
    | some e => rfl

def checkEdges (g : Graph) (terminals : List Pad) : Except Trap (Except EdgeError Unit) := do
  let (written, read) ← countNodes .empty .empty g.nodes
  let read ← read.countAll terminals
  match ← firstFault? written read g.produced with
  | some e => return .error e
  | none =>
    match (g.consumed ++ terminals).find? fun p => (written p).isNone with
    | some p => return .error (.dangling p)
    | none => return .ok ()

/-- The guarded edge check is the edge check, as long as every count fits in its word. -/
theorem checkEdges_eq {g : Graph} {terminals : List Pad} (hw : Fits g.produced)
    (hr : Fits (g.consumed ++ terminals)) :
    checkEdges g terminals = .ok (g.checkEdges terminals) := by
  have hnodes : countNodes .empty .empty g.nodes = .ok (.of g.produced, .of g.consumed) := by
    rw [← Tally.of_nil]
    exact countNodes_of hw hr.of_append
  have hmissing (p : Pad) : (Tally.of g.produced p).isNone = !g.produced.contains p := by
    by_cases hp : p ∈ g.produced <;> simp [Tally.of, hp]
  rw [checkEdges, hnodes, ok_bind]
  dsimp only
  rw [Tally.countAll_of hr, ok_bind, firstFault?_of (List.Subset.refl _), ok_bind, Graph.checkEdges]
  simp only [hmissing]
  cases g.produced.findSome? (Graph.outputFault? g.produced (g.consumed ++ terminals)) with
  | some e => rfl
  | none => cases (g.consumed ++ terminals).find? fun p => !g.produced.contains p <;> rfl

end Montage.Guarded
