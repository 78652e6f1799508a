import Mathlib
import Montage.Proofs.Graph.Links
import Montage.Proofs.Layout.Regions
import Montage.Proofs.Timeline.Moments

/-!
What a graph shows.  A node makes its picture from the pictures it reads, and a graph is played by
pads that carry the pictures its nodes make.  How a picture is scaled and graded is left to a
processor, of which only this is known: a picture that has its size already stays as it is.
-/

namespace Montage

structure Picture (κ : Type) where
  size : Size
  colour : ℝ → Nat → Nat → κ

structure Processor (κ : Type) where
  black : κ
  scale : Option Grade → Size → Picture κ → ℝ → Nat → Nat → κ
  scale_self : ∀ (p : Picture κ) (τ : ℝ) (x y : Nat), x < p.size.width.toNat →
    y < p.size.height.toNat → scale none p.size p τ x y = p.colour τ x y

def Rect.Contains (r : Rect) (x y : Nat) : Prop :=
  (r.origin.x.toNat ≤ x ∧ x < r.origin.x.toNat + r.size.width.toNat) ∧
    r.origin.y.toNat ≤ y ∧ y < r.origin.y.toNat + r.size.height.toNat

instance (r : Rect) (x y : Nat) : Decidable (r.Contains x y) :=
  inferInstanceAs (Decidable ((_ ∧ _) ∧ _ ∧ _))

namespace Picture

variable {κ : Type}

/-- A picture with another one over it, while an interval lasts. -/
noncomputable def overlay (p top : Picture κ) (origin : Point) (i : Interval) : Picture κ where
  size := p.size
  colour τ x y :=
    if i.Holds τ ∧ Rect.Contains ⟨origin, top.size⟩ x y then
      top.colour τ (x - origin.x.toNat) (y - origin.y.toNat)
    else p.colour τ x y

/-- Two pictures of one size with the same colours in it. -/
structure Agrees (p q : Picture κ) : Prop where
  size_eq : p.size = q.size
  colour_eq : ∀ (τ : ℝ) (x y : Nat), x < p.size.width.toNat → y < p.size.height.toNat →
    p.colour τ x y = q.colour τ x y

theorem Agrees.refl (p : Picture κ) : p.Agrees p := ⟨rfl, fun _ _ _ _ _ => rfl⟩

/-- Nothing of a picture is seen beyond its size. -/
theorem overlay_congr {top top' : Picture κ} (h : top.Agrees top') (p : Picture κ)
    (origin : Point) (i : Interval) : p.overlay top origin i = p.overlay top' origin i := by
  unfold overlay
  congr 1
  funext τ x y
  by_cases hin : i.Holds τ ∧ Rect.Contains ⟨origin, top.size⟩ x y
  · rw [if_pos hin, if_pos (h.size_eq ▸ hin)]
    obtain ⟨-, hx, hy⟩ := hin
    dsimp only at hx hy
    apply h.colour_eq <;> omega
  · rw [if_neg hin, if_neg (h.size_eq ▸ hin)]

end Picture

namespace Processor

variable {κ : Type} (proc : Processor κ)

def plain (size : Size) : Picture κ := ⟨size, fun _ _ _ => proc.black⟩

def cut (fitted : Size) (crop : Rect) (grade : Option Grade) (p : Picture κ) : Picture κ where
  size := crop.size
  colour τ x y :=
    proc.scale grade fitted p τ (crop.origin.x.toNat + x) (crop.origin.y.toNat + y)

/-- All of a picture that keeps its size. -/
theorem agrees_cut_self (p : Picture κ) : (proc.cut p.size ⟨⟨0, 0⟩, p.size⟩ none p).Agrees p where
  size_eq := rfl
  colour_eq τ x y hx hy := by
    change proc.scale none p.size p τ (0 + x) (0 + y) = p.colour τ x y
    rw [Nat.zero_add, Nat.zero_add]
    exact proc.scale_self p τ x y hx hy

end Processor

variable {κ : Type} (proc : Processor κ) (stream : Nat → Option (Picture κ))

/-- The picture that a node makes from those it reads, where `stream` has the pictures of the
declared inputs.  Sound has none. -/
noncomputable def NodeKind.picture : NodeKind → List (Picture κ) → Option (Picture κ)
  | .input i .video, [] => stream i
  | .color size _ _, [] => some (proc.plain size)
  | .split _, [p] => some p
  | .scaleCrop fitted crop grade, [p] => some (proc.cut fitted crop grade p)
  | .overlay x y i, [p, top] => some (p.overlay top ⟨x, y⟩ i)
  | _, _ => none

/-- Every pad that a node writes carries the picture that the node makes. -/
def Plays (ns : List Node) (v : Pad → Picture κ) : Prop :=
  ∀ n ∈ ns, ∀ p, n.kind.picture proc stream (n.inputs.map v) = some p → ∀ q ∈ n.outputs, v q = p

variable {proc stream}

theorem Plays.mono {ms ns : List Node} {v : Pad → Picture κ} (h : Plays proc stream ns v)
    (hs : ms ⊆ ns) : Plays proc stream ms v := fun n hn => h n (hs hn)

/-- Nodes that read only what stands written before them can be played, whatever is at hand.  The
induction goes along the written order; no pad is written twice, so what is carried stays. -/
theorem Wired.exists_plays {atHand : List Pad} {ns : List Node} (h : Wired atHand ns)
    (hn : (atHand ++ written ns).Nodup) (v : Pad → Picture κ) :
    ∃ w, (∀ q ∈ atHand, w q = v q) ∧ Plays proc stream ns w := by
  induction ns generalizing atHand v with
  | nil => exact ⟨v, fun _ _ => rfl, fun n hn => absurd hn List.not_mem_nil⟩
  | cons n ns ih =>
    let made : Picture κ → Picture κ := (n.kind.picture proc stream (n.inputs.map v)).getD
    let next : Pad → Picture κ := fun q => if q ∈ n.outputs then made (v q) else v q
    rw [written_cons, ← List.append_assoc] at hn
    obtain ⟨w, hw, hplays⟩ := ih h.2 hn next
    have hkeep : ∀ q ∈ atHand, w q = v q := by
      intro q hq
      have hnew : q ∉ n.outputs := by
        intro hout
        exact (List.nodup_append.mp (List.nodup_append.mp hn).1).2.2 q hq q hout rfl
      rw [hw q (List.mem_append_left _ hq)]
      exact if_neg hnew
    refine ⟨w, hkeep, ?_⟩
    intro m hm p hp q hq
    cases List.mem_cons.mp hm with
    | inr hm => exact hplays m hm p hp q hq
    | inl hm =>
      subst hm
      have hinputs : m.inputs.map w = m.inputs.map v :=
        List.map_congr_left fun i hi => hkeep i (h.1 i hi)
      rw [hinputs] at hp
      rw [hw q (List.mem_append_right _ hq)]
      change (if q ∈ m.outputs then made (v q) else v q) = p
      rw [if_pos hq]
      change (m.kind.picture proc stream (m.inputs.map v)).getD (v q) = p
      rw [hp]
      rfl

end Montage
