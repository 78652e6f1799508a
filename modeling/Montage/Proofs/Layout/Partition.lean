import Mathlib
import Montage.Proofs.Layout.Regions
import Montage.Proofs.Picture.Meaning

/-!
The regions of a layout cut up its canvas: none of them sticks out, and every pixel of the canvas
lies in one of them and in no other.
-/

namespace Montage

/-- Regions that cut up a canvas. -/
structure Size.CutInto (canvas : Size) (regions : List Rect) : Prop where
  inside : ∀ region ∈ regions, region.Inside canvas
  exactly_one : ∀ x y, x < canvas.width.toNat → y < canvas.height.toNat →
    regions.countP (fun region => region.Contains x y) = 1

theorem half_add_half (w : UInt32) : (w / 2).toNat + (w - w / 2).toNat = w.toNat := by
  rw [toNat_half, toNat_sub_half]
  omega

namespace LayoutKind

/-- A pixel is in one half of each axis, and of all regions only one takes in these halves. -/
theorem countP_contains_regions (kind : LayoutKind) {canvas : Size} {x y : Nat}
    (hx : x < canvas.width.toNat) (hy : y < canvas.height.toNat) :
    (kind.regions canvas).countP (fun region => region.Contains x y) = 1 := by
  have hwidth := half_add_half canvas.width
  have hheight := half_add_half canvas.height
  have hside (n k : Nat) : n < k ∧ ¬k ≤ n ∨ ¬n < k ∧ k ≤ n := by omega
  obtain ⟨hleft, hright⟩ | ⟨hleft, hright⟩ := hside x (canvas.width / 2).toNat
  all_goals
    obtain ⟨htop, hbottom⟩ | ⟨htop, hbottom⟩ := hside y (canvas.height / 2).toNat
    all_goals
      cases kind <;> simp [regions, Rect.Contains, hx, hy, hleft, hright, htop, hbottom, hwidth,
        hheight, -UInt32.toNat_div]

theorem cutInto_regions (kind : LayoutKind) (canvas : Size) :
    canvas.CutInto (kind.regions canvas) where
  inside _ hregion := (within_of_mem_regions hregion).inside
  exactly_one _ _ hx hy := kind.countP_contains_regions hx hy

/-- A layout has its regions on every canvas, and they cut it up.  None of them is empty exactly if
the canvas has a pixel on each axis, or two where the layout parts the axes. -/
theorem template_cuts (kind : LayoutKind) (canvas : Size) :
    ∃ regions, kind.template canvas = .ok regions ∧ regions.length = kind.regionCount ∧
      canvas.CutInto regions ∧
        ((∀ region ∈ regions, region.size.isEmpty = false) ↔
          if kind = .single then 1 ≤ canvas.width.toNat ∧ 1 ≤ canvas.height.toNat
          else 2 ≤ canvas.width.toNat ∧ 2 ≤ canvas.height.toNat) := by
  refine ⟨kind.regions canvas, template_eq kind canvas, length_regions kind canvas,
    cutInto_regions kind canvas, ?_⟩
  rw [forall_isEmpty_regions]
  cases kind <;> rfl

end LayoutKind

end Montage
