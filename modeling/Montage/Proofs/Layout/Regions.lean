import Mathlib
import Montage.Layout.Template

/-!
The regions of a layout exist on every canvas: half a side is never longer than the side.
-/

namespace Montage

theorem half_le (w : UInt32) : w / 2 ≤ w := by
  rw [UInt32.le_iff_toNat_le, UInt32.toNat_div]
  exact Nat.div_le_self ..

theorem toNat_half (w : UInt32) : (w / 2).toNat = w.toNat / 2 := UInt32.toNat_div ..

theorem toNat_sub_half (w : UInt32) : (w - w / 2).toNat = w.toNat - w.toNat / 2 := by
  rw [UInt32.toNat_sub_of_le _ _ (half_le w), toNat_half]

theorem Size.isEmpty_eq_false_iff {s : Size} :
    s.isEmpty = false ↔ 1 ≤ s.width.toNat ∧ 1 ≤ s.height.toNat := by
  simp only [isEmpty, Bool.or_eq_false_iff, beq_eq_false_iff_ne, ne_eq, ← UInt32.toNat_inj,
    UInt32.toNat_zero, Nat.one_le_iff_ne_zero]

/-- The rectangle is a part of a picture of this size. -/
def Rect.Within (r : Rect) (s : Size) : Prop :=
  r.origin.x.toNat + r.size.width.toNat ≤ s.width.toNat ∧
    r.origin.y.toNat + r.size.height.toNat ≤ s.height.toNat

/-- The far edges exist, and no pixel of the rectangle lies beyond those of the picture. -/
structure Rect.Inside (r : Rect) (s : Size) : Prop where
  right : ∃ x, r.right = .ok x ∧ x ≤ s.width
  bottom : ∃ y, r.bottom = .ok y ∧ y ≤ s.height

theorem Word.exists_add_le {a b c : UInt32} (h : a.toNat + b.toNat ≤ c.toNat) :
    ∃ x, add a b = .ok x ∧ x ≤ c := by
  have hlt : a.toNat + b.toNat < UInt32.size := h.trans_lt c.toNat_lt_size
  refine ⟨a + b, add_eq_ok hlt, ?_⟩
  rwa [UInt32.le_iff_toNat_le, UInt32.toNat_add, Nat.mod_eq_of_lt hlt]

theorem Rect.Within.inside {r : Rect} {s : Size} (h : r.Within s) : r.Inside s where
  right := Word.exists_add_le h.1
  bottom := Word.exists_add_le h.2

namespace LayoutKind

/-- The regions of a layout, with the pixel left over in the right and the bottom half. -/
def regions (kind : LayoutKind) (canvas : Size) : List Rect :=
  let left := canvas.width / 2
  let right := canvas.width - left
  let top := canvas.height / 2
  let bottom := canvas.height - top
  match kind with
  | .single => [⟨⟨0, 0⟩, canvas⟩]
  | .quad =>
    [⟨⟨0, 0⟩, ⟨left, top⟩⟩, ⟨⟨left, 0⟩, ⟨right, top⟩⟩,
     ⟨⟨0, top⟩, ⟨left, bottom⟩⟩, ⟨⟨left, top⟩, ⟨right, bottom⟩⟩]
  | .sidebarLeft =>
    [⟨⟨0, 0⟩, ⟨left, canvas.height⟩⟩, ⟨⟨left, 0⟩, ⟨right, top⟩⟩, ⟨⟨left, top⟩, ⟨right, bottom⟩⟩]
  | .bannerTop =>
    [⟨⟨0, 0⟩, ⟨canvas.width, top⟩⟩, ⟨⟨0, top⟩, ⟨left, bottom⟩⟩, ⟨⟨left, top⟩, ⟨right, bottom⟩⟩]

theorem template_eq (kind : LayoutKind) (canvas : Size) :
    kind.template canvas = .ok (kind.regions canvas) := by
  simp only [template, Word.sub_eq_ok (half_le _)]
  cases kind <;> rfl

@[simp] theorem length_regions (kind : LayoutKind) (canvas : Size) :
    (kind.regions canvas).length = kind.regionCount := by
  cases kind <;> rfl

/-- The pixels that a layout needs on each axis. -/
def leastSide : LayoutKind → Nat
  | .single => 1
  | .quad => 2
  | .sidebarLeft => 2
  | .bannerTop => 2

theorem forall_isEmpty_regions (kind : LayoutKind) (canvas : Size) :
    (∀ region ∈ kind.regions canvas, region.size.isEmpty = false) ↔
      kind.leastSide ≤ canvas.width.toNat ∧ kind.leastSide ≤ canvas.height.toNat := by
  simp only [Size.isEmpty_eq_false_iff]
  cases kind <;> simp [regions, leastSide, toNat_sub_half] <;> omega

/-- A layout with more than one region needs two pixels on each axis, and the others need one. -/
theorem any_isEmpty_regions {canvas : Size} (h : canvas.isEmpty = false) (kind : LayoutKind) :
    (kind.regions canvas).any (·.size.isEmpty) = false ↔
      kind = .single ∨ 2 ≤ canvas.width.toNat ∧ 2 ≤ canvas.height.toNat := by
  obtain ⟨hw, hh⟩ := Size.isEmpty_eq_false_iff.mp h
  simp only [List.any_eq_false, Bool.not_eq_true, forall_isEmpty_regions]
  cases kind <;> simp [leastSide, hw, hh]

theorem within_of_mem_regions {kind : LayoutKind} {canvas : Size} {region : Rect}
    (h : region ∈ kind.regions canvas) : region.Within canvas := by
  cases kind <;> simp only [regions, List.mem_cons, List.not_mem_nil, or_false] at h
  case single =>
    subst h
    simp [Rect.Within]
  case quad =>
    rcases h with rfl | rfl | rfl | rfl <;> simp [Rect.Within, toNat_sub_half] <;> omega
  case sidebarLeft | bannerTop =>
    rcases h with rfl | rfl | rfl <;> simp [Rect.Within, toNat_sub_half] <;> omega

end LayoutKind

end Montage
