import Mathlib
import Montage.Proofs.Picture.Meaning
import Montage.Proofs.Verdict

/-!
When rectangles overlap.  Two rectangles that have pixels overlap exactly if they share one.  A
rectangle with a side of zero has no pixel to share, and yet it overlaps another one whose inside
it crosses.
-/

namespace Montage

/-- Two stretches of pixels, by start and length: they share a pixel, or one of them has no length
and stands inside the other. -/
def Cross (a m b n : Nat) : Prop :=
  (∃ x, (a ≤ x ∧ x < a + m) ∧ b ≤ x ∧ x < b + n) ∨
    (m = 0 ∧ b < a ∧ a < b + n) ∨ (n = 0 ∧ a < b ∧ b < a + m)

/-- Stretches cross if each of them starts before the other one ends. -/
theorem cross_iff {a m b n : Nat} : Cross a m b n ↔ a < b + n ∧ b < a + m := by
  constructor
  · rintro (⟨x, ⟨ha, hm⟩, hb, hn⟩ | h | h) <;> omega
  · rintro ⟨hab, hba⟩
    rcases Nat.eq_zero_or_pos m with hm | hm
    · exact .inr (.inl (by omega))
    rcases Nat.eq_zero_or_pos n with hn | hn
    · exact .inr (.inr (by omega))
    · -- the later of the two starts lies in both
      exact .inl ⟨max a b, by omega⟩

instance (a m b n : Nat) : Decidable (Cross a m b n) := decidable_of_iff _ cross_iff.symm

theorem cross_of_pos {a m b n : Nat} (hm : 0 < m) (hn : 0 < n) :
    Cross a m b n ↔ ∃ x, (a ≤ x ∧ x < a + m) ∧ b ≤ x ∧ x < b + n := by
  refine ⟨fun h => ?_, .inl⟩
  rcases h with h | h | h
  · exact h
  all_goals omega

namespace Rect

/-- The far edges of the rectangle fit into their words. -/
structure Fits (r : Rect) : Prop where
  right : r.origin.x.toNat + r.size.width.toNat < UInt32.size
  bottom : r.origin.y.toNat + r.size.height.toNat < UInt32.size

/-- The columns of the rectangles cross, and their rows do. -/
def Crosses (a b : Rect) : Prop :=
  Cross a.origin.x.toNat a.size.width.toNat b.origin.x.toNat b.size.width.toNat ∧
    Cross a.origin.y.toNat a.size.height.toNat b.origin.y.toNat b.size.height.toNat

instance (a b : Rect) : Decidable (a.Crosses b) := inferInstanceAs (Decidable (_ ∧ _))

def SharesPixel (a b : Rect) : Prop := ∃ x y, a.Contains x y ∧ b.Contains x y

variable {a b : Rect}

theorem crosses_comm : a.Crosses b ↔ b.Crosses a := by
  simp only [Crosses, cross_iff]
  tauto

theorem SharesPixel.crosses (h : a.SharesPixel b) : a.Crosses b := by
  obtain ⟨x, y, ⟨hax, hay⟩, hbx, hby⟩ := h
  exact ⟨.inl ⟨x, hax, hbx⟩, .inl ⟨y, hay, hby⟩⟩

theorem crosses_iff_sharesPixel (ha : a.size.isEmpty = false) (hb : b.size.isEmpty = false) :
    a.Crosses b ↔ a.SharesPixel b := by
  obtain ⟨hwidth, hheight⟩ := Size.isEmpty_eq_false_iff.mp ha
  obtain ⟨hwidth', hheight'⟩ := Size.isEmpty_eq_false_iff.mp hb
  refine ⟨fun h => ?_, SharesPixel.crosses⟩
  obtain ⟨x, hax, hbx⟩ := (cross_of_pos hwidth hwidth').mp h.1
  obtain ⟨y, hay, hby⟩ := (cross_of_pos hheight hheight').mp h.2
  exact ⟨x, y, ⟨hax, hay⟩, hbx, hby⟩

namespace Fits

variable (h : a.Fits)

include h

theorem right_eq : a.right = .ok (a.origin.x + a.size.width) := Word.add_eq_ok h.right

theorem bottom_eq : a.bottom = .ok (a.origin.y + a.size.height) := Word.add_eq_ok h.bottom

theorem lt_right (x : UInt32) :
    x < a.origin.x + a.size.width ↔ x.toNat < a.origin.x.toNat + a.size.width.toNat := by
  rw [UInt32.lt_iff_toNat_lt, UInt32.toNat_add, Nat.mod_eq_of_lt h.right]

theorem lt_bottom (y : UInt32) :
    y < a.origin.y + a.size.height ↔ y.toNat < a.origin.y.toNat + a.size.height.toNat := by
  rw [UInt32.lt_iff_toNat_lt, UInt32.toNat_add, Nat.mod_eq_of_lt h.bottom]

end Fits

/-- Each edge is looked at only if the tests before it have passed, which leaves the answer as it
is. -/
theorem overlaps_eq (ha : a.Fits) (hb : b.Fits) :
    a.overlaps b = .ok (decide (a.Crosses b)) := by
  simp only [overlaps, ha.right_eq, ha.bottom_eq, hb.right_eq, hb.bottom_eq, ok_bind]
  simp only [Crosses, cross_iff, ← ha.lt_right, ← ha.lt_bottom, ← hb.lt_right, ← hb.lt_bottom]
  split
  case isFalse h => simp [h, pure, Except.pure]
  case isTrue h =>
    split
    case isFalse h' => simp [h', pure, Except.pure]
    case isTrue h' =>
      split
      case isFalse h'' => simp [h'', pure, Except.pure]
      case isTrue h'' => simp [h, h', h'', pure, Except.pure]

/-- Whether two rectangles overlap does not depend on their order.  Those that share a pixel do, and
of rectangles that have pixels no others do.  A rectangle without pixels overlaps what it
crosses. -/
theorem overlaps_answer (ha : a.Fits) (hb : b.Fits) :
    ∃ answer, a.overlaps b = .ok answer ∧ b.overlaps a = .ok answer ∧
      (answer = true ↔ a.Crosses b) ∧ (a.SharesPixel b → answer = true) ∧
        (a.size.isEmpty = false → b.size.isEmpty = false →
          (answer = true ↔ a.SharesPixel b)) := by
  have hanswer : decide (a.Crosses b) = true ↔ a.Crosses b := decide_eq_true_iff
  refine ⟨decide (a.Crosses b), overlaps_eq ha hb, ?_, hanswer, ?_, ?_⟩
  · rw [overlaps_eq hb ha, decide_eq_decide.mpr crosses_comm]
  · exact fun h => hanswer.mpr h.crosses
  · exact fun hfull hfull' => hanswer.trans (crosses_iff_sharesPixel hfull hfull')

/-- The left half of a canvas, and what begins in its last column. -/
theorem overlaps_column :
    Fits ⟨⟨0, 0⟩, ⟨960, 1080⟩⟩ ∧ Fits ⟨⟨959, 0⟩, ⟨10, 10⟩⟩ ∧
      ∃ answer, overlaps ⟨⟨0, 0⟩, ⟨960, 1080⟩⟩ ⟨⟨959, 0⟩, ⟨10, 10⟩⟩ = .ok answer ∧
        overlaps ⟨⟨959, 0⟩, ⟨10, 10⟩⟩ ⟨⟨0, 0⟩, ⟨960, 1080⟩⟩ = .ok answer ∧
        (answer = true ↔ SharesPixel ⟨⟨0, 0⟩, ⟨960, 1080⟩⟩ ⟨⟨959, 0⟩, ⟨10, 10⟩⟩) := by
  have hhalf : Fits ⟨⟨0, 0⟩, ⟨960, 1080⟩⟩ := ⟨by decide, by decide⟩
  have hnext : Fits ⟨⟨959, 0⟩, ⟨10, 10⟩⟩ := ⟨by decide, by decide⟩
  obtain ⟨answer, hover, hover', -, -, hshares⟩ := overlaps_answer hhalf hnext
  exact ⟨hhalf, hnext, answer, hover, hover', hshares (by decide) (by decide)⟩

/-- A rectangle without pixels in the middle of another one shares none with it. -/
theorem overlaps_dot :
    Fits ⟨⟨5, 5⟩, ⟨0, 0⟩⟩ ∧ Fits ⟨⟨0, 0⟩, ⟨10, 10⟩⟩ ∧
      overlaps ⟨⟨5, 5⟩, ⟨0, 0⟩⟩ ⟨⟨0, 0⟩, ⟨10, 10⟩⟩ = .ok true ∧
        ¬SharesPixel ⟨⟨5, 5⟩, ⟨0, 0⟩⟩ ⟨⟨0, 0⟩, ⟨10, 10⟩⟩ := by
  refine ⟨⟨by decide, by decide⟩, ⟨by decide, by decide⟩, by decide, ?_⟩
  rintro ⟨x, y, ⟨⟨hlow, hhigh⟩, -⟩, -⟩
  exact absurd (hlow.trans_lt hhigh) (by decide)

end Rect

end Montage
