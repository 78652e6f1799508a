import Mathlib
import Montage.Proofs.Decimal.Value
import Montage.Timeline.Request

/-!
Moments of the timeline are real numbers; the ends of an interval stand for their exact values.
-/

namespace Montage

open Decimal

namespace Interval

def Holds (i : Interval) (τ : ℝ) : Prop := (value i.start : ℝ) ≤ τ ∧ τ < (value i.stop : ℝ)

noncomputable instance (i : Interval) (τ : ℝ) : Decidable (i.Holds τ) :=
  inferInstanceAs (Decidable (_ ∧ _))

variable {i : Interval}

/-- At a moment that is a double, the comparison of doubles says the same. -/
theorem contains_iff_holds (hs : i.start.isFinite) (he : i.stop.isFinite) {t : Float}
    (ht : t.isFinite) : i.contains t ↔ i.Holds (value t) := by
  simp only [contains, Holds, Bool.and_eq_true, decide_eq_true_iff, Rat.cast_le, Rat.cast_lt]
  rw [le_iff_value_le hs ht, lt_iff_value_lt ht he]

theorem isFinite_start (h : i.isValid) : i.start.isFinite := by
  simp only [isValid, Bool.and_eq_true] at h
  exact h.1.1.1

end Interval

theorem Seconds.larger_eq_or (a b : Float) : larger a b = a ∨ larger a b = b := by
  unfold larger
  split
  · exact .inr rfl
  · split
    · exact .inr rfl
    · exact .inl rfl

theorem Seconds.foldl_larger_mem (xs : List Float) (a : Float) : xs.foldl larger a ∈ a :: xs := by
  induction xs generalizing a with
  | nil => simp
  | cons x xs ih =>
    cases List.mem_cons.mp (ih (larger a x)) with
    | inl h =>
      rw [List.foldl_cons, h]
      cases larger_eq_or a x with
      | inl ha => simp [ha]
      | inr hx => simp [hx]
    | inr h => exact List.mem_cons_of_mem _ (List.mem_cons_of_mem _ h)

/-- A moment before the end of a request is before the end of the track that ends it. -/
theorem Request.exists_stop_eq_duration {r : Request} {τ : ℝ} (h₀ : 0 ≤ τ)
    (h : τ < (value r.duration : ℝ)) : ∃ t ∈ r.videoTracks, t.interval.stop = r.duration := by
  cases List.mem_cons.mp (Seconds.foldl_larger_mem _ 0) with
  | inl hzero =>
    change r.duration = 0 at hzero
    rw [hzero, value_zero, Rat.cast_zero] at h
    exact absurd h₀ (not_le_of_gt h)
  | inr hmem => exact List.mem_map.mp (List.mem_filter.mp hmem).1

end Montage
