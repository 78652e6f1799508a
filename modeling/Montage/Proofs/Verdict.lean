import Mathlib
import Montage.Video.Tile

/-!
Checks that stop at the first complaint.  A verdict is all that a run of checks amounts to: its
first complaint, or its result if there is none.
-/

namespace Montage

variable {ε α β : Type}

def verdict (faults : List ε) (a : α) : Except ε α :=
  match faults with
  | [] => .ok a
  | f :: _ => .error f

def complain (ok : Prop) [Decidable ok] (e : ε) : List ε := if ok then [] else [e]

@[simp] theorem complain_eq_nil_iff {ok : Prop} [Decidable ok] {e : ε} :
    complain ok e = [] ↔ ok := by
  unfold complain
  split <;> simp_all

theorem complain_congr {p q : Prop} [Decidable p] [Decidable q] (h : p ↔ q) (e : ε) :
    complain p e = complain q e := by
  simp only [complain, h]

theorem map_complain {ok : Prop} [Decidable ok] {e : ε} (f : ε → β) :
    (complain ok e).map f = complain ok (f e) := by
  unfold complain
  split <;> rfl

@[simp] theorem verdict_nil (a : α) : verdict ([] : List ε) a = .ok a := rfl

@[simp] theorem verdict_cons (f : ε) (fs : List ε) (a : α) : verdict (f :: fs) a = .error f := rfl

theorem verdict_eq_ok_iff {fs : List ε} {a b : α} : verdict fs a = .ok b ↔ fs = [] ∧ a = b := by
  cases fs <;> simp

theorem verdict_eq_error_iff {fs : List ε} {a : α} {e : ε} :
    verdict fs a = .error e ↔ fs.head? = some e := by
  cases fs <;> simp

theorem ok_bind (a : α) (f : α → Except ε β) : (Except.ok a >>= f) = f a := rfl

theorem bind_eq_ok_iff {x : Except ε α} {f : α → Except ε β} {b : β} :
    (x >>= f) = .ok b ↔ ∃ a, x = .ok a ∧ f a = .ok b := by
  cases x with
  | error e => simp [bind, Except.bind]
  | ok a => simp [bind, Except.bind]

/-- Checks after checks: the later ones count only if the earlier ones pass. -/
theorem verdict_bind {fs gs : List ε} {a : α} {b : β} {f : α → Except ε β}
    (h : fs = [] → f a = verdict gs b) : (verdict fs a >>= f) = verdict (fs ++ gs) b := by
  cases fs with
  | nil => exact h rfl
  | cons => rfl

theorem verdict_bind_ok {fs : List ε} {a : α} {b : β} {f : α → Except ε β} (h : f a = .ok b) :
    (verdict fs a >>= f) = verdict fs b := by
  cases fs with
  | nil => exact h
  | cons => rfl

theorem check_eq_verdict {ok bad : Prop} [Decidable ok] [Decidable bad] {e : ε} {gs : List ε}
    {b : β} {next : PUnit → Except ε β} (hbad : bad ↔ ¬ok) (h : ok → next ⟨⟩ = verdict gs b) :
    (if bad then Except.error e >>= next else next ⟨⟩) = verdict (complain ok e ++ gs) b := by
  by_cases hok : ok
  · rw [if_neg (fun hb => hbad.mp hb hok), h hok, complain, if_pos hok, List.nil_append]
  · rw [if_pos (hbad.mpr hok), complain, if_neg hok]
    rfl

theorem verdict_mapM {xs : List α} {f : α → Except ε β} {faults : α → List ε} {g : α → β}
    (h : ∀ x ∈ xs, f x = verdict (faults x) (g x)) :
    xs.mapM f = verdict (xs.flatMap faults) (xs.map g) := by
  induction xs with
  | nil => rfl
  | cons x xs ih =>
    have hrest := ih fun y hy => h y (by simp [hy])
    rw [List.mapM_cons, h x (by simp), List.flatMap_cons]
    apply verdict_bind
    intro _
    rw [hrest]
    exact verdict_bind_ok rfl

end Montage
