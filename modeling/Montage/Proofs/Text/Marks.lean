import Mathlib
import Montage.Graph.Text
import Montage.Proofs.Text.Numerals

/-!
Text without the marks of the graph notation.  Brackets enclose pad labels and semicolons end
chains, so what stands between them must have neither.
-/

namespace Montage.Text

def isMark (c : Char) : Bool := c == '[' || c == ']' || c == ';'

/-- Neither brackets nor semicolons. -/
def Unmarked (s : String) : Prop := ∀ c ∈ s.toList, isMark c = false

instance (s : String) : Decidable (Unmarked s) :=
  inferInstanceAs (Decidable (∀ c ∈ s.toList, isMark c = false))

theorem Unmarked.all_ne {s : String} (h : Unmarked s) (mark : Char) (hmark : isMark mark) :
    ∀ c ∈ s.toList, (c != mark) = true := by
  intro c hc
  rw [bne_iff_ne]
  rintro rfl
  rw [h c hc] at hmark
  contradiction

@[simp] theorem unmarked_append {s t : String} :
    Unmarked (s ++ t) ↔ Unmarked s ∧ Unmarked t := by
  simp only [Unmarked, String.toList_append, List.mem_append, or_imp, forall_and]

/-- A literal is read as its list of characters, so that `rfl` settles it. -/
theorem unmarked_ofList {cs : List Char} (h : cs.all (!isMark ·) = true) :
    Unmarked (String.ofList cs) := by
  intro c hc
  rw [String.toList_ofList] at hc
  simpa using List.all_eq_true.mp h c hc

theorem isMark_of_isNumeral {c : Char} (h : isNumeral c) : isMark c = false := by
  cases hc : isMark c with
  | false => rfl
  | true =>
    simp only [isMark, Bool.or_eq_true, beq_iff_eq] at hc
    rcases hc with (rfl | rfl) | rfl <;> contradiction

theorem Numeral.unmarked {s : String} (h : Numeral s) : Unmarked s :=
  fun c hc => isMark_of_isNumeral (h c hc)

@[simp] theorem unmarked_repr (n : Nat) : Unmarked n.repr := (numeral_repr n).unmarked

theorem unmarked_toString (n : Nat) : Unmarked (toString n) := unmarked_repr n

theorem unmarked_getD {α : Type} {f : α → String} (h : ∀ a, Unmarked (f a)) (o : Option α) :
    Unmarked ((o.map f).getD "") := by
  cases o with
  | none => exact unmarked_ofList rfl
  | some a => exact h a

theorem unmarked_joinWith {separator : String} {parts : List String}
    (hs : Unmarked separator) (hp : ∀ s ∈ parts, Unmarked s) :
    Unmarked (joinWith separator parts) := by
  intro c hc
  rw [joinWith, String.toList_intercalate] at hc
  induction parts with
  | nil => simp at hc
  | cons s rest ih =>
    cases rest with
    | nil => exact hp s (by simp) c (by simpa using hc)
    | cons s' rest =>
      simp only [List.map_cons, List.intercalate_cons_cons, List.mem_append] at hc ih
      rcases hc with (hc | hc) | hc
      · exact hp s (by simp) c hc
      · exact hs c hc
      · exact ih (fun t ht => hp t (by simp [ht])) hc

end Montage.Text

namespace Montage.Decimal

@[simp] theorem unmarked_plain (x : Float) : Text.Unmarked (plain x) := (numeral_plain x).unmarked

end Montage.Decimal
