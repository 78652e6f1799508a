import Mathlib
import Montage.Decimal.Text
import Montage.Proofs.Lists

/-!
The characters of numbers.  Whatever is printed between two numbers starts with another character,
so that a number ends where the text says it does.
-/

namespace Montage.Text

/-- A digit, a sign, a point, or a letter of the names for what is no number and for infinity. -/
def isNumeral (c : Char) : Bool :=
  c.isDigit || c == '-' || c == '.' || c == 'N' || c == 'a' || c == 'i' || c == 'n' || c == 'f'

def Numeral (s : String) : Prop := ∀ c ∈ s.toList, isNumeral c

theorem isNumeral_of_isDigit {c : Char} (h : c.isDigit) : isNumeral c := by simp [isNumeral, h]

@[simp] theorem numeral_repr (n : Nat) : Numeral n.repr := by
  intro c hc
  rw [Nat.toList_repr] at hc
  exact isNumeral_of_isDigit (Nat.isDigit_of_mem_toDigits (by decide) (by decide) hc)

/-- Text that a number before it cannot run into. -/
def Stops (s : List Char) : Prop := ∀ c ∈ s.head?, isNumeral c = false

@[simp] theorem stops_nil : Stops [] := by simp [Stops]

@[simp] theorem stops_cons {c : Char} {s : List Char} : Stops (c :: s) ↔ isNumeral c = false := by
  simp [Stops]

/-- A number and what follows it can be told apart. -/
theorem numeral_append_inj {a b : String} (ha : Numeral a) (hb : Numeral b) {s t : List Char}
    (hs : Stops s) (ht : Stops t) (h : a.toList ++ s = b.toList ++ t) : a = b ∧ s = t := by
  obtain ⟨hnumber, hrest⟩ := List.append_inj_of_head ha hb hs ht h
  exact ⟨String.toList_injective hnumber, hrest⟩

end Montage.Text

namespace Montage.Decimal

open Text

theorem isDigit_of_mem_digitChars {n : Nat} {c : Char} (h : c ∈ digitChars n) : c.isDigit :=
  Nat.isDigit_of_mem_toDigits (by decide) (by decide) h

theorem isDigit_of_mem_zeros {n : Nat} {c : Char} (h : c ∈ zeros n) : c.isDigit := by
  rw [List.eq_of_mem_replicate h]
  rfl

/-- A decimal with its point written out: whole, with a point inside or with zeros before. -/
theorem isDigit_or_eq_of_mem_positional {d : Digits} {c : Char} (h : c ∈ positional d []) :
    c.isDigit ∨ c = '.' := by
  cases he : d.exponent with
  | ofNat k =>
    simp only [positional, he, List.append_nil, List.mem_append] at h
    exact .inl (h.elim isDigit_of_mem_digitChars isDigit_of_mem_zeros)
  | negSucc k =>
    simp only [positional, he] at h
    split at h
    · simp only [List.mem_append, List.mem_cons] at h
      rcases h with h | rfl | h
      · exact .inl (isDigit_of_mem_digitChars (List.mem_of_mem_take h))
      · exact .inr rfl
      · exact .inl (isDigit_of_mem_digitChars (List.mem_of_mem_drop h))
    · simp only [List.cons_append, List.mem_cons, List.mem_append] at h
      rcases h with rfl | rfl | h | h
      · exact .inl rfl
      · exact .inr rfl
      · exact .inl (isDigit_of_mem_zeros h)
      · exact .inl (isDigit_of_mem_digitChars h)

/-- What is written of a finite double after its sign. -/
def unsigned (m : Nat) (q : Int) : List Char :=
  if m = 0 then ['0'] else positional (shortest .up m q) []

theorem isDigit_or_eq_of_mem_unsigned {m : Nat} {q : Int} {c : Char} (h : c ∈ unsigned m q) :
    c.isDigit ∨ c = '.' := by
  unfold unsigned at h
  split at h
  · rw [List.mem_singleton.mp h]
    exact .inl rfl
  · exact isDigit_or_eq_of_mem_positional h

/-- The characters of a plain number. -/
def Exact.chars : Exact → List Char
  | .nan => ['N', 'a', 'N']
  | .infinite negative => signed negative ['i', 'n', 'f']
  | .finite negative m q => signed negative (unsigned m q)

theorem toList_plain (x : Float) : (plain x).toList = (Exact.ofFloat x).chars := by
  rw [plain, String.toList_ofList, Form.write]
  cases Exact.ofFloat x with
  | nan => simp [plainForm, Exact.chars]
  | infinite negative => simp [plainForm, Exact.chars]
  | finite negative m q => by_cases hm : m = 0 <;> simp [plainForm, Exact.chars, unsigned, hm]

theorem mem_signed {negative : Bool} {cs : List Char} {c : Char} (h : c ∈ signed negative cs) :
    c = '-' ∨ c ∈ cs := by
  cases negative with
  | false => exact .inr h
  | true => exact List.mem_cons.mp h

@[simp] theorem numeral_plain (x : Float) : Numeral (plain x) := by
  intro c hc
  rw [toList_plain] at hc
  cases hx : Exact.ofFloat x with
  | nan =>
    simp only [hx, Exact.chars, List.mem_cons, List.not_mem_nil, or_false] at hc
    rcases hc with rfl | rfl | rfl <;> rfl
  | infinite negative =>
    rw [hx] at hc
    rcases mem_signed hc with rfl | hc
    · rfl
    · simp only [List.mem_cons, List.not_mem_nil, or_false] at hc
      rcases hc with rfl | rfl | rfl <;> rfl
  | finite negative m q =>
    rw [hx] at hc
    rcases mem_signed hc with rfl | hc
    · rfl
    · rcases isDigit_or_eq_of_mem_unsigned hc with hd | rfl
      · exact isNumeral_of_isDigit hd
      · rfl

end Montage.Decimal
