import Mathlib
import Montage.Proofs.Text.Marks

/-!
The pads of assembled graphs by what they are for.  Labels are the only thing that joins two nodes,
so two pads made for different purposes must never be printed alike.
-/

namespace Montage

theorem Pad.label_injective : Function.Injective Pad.label := by
  rintro ⟨l⟩ ⟨l'⟩ rfl
  rfl

inductive PadName
  | stream (index : Nat) (kind : StreamKind)
  | copy (index k : Nat)
  | blank (n : Nat)
  | tile (n : Nat)
  | canvas (n : Nat)
  | track (n : Nat)
  | background
  | videoOut
  | audioOut
  deriving DecidableEq

namespace PadName

def pad : PadName → Pad
  | .stream i kind => Pad.stream i kind
  | .copy i k => Pad.copy i k
  | .blank n => Pad.blank n
  | .tile n => Pad.tile n
  | .canvas n => Pad.canvas n
  | .track n => Pad.track n
  | .background => Pad.background
  | .videoOut => Pad.videoOut
  | .audioOut => Pad.audioOut

/-- The letters a label starts with. -/
def word : PadName → List Char
  | .stream .. => []
  | .copy .. => ['s', 'r', 'c']
  | .blank _ => ['b', 'l', 'a', 'n', 'k']
  | .tile _ => ['t', 'i', 'l', 'e']
  | .canvas _ => ['c', 'a', 'n', 'v', 'a', 's']
  | .track _ => ['a']
  | .background => ['b', 'g']
  | .videoOut => ['v', 'o', 'u', 't']
  | .audioOut => ['a', 'o', 'u', 't']

/-- What follows them, which starts with a digit if there is anything. -/
def numbers : PadName → List Char
  | .stream i kind => Nat.toDigits 10 i ++ ':' :: kind.specifier.toList
  | .copy i k => Nat.toDigits 10 i ++ '_' :: Nat.toDigits 10 k
  | .blank n | .tile n | .canvas n | .track n => Nat.toDigits 10 n
  | .background | .videoOut | .audioOut => []

theorem toList_label (p : PadName) : p.pad.label.toList = p.word ++ p.numbers := by
  cases p <;> simp [pad, Pad.stream, Pad.copy, Pad.blank, Pad.tile, Pad.canvas, Pad.track,
    Pad.background, Pad.videoOut, Pad.audioOut, word, numbers]

theorem toDigits_injective {m n : Nat} (h : Nat.toDigits 10 m = Nat.toDigits 10 n) : m = n := by
  apply Nat.repr_injective
  rw [Nat.repr_eq_ofList_toDigits, h, Nat.repr_eq_ofList_toDigits]

/-- A number and what follows it can be told apart. -/
theorem toDigits_append_cons_inj {m n : Nat} {c : Char} (hc : c.isDigit = false)
    {s t : List Char} (h : Nat.toDigits 10 m ++ c :: s = Nat.toDigits 10 n ++ c :: t) :
    m = n ∧ s = t := by
  have hdigits (n : Nat) : ∀ d ∈ Nat.toDigits 10 n, d.isDigit :=
    fun d hd => Nat.isDigit_of_mem_toDigits (by decide) (by decide) hd
  obtain ⟨hnumber, hrest⟩ :=
    List.append_inj_of_head (hdigits m) (hdigits n) (by simpa using hc) (by simpa using hc) h
  exact ⟨toDigits_injective hnumber, (List.cons.inj hrest).2⟩

theorem takeWhile_numbers (p : PadName) : p.numbers.takeWhile (!·.isDigit) = [] := by
  have digits (n : Nat) (cs : List Char) :
      (Nat.toDigits 10 n ++ cs).takeWhile (!·.isDigit) = [] := by
    cases h : Nat.toDigits 10 n with
    | nil => exact absurd h Nat.toDigits_ne_nil
    | cons d ds =>
      have hd : d.isDigit = true :=
        Nat.isDigit_of_mem_toDigits (b := 10) (n := n) (by decide) (by decide) (by simp [h])
      simp [hd]
  cases p with
  | stream i kind => exact digits i _
  | copy i k => exact digits i _
  | blank n | tile n | canvas n | track n => simpa [numbers] using digits n []
  | background | videoOut | audioOut => rfl

theorem takeWhile_label (p : PadName) :
    p.pad.label.toList.takeWhile (!·.isDigit) = p.word := by
  rw [toList_label, List.takeWhile_append_of_pos, takeWhile_numbers, List.append_nil]
  cases p <;> simp [word]

theorem specifier_injective : Function.Injective fun k : StreamKind => k.specifier.toList := by
  intro j k h
  cases j <;> cases k <;> simp [StreamKind.specifier] at h ⊢

/-- Two pads made for different purposes have different labels. -/
theorem pad_injective : Function.Injective pad := by
  intro p q h
  have hw : p.word = q.word := by rw [← takeWhile_label, h, takeWhile_label]
  have hn : p.numbers = q.numbers := by
    have := congrArg (·.label.toList) h
    simp only [toList_label, hw] at this
    exact List.append_cancel_left this
  cases p <;> cases q <;> simp [word] at hw <;> simp only [numbers] at hn
  case stream =>
    obtain ⟨rfl, hk⟩ := toDigits_append_cons_inj (by decide) hn
    rw [specifier_injective hk]
  case copy =>
    obtain ⟨rfl, hk⟩ := toDigits_append_cons_inj (by decide) hn
    rw [toDigits_injective hk]
  case blank | tile | canvas | track => rw [toDigits_injective hn]
  all_goals rfl

@[simp] theorem pad_inj {p q : PadName} : p.pad = q.pad ↔ p = q := pad_injective.eq_iff

@[simp] theorem unmarked_label (p : PadName) : Text.Unmarked p.pad.label := by
  have hstream (k : StreamKind) : Text.Unmarked k.specifier := by
    cases k <;> simp [StreamKind.specifier, Text.Unmarked, Text.isMark]
  cases p <;> simp [pad, Pad.stream, Pad.copy, Pad.blank, Pad.tile, Pad.canvas, Pad.track,
    Pad.background, Pad.videoOut, Pad.audioOut, hstream] <;> simp [Text.Unmarked, Text.isMark]

/-- The three stretches of a graph that write pads. -/
inductive Part
  | source
  | picture
  | sound
  deriving DecidableEq

def part : PadName → Part
  | .stream _ .video | .copy .. => .source
  | .blank _ | .tile _ | .canvas _ | .background | .videoOut => .picture
  | .stream _ .audio | .track _ | .audioOut => .sound

theorem disjoint_of_part {ps qs : List PadName} (hne : ∀ p ∈ ps, ∀ q ∈ qs, p.part ≠ q.part) :
    List.Disjoint ps qs :=
  fun p hp hq => hne p hp p hq rfl

end PadName

end Montage
