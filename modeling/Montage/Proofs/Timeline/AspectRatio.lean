import Mathlib
import Montage.Proofs.Decimal.Plain
import Montage.Timeline.Mode

/-!
Which texts are aspect ratios.  A ratio is two numbers from one on, on either side of the first
colon, each with blanks around it; every other text is refused as it stands, and a ratio is read
back from its own text.
-/

namespace Montage

namespace Text

def Blank (cs : List Char) : Prop := ∀ c ∈ cs, isBlank c

theorem Blank.reverse {cs : List Char} (h : Blank cs) : Blank cs.reverse :=
  fun c hc => h c (List.mem_reverse.mp hc)

/-- Blanks on both sides are trimmed away. -/
theorem trim_append {before core after : List Char} (hbefore : Blank before) (hafter : Blank after)
    (hne : core ≠ []) (hcore : ∀ c ∈ core, isBlank c = false) :
    trim (before ++ core ++ after) = core := by
  have hkeep : (core ++ after).dropWhile isBlank = core ++ after := by
    rw [List.dropWhile_append, dropWhile_isBlank hcore, if_neg (by simpa using hne)]
  rw [trim, List.append_assoc, List.dropWhile_append_of_pos hbefore, hkeep, List.reverse_append,
    List.dropWhile_append_of_pos hafter.reverse,
    dropWhile_isBlank fun c hc => hcore c (List.mem_reverse.mp hc), List.reverse_reverse]

/-- Nothing but blanks is trimmed away. -/
theorem exists_eq_trim (cs : List Char) :
    ∃ before after, cs = before ++ trim cs ++ after ∧ Blank before ∧ Blank after := by
  have hbefore : Blank (cs.takeWhile isBlank) := fun _ => List.mem_takeWhile_imp
  have hafter : Blank ((cs.dropWhile isBlank).rtakeWhile isBlank) := fun _ =>
    List.mem_rtakeWhile_imp
  refine ⟨_, _, ?_, hbefore, hafter⟩
  change cs = cs.takeWhile isBlank ++ (cs.dropWhile isBlank).rdropWhile isBlank ++ _
  rw [List.append_assoc, List.rdropWhile_append_rtakeWhile, List.takeWhile_append_dropWhile]

end Text

namespace Decimal

/-- One or more digits, and the number that they stand for. -/
structure Figures (cs : List Char) (n : Nat) : Prop where
  ne_nil : cs ≠ []
  isDigit : ∀ c ∈ cs, c.isDigit
  value : Nat.ofDigitChars 10 cs 0 = n

/-- The same, after at most one plus sign. -/
def Spells (cs : List Char) (n : Nat) : Prop :=
  Figures cs n ∨ ∃ ds, cs = '+' :: ds ∧ Figures ds n

variable {cs : List Char} {n : Nat}

theorem figures_digitChars (n : Nat) : Figures (digitChars n) n where
  ne_nil := Nat.toDigits_ne_nil
  isDigit _ := isDigit_of_mem_digitChars
  value := ofDigitChars_digitChars n

theorem isBlank_of_isDigit {c : Char} (h : c.isDigit) : Text.isBlank c = false := by
  simp only [Char.isDigit, Bool.and_eq_true, decide_eq_true_eq] at h
  obtain ⟨hlow, hhigh⟩ := h
  have hlow' : 48 ≤ c.toNat := hlow
  have hhigh' : c.toNat ≤ 57 := hhigh
  simp only [Text.isBlank, Bool.or_eq_false_iff, Bool.and_eq_false_iff, decide_eq_false_iff_not,
    beq_eq_false_iff_ne]
  omega

theorem Figures.isBlank (h : Figures cs n) : ∀ c ∈ cs, Text.isBlank c = false :=
  fun c hc => isBlank_of_isDigit (h.isDigit c hc)

theorem Figures.not_plus {ds : List Char} : ¬Figures ('+' :: ds) n := fun h =>
  absurd (h.isDigit '+' List.mem_cons_self) (by decide)

theorem Spells.ne_nil (h : Spells cs n) : cs ≠ [] := by
  rcases h with h | ⟨ds, rfl, -⟩
  · exact h.ne_nil
  · exact List.cons_ne_nil _ _

theorem Spells.isBlank (h : Spells cs n) : ∀ c ∈ cs, Text.isBlank c = false := by
  rcases h with h | ⟨ds, rfl, h⟩
  · exact h.isBlank
  · exact List.forall_mem_cons.mpr ⟨by decide, h.isBlank⟩

theorem readFigures_eq_some_iff {ds : List Char} {bound : Nat} :
    (if ds.isEmpty || !ds.all Char.isDigit then none
      else if ofDigitChars ds < bound then some (ofDigitChars ds) else none) = some n ↔
        Figures ds n ∧ n < bound := by
  by_cases hds : ds ≠ [] ∧ ∀ c ∈ ds, c.isDigit
  · rw [if_neg (by simpa using hds), Option.ite_none_right_eq_some, Option.some.injEq]
    constructor
    · rintro ⟨hlt, rfl⟩
      exact ⟨⟨hds.1, hds.2, rfl⟩, hlt⟩
    · rintro ⟨⟨-, -, rfl⟩, hlt⟩
      exact ⟨hlt, rfl⟩
  · rw [if_pos (by simpa [or_iff_not_imp_left] using hds)]
    exact iff_of_false nofun fun h => hds ⟨h.1.ne_nil, h.1.isDigit⟩

theorem readWhole?_eq_some_iff {bound : Nat} :
    readWhole? bound cs = some n ↔ Spells cs n ∧ n < bound := by
  unfold readWhole? Spells
  split
  case h_1 rest =>
    rw [readFigures_eq_some_iff]
    simp [Figures.not_plus]
  case h_2 hplus =>
    rw [readFigures_eq_some_iff]
    have hnone : ¬∃ ds, cs = '+' :: ds ∧ Figures ds n := fun ⟨ds, h, _⟩ => hplus ds h
    rw [or_iff_left hnone]

end Decimal

namespace AspectRatio

open Decimal Text

/-- A number from one to the largest word, with blanks around it. -/
structure Part (cs : List Char) (n : Nat) : Prop where
  pos : 1 ≤ n
  lt : n < UInt32.size
  spells : ∃ before core after,
    cs = before ++ core ++ after ∧ Blank before ∧ Blank after ∧ Spells core n

/-- Two such numbers around the first colon. -/
def Written (cs : List Char) (r : AspectRatio) : Prop :=
  ∃ a b, cs = a ++ ':' :: b ∧ ':' ∉ a ∧ Part a r.num.toNat ∧ Part b r.den.toNat

theorem spells_trim_iff {cs : List Char} {n : Nat} : Spells (trim cs) n ↔
    ∃ before core after,
      cs = before ++ core ++ after ∧ Blank before ∧ Blank after ∧ Spells core n := by
  constructor
  · intro h
    obtain ⟨before, after, hcs, hbefore, hafter⟩ := exists_eq_trim cs
    exact ⟨before, trim cs, after, hcs, hbefore, hafter, h⟩
  · rintro ⟨before, core, after, rfl, hbefore, hafter, h⟩
    rwa [trim_append hbefore hafter h.ne_nil h.isBlank]

def part? (cs : List Char) : Option Nat := do
  let n ← readWhole? UInt32.size (trim cs)
  if n = 0 then none else some n

theorem part?_eq_some_iff {cs : List Char} {n : Nat} : part? cs = some n ↔ Part cs n := by
  simp only [part?, Option.bind_eq_bind, Option.bind_eq_some_iff, readWhole?_eq_some_iff,
    Option.ite_none_left_eq_some, Option.some.injEq, spells_trim_iff]
  constructor
  · rintro ⟨_, ⟨h, hlt⟩, hne, rfl⟩
    exact ⟨Nat.pos_of_ne_zero hne, hlt, h⟩
  · rintro ⟨hpos, hlt, h⟩
    exact ⟨n, ⟨h, hlt⟩, by omega, rfl⟩

def ratio? (cs : List Char) : Option AspectRatio := do
  let (a, b) ← splitAtFirst? ':' cs
  return ⟨UInt32.ofNat (← part? a), UInt32.ofNat (← part? b)⟩

theorem ratio?_eq_some_iff {cs : List Char} {r : AspectRatio} :
    ratio? cs = some r ↔ Written cs r := by
  constructor
  · intro h
    obtain ⟨⟨a, b⟩, hsplit, h⟩ := Option.bind_eq_some_iff.mp h
    obtain ⟨m, hm, h⟩ := Option.bind_eq_some_iff.mp h
    obtain ⟨n, hn, h⟩ := Option.bind_eq_some_iff.mp h
    obtain rfl := Option.some.inj h
    obtain ⟨hcs, hcolon⟩ := splitAtFirst?_eq_some hsplit
    have hm := part?_eq_some_iff.mp hm
    have hn := part?_eq_some_iff.mp hn
    refine ⟨a, b, hcs, hcolon, ?_, ?_⟩
    · rwa [UInt32.toNat_ofNat_of_lt' hm.lt]
    · rwa [UInt32.toNat_ofNat_of_lt' hn.lt]
  · rintro ⟨a, b, rfl, hcolon, hnum, hden⟩
    have hnum := part?_eq_some_iff.mpr hnum
    have hden := part?_eq_some_iff.mpr hden
    simp [ratio?, splitAtFirst?_append hcolon, hnum, hden]

theorem parse_eq (s : String) :
    parse s = (ratio? s.toList).elim (.error (.aspectRatio s)) .ok := by
  unfold parse
  dsimp only
  split
  case h_1 r h => rw [show ratio? s.toList = some r from h, Option.elim_some]
  case h_2 h => rw [show ratio? s.toList = none from h, Option.elim_none]

theorem parse_eq_ok_iff {s : String} {r : AspectRatio} :
    parse s = .ok r ↔ Written s.toList r := by
  rw [parse_eq, ← ratio?_eq_some_iff]
  cases ratio? s.toList <;> simp

/-- An aspect ratio is read back from its text. -/
theorem parse_text {r : AspectRatio} (hnum : r.num ≠ 0) (hden : r.den ≠ 0) :
    parse r.text = .ok r := by
  have hpart {n : UInt32} (hn : n ≠ 0) : Part (digitChars n.toNat) n.toNat := by
    have hpos : n.toNat ≠ 0 := fun hzero => hn (UInt32.toNat.inj hzero)
    refine ⟨Nat.pos_of_ne_zero hpos, n.toNat_lt, [], digitChars n.toNat, [], ?_, nofun, nofun, ?_⟩
    · simp
    · exact .inl (figures_digitChars _)
  have hcolon : ':' ∉ digitChars r.num.toNat := fun h =>
    absurd (isDigit_of_mem_digitChars h) (by decide)
  refine parse_eq_ok_iff.mpr ⟨_, _, ?_, hcolon, hpart hnum, hpart hden⟩
  simp [text, Nat.toString_eq_repr, Nat.toList_repr, digitChars]

theorem Written.ne_zero {cs : List Char} {r : AspectRatio} (h : Written cs r) :
    r.num ≠ 0 ∧ r.den ≠ 0 := by
  obtain ⟨a, b, -, -, hnum, hden⟩ := h
  have hpos := hnum.pos
  have hpos' := hden.pos
  constructor
  · rintro hzero
    rw [hzero] at hpos
    contradiction
  · rintro hzero
    rw [hzero] at hpos'
    contradiction

/-- A text is read as the ratio that it writes, and refused as it stands if it writes none.  What a
ratio prints reads as the ratio, and so every text that is read reads the same once printed. -/
theorem parse_written :
    (∀ s r, parse s = .ok r ↔ Written s.toList r) ∧
      (∀ s, (¬∃ r, Written s.toList r) → parse s = .error (.aspectRatio s)) ∧
      (∀ r : AspectRatio, r.num ≠ 0 → r.den ≠ 0 → parse r.text = .ok r) ∧
      ∀ s r, parse s = .ok r → parse r.text = parse s := by
  refine ⟨fun s r => parse_eq_ok_iff, fun s h => ?_, fun r => parse_text, fun s r h => ?_⟩
  · have hnone : ratio? s.toList = none :=
      Option.eq_none_iff_forall_ne_some.mpr fun r hr => h ⟨r, ratio?_eq_some_iff.mp hr⟩
    rw [parse_eq, hnone, Option.elim_none]
  · obtain ⟨hnum, hden⟩ := (parse_eq_ok_iff.mp h).ne_zero
    rw [h, parse_text hnum hden]

/-- Blanks, a plus sign and zeros before the numbers change nothing. -/
example : parse " +016 :\u2003 0009" = .ok .widescreen := by decide

end AspectRatio

end Montage
