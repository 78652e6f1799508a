import Mathlib
import Montage.FileTree
import Montage.Proofs.Decimal.Plain

/-!
The order of numbered stills.  A still is named by its number, with zeros before it up to four
digits, and stills are listed by their names.  So they come in the order of their numbers for as
long as four digits are enough, and no longer.
-/

namespace Montage

namespace Decimal

theorem ofDigitChars_cons (c : Char) (cs : List Char) :
    ofDigitChars (c :: cs) = 10 ^ cs.length * digitValue c + ofDigitChars cs := by
  have happend := ofDigitChars_append [c] cs
  rwa [List.singleton_append, show ofDigitChars [c] = digitValue c from Nat.zero_add _] at happend

theorem digit_bounds {c : Char} (h : c.isDigit) : 48 ≤ c.toNat ∧ c.toNat ≤ 57 := by
  simp only [Char.isDigit, Bool.and_eq_true, decide_eq_true_iff, ge_iff_le,
    UInt32.le_iff_toNat_le] at h
  exact h

theorem ofDigitChars_lt {cs : List Char} (h : ∀ c ∈ cs, c.isDigit) :
    ofDigitChars cs < 10 ^ cs.length := by
  induction cs with
  | nil => exact Nat.one_pos
  | cons c cs ih =>
    rw [List.forall_mem_cons] at h
    have hdigit := digit_bounds h.1
    have hvalue : digitValue c ≤ 9 := Nat.sub_le_of_le_add hdigit.2
    rw [ofDigitChars_cons, List.length_cons, Nat.pow_succ]
    calc
      10 ^ cs.length * digitValue c + ofDigitChars cs <
          10 ^ cs.length * digitValue c + 10 ^ cs.length := Nat.add_lt_add_left (ih h.2) _
      _ = 10 ^ cs.length * (digitValue c + 1) := (Nat.mul_succ ..).symm
      _ ≤ 10 ^ cs.length * 10 := Nat.mul_le_mul_left _ (Nat.succ_le_succ hvalue)

/-- Of two rows of digits of one length, the one that stands for less comes first. -/
theorem append_lt_append {cs ds : List Char} (hcs : ∀ c ∈ cs, c.isDigit) (hds : ∀ d ∈ ds, d.isDigit)
    (hlength : cs.length = ds.length) (h : ofDigitChars cs < ofDigitChars ds) (more : List Char) :
    cs ++ more < ds ++ more := by
  induction cs generalizing ds with
  | nil =>
    rw [List.length_nil, eq_comm, List.length_eq_zero_iff] at hlength
    subst hlength
    exact absurd h (lt_irrefl _)
  | cons c cs ih =>
    cases ds with
    | nil => exact absurd hlength (Nat.succ_ne_zero _)
    | cons d ds =>
      rw [List.forall_mem_cons] at hcs hds
      rw [List.length_cons, List.length_cons, Nat.succ_inj] at hlength
      rw [ofDigitChars_cons, ofDigitChars_cons, ← hlength] at h
      rw [List.cons_append, List.cons_append, List.cons_lt_cons_iff]
      have hc := digit_bounds hcs.1
      have hd := digit_bounds hds.1
      rcases lt_trichotomy c d with hlt | rfl | hgt
      · exact .inl hlt
      · exact .inr ⟨rfl, ih hcs.2 hds.2 hlength (Nat.lt_of_add_lt_add_left h)⟩
      · -- The first digit decides: what follows it stands for less than one of its kind.
        have hfirst : digitValue d + 1 ≤ digitValue c := by
          have hchars : d.toNat < c.toNat := hgt
          change d.toNat - 48 + 1 ≤ c.toNat - 48
          omega
        have hrest := ofDigitChars_lt hds.2
        rw [← hlength] at hrest
        have hle := Nat.mul_le_mul_left (10 ^ cs.length) hfirst
        rw [Nat.mul_succ] at hle
        omega

end Decimal

namespace Path

theorem join_inj {base a b : String} (ha : isAbsolute a = false) (hb : isAbsolute b = false)
    (h : join base a = join base b) : a = b := by
  simp only [join, ha, hb, Bool.false_or] at h
  split at h
  · exact h
  · split at h
    · exact String.append_right_inj _ |>.mp h
    · exact String.append_right_inj _ |>.mp h

end Path

namespace FileTree

open Decimal (digitChars zeros ofDigitChars)

/-- The digits of a number, with zeros before them up to four. -/
def fourDigits (n : Nat) : List Char := zeros (4 - (digitChars n).length) ++ digitChars n

/-- The name of the still with a number. -/
def stillName (n : Nat) : String := String.ofList (fourDigits n ++ ".png".toList)

/-- The names of the first stills, in the order of their numbers. -/
def stillNames (n : Nat) : List String := (List.range n).map fun k => stillName (k + 1)

variable {t : FileTree} {dir : Place} {path : String} {names others : List String} {m n : Nat}

theorem ofDigitChars_fourDigits (n : Nat) : ofDigitChars (fourDigits n) = n := by
  rw [fourDigits, Decimal.ofDigitChars_zeros_append, Decimal.ofDigitChars_digitChars]

theorem isDigit_of_mem_fourDigits {c : Char} (h : c ∈ fourDigits n) : c.isDigit :=
  (List.mem_append.mp h).elim Decimal.isDigit_of_mem_zeros Decimal.isDigit_of_mem_digitChars

theorem length_fourDigits (hn : n < 10000) : (fourDigits n).length = 4 := by
  have hlength : (digitChars n).length ≤ 4 :=
    (Nat.length_toDigits_le_iff (by decide) (by decide)).mpr hn
  rw [fourDigits, List.length_append, Decimal.length_zeros]
  omega

theorem toList_stillName (n : Nat) : (stillName n).toList = fourDigits n ++ ".png".toList :=
  String.toList_ofList

theorem stillName_injective : Function.Injective stillName := by
  intro m n h
  have hdigits := List.append_cancel_right (String.ofList_injective h)
  rw [← ofDigitChars_fourDigits m, hdigits, ofDigitChars_fourDigits]

theorem stillName_lt (h : m < n) (hn : n < 10000) : stillName m < stillName n := by
  have hlength : (fourDigits m).length = (fourDigits n).length := by
    rw [length_fourDigits (h.trans hn), length_fourDigits hn]
  have hvalue : ofDigitChars (fourDigits m) < ofDigitChars (fourDigits n) := by
    rwa [ofDigitChars_fourDigits, ofDigitChars_fourDigits]
  have hlt := Decimal.append_lt_append (fun _ => isDigit_of_mem_fourDigits)
    (fun _ => isDigit_of_mem_fourDigits) hlength hvalue ".png".toList
  rwa [String.lt_iff_toList_lt, toList_stillName, toList_stillName]

/-- The names go by number as long as four digits are enough. -/
theorem pairwise_stillNames_iff : (stillNames n).Pairwise (· < ·) ↔ n ≤ 9999 := by
  rw [stillNames, List.pairwise_map]
  constructor
  · intro h
    by_contra hn
    have hlength : 9999 < (List.range n).length := by
      rw [List.length_range]
      omega
    have hlast := List.pairwise_iff_getElem.mp h 9998 9999 (by omega) hlength (by decide)
    rw [List.getElem_range, List.getElem_range] at hlast
    exact absurd hlast (by decide +kernel)
  · intro hn
    refine List.pairwise_lt_range.imp_of_mem fun ha hb hab => stillName_lt (by omega) ?_
    rw [List.mem_range] at hb
    omega

theorem nodup_stillNames (n : Nat) : (stillNames n).Nodup :=
  List.nodup_range.map fun _ _ h => Nat.succ.inj (stillName_injective h)

theorem exists_cons_fourDigits (n : Nat) : ∃ c cs, fourDigits n = c :: cs ∧ c.isDigit := by
  have hpos : 0 < (fourDigits n).length := by
    have hdigits : 0 < (digitChars n).length := Nat.length_toDigits_pos
    rw [fourDigits, List.length_append]
    omega
  obtain ⟨c, cs, hcons⟩ := List.exists_cons_of_length_pos hpos
  have hmem : c ∈ fourDigits n := by
    rw [hcons]
    exact List.mem_cons_self
  exact ⟨c, cs, hcons, isDigit_of_mem_fourDigits hmem⟩

theorem extension?_stillName (n : Nat) : Path.extension? (stillName n) = some "png" := by
  obtain ⟨c, cs, hcons, hdigit⟩ := exists_cons_fourDigits n
  have hback : (stillName n).toList.reverse =
      'g' :: 'n' :: 'p' :: '.' :: (fourDigits n).reverse := by
    rw [toList_stillName, List.reverse_append]
    rfl
  have hname : stillName n ≠ ".." := by
    intro h
    have hlist : c :: (cs ++ ".png".toList) = ['.', '.'] := by
      rw [← List.cons_append, ← hcons, ← toList_stillName, h]
      rfl
    obtain rfl := (List.cons.inj hlist).1
    exact absurd hdigit (by decide)
  have hdrop : ('g' :: 'n' :: 'p' :: '.' :: (fourDigits n).reverse).dropWhile (· ≠ '.') =
      '.' :: (fourDigits n).reverse := rfl
  obtain ⟨d, ds, hreverse⟩ : ∃ d ds, (fourDigits n).reverse = d :: ds :=
    List.exists_cons_of_ne_nil (by simp [hcons])
  unfold Path.extension?
  dsimp only
  rw [hback, hdrop, hreverse]
  dsimp only
  rw [if_neg hname]
  rfl

theorem isAbsolute_stillName (n : Nat) : Path.isAbsolute (stillName n) = false := by
  obtain ⟨c, cs, hcons, hdigit⟩ := exists_cons_fourDigits n
  have hne : c ≠ '/' := by
    rintro rfl
    exact absurd hdigit (by decide)
  rw [Path.isAbsolute, toList_stillName, hcons]
  simpa using hne

theorem pairwise_mergeSort {names : List String} (h : names.Nodup) :
    (names.mergeSort fun a b => !decide (b < a)).Pairwise (· < ·) := by
  have hsorted : (names.mergeSort fun a b => !decide (b < a)).Pairwise (· ≤ ·) := by
    have hle (a b : String) : (!decide (b < a)) = true ↔ a ≤ b := by
      rw [Bool.not_eq_true', decide_eq_false_iff_not, not_lt]
    have htrans (a b c : String) (hab : (!decide (b < a)) = true) (hbc : (!decide (c < b)) = true) :
        (!decide (c < a)) = true := by
      rw [hle] at *
      exact hab.trans hbc
    have htotal (a b : String) : (!decide (b < a) || !decide (a < b)) = true := by
      rw [Bool.or_eq_true, hle, hle]
      exact le_total a b
    exact (List.pairwise_mergeSort htrans htotal names).imp fun h => (hle _ _).mp h
  have hnodup := (List.mergeSort_perm names fun a b => !decide (b < a)).nodup_iff.mpr h
  exact hsorted.imp₂ (fun _ _ => lt_of_le_of_ne) hnodup

/-- Relative names are told apart in any directory. -/
theorem eq_of_map_join {stills : List String} (hperm : stills.Perm (stillNames n))
    (h : stills.map (Path.join path) = (stillNames n).map (Path.join path)) :
    stills = stillNames n := by
  have hrelative {name : String} (hname : name ∈ stillNames n) : Path.isAbsolute name = false := by
    obtain ⟨k, -, rfl⟩ := List.mem_map.mp hname
    exact isAbsolute_stillName _
  exact List.eq_of_map_eq (fun a ha b hb =>
    Path.join_inj (hrelative (hperm.mem_iff.mp ha)) (hrelative hb)) h

/-- What is listed are the names with the extension, sorted. -/
theorem exists_sorted (h : t.childNames dir path = .ok names)
    (hnames : names.Perm (stillNames n ++ others))
    (hothers : ∀ name ∈ others, Path.extension? name ≠ some "png") :
    ∃ stills : List String, t.listStills dir path = .ok (stills.map (Path.join path)) ∧
      stills.Perm (stillNames n) ∧ stills.Pairwise (· < ·) := by
  let isStill (name : String) : Bool := Path.extension? name = some "png"
  have hfilter : (names.filter isStill).Perm (stillNames n) := by
    have hperm := hnames.filter isStill
    have hown : (stillNames n).filter isStill = stillNames n := by
      rw [List.filter_eq_self]
      intro name hname
      obtain ⟨k, -, rfl⟩ := List.mem_map.mp hname
      exact decide_eq_true (extension?_stillName _)
    have hnone : others.filter isStill = [] := by
      rw [List.filter_eq_nil_iff]
      intro name hname htrue
      exact hothers name hname (of_decide_eq_true htrue)
    rwa [List.filter_append, hown, hnone, List.append_nil] at hperm
  refine ⟨(names.filter isStill).mergeSort fun a b => !decide (b < a), ?_, ?_, ?_⟩
  · rw [listStills, h]
    rfl
  · exact (List.mergeSort_perm ..).trans hfilter
  · exact pairwise_mergeSort (hfilter.nodup_iff.mpr (nodup_stillNames n))

/-- Of the numbered stills and of files without their extension the stills are listed, each once and
by name.  That is the order of their numbers as long as four digits are enough. -/
theorem listStills_numbered (h : t.childNames dir path = .ok names)
    (hnames : names.Perm (stillNames n ++ others))
    (hothers : ∀ name ∈ others, Path.extension? name ≠ some "png") :
    ∃ stills : List String, t.listStills dir path = .ok (stills.map (Path.join path)) ∧
      stills.Perm (stillNames n) ∧ stills.Pairwise (· < ·) ∧
      (t.listStills dir path = .ok ((stillNames n).map (Path.join path)) ↔ n ≤ 9999) := by
  obtain ⟨stills, hlist, hperm, hsorted⟩ := exists_sorted h hnames hothers
  refine ⟨stills, hlist, hperm, hsorted, ?_⟩
  rw [← pairwise_stillNames_iff, hlist, Except.ok.injEq]
  constructor
  · intro heq
    rwa [← eq_of_map_join hperm heq]
  · intro hnumbered
    rw [hperm.eq_of_pairwise (fun a b _ _ hab hba => absurd hab hba.asymm) hsorted hnumbered]

/-- A directory with some files. -/
def folder (names : List String) : FileTree :=
  ⟨(["d"], .directory) :: names.map fun name => (["d", name], .file [] false)⟩

theorem childNames_folder (names : List String) : (folder names).childNames [] "d" = .ok names := by
  have hnames : (folder names).childNames [] "d" = .ok ((folder names).entries.filterMap fun e =>
      if e.1.dropLast = ["d"] then e.1.getLast? else none) := rfl
  rw [hnames, folder, List.filterMap_cons_none rfl, List.filterMap_map]
  exact congrArg Except.ok List.filterMap_some

/-- Two stills and a note, in no order. -/
theorem listStills_pair : ∃ stills : List String,
    (folder ["0002.png", "notes.txt", "0001.png"]).listStills [] "d" =
      .ok (stills.map (Path.join "d")) ∧
    stills.Perm (stillNames 2) ∧ stills.Pairwise (· < ·) ∧
    ((folder ["0002.png", "notes.txt", "0001.png"]).listStills [] "d" =
      .ok ((stillNames 2).map (Path.join "d")) ↔ 2 ≤ 9999) :=
  listStills_numbered (childNames_folder _) (by decide +kernel : List.Perm _ (_ ++ ["notes.txt"]))
    (by decide +kernel)

/-- The name of the last of ten thousand stills comes before those of most others. -/
theorem listStills_crowded :
    (folder (stillNames 10000)).childNames [] "d" = .ok (stillNames 10000) ∧
      (folder (stillNames 10000)).listStills [] "d" ≠
        .ok ((stillNames 10000).map (Path.join "d")) := by
  refine ⟨childNames_folder _, fun h => ?_⟩
  have hnames : (stillNames 10000).Perm (stillNames 10000 ++ []) := by rw [List.append_nil]
  obtain ⟨stills, hlist, hperm, hsorted⟩ := exists_sorted (childNames_folder _) hnames (by simp)
  rw [hlist, Except.ok.injEq] at h
  rw [eq_of_map_join hperm h, pairwise_stillNames_iff] at hsorted
  omega

end FileTree

end Montage
