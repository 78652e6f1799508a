import Mathlib
import Montage.Decimal.Reading
import Montage.Proofs.Decimal.Basin
import Montage.Proofs.Text.Numerals

/-!
Plain numbers, read back.  The text of a double reads back as a decimal in the basin of the double,
so no two doubles are written alike.
-/

namespace Montage.Decimal

def Written.value (w : Written) : ℚ := w.mantissa * 10 ^ w.exponent

/-- The characters are a decimal without a sign, and this is its value. -/
def ReadsAs (cs : List Char) (x : ℚ) : Prop := ∃ w, readUnsigned? cs = some w ∧ w.value = x

theorem ReadsAs.unique {cs : List Char} {x y : ℚ} (hx : ReadsAs cs x) (hy : ReadsAs cs y) :
    x = y := by
  obtain ⟨w, hw, rfl⟩ := hx
  obtain ⟨w', hw', rfl⟩ := hy
  rw [Option.some.inj (hw.symm.trans hw')]

theorem ofDigitChars_eq (cs : List Char) : ofDigitChars cs = Nat.ofDigitChars 10 cs 0 := rfl

theorem ofDigitChars_append (cs ds : List Char) :
    ofDigitChars (cs ++ ds) = 10 ^ ds.length * ofDigitChars cs + ofDigitChars ds := by
  rw [ofDigitChars_eq, Nat.ofDigitChars_append, Nat.ofDigitChars_eq_ofDigitChars_zero]
  rfl

@[simp] theorem ofDigitChars_digitChars (n : Nat) : ofDigitChars (digitChars n) = n :=
  Nat.ofDigitChars_ten_toDigits

@[simp] theorem ofDigitChars_zeros (n : Nat) : ofDigitChars (zeros n) = 0 := by
  rw [ofDigitChars_eq, zeros, Nat.ofDigitChars_replicate_zero, Nat.mul_zero]

theorem ofDigitChars_zeros_append (n : Nat) (cs : List Char) :
    ofDigitChars (zeros n ++ cs) = ofDigitChars cs := by
  rw [ofDigitChars_append, ofDigitChars_zeros, Nat.mul_zero, Nat.zero_add]

@[simp] theorem length_zeros (n : Nat) : (zeros n).length = n := List.length_replicate

theorem spanDigits_append {cs rest : List Char} (h : ∀ c ∈ cs, c.isDigit)
    (hr : ∀ c ∈ rest.head?, c.isDigit = false) : spanDigits (cs ++ rest) = (cs, rest) := by
  rw [spanDigits, List.span_eq_takeWhile_dropWhile, List.takeWhile_append_of_head h hr,
    List.dropWhile_append_of_pos h]
  cases rest with
  | nil => rfl
  | cons c rest => simp [hr c rfl]

theorem spanDigits_eq {cs : List Char} (h : ∀ c ∈ cs, c.isDigit) : spanDigits cs = (cs, []) := by
  have hend : ∀ c ∈ ([] : List Char).head?, c.isDigit = false := by simp
  simpa using spanDigits_append h hend

theorem readsAs_whole {cs : List Char} (hne : cs ≠ []) (h : ∀ c ∈ cs, c.isDigit) :
    ReadsAs cs (ofDigitChars cs) := by
  refine ⟨⟨ofDigitChars cs, 0, true⟩, ?_, by simp [Written.value]⟩
  unfold readUnsigned?
  rw [spanDigits_eq h]
  simp [hne]

theorem readsAs_pointed {cs ds : List Char} (hne : cs ≠ []) (hcs : ∀ c ∈ cs, c.isDigit)
    (hds : ∀ c ∈ ds, c.isDigit) :
    ReadsAs (cs ++ '.' :: ds) (ofDigitChars (cs ++ ds) * 10 ^ (-ds.length : Int)) := by
  have hspan : spanDigits (cs ++ '.' :: ds) = (cs, '.' :: ds) :=
    spanDigits_append hcs (by simp)
  refine ⟨⟨ofDigitChars (cs ++ ds), -ds.length, false⟩, ?_, rfl⟩
  unfold readUnsigned?
  rw [hspan]
  simp [spanDigits_eq hds, hne]

/-- Digits with the point in front of the last ones. -/
theorem readsAs_split {cs : List Char} (h : ∀ c ∈ cs, c.isDigit) {k : Nat} (hk : k < cs.length) :
    ReadsAs (cs.take (cs.length - k) ++ '.' :: cs.drop (cs.length - k))
      (ofDigitChars cs * 10 ^ (-k : Int)) := by
  have hread : ReadsAs (cs.take (cs.length - k) ++ '.' :: cs.drop (cs.length - k)) _ :=
    readsAs_pointed (List.ne_nil_of_length_pos (by rw [List.length_take]; omega))
      (fun c hc => h c (List.mem_of_mem_take hc)) (fun c hc => h c (List.mem_of_mem_drop hc))
  have hplaces : (cs.drop (cs.length - k)).length = k := by
    rw [List.length_drop]
    omega
  rwa [List.take_append_drop, hplaces] at hread

/-- Digits with the point and zeros before them. -/
theorem readsAs_padded {cs : List Char} (h : ∀ c ∈ cs, c.isDigit) {k : Nat} (hk : cs.length ≤ k) :
    ReadsAs ('0' :: '.' :: (zeros (k - cs.length) ++ cs)) (ofDigitChars cs * 10 ^ (-k : Int)) := by
  have hread : ReadsAs (zeros 1 ++ '.' :: (zeros (k - cs.length) ++ cs)) _ :=
    readsAs_pointed (by simp [zeros]) (fun c => isDigit_of_mem_zeros)
      (List.forall_mem_append.mpr ⟨fun c => isDigit_of_mem_zeros, h⟩)
  have hplaces : (zeros (k - cs.length) ++ cs).length = k := by
    rw [List.length_append, length_zeros]
    omega
  rwa [ofDigitChars_zeros_append, ofDigitChars_zeros_append, hplaces] at hread

/-- Digits with their point written out read back as the number they stand for. -/
theorem readsAs_positional (d : Digits) :
    ReadsAs (positional d []) (d.digits * 10 ^ d.exponent) := by
  have hdigits : ∀ c ∈ digitChars d.digits, c.isDigit := fun c => isDigit_of_mem_digitChars
  cases he : d.exponent with
  | ofNat k =>
    have hall : ∀ c ∈ digitChars d.digits ++ zeros k, c.isDigit :=
      List.forall_mem_append.mpr ⟨hdigits, fun c => isDigit_of_mem_zeros⟩
    have hread := readsAs_whole (by simp [digitChars, Nat.toDigits_ne_nil]) hall
    rw [ofDigitChars_append, ofDigitChars_digitChars, ofDigitChars_zeros, length_zeros,
      Nat.add_zero, mul_comm] at hread
    simp only [positional, he, List.append_nil]
    rw [Int.ofNat_eq_natCast, zpow_natCast]
    exact_mod_cast hread
  | negSucc k =>
    rw [← ofDigitChars_digitChars d.digits, Int.negSucc_eq, ← Nat.cast_succ]
    simp only [positional, he]
    split
    case isTrue hlt => exact readsAs_split hdigits hlt
    case isFalse hge => exact readsAs_padded hdigits (Nat.le_of_not_lt hge)

/-- The text of a finite double reads back as zero or as a number that rounds to the double. -/
theorem exists_readsAs_unsigned {x : Float} {negative : Bool} {m : Nat} {q : Int}
    (h : Exact.ofFloat x = .finite negative m q) :
    ∃ y, ReadsAs (unsigned m q) y ∧
      if m = 0 then y = 0 else (Basin.ofBinary m q).Holds y := by
  unfold unsigned
  split
  case isTrue =>
    exact ⟨_, readsAs_whole (by simp) (by simp), rfl⟩
  case isFalse hm =>
    have hpos := Nat.pos_of_ne_zero hm
    exact ⟨_, readsAs_positional _,
      holds_shortest .up hpos (canonical_of_ofFloat hpos h) (exponent_le_of_ofFloat h)⟩

theorem signed_inj {negative negative' : Bool} {cs ds : List Char} (hcs : '-' ∉ cs)
    (hds : '-' ∉ ds) (h : signed negative cs = signed negative' ds) :
    negative = negative' ∧ cs = ds := by
  cases negative <;> cases negative' <;> simp only [signed, if_true, reduceCtorEq, if_false] at h
  · exact ⟨rfl, h⟩
  · exact absurd (h ▸ List.mem_cons_self ..) hcs
  · exact absurd (h ▸ List.mem_cons_self ..) hds
  · exact ⟨rfl, (List.cons.inj h).2⟩

theorem not_mem_unsigned {c : Char} (hdigit : c.isDigit = false) (hpoint : c ≠ '.') (m : Nat)
    (q : Int) : c ∉ unsigned m q := by
  intro h
  rcases isDigit_or_eq_of_mem_unsigned h with hc | hc
  · rw [hdigit] at hc
    contradiction
  · exact hpoint hc

theorem nan_iff_mem_chars {e : Exact} : e = .nan ↔ 'N' ∈ e.chars := by
  cases e with
  | nan => simp [Exact.chars]
  | infinite negative => cases negative <;> simp [Exact.chars, signed]
  | finite negative m q =>
    have h : 'N' ∉ unsigned m q := not_mem_unsigned (by decide) (by decide) m q
    cases negative <;> simp [Exact.chars, signed, h]

theorem infinite_iff_mem_chars {e : Exact} :
    (∃ negative, e = .infinite negative) ↔ 'i' ∈ e.chars := by
  cases e with
  | nan => simp [Exact.chars]
  | infinite negative => cases negative <;> simp [Exact.chars, signed]
  | finite negative m q =>
    have h : 'i' ∉ unsigned m q := not_mem_unsigned (by decide) (by decide) m q
    cases negative <;> simp [Exact.chars, signed, h]

theorem exponent_eq_zero_of_ofFloat {x : Float} {negative : Bool} {q : Int}
    (h : Exact.ofFloat x = .finite negative 0 q) : q = 0 := by
  rw [← Fields.exact_ofFloat] at h
  unfold Fields.exact at h
  split_ifs at h <;> simp only [Exact.finite.injEq] at h <;> omega

/-- Two finite doubles whose texts agree but for the sign: both texts read back as one number, and
no number rounds to two doubles. -/
theorem eq_of_unsigned_eq {x y : Float} {negative negative' : Bool} {m n : Nat} {q p : Int}
    (hx : Exact.ofFloat x = .finite negative m q) (hy : Exact.ofFloat y = .finite negative' n p)
    (h : unsigned m q = unsigned n p) : m = n ∧ q = p := by
  obtain ⟨a, hread, ha⟩ := exists_readsAs_unsigned hx
  obtain ⟨b, hread', hb⟩ := exists_readsAs_unsigned hy
  obtain rfl := hread.unique (h ▸ hread')
  rcases Nat.eq_zero_or_pos m with rfl | hm <;> rcases Nat.eq_zero_or_pos n with rfl | hn
  · exact ⟨rfl, (exponent_eq_zero_of_ofFloat hx).trans (exponent_eq_zero_of_ofFloat hy).symm⟩
  · rw [if_pos rfl] at ha
    rw [if_neg hn.ne'] at hb
    exact absurd ha (pos_of_holds hn hb).ne'
  · rw [if_neg hm.ne'] at ha
    rw [if_pos rfl] at hb
    exact absurd hb (pos_of_holds hm ha).ne'
  · rw [if_neg hm.ne'] at ha
    rw [if_neg hn.ne'] at hb
    exact eq_of_holds hm hn (canonical_of_ofFloat hm hx) (canonical_of_ofFloat hn hy) ha hb

/-- No two doubles are written alike. -/
theorem plain_injective : Function.Injective plain := by
  intro x y h
  have hchars : (Exact.ofFloat x).chars = (Exact.ofFloat y).chars := by
    rw [← toList_plain, ← toList_plain, h]
  have hnan : Exact.ofFloat x = .nan ↔ Exact.ofFloat y = .nan := by
    rw [nan_iff_mem_chars, nan_iff_mem_chars, hchars]
  have hinfinite : (∃ negative, Exact.ofFloat x = .infinite negative) ↔
      ∃ negative, Exact.ofFloat y = .infinite negative := by
    rw [infinite_iff_mem_chars, infinite_iff_mem_chars, hchars]
  apply Exact.ofFloat_injective
  cases hx : Exact.ofFloat x with
  | nan => exact (hnan.mp hx).symm
  | infinite negative =>
    obtain ⟨negative', hy⟩ := hinfinite.mp ⟨negative, hx⟩
    rw [hx, hy] at hchars
    rw [hy, (signed_inj (by decide) (by decide) hchars).1]
  | finite negative m q =>
    cases hy : Exact.ofFloat y with
    | nan => simp [hx, hy] at hnan
    | infinite negative' => simp [hx, hy] at hinfinite
    | finite negative' n p =>
      rw [hx, hy] at hchars
      have hsign (m : Nat) (q : Int) : '-' ∉ unsigned m q :=
        not_mem_unsigned (by decide) (by decide) m q
      obtain ⟨rfl, hunsigned⟩ := signed_inj (hsign m q) (hsign n p) hchars
      obtain ⟨rfl, rfl⟩ := eq_of_unsigned_eq hx hy hunsigned
      rfl

@[simp] theorem plain_inj {x y : Float} : plain x = plain y ↔ x = y := plain_injective.eq_iff

end Montage.Decimal
