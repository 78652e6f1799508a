import Mathlib
import Montage.Json.Parser
import Montage.Proofs.Decimal.Nearest
import Montage.Proofs.Verdict

/-!
Numbers of a data text.  A number as it is written is scanned to its end, whatever follows it, and
what is scanned is the decimal that was written.
-/

namespace Montage.Json

open Decimal (Digits Written digitChars ofDigitChars spanDigits zeros)

/-- A character that may go on with a number. -/
def continues (c : Char) : Bool := c.isDigit || c == '.' || c == 'e' || c == 'E'

/-- Text that a number before it cannot run into. -/
def Clear (rest : List Char) : Prop := ∀ c ∈ rest.head?, continues c = false

@[simp] theorem clear_nil : Clear [] := by simp [Clear]

@[simp] theorem clear_cons {c : Char} {rest : List Char} :
    Clear (c :: rest) ↔ continues c = false := by
  simp [Clear]

theorem Clear.not_isDigit {rest : List Char} (h : Clear rest) :
    ∀ c ∈ rest.head?, c.isDigit = false := by
  intro c hc
  have hcont := h c hc
  simp only [continues, Bool.or_eq_false_iff] at hcont
  exact hcont.1.1.1

/-- The digits of a number before its point: no zero stands in front of another digit. -/
structure Leading (ds : List Char) : Prop where
  digits : ∀ c ∈ ds, c.isDigit
  ne_nil : ds ≠ []
  lead : ds = ['0'] ∨ ds.head? ≠ some '0'

theorem scanWhole_append {ds rest : List Char} (h : Leading ds)
    (hrest : ∀ c ∈ rest.head?, c.isDigit = false) : scanWhole (ds ++ rest) = .ok (ds, rest) := by
  have hspan := Decimal.spanDigits_append h.digits hrest
  obtain ⟨d, ds, rfl⟩ := List.exists_cons_of_ne_nil h.ne_nil
  rcases h.lead with hzero | hzero
  · obtain ⟨rfl, rfl⟩ := List.cons.inj hzero
    cases rest with
    | nil => rfl
    | cons c rest =>
      simp only [List.cons_append, List.nil_append, scanWhole, hrest c rfl]
      rfl
  · rw [List.cons_append] at hspan ⊢
    rw [scanWhole, hspan]
    · simp
    · intro c cs heq
      exact hzero (congrArg List.head? heq)

theorem scanFraction_of_ne {rest : List Char} (h : rest.head? ≠ some '.') :
    scanFraction rest = .ok (none, rest) := by
  rw [scanFraction]
  rintro cs rfl
  exact h rfl

theorem scanFraction_append {ds rest : List Char} (hne : ds ≠ []) (hds : ∀ c ∈ ds, c.isDigit)
    (hrest : ∀ c ∈ rest.head?, c.isDigit = false) :
    scanFraction ('.' :: (ds ++ rest)) = .ok (some ds, rest) := by
  rw [scanFraction, Decimal.spanDigits_append hds hrest]
  obtain ⟨d, ds, rfl⟩ := List.exists_cons_of_ne_nil hne
  rfl

/-- A power of ten as it is written, with its sign. -/
def powerChars (p : Int) : List Char := (if p < 0 then '-' else '+') :: digitChars p.natAbs

theorem scanPower_append {p : Int} {rest : List Char}
    (hrest : ∀ c ∈ rest.head?, c.isDigit = false) :
    scanPower (powerChars p ++ rest) = .ok (p, rest) := by
  have hspan : spanDigits (digitChars p.natAbs ++ rest) = (digitChars p.natAbs, rest) :=
    Decimal.spanDigits_append (fun c => Decimal.isDigit_of_mem_digitChars) hrest
  have hread := Decimal.ofDigitChars_digitChars p.natAbs
  obtain ⟨d, ds, hds⟩ := List.exists_cons_of_ne_nil
    (show digitChars p.natAbs ≠ [] from Nat.toDigits_ne_nil)
  rw [hds] at hspan hread
  by_cases hp : p < 0
  · simp only [powerChars, if_pos hp, hds, List.cons_append, scanPower] at hspan ⊢
    rw [hspan]
    simp only [hread, if_true]
    congr 2
    omega
  · simp only [powerChars, if_neg hp, hds, List.cons_append, scanPower] at hspan ⊢
    rw [hspan]
    simp only [hread]
    congr 2
    simp
    omega

/-- The point and the digits after it, where there are any. -/
def fractionChars : Option (List Char) → List Char
  | none => []
  | some ds => '.' :: ds

/-- Digits after the point, where there is one. -/
def Trailing (fraction : Option (List Char)) : Prop :=
  ∀ ds ∈ fraction, ds ≠ [] ∧ ∀ c ∈ ds, c.isDigit

theorem scanFraction_fractionChars {fraction : Option (List Char)} {rest : List Char}
    (h : Trailing fraction) (hpoint : rest.head? ≠ some '.')
    (hrest : ∀ c ∈ rest.head?, c.isDigit = false) :
    scanFraction (fractionChars fraction ++ rest) = .ok (fraction, rest) := by
  cases fraction with
  | none => exact scanFraction_of_ne hpoint
  | some ds =>
    obtain ⟨hne, hds⟩ := h ds rfl
    exact scanFraction_append hne hds hrest

theorem not_isDigit_fractionChars {fraction : Option (List Char)} {rest : List Char}
    (hrest : ∀ c ∈ rest.head?, c.isDigit = false) :
    ∀ c ∈ (fractionChars fraction ++ rest).head?, c.isDigit = false := by
  cases fraction with
  | none => exact hrest
  | some ds =>
    intro c hc
    obtain rfl := Option.some.inj hc
    rfl

/-- The characters start with a digit and are scanned as this decimal, whatever follows them. -/
structure Scans (cs : List Char) (w : Written) : Prop where
  head : ∃ d ds, cs = d :: ds ∧ d.isDigit
  scan : ∀ rest, Clear rest → scanNumber (cs ++ rest) = .ok (w, rest)

theorem Leading.head {ds : List Char} (h : Leading ds) (more : List Char) :
    ∃ c cs, ds ++ more = c :: cs ∧ c.isDigit := by
  obtain ⟨d, ds, rfl⟩ := List.exists_cons_of_ne_nil h.ne_nil
  exact ⟨d, ds ++ more, rfl, h.digits d List.mem_cons_self⟩

/-- A number without a power of ten. -/
theorem scans_plain {ds : List Char} (hds : Leading ds) (fraction : Option (List Char))
    (hfraction : Trailing fraction) :
    Scans (ds ++ fractionChars fraction) ⟨ofDigitChars (ds ++ fraction.getD []),
      -((fraction.getD []).length : Int), fraction.isNone⟩ where
  head := hds.head _
  scan rest hrest := by
    have hpoint : rest.head? ≠ some '.' := fun h => absurd (hrest '.' h) (by decide)
    rw [List.append_assoc, scanNumber,
      scanWhole_append hds (not_isDigit_fractionChars hrest.not_isDigit), ok_bind]
    dsimp only
    rw [scanFraction_fractionChars hfraction hpoint hrest.not_isDigit, ok_bind]
    dsimp only
    cases rest with
    | nil => rfl
    | cons c rest =>
      have hc : (c = 'e' || c = 'E') = false := by
        have hcont := clear_cons.mp hrest
        simp only [continues, Bool.or_eq_false_iff, beq_eq_false_iff_ne] at hcont
        simp [hcont.1.2, hcont.2]
      simp only [hc]
      rfl

/-- A number with a power of ten. -/
theorem scans_power {ds : List Char} (hds : Leading ds) (fraction : Option (List Char))
    (hfraction : Trailing fraction) (p : Int) :
    Scans (ds ++ fractionChars fraction ++ 'e' :: powerChars p)
      ⟨ofDigitChars (ds ++ fraction.getD []), p - ((fraction.getD []).length : Int), false⟩ where
  head := by
    rw [List.append_assoc]
    exact hds.head _
  scan rest hrest := by
    have hmark : ∀ c ∈ ('e' :: (powerChars p ++ rest)).head?, c.isDigit = false := by simp
    rw [List.append_assoc, List.append_assoc, List.cons_append, scanNumber,
      scanWhole_append hds (not_isDigit_fractionChars hmark), ok_bind]
    dsimp only
    rw [scanFraction_fractionChars hfraction (by simp) hmark, ok_bind]
    dsimp only
    simp only [decide_true, Bool.true_or, if_true]
    rw [scanPower_append hrest.not_isDigit, ok_bind]
    rfl

theorem head?_digitChars {n : Nat} (hn : 0 < n) : (digitChars n).head? ≠ some '0' := by
  induction n using Nat.strongRecOn with
  | ind n ih =>
    by_cases hsmall : n < 10
    · rw [digitChars, Nat.toDigits_of_lt_base hsmall]
      interval_cases n <;> decide
    · have hrest := ih (n / 10) (by omega) (by omega)
      obtain ⟨d, ds, hds⟩ := List.exists_cons_of_ne_nil
        (show digitChars (n / 10) ≠ [] from Nat.toDigits_ne_nil)
      rw [digitChars, Nat.toDigits_of_base_le (by decide) (Nat.le_of_not_lt hsmall)]
      rw [digitChars] at hds hrest
      rw [hds] at hrest ⊢
      exact hrest

theorem leading_digitChars (n : Nat) : Leading (digitChars n) where
  digits _ := Decimal.isDigit_of_mem_digitChars
  ne_nil := Nat.toDigits_ne_nil
  lead := by
    rcases Nat.eq_zero_or_pos n with rfl | hn
    · exact .inl rfl
    · exact .inr (head?_digitChars hn)

theorem leading_zero : Leading ['0'] := ⟨by simp, by simp, .inl rfl⟩

/-- The characters of a whole number. -/
theorem scans_digitChars (n : Nat) : Scans (digitChars n) ⟨n, 0, true⟩ := by
  have h := scans_plain (leading_digitChars n) none nofun
  simpa [fractionChars] using h

/-- The characters are scanned as a decimal that is not whole, and this is its value. -/
def ScansTo (cs : List Char) (x : ℚ) : Prop := ∃ w, Scans cs w ∧ w.whole = false ∧ w.value = x

theorem scansTo_pointed {ds : List Char} (hds : Leading ds) (fs : List Char) (hne : fs ≠ [])
    (hfs : ∀ c ∈ fs, c.isDigit) :
    ScansTo (ds ++ '.' :: fs) (ofDigitChars (ds ++ fs) * 10 ^ (-fs.length : Int)) := by
  have hfraction : Trailing (some fs) := by
    rintro _ ⟨⟩
    exact ⟨hne, hfs⟩
  exact ⟨_, scans_plain hds (some fs) hfraction, rfl, rfl⟩

theorem Leading.append {ds es : List Char} (h : Leading ds) (hzero : ds.head? ≠ some '0')
    (hes : ∀ c ∈ es, c.isDigit) : Leading (ds ++ es) where
  digits := List.forall_mem_append.mpr ⟨h.digits, hes⟩
  ne_nil := List.append_ne_nil_of_left_ne_nil h.ne_nil es
  lead := by
    obtain ⟨d, ds, rfl⟩ := List.exists_cons_of_ne_nil h.ne_nil
    exact .inr hzero

theorem Leading.take {ds : List Char} (h : Leading ds) (hzero : ds.head? ≠ some '0') {n : Nat}
    (hn : 0 < n) : Leading (ds.take n) where
  digits c hc := h.digits c (List.mem_of_mem_take hc)
  ne_nil := by
    rw [Ne, List.take_eq_nil_iff]
    exact not_or.mpr ⟨hn.ne', h.ne_nil⟩
  lead := by
    refine .inr ?_
    rwa [List.head?_take, if_neg hn.ne']

theorem ofDigitChars_zeros_end (cs : List Char) (n : Nat) :
    ofDigitChars (cs ++ zeros n) = ofDigitChars cs * 10 ^ n := by
  rw [Decimal.ofDigitChars_append, Decimal.ofDigitChars_zeros, Decimal.length_zeros, Nat.add_zero,
    Nat.mul_comm]

/-- A number with its point written out, and a fraction of zero where it has none. -/
theorem scansTo_positional {d : Digits} (hd : 0 < d.digits) :
    ScansTo (Decimal.positional d ".0".toList) (d.digits * 10 ^ d.exponent) := by
  have hlead := leading_digitChars d.digits
  have hzero := head?_digitChars hd
  have hdigits := hlead.digits
  rw [← Decimal.ofDigitChars_digitChars d.digits]
  generalize hcs : digitChars d.digits = cs at hlead hzero hdigits ⊢
  cases he : d.exponent with
  | ofNat k =>
    have hscan := scansTo_pointed (hlead.append hzero fun c (hc : c ∈ zeros k) =>
      Decimal.isDigit_of_mem_zeros hc) (zeros 1) (by simp [zeros])
      fun _ => Decimal.isDigit_of_mem_zeros
    simp only [Decimal.positional, he, hcs]
    have hvalue : ((ofDigitChars (cs ++ zeros k ++ zeros 1) : Nat) : ℚ) *
        10 ^ (-(zeros 1).length : Int) = ofDigitChars cs * 10 ^ Int.ofNat k := by
      rw [ofDigitChars_zeros_end, ofDigitChars_zeros_end, Decimal.length_zeros,
        Int.ofNat_eq_natCast, zpow_natCast, zpow_neg, zpow_natCast]
      push_cast
      field_simp
    rw [hvalue] at hscan
    exact hscan
  | negSucc k =>
    rw [Int.negSucc_eq, ← Nat.cast_succ]
    simp only [Decimal.positional, he, hcs]
    split
    case isTrue hlt =>
      have hplaces : (cs.drop (cs.length - (k + 1))).length = k + 1 := by
        rw [List.length_drop]
        omega
      have hscan := scansTo_pointed (hlead.take hzero (n := cs.length - (k + 1)) (by omega))
        (cs.drop (cs.length - (k + 1))) (List.ne_nil_of_length_pos (by omega))
        fun c hc => hdigits c (List.mem_of_mem_drop hc)
      rwa [List.take_append_drop, hplaces] at hscan
    case isFalse hge =>
      have hplaces : (zeros (k + 1 - cs.length) ++ cs).length = k + 1 := by
        rw [List.length_append, Decimal.length_zeros]
        omega
      have hscan := scansTo_pointed leading_zero (zeros (k + 1 - cs.length) ++ cs)
        (List.ne_nil_of_length_pos (by omega))
        (List.forall_mem_append.mpr ⟨fun c => Decimal.isDigit_of_mem_zeros, hdigits⟩)
      have hvalue : ofDigitChars (['0'] ++ (zeros (k + 1 - cs.length) ++ cs)) =
          ofDigitChars cs := by
        rw [Decimal.ofDigitChars_append, Decimal.ofDigitChars_zeros_append]
        simp [ofDigitChars, Decimal.digitValue]
      rwa [hvalue, hplaces] at hscan

/-- A number with one digit before the point and a power of ten. -/
theorem scansTo_scientific (d : Digits) :
    ScansTo (Decimal.scientific d) (d.digits * 10 ^ d.exponent) := by
  have hlead := leading_digitChars d.digits
  rw [← Decimal.ofDigitChars_digitChars d.digits]
  unfold Decimal.scientific
  generalize digitChars d.digits = cs at hlead ⊢
  cases cs with
  | nil => exact absurd rfl hlead.ne_nil
  | cons c cs =>
    have hdigit : Leading [c] := by
      refine ⟨fun b hb => hlead.digits b (by simp_all), List.cons_ne_nil c [], ?_⟩
      by_cases hc : c = '0'
      · exact .inl (hc ▸ rfl)
      · exact .inr (hc ∘ Option.some.inj)
    cases cs with
    | nil =>
      refine ⟨_, scans_power hdigit none nofun _, rfl, ?_⟩
      simp [Written.value]
    | cons c' cs =>
      have hfraction : Trailing (some (c' :: cs)) := by
        rintro _ ⟨⟩
        exact ⟨by simp, fun b hb => hlead.digits b (List.mem_cons_of_mem c hb)⟩
      refine ⟨_, scans_power hdigit _ hfraction _, rfl, ?_⟩
      simp [Written.value]

/-- The text of a finite double after its sign is scanned as zero or as a number that rounds to the
double. -/
theorem exists_scansTo_data {x : Float} {negative : Bool} {m : Nat} {q : Int}
    (h : Decimal.Exact.ofFloat x = .finite negative m q) :
    ∃ cs y, Decimal.dataForm.write x = Decimal.signed negative cs ∧ ScansTo cs y ∧
      if m = 0 then y = 0 else (Decimal.Basin.ofBinary m q).Holds y := by
  rw [Decimal.Form.write, h]
  dsimp only
  split
  case isTrue =>
    refine ⟨_, _, rfl, scansTo_pointed leading_zero (zeros 1) (by simp [zeros])
      fun _ => Decimal.isDigit_of_mem_zeros, ?_⟩
    simp [ofDigitChars, zeros, Decimal.digitValue]
  case isFalse hm =>
    have hpos := Nat.pos_of_ne_zero hm
    have hholds := Decimal.holds_shortest .even hpos (Decimal.canonical_of_ofFloat hpos h)
      (Decimal.exponent_le_of_ofFloat h)
    refine ⟨_, _, rfl, ?_, hholds⟩
    have hdigits : 0 < (Decimal.shortest .even m q).digits := by
      have hvalue := Decimal.pos_of_holds hpos hholds
      refine Nat.pos_of_ne_zero fun hzero => ?_
      rw [hzero] at hvalue
      simp at hvalue
    split
    · exact scansTo_positional hdigits
    · exact scansTo_scientific _

theorem isSpace_of_isDigit {c : Char} (h : c.isDigit) : isSpace c = false := by
  rw [isSpace]
  simp only [Bool.or_eq_false_iff, decide_eq_false_iff_not]
  refine ⟨⟨⟨?_, ?_⟩, ?_⟩, ?_⟩ <;> rintro rfl <;> contradiction

theorem skipSpace_cons {c : Char} (h : isSpace c = false) (cs : List Char) :
    skipSpace (c :: cs) = c :: cs := by
  rw [skipSpace, List.dropWhile_cons_of_neg (by simp [h])]

/-- A number is read to its end. -/
theorem parseTree_signed {cs : List Char} {w : Written} (h : Scans cs w) (negative : Bool)
    (fuel : Nat) {rest : List Char} (hrest : Clear rest) :
    parseTree (fuel + 1) (Decimal.signed negative cs ++ rest) =
      (.number (Number.ofWritten negative w), .ok rest) := by
  have hscan (b : Bool) :
      numberTree b (cs ++ rest) = (.number (Number.ofWritten b w), .ok rest) := by
    rw [numberTree, h.scan rest hrest]
  cases negative with
  | true => exact hscan true
  | false =>
    obtain ⟨d, ds, rfl, hd⟩ := h.head
    change parseTree (fuel + 1) (d :: (ds ++ rest)) = _
    rw [parseTree, skipSpace_cons (isSpace_of_isDigit hd)]
    -- no other value starts with a digit
    split <;> rename_i heq <;> obtain ⟨rfl, rfl⟩ := heq
    all_goals first
      | contradiction
      | rw [if_pos hd]
        exact hscan false

theorem parseTree_null (fuel : Nat) (rest : List Char) :
    parseTree (fuel + 1) ("null".toList ++ rest) = (.null, .ok rest) := rfl

namespace Number

/-- What a number that is written reads as.  A whole number comes back as one only where a double
word has room for it; what is not finite comes back as nothing. -/
def echo : Number → Tree
  | .whole n => .number (ofWritten (n < 0) ⟨n.natAbs, 0, true⟩)
  | .real x => if x.isFinite then .number (.ok (.real x)) else .null

@[simp] theorem skip_echo (n : Number) : n.echo.skip = .ok () := by
  cases n with
  | whole n => rfl
  | real x =>
    rw [echo]
    split <;> rfl

/-- A number is written as nothing, or as its sign and characters that are scanned. -/
theorem write_cases (n : Number) : n.write = "null".toList ∧ n.echo = .null ∨
    ∃ negative cs w, n.write = Decimal.signed negative cs ∧ Scans cs w ∧
      n.echo = .number (ofWritten negative w) := by
  cases n with
  | whole n => exact .inr ⟨_, _, _, rfl, scans_digitChars _, rfl⟩
  | real x =>
    by_cases hx : x.isFinite
    · obtain ⟨negative, m, q, hexact⟩ := Decimal.exists_exact_of_isFinite hx
      obtain ⟨cs, y, hwrite, ⟨w, hscan, hwhole, hvalue⟩, hy⟩ := exists_scansTo_data hexact
      have hinf : x.isInf = false := Decimal.isInf_of_isFinite hx
      refine .inr ⟨negative, cs, w, by rw [write, if_pos hx, hwrite], hscan, ?_⟩
      rw [echo, if_pos hx, ofWritten, Decimal.Written.nearest_eq hexact hvalue hy]
      simp [hwhole, hinf]
    · exact .inl ⟨if_neg hx, if_neg hx⟩

theorem parseTree_write (n : Number) (fuel : Nat) {rest : List Char} (hrest : Clear rest) :
    parseTree (fuel + 1) (n.write ++ rest) = (n.echo, .ok rest) := by
  rcases n.write_cases with ⟨hwrite, hecho⟩ | ⟨negative, cs, w, hwrite, hscan, hecho⟩
  · rw [hwrite, hecho, parseTree_null]
  · rw [hwrite, hecho, parseTree_signed hscan negative fuel hrest]

end Number

end Montage.Json
