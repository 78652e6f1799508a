import Mathlib
import Montage.Proofs.Json.Numbers
import Montage.Proofs.Json.Records

/-!
Values, written and read back.  The text of a value is read to its end, whatever follows it, and
comes back as it was but for its numbers, which read as their own texts do.
-/

namespace Montage.Json

/-! ## Quoted texts -/

/-- Every control character is written as four digits that read back. -/
theorem exists_hex4 {n : Nat} (hn : n < 32) :
    ∃ a b c d, hex4 n = [a, b, c, d] ∧ hexValue4? a b c d = some n := by
  interval_cases n <;> exact ⟨_, _, _, _, rfl, rfl⟩

/-- A character is read back from the way it is written. -/
theorem scanString_escapeChar (c : Char) (cs rest : List Char) :
    scanString (.ok (cs, none)) (escapeChar c ++ rest) = scanString (.ok (c :: cs, none)) rest := by
  unfold escapeChar
  split_ifs with hquote hslash hfeed hreturn htab h8 h12 hcontrol
  · rw [hquote]
    rfl
  · rw [hslash]
    rfl
  · rw [hfeed]
    rfl
  · rw [hreturn]
    rfl
  · rw [htab]
    rfl
  · rw [← Char.ofNat_toNat c, h8]
    rfl
  · rw [← Char.ofNat_toNat c, h12]
    rfl
  · obtain ⟨a, b, x, d, hhex, hvalue⟩ := exists_hex4 hcontrol
    have hleading : isLeading c.toNat = false := by
      simp only [isLeading, Bool.and_eq_false_iff, decide_eq_false_iff_not]
      omega
    have htrailing : isTrailing c.toNat = false := by
      simp only [isTrailing, Bool.and_eq_false_iff, decide_eq_false_iff_not]
      omega
    rw [hhex]
    simp only [List.cons_append, List.nil_append]
    rw [scanString, hvalue]
    simp [Content.pushUnit, hleading, htrailing, Char.ofNat_toNat]
  · rw [List.singleton_append, scanString]
    · simp [hcontrol, Content.push]
    · exact hquote
    all_goals
      intros
      exact hslash ‹_›

theorem scanString_flatMap (s cs rest : List Char) :
    scanString (.ok (cs, none)) (s.flatMap escapeChar ++ rest) =
      scanString (.ok (s.reverse ++ cs, none)) rest := by
  induction s generalizing cs with
  | nil => rfl
  | cons c s ih =>
    rw [List.flatMap_cons, List.append_assoc, scanString_escapeChar, ih, List.reverse_cons,
      List.append_assoc, List.singleton_append]

theorem scanString_write (s : String) (rest : List Char) :
    scanString (.ok ([], none)) (s.toList.flatMap escapeChar ++ '"' :: rest) =
      (⟨.ok s, none⟩, .ok rest) := by
  rw [scanString_flatMap, scanString]
  simp [Content.close]

/-! ## What comes back -/

mutual

/-- What the text of a value reads as. -/
def Value.echo : Value → Tree
  | .null => .null
  | .bool b => .bool b
  | .number n => n.echo
  | .string s => .string ⟨.ok s, none⟩
  | .array items => .array (echoItems items)
  | .object members => .object (echoMembers members)

def echoItems : List Value → Items
  | [] => .closed
  | v :: rest => .cons v.echo (echoItems rest)

def echoMembers : List (String × Value) → Members
  | [] => .closed
  | (k, v) :: rest => .cons ⟨.ok k, none⟩ v.echo (echoMembers rest)

end

mutual

@[simp] theorem Value.skip_echo : ∀ v : Value, v.echo.skip = .ok ()
  | .null | .bool _ | .string _ => rfl
  | .number n => n.skip_echo
  | .array items => skip_echoItems items
  | .object members => skip_echoMembers members

theorem skip_echoItems : ∀ items : List Value, (echoItems items).skip = .ok ()
  | [] => rfl
  | v :: rest => by
    rw [echoItems, Items.skip, v.skip_echo, ok_bind, skip_echoItems rest]

theorem skip_echoMembers : ∀ members : List (String × Value), (echoMembers members).skip = .ok ()
  | [] => rfl
  | (_, v) :: rest => by
    rw [echoMembers, Members.skip]
    dsimp only
    rw [v.skip_echo, ok_bind, skip_echoMembers rest]

end

/-- The members of an object, as they come back. -/
def echoPairs (ms : List (String × Value)) : List (String × Tree) := ms.map fun m => (m.1, m.2.echo)

theorem echoMembers_eq (ms : List (String × Value)) : echoMembers ms = .ofPairs (echoPairs ms) := by
  induction ms with
  | nil => rfl
  | cons m ms ih =>
    rw [echoMembers, ih]
    rfl

/-! ## Reading to the end -/

theorem Number.exists_write_cons (n : Number) :
    ∃ c cs, n.write = c :: cs ∧ (c = 'n' ∨ c = '-' ∨ c.isDigit) := by
  rcases n.write_cases with ⟨hwrite, -⟩ | ⟨negative, cs, w, hwrite, hscan, -⟩
  · exact ⟨_, _, hwrite, .inl rfl⟩
  · obtain ⟨d, ds, rfl, hd⟩ := hscan.head
    cases negative with
    | true => exact ⟨_, _, hwrite, .inr (.inl rfl)⟩
    | false => exact ⟨_, _, hwrite, .inr (.inr hd)⟩

/-- Text that starts as a value does: with no blank and nothing that stands between values. -/
def Starts (cs : List Char) : Prop :=
  ∃ c rest, cs = c :: rest ∧ isSpace c = false ∧ c ≠ ',' ∧ c ≠ ']'

theorem Starts.append {cs : List Char} (h : Starts cs) (ds : List Char) : Starts (cs ++ ds) := by
  obtain ⟨c, rest, rfl, hc⟩ := h
  exact ⟨c, rest ++ ds, rfl, hc⟩

theorem Starts.length_pos {cs : List Char} (h : Starts cs) : 0 < cs.length := by
  obtain ⟨c, rest, rfl, -⟩ := h
  exact Nat.succ_pos _

theorem Starts.skipSpace {cs : List Char} (h : Starts cs) : skipSpace cs = cs := by
  obtain ⟨c, rest, rfl, hspace, -⟩ := h
  exact skipSpace_cons hspace rest

theorem Number.starts_write (n : Number) : Starts n.write := by
  obtain ⟨c, cs, hwrite, hc⟩ := n.exists_write_cons
  refine ⟨c, cs, hwrite, ?_⟩
  rcases hc with rfl | rfl | hc
  · exact ⟨rfl, by decide, by decide⟩
  · exact ⟨rfl, by decide, by decide⟩
  · refine ⟨isSpace_of_isDigit hc, ?_, ?_⟩ <;> rintro rfl <;> contradiction

theorem Value.starts_write (v : Value) : Starts v.write := by
  cases v with
  | number n => exact n.starts_write
  | bool b => cases b <;> exact ⟨_, _, rfl, rfl, by decide, by decide⟩
  | null | string | array | object => exact ⟨_, _, rfl, rfl, by decide, by decide⟩

theorem writeItems_cons_cons (v w : Value) (vs : List Value) :
    writeItems (v :: w :: vs) = v.write ++ ',' :: writeItems (w :: vs) := rfl

theorem writeMembers_cons_cons (k : String) (v : Value) (m : String × Value)
    (ms : List (String × Value)) : writeMembers ((k, v) :: m :: ms) =
      writeString k ++ ':' :: v.write ++ ',' :: writeMembers (m :: ms) := rfl

theorem starts_writeItems (v : Value) (vs : List Value) : Starts (writeItems (v :: vs)) := by
  cases vs with
  | nil => exact v.starts_write
  | cons w vs => exact v.starts_write.append _

section Steps

variable (fuel : Nat) (rest : List Char)

theorem parseTree_quote : parseTree (fuel + 1) ('"' :: rest) =
    (.string (scanString (.ok ([], none)) rest).1, (scanString (.ok ([], none)) rest).2) := rfl

theorem parseTree_bracket : parseTree (fuel + 1) ('[' :: rest) =
    (.array (parseItems fuel true rest).1, (parseItems fuel true rest).2) := rfl

theorem parseTree_brace : parseTree (fuel + 1) ('\x7b' :: rest) =
    (.object (parseMembers fuel true rest).1, (parseMembers fuel true rest).2) := rfl

theorem parseItems_bracket (first : Bool) :
    parseItems (fuel + 1) first (']' :: rest) = (.closed, .ok rest) := rfl

/-- The first item follows the bracket. -/
theorem parseItems_first {cs : List Char} (h : Starts cs) :
    parseItems (fuel + 1) true cs = parseItem fuel cs := by
  rw [parseItems, h.skipSpace]
  obtain ⟨c, rest, rfl, -, hcomma, hbracket⟩ := h
  split <;> rename_i heq
  · contradiction
  · exact absurd (List.cons.inj heq).1 hbracket
  · exact absurd (List.cons.inj heq).1 hcomma
  · obtain ⟨rfl, rfl⟩ := heq
    rfl

/-- Every other item follows a comma. -/
theorem parseItems_comma {cs : List Char} (h : Starts cs) :
    parseItems (fuel + 1) false (',' :: cs) = parseItem fuel cs := by
  have hcomma : skipSpace (',' :: cs) = ',' :: cs := skipSpace_cons rfl cs
  rw [parseItems, hcomma]
  simp only [Bool.false_eq_true, if_false, h.skipSpace]
  obtain ⟨c, rest, rfl, -, -, hbracket⟩ := h
  split
  case h_1 heq => exact absurd (List.cons.inj heq).1 hbracket
  case h_2 => rfl

theorem parseItem_of_parseTree {cs : List Char} {t : Tree}
    (h : parseTree fuel cs = (t, .ok rest)) : parseItem (fuel + 1) cs =
      (.cons t (parseItems fuel false rest).1, (parseItems fuel false rest).2) := by
  rw [parseItem, h]

theorem parseMembers_brace (first : Bool) :
    parseMembers (fuel + 1) first ('\x7d' :: rest) = (.closed, .ok rest) := rfl

theorem parseMembers_first :
    parseMembers (fuel + 1) true ('"' :: rest) = parseMember fuel rest := rfl

theorem parseMembers_comma :
    parseMembers (fuel + 1) false (',' :: '"' :: rest) = parseMember fuel rest := rfl

/-- A key, its colon and its value. -/
theorem parseMember_of_parseTree {k : String} {cs : List Char} {t : Tree}
    (h : parseTree fuel cs = (t, .ok rest)) :
    parseMember (fuel + 1) (k.toList.flatMap escapeChar ++ '"' :: ':' :: cs) =
      (.cons ⟨.ok k, none⟩ t (parseMembers fuel false rest).1,
        (parseMembers fuel false rest).2) := by
  have hcolon : skipSpace (':' :: cs) = ':' :: cs := skipSpace_cons rfl cs
  rw [parseMember, scanString_write]
  simp only [hcolon, h]

end Steps

theorem writeMembers_cons (k : String) (v : Value) (ms : List (String × Value)) :
    ∃ body, writeMembers ((k, v) :: ms) = '"' :: body := by
  cases ms with
  | nil => exact ⟨_, rfl⟩
  | cons m ms => exact ⟨_, rfl⟩

mutual

/-- The text of a value is read to its end. -/
theorem parseTree_write : ∀ (v : Value) (fuel : Nat) (rest : List Char),
    2 * v.write.length ≤ fuel → Clear rest →
      parseTree fuel (v.write ++ rest) = (v.echo, .ok rest)
  | v, 0, _, hfuel, _ => absurd v.starts_write.length_pos (by omega)
  | .null, fuel + 1, _, _, _ => rfl
  | .bool true, fuel + 1, _, _, _ => rfl
  | .bool false, fuel + 1, _, _, _ => rfl
  | .number n, fuel + 1, _, _, hrest => n.parseTree_write fuel hrest
  | .string s, fuel + 1, rest, _, _ => by
    simp only [Value.write, writeString, List.cons_append, List.append_assoc, List.nil_append]
    rw [parseTree_quote, scanString_write, Value.echo]
  | .array vs, fuel + 1, rest, hfuel, _ => by
    simp only [Value.write, List.cons_append, List.length_cons, List.length_append,
      List.length_nil] at hfuel
    obtain ⟨fuel, rfl⟩ : ∃ n, fuel = n + 1 := ⟨fuel - 1, by omega⟩
    simp only [Value.write, List.cons_append, List.append_assoc, List.nil_append]
    rw [parseTree_bracket, Value.echo]
    cases vs with
    | nil => rfl
    | cons v vs =>
      have hitems := parseItem_write (v :: vs) fuel rest (List.cons_ne_nil v vs) (by omega)
      rw [parseItems_first _ ((starts_writeItems v vs).append _), hitems]
  | .object ms, fuel + 1, rest, hfuel, _ => by
    simp only [Value.write, List.cons_append, List.length_cons, List.length_append,
      List.length_nil] at hfuel
    obtain ⟨fuel, rfl⟩ : ∃ n, fuel = n + 1 := ⟨fuel - 1, by omega⟩
    simp only [Value.write, List.cons_append, List.append_assoc, List.nil_append]
    rw [parseTree_brace, Value.echo]
    cases ms with
    | nil => rfl
    | cons m ms =>
      obtain ⟨body, hbody⟩ := writeMembers_cons m.1 m.2 ms
      rw [hbody, List.length_cons] at hfuel
      have hmembers := parseMember_write (m :: ms) fuel body rest hbody (by omega)
      rw [hbody, List.cons_append, parseMembers_first, hmembers]

theorem parseItem_write : ∀ (vs : List Value) (fuel : Nat) (rest : List Char), vs ≠ [] →
    2 * (writeItems vs).length + 1 ≤ fuel →
      parseItem fuel (writeItems vs ++ ']' :: rest) = (echoItems vs, .ok rest)
  | [], _, _, hne, _ => absurd rfl hne
  | _, 0, _, _, hfuel => absurd hfuel (Nat.not_succ_le_zero _)
  | [v], fuel + 1, rest, _, hfuel => by
    rw [writeItems] at hfuel ⊢
    have hv := v.starts_write.length_pos
    have h := parseTree_write v fuel (']' :: rest) (by omega) (clear_cons.mpr rfl)
    obtain ⟨fuel, rfl⟩ : ∃ n, fuel = n + 1 := ⟨fuel - 1, by omega⟩
    rw [parseItem_of_parseTree _ _ h, parseItems_bracket]
    rfl
  | v :: w :: vs, fuel + 1, rest, _, hfuel => by
    have hstarts := (starts_writeItems w vs).append (']' :: rest)
    rw [writeItems_cons_cons, List.length_append, List.length_cons] at hfuel
    rw [writeItems_cons_cons, List.append_assoc, List.cons_append]
    have hv := v.starts_write.length_pos
    have h := parseTree_write v fuel (',' :: (writeItems (w :: vs) ++ ']' :: rest)) (by omega)
      (clear_cons.mpr rfl)
    obtain ⟨fuel, rfl⟩ : ∃ n, fuel = n + 1 := ⟨fuel - 1, by omega⟩
    have hrest := parseItem_write (w :: vs) fuel rest (List.cons_ne_nil w vs) (by omega)
    rw [parseItem_of_parseTree _ _ h, parseItems_comma _ hstarts, hrest, ← echoItems]

theorem parseMember_write : ∀ (ms : List (String × Value)) (fuel : Nat) (body rest : List Char),
    writeMembers ms = '"' :: body → 2 * body.length ≤ fuel →
      parseMember fuel (body ++ '\x7d' :: rest) = (echoMembers ms, .ok rest)
  | [], _, _, _, hbody, _ => by contradiction
  | [(k, v)], fuel, body, rest, hbody, hfuel => by
    rw [writeMembers, writeString, List.cons_append, List.cons_append, List.cons.injEq] at hbody
    obtain ⟨-, rfl⟩ := hbody
    simp only [List.append_assoc, List.cons_append, List.nil_append, List.length_append,
      List.length_cons] at hfuel ⊢
    have hv := v.starts_write.length_pos
    obtain ⟨fuel, rfl⟩ : ∃ n, fuel = n + 2 := ⟨fuel - 2, by omega⟩
    have h := parseTree_write v (fuel + 1) ('\x7d' :: rest) (by omega) (clear_cons.mpr rfl)
    rw [parseMember_of_parseTree _ _ h, parseMembers_brace]
    rfl
  | (k, v) :: (k', v') :: ms, fuel, body, rest, hbody, hfuel => by
    obtain ⟨body', hbody'⟩ := writeMembers_cons k' v' ms
    rw [writeMembers_cons_cons, writeString, hbody', List.cons_append, List.cons_append,
      List.cons_append, List.cons.injEq] at hbody
    obtain ⟨-, rfl⟩ := hbody
    simp only [List.append_assoc, List.cons_append, List.nil_append, List.length_append,
      List.length_cons] at hfuel ⊢
    obtain ⟨fuel, rfl⟩ : ∃ n, fuel = n + 2 := ⟨fuel - 2, by omega⟩
    have h := parseTree_write v (fuel + 1) (',' :: '"' :: (body' ++ '\x7d' :: rest)) (by omega)
      (clear_cons.mpr rfl)
    have hrest := parseMember_write ((k', v') :: ms) fuel body' rest hbody' (by omega)
    rw [parseMember_of_parseTree _ _ h, parseMembers_comma, hrest]
    rfl

end

/-- The document of a value that is written compactly. -/
theorem ofString_compact (v : Value) : Document.ofString v.compact = ⟨v.echo, false⟩ := by
  have hparse := parseTree_write v (4 * v.write.length + 4) [] (by omega) clear_nil
  rw [List.append_nil] at hparse
  rw [Document.ofString, Value.compact, String.toList_ofList, Document.ofChars, hparse]
  rfl

end Montage.Json
