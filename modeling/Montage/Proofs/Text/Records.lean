import Mathlib
import Montage.Graph.Text
import Montage.Proofs.Text.Numerals

/-!
Parts printed one after the other.  Where a part can be told from what follows it, so can a part
that may be left out and a list of parts with a mark between them.  Numbers under fixed names, as
the filters take their settings, are such a part: a record is printed as a row, name and number in
turn, and can be read back from it together with all that follows.
-/

namespace Montage.Text

section Parts

variable {α : Type} {s t : List Char}

/-- A part that may be left out, before text that starts otherwise. -/
theorem option_append_inj {chars : α → List Char} {c : Char}
    (hc : ∀ a s, (chars a ++ s).head? = some c)
    (part : ∀ {a b}, chars a ++ s = chars b ++ t → a = b ∧ s = t) {o o' : Option α}
    (hs : s.head? ≠ some c) (ht : t.head? ≠ some c)
    (h : o.elim [] chars ++ s = o'.elim [] chars ++ t) : o = o' ∧ s = t := by
  cases o with
  | none =>
    cases o' with
    | none => exact ⟨rfl, h⟩
    | some b => exact absurd (hc b t) (h ▸ hs)
  | some a =>
    cases o' with
    | none => exact absurd (hc a s) (h ▸ ht)
    | some b =>
      obtain ⟨rfl, hrest⟩ := part h
      exact ⟨rfl, hrest⟩

variable {chars : α → List Char} {mark : Char} {Good : α → Prop} {Ends : List Char → Prop}

/-- Parts with a mark before each, where a part can be told from any text that ends it. -/
theorem flatMap_append_inj (hmark : ∀ s, Ends (mark :: s))
    (part : ∀ {a b s t}, Good a → Good b → Ends s → Ends t → chars a ++ s = chars b ++ t →
      a = b ∧ s = t)
    {as bs : List α} (has : ∀ a ∈ as, Good a) (hbs : ∀ b ∈ bs, Good b) (hs : Ends s) (ht : Ends t)
    (hs' : s.head? ≠ some mark) (ht' : t.head? ≠ some mark)
    (h : as.flatMap (fun a => mark :: chars a) ++ s = bs.flatMap (fun b => mark :: chars b) ++ t) :
    as = bs ∧ s = t := by
  have hends {as : List α} {s : List Char} (hs : Ends s) :
      Ends (as.flatMap (fun a => mark :: chars a) ++ s) := by
    cases as with
    | nil => exact hs
    | cons a as => exact hmark _
  induction as generalizing bs with
  | nil =>
    cases bs with
    | nil => exact ⟨rfl, h⟩
    | cons b bs =>
      subst h
      simp at hs'
  | cons a as ih =>
    cases bs with
    | nil =>
      rw [List.flatMap_nil, List.nil_append] at h
      subst h
      simp at ht'
    | cons b bs =>
      rw [List.forall_mem_cons] at has hbs
      simp only [List.flatMap_cons, List.cons_append, List.append_assoc, List.cons.injEq,
        true_and] at h
      obtain ⟨rfl, hrest⟩ := part has.1 hbs.1 (hends hs) (hends ht) h
      obtain ⟨rfl, hend⟩ := ih has.2 hbs.2 hrest
      exact ⟨rfl, hend⟩

theorem cons_toList_joinWith {separator : String} (hsep : separator.toList = [mark])
    {parts : List String} (hne : parts ≠ []) :
    mark :: (joinWith separator parts).toList = parts.flatMap fun p => mark :: p.toList := by
  induction parts with
  | nil => contradiction
  | cons p parts ih =>
    cases parts with
    | nil => simp [joinWith]
    | cons q parts =>
      rw [List.flatMap_cons, ← ih (by simp), joinWith, String.intercalate_cons_cons,
        String.toList_append, String.toList_append, hsep, List.append_assoc]
      rfl

theorem toList_joinWith_cons {separator : String} (hsep : separator.toList = [mark])
    (part : String) (parts : List String) : (joinWith separator (part :: parts)).toList =
      part.toList ++ parts.flatMap fun p => mark :: p.toList := by
  have h := cons_toList_joinWith hsep (List.cons_ne_nil part parts)
  rw [List.flatMap_cons, List.cons_append] at h
  exact (List.cons.inj h).2

/-- Parts with a mark between any two. -/
theorem joinWith_append_inj {separator : String} {text : α → String}
    (hsep : separator.toList = [mark]) (hmark : ∀ s, Ends (mark :: s))
    (part : ∀ {a b s t}, Good a → Good b → Ends s → Ends t →
      (text a).toList ++ s = (text b).toList ++ t → a = b ∧ s = t)
    {as bs : List α} (hane : as ≠ []) (hbne : bs ≠ []) (has : ∀ a ∈ as, Good a)
    (hbs : ∀ b ∈ bs, Good b) (hs : Ends s) (ht : Ends t) (hs' : s.head? ≠ some mark)
    (ht' : t.head? ≠ some mark)
    (h : (joinWith separator (as.map text)).toList ++ s =
      (joinWith separator (bs.map text)).toList ++ t) : as = bs ∧ s = t := by
  have hmarked := congrArg (mark :: ·) h
  simp only [← List.cons_append] at hmarked
  rw [cons_toList_joinWith hsep (by simpa using hane),
    cons_toList_joinWith hsep (by simpa using hbne), List.flatMap_map, List.flatMap_map] at hmarked
  exact flatMap_append_inj hmark part has hbs hs ht hs' ht' hmarked

end Parts

/-- The name of the filter that text starts with. -/
def leadingName (s : List Char) : String := String.ofList (s.takeWhile Char.isAlpha)

/-- Text that ends or goes on with a colon or a comma. -/
def Closes (s : List Char) : Prop := ∀ c ∈ s.head?, c = ':' ∨ c = ','

section Closes

variable {s : List Char}

theorem closes_nil : Closes [] := by simp [Closes]

theorem closes_colon (s : List Char) : Closes (':' :: s) := by simp [Closes]

theorem closes_comma (s : List Char) : Closes (',' :: s) := by simp [Closes]

theorem Closes.stops (h : Closes s) : Stops s := by
  intro c hc
  rcases h c hc with rfl | rfl <;> rfl

theorem Closes.head_ne_bar (h : Closes s) : s.head? ≠ some '|' := by
  intro hs
  simpa using h '|' hs

theorem leadingName_append (name : String) (hname : ∀ c ∈ name.toList, c.isAlpha)
    (hs : Closes s) : leadingName (name.toList ++ s) = name := by
  have hstop : ∀ c ∈ s.head?, c.isAlpha = false := by
    intro c hc
    rcases hs c hc with rfl | rfl <;> rfl
  rw [leadingName, List.takeWhile_append_of_head hname hstop, String.ofList_toList]

end Closes

/-- Whether a number before the name cannot run into it. -/
def endsNumber (name : String) : Bool := name.toList.head?.any (!isNumeral ·)

theorem stops_of_endsNumber {name : String} (h : endsNumber name) (s : List Char) :
    Stops (name.toList ++ s) := by
  unfold endsNumber at h
  cases hname : name.toList with
  | nil => simp [hname] at h
  | cons c cs => simpa [hname, Stops] using h

/-- Names and numbers in turn. -/
def row (fields : List (String × String)) : List Char :=
  fields.flatMap fun (name, number) => name.toList ++ number.toList

theorem stops_row_append {fields : List (String × String)}
    (hf : ∀ name ∈ fields.map (·.1), endsNumber name) {s : List Char} (hs : Stops s) :
    Stops (row fields ++ s) := by
  cases fields with
  | nil => exact hs
  | cons f fields =>
    rw [row, List.flatMap_cons, List.append_assoc, List.append_assoc]
    exact stops_of_endsNumber (hf f.1 (by simp)) _

/-- A row whose names are known can be read in one way only. -/
theorem row_append_inj {fs gs : List (String × String)} {s t : List Char}
    (hnames : fs.map (·.1) = gs.map (·.1)) (hends : ∀ name ∈ (fs.map (·.1)).tail, endsNumber name)
    (hfs : ∀ f ∈ fs, Numeral f.2) (hgs : ∀ g ∈ gs, Numeral g.2) (hs : Stops s) (ht : Stops t)
    (h : row fs ++ s = row gs ++ t) : fs = gs ∧ s = t := by
  induction fs generalizing gs with
  | nil =>
    rw [List.map_nil, eq_comm, List.map_eq_nil_iff] at hnames
    subst hnames
    exact ⟨rfl, h⟩
  | cons f fs ih =>
    obtain ⟨g, gs, rfl, hname, hrest⟩ := List.map_eq_cons_iff.mp hnames.symm
    obtain ⟨name, a⟩ := f
    obtain ⟨name', b⟩ := g
    obtain rfl : name' = name := hname
    rw [List.map_cons, List.tail_cons] at hends
    rw [List.forall_mem_cons] at hfs hgs
    simp only [row, List.flatMap_cons, List.append_assoc, List.append_cancel_left_eq] at h
    obtain ⟨rfl, hafter⟩ := numeral_append_inj hfs.1 hgs.1 (stops_row_append hends hs)
      (stops_row_append (hrest ▸ hends) ht) h
    obtain ⟨rfl, hend⟩ := ih hrest.symm (fun n hm => hends n (List.mem_of_mem_tail hm))
      hfs.2 hgs.2 hafter
    exact ⟨rfl, hend⟩

/-- A way of printing values as rows that have the same names and tell the values apart. -/
structure Record (α : Type) where
  names : List String
  numbers : α → List String
  length_numbers : ∀ a, (numbers a).length = names.length
  ends : ∀ name ∈ names.tail, endsNumber name
  numeral : ∀ a, ∀ n ∈ numbers a, Numeral n
  injective : Function.Injective numbers

namespace Record

variable {α : Type} (r : Record α)

def fields (a : α) : List (String × String) := r.names.zip (r.numbers a)

def chars (a : α) : List Char := row (r.fields a)

theorem chars_eq (a : α) : r.chars a =
    (r.names.zip (r.numbers a)).flatMap fun f => f.1.toList ++ f.2.toList :=
  rfl

theorem map_fst_fields (a : α) : (r.fields a).map (·.1) = r.names :=
  List.map_fst_zip (r.length_numbers a).ge

theorem map_snd_fields (a : α) : (r.fields a).map (·.2) = r.numbers a :=
  List.map_snd_zip (r.length_numbers a).le

theorem numeral_of_mem_fields {a : α} {f : String × String} (hf : f ∈ r.fields a) :
    Numeral f.2 :=
  r.numeral a f.2 (by rw [← r.map_snd_fields]; exact List.mem_map_of_mem hf)

/-- A record ends where the text after it starts. -/
theorem append_inj {a b : α} {s t : List Char} (hs : Stops s) (ht : Stops t)
    (h : r.chars a ++ s = r.chars b ++ t) : a = b ∧ s = t := by
  obtain ⟨hfields, hrest⟩ := row_append_inj
    (by rw [r.map_fst_fields, r.map_fst_fields]) (by rw [r.map_fst_fields]; exact r.ends)
    (fun _ => r.numeral_of_mem_fields) (fun _ => r.numeral_of_mem_fields) hs ht h
  refine ⟨r.injective ?_, hrest⟩
  rw [← r.map_snd_fields, hfields, r.map_snd_fields]

theorem inj {a b : α} (h : r.chars a = r.chars b) : a = b :=
  (r.append_inj stops_nil stops_nil (congrArg (· ++ []) h)).1

/-- A record and the comma after it. -/
def listed (a : α) : List Char := r.chars a ++ [',']

theorem listed_append_inj {a b : α} {s t : List Char} (h : r.listed a ++ s = r.listed b ++ t) :
    a = b ∧ s = t := by
  simp only [listed, List.append_assoc, List.singleton_append] at h
  obtain ⟨rfl, hrest⟩ := r.append_inj (closes_comma s).stops (closes_comma t).stops h
  exact ⟨rfl, (List.cons.inj hrest).2⟩

/-- One number under a name. -/
def count (name : String) : Record Nat where
  names := [name]
  numbers n := [toString n]
  length_numbers _ := rfl
  ends := by simp
  numeral n := by simp
  injective m n h := by simpa [Nat.repr_inj] using h

end Record

end Montage.Text
