import Mathlib
import Montage.Json.Reading
import Montage.Proofs.Verdict

/-!
Records read from objects.  The fields of a record leave each other alone, so the order of the
members does not matter, and what is read is what stands under the names of each field.
-/

namespace Montage.Json

/-- The members of an object that is sound as far as its own keys and braces go. -/
def Members.ofPairs : List (String × Tree) → Members
  | [] => .closed
  | (key, value) :: rest => .cons ⟨.ok key, none⟩ value (ofPairs rest)

namespace Field

variable {δ α β : Type}

/-- The keys that a field answers to. -/
def names (f : Field δ) : List String := f.name :: f.alias?.toList

theorem answersTo_iff {f : Field δ} {key : String} : f.answersTo key ↔ key ∈ f.names := by
  unfold answersTo names
  cases f.alias? with
  | none => simp
  | some other => simp [@eq_comm _ other key]

theorem answersTo_eq (f : Field δ) (key : String) : f.answersTo key = decide (key ∈ f.names) := by
  rw [Bool.eq_iff_iff, answersTo_iff, decide_eq_true_iff]

/-- A field that sets one part of the draft to what a reader finds. -/
structure Part (f : Field δ) (get : δ → Option α) (set : δ → α → δ) (r : Reader α) : Prop where
  isSet_eq : ∀ d, f.isSet d = (get d).isSome
  read_eq : ∀ o t d, f.read o t d = (r o t).map (set d)

/-- A field is set once it is read. -/
def Sets (f : Field δ) : Prop := ∀ o t d d', f.read o t d = .ok d' → f.isSet d'

/-- Two fields that may be read in either order. -/
structure Apart (f g : Field δ) : Prop where
  isSet_right : ∀ o t d d', f.read o t d = .ok d' → g.isSet d' = g.isSet d
  isSet_left : ∀ o t d d', g.read o t d = .ok d' → f.isSet d' = f.isSet d
  comm : ∀ o t u d, ((f.read o t d).toOption.bind fun d => (g.read o u d).toOption) =
    ((g.read o u d).toOption.bind fun d => (f.read o t d).toOption)

theorem Apart.symm {f g : Field δ} (h : f.Apart g) : g.Apart f :=
  ⟨h.isSet_left, h.isSet_right, fun o t u d => (h.comm o u t d).symm⟩

instance : Std.Symm (Apart (δ := δ)) := ⟨fun _ _ => Apart.symm⟩

namespace Part

variable {f g : Field δ} {get : δ → Option α} {set : δ → α → δ} {r : Reader α}
  {get' : δ → Option β} {set' : δ → β → δ} {r' : Reader β}

theorem exists_of_read (h : f.Part get set r) {o : Origin} {t : Tree} {d d' : δ}
    (hread : f.read o t d = .ok d') : ∃ a, r o t = .ok a ∧ d' = set d a := by
  rw [h.read_eq] at hread
  cases ha : r o t with
  | error e =>
    rw [ha] at hread
    contradiction
  | ok a =>
    rw [ha] at hread
    exact ⟨a, rfl, (Except.ok.inj hread).symm⟩

theorem sets (h : f.Part get set r) (hget : ∀ d a, get (set d a) = some a) : f.Sets := by
  intro o t d d' hread
  obtain ⟨a, -, rfl⟩ := h.exists_of_read hread
  rw [h.isSet_eq, hget]
  rfl

theorem apart (hf : f.Part get set r) (hg : g.Part get' set' r')
    (hright : ∀ d a, get' (set d a) = get' d) (hleft : ∀ d b, get (set' d b) = get d)
    (hcomm : ∀ d a b, set' (set d a) b = set (set' d b) a) : f.Apart g where
  isSet_right o t d d' hread := by
    obtain ⟨a, -, rfl⟩ := hf.exists_of_read hread
    rw [hg.isSet_eq, hg.isSet_eq, hright]
  isSet_left o t d d' hread := by
    obtain ⟨b, -, rfl⟩ := hg.exists_of_read hread
    rw [hf.isSet_eq, hf.isSet_eq, hleft]
  comm o t u d := by
    simp only [hf.read_eq, hg.read_eq]
    cases r o t with
    | error e => cases r' o u <;> rfl
    | ok a => cases r' o u with
      | error e => rfl
      | ok b => exact congrArg some (hcomm d a b)

end Part

section Setters

variable {name name' : String} {other? other'? : Option String} {get : δ → Option α}
  {set : δ → α → δ} {r : Reader α} {get' : δ → Option β} {set' : δ → β → δ} {r' : Reader β}

@[simp] theorem sets_mk (hget : ∀ d a, get (set d a) = some a) :
    Sets ⟨name, other?, fun d => (get d).isSome, fun o t d => (r o t).map (set d)⟩ :=
  Part.sets (r := r) ⟨fun _ => rfl, fun _ _ _ => rfl⟩ hget

@[simp] theorem apart_mk (hright : ∀ d a, get' (set d a) = get' d)
    (hleft : ∀ d b, get (set' d b) = get d)
    (hcomm : ∀ d a b, set' (set d a) b = set (set' d b) a) :
    Apart ⟨name, other?, fun d => (get d).isSome, fun o t d => (r o t).map (set d)⟩
      ⟨name', other'?, fun d => (get' d).isSome, fun o t d => (r' o t).map (set' d)⟩ :=
  have hf : Part _ get set r := ⟨fun _ => rfl, fun _ _ _ => rfl⟩
  have hg : Part _ get' set' r' := ⟨fun _ => rfl, fun _ _ _ => rfl⟩
  hf.apart hg hright hleft hcomm

end Setters

theorem part_of (name : String) (get : δ → Option α) (set : δ → α → δ) (r : Reader α) :
    (Field.of name get set r).Part get set r := ⟨fun _ => rfl, fun _ _ _ => rfl⟩

end Field

namespace Record

variable {δ α : Type}

/-- Fields under different names that set different parts of the draft. -/
structure Distinct (fields : List (Field δ)) : Prop where
  names : (fields.flatMap Field.names).Nodup
  sets : ∀ f ∈ fields, f.Sets
  apart : fields.Pairwise Field.Apart

/-- What one member does to the draft. -/
def take? (fields : List (Field δ)) (o : Origin) (d : δ) (m : String × Tree) : Option δ :=
  match fields.find? (·.answersTo m.1) with
  | none => m.2.skip.toOption.map fun _ => d
  | some f => if f.isSet d then none else (f.read o m.2 d).toOption

/-- What all the members do to it. -/
def collect? (fields : List (Field δ)) (o : Origin) (d : Option δ) (ms : List (String × Tree)) :
    Option δ :=
  ms.foldl (fun d m => d.bind (take? fields o · m)) d

section Collect

variable {fields : List (Field δ)} {o : Origin} {ms ns : List (String × Tree)}

@[simp] theorem collect?_nil (d : Option δ) : collect? fields o d [] = d := rfl

@[simp] theorem collect?_cons (d : Option δ) (m : String × Tree) :
    collect? fields o d (m :: ms) = collect? fields o (d.bind (take? fields o · m)) ms := rfl

@[simp] theorem collect?_append (d : Option δ) :
    collect? fields o d (ms ++ ns) = collect? fields o (collect? fields o d ms) ns :=
  List.foldl_append

@[simp] theorem collect?_none : collect? fields o none ms = none := by
  induction ms with
  | nil => rfl
  | cons m ms ih => exact ih

theorem toOption_ofObject (d : δ) :
    (ofObject fields o d (.ofPairs ms)).toOption = collect? fields o (some d) ms := by
  induction ms generalizing d with
  | nil => rfl
  | cons m ms ih =>
    obtain ⟨key, value⟩ := m
    rw [collect?_cons, Option.bind_some, take?, Members.ofPairs, ofObject]
    dsimp only
    rw [ok_bind]
    cases fields.find? (·.answersTo key) with
    | none => cases hskip : value.skip with
      | error b => exact collect?_none.symm
      | ok u => exact ih d
    | some f =>
      dsimp only
      by_cases hset : f.isSet d
      · rw [if_pos hset, if_pos hset]
        exact collect?_none.symm
      · rw [if_neg hset, if_neg hset]
        cases hread : f.read o value d with
        | error e => exact collect?_none.symm
        | ok d' => exact ih d'

theorem take?_of_find?_eq_none {m : String × Tree}
    (hm : fields.find? (·.answersTo m.1) = none) (d : δ) :
    take? fields o d m = m.2.skip.toOption.map fun _ => d := by
  rw [take?, hm]

theorem take?_of_find?_eq_some {m : String × Tree} {f : Field δ}
    (hm : fields.find? (·.answersTo m.1) = some f) (d : δ) :
    take? fields o d m = if f.isSet d then none else (f.read o m.2 d).toOption := by
  rw [take?, hm]

/-- A member that no field answers to can stand anywhere. -/
theorem take?_comm_of_none {m : String × Tree} (hm : fields.find? (·.answersTo m.1) = none) (d : δ)
    (n : String × Tree) :
    ((take? fields o d m).bind (take? fields o · n)) =
      ((take? fields o d n).bind (take? fields o · m)) := by
  simp only [take?_of_find?_eq_none hm]
  cases m.2.skip with
  | error b => cases take? fields o d n <;> rfl
  | ok u => exact (Option.bind_fun_some (take? fields o d n)).symm

/-- No field is read twice. -/
theorem take?_twice {f : Field δ} (hf : f.Sets) {m n : String × Tree}
    (hm : fields.find? (·.answersTo m.1) = some f) (hn : fields.find? (·.answersTo n.1) = some f)
    (d : δ) : ((take? fields o d m).bind (take? fields o · n)) = none := by
  simp only [take?_of_find?_eq_some hm, take?_of_find?_eq_some hn]
  split
  case isTrue => rfl
  case isFalse => cases hread : f.read o m.2 d with
    | error e => rfl
    | ok d' => exact if_pos (hf _ _ _ _ hread)

theorem take?_bind_of_apart {f g : Field δ} (hfg : f.Apart g) {m n : String × Tree}
    (hm : fields.find? (·.answersTo m.1) = some f) (hn : fields.find? (·.answersTo n.1) = some g)
    (d : δ) : ((take? fields o d m).bind (take? fields o · n)) =
      if f.isSet d ∨ g.isSet d then none
      else (f.read o m.2 d).toOption.bind fun d => (g.read o n.2 d).toOption := by
  simp only [take?_of_find?_eq_some hm, take?_of_find?_eq_some hn]
  by_cases hf : f.isSet d
  · rw [if_pos hf, if_pos (.inl hf)]
    rfl
  · rw [if_neg hf]
    cases hread : f.read o m.2 d with
    | error e => exact (ite_self none).symm
    | ok d' =>
      have hg := hfg.isSet_right _ _ _ _ hread
      simp only [Except.toOption, Option.bind_some, hg, hf, Bool.false_eq_true, false_or]

theorem take?_comm (h : Distinct fields) (d : δ) (m n : String × Tree) :
    ((take? fields o d m).bind (take? fields o · n)) =
      ((take? fields o d n).bind (take? fields o · m)) := by
  cases hm : fields.find? (·.answersTo m.1) with
  | none => exact take?_comm_of_none hm d n
  | some f => cases hn : fields.find? (·.answersTo n.1) with
    | none => exact (take?_comm_of_none hn d m).symm
    | some g =>
      have hf := List.mem_of_find?_eq_some hm
      have hg := List.mem_of_find?_eq_some hn
      by_cases heq : f = g
      · subst heq
        rw [take?_twice (h.sets f hf) hm hn, take?_twice (h.sets f hf) hn hm]
      · have hfg := h.apart.forall hf hg heq
        rw [take?_bind_of_apart hfg hm hn, take?_bind_of_apart hfg.symm hn hm, hfg.comm]
        exact if_congr or_comm rfl rfl

theorem collect?_perm (h : Distinct fields) (d : Option δ) (hperm : ms.Perm ns) :
    collect? fields o d ms = collect? fields o d ns := by
  refine hperm.foldl_eq' (fun m _ n _ d => ?_) d
  cases d with
  | none => rfl
  | some d => exact take?_comm h d m n

end Collect

/-- The members under the names of a field. -/
def chunk (names : List String) (ms : List (String × Tree)) : List (String × Tree) :=
  ms.filter (·.1 ∈ names)

section Chunks

variable {fields : List (Field δ)} {o : Origin} {ms : List (String × Tree)}

theorem Distinct.find?_eq (h : Distinct fields) {f : Field δ} (hf : f ∈ fields) {key : String}
    (hkey : key ∈ f.names) : fields.find? (·.answersTo key) = some f := by
  have hnames := h.names
  clear h
  induction fields with
  | nil => contradiction
  | cons g fs ih =>
    rw [List.flatMap_cons, List.nodup_append'] at hnames
    obtain ⟨-, hfs, hdisjoint⟩ := hnames
    by_cases hg : g.answersTo key
    · simp only [List.find?_cons, hg]
      rcases List.mem_cons.mp hf with rfl | hf
      · rfl
      · exact absurd (List.mem_flatMap.mpr ⟨f, hf, hkey⟩)
          (hdisjoint (Field.answersTo_iff.mp hg))
    · simp only [List.find?_cons, Bool.eq_false_iff.mpr hg]
      rcases List.mem_cons.mp hf with rfl | hf
      · exact absurd (Field.answersTo_iff.mpr hkey) hg
      · exact ih hf hfs

/-- All members, field by field, and then those that belong to no field. -/
theorem perm_chunks (hnames : (fields.flatMap Field.names).Nodup) (ms : List (String × Tree)) :
    ms.Perm (fields.flatMap (fun f => chunk f.names ms) ++
      ms.filter (fun m => fields.all (!·.answersTo m.1))) := by
  induction fields generalizing ms with
  | nil => simp
  | cons f fs ih =>
    rw [List.flatMap_cons, List.nodup_append'] at hnames
    obtain ⟨-, hfs, hdisjoint⟩ := hnames
    have hrest := ih hfs (ms.filter fun m => !decide (m.1 ∈ f.names))
    have hchunk (g : Field δ) (hg : g ∈ fs) :
        chunk g.names (ms.filter fun m => !decide (m.1 ∈ f.names)) = chunk g.names ms := by
      rw [chunk, List.filter_filter]
      refine List.filter_congr fun m _ => ?_
      by_cases hm : m.1 ∈ g.names
      · have hf : m.1 ∉ f.names := fun hf => hdisjoint hf (List.mem_flatMap.mpr ⟨g, hg, hm⟩)
        simp [hm, hf]
      · simp [hm]
    have hforeign : (ms.filter fun m => !decide (m.1 ∈ f.names)).filter
        (fun m => fs.all (!·.answersTo m.1)) =
          ms.filter (fun m => (f :: fs).all (!·.answersTo m.1)) := by
      rw [List.filter_filter]
      refine List.filter_congr fun m _ => ?_
      rw [List.all_cons, ← Field.answersTo_eq, Bool.and_comm]
    rw [List.flatMap_congr hchunk, hforeign] at hrest
    rw [List.flatMap_cons, List.append_assoc]
    exact (List.filter_append_perm (fun m => decide (m.1 ∈ f.names)) ms).symm.trans
      (hrest.append_left _)

theorem collect?_foreign {d : δ} (hskip : ∀ m ∈ ms, m.2.skip = .ok ())
    (hforeign : ∀ m ∈ ms, fields.find? (·.answersTo m.1) = none) :
    collect? fields o (some d) ms = some d := by
  induction ms with
  | nil => rfl
  | cons m ms ih =>
    rw [List.forall_mem_cons] at hskip hforeign
    rw [collect?_cons, Option.bind_some, take?_of_find?_eq_none hforeign.1, hskip.1]
    exact ih hskip.2 hforeign.2

end Chunks

/-- What stands under the names of a field: one member, which a reader takes for a value, or
nothing. -/
inductive Finds {β : Type} (o : Origin) (ms : List (String × Tree)) (names : List String)
    (r : Reader β) : Option β → Prop
  | found (key : String) (t : Tree) (b : β) : chunk names ms = [(key, t)] → r o t = .ok b →
      Finds o ms names r (some b)
  | missing : chunk names ms = [] → Finds o ms names r none

/-- What the members make of a draft, field by field. -/
inductive Collects (o : Origin) (ms : List (String × Tree)) : List (Field δ) → δ → δ → Prop
  | nil (d : δ) : Collects o ms [] d d
  | found {f : Field δ} {fs : List (Field δ)} {d d' d'' : δ} (key : String) (t : Tree) :
      chunk f.names ms = [(key, t)] → f.read o t d = .ok d' → Collects o ms fs d' d'' →
      Collects o ms (f :: fs) d d''
  | missing {f : Field δ} {fs : List (Field δ)} {d d' : δ} : chunk f.names ms = [] →
      Collects o ms fs d d' → Collects o ms (f :: fs) d d'

namespace Collects

variable {o : Origin} {ms : List (String × Tree)} {fields fs : List (Field δ)} {d d' : δ}

theorem part {β : Type} {f : Field δ} {get : δ → Option β} {set : δ → β → δ} {r : Reader β}
    (hf : f.Part get set r) (put : Option β → δ) (hset : ∀ b, set d b = put (some b))
    (hnone : put none = d) {b? : Option β} (hfinds : Finds o ms f.names r b?)
    (hrest : Collects o ms fs (put b?) d') : Collects o ms (f :: fs) d d' := by
  cases hfinds with
  | found key t b hchunk hread =>
    refine .found key t hchunk ?_ hrest
    rw [hf.read_eq, hread, ← hset]
    rfl
  | missing hchunk =>
    rw [hnone] at hrest
    exact .missing hchunk hrest

theorem of {β : Type} {name : String} {get : δ → Option β} {set : δ → β → δ} {r : Reader β}
    (put : Option β → δ) (hset : ∀ b, set d b = put (some b)) (hnone : put none = d)
    {b? : Option β} (hfinds : Finds o ms [name] r b?) (hrest : Collects o ms fs (put b?) d') :
    Collects o ms (.of name get set r :: fs) d d' :=
  part (Field.part_of name get set r) put hset hnone hfinds hrest

theorem collect?_chunks (hdistinct : Distinct fields) (hfs : fs.Sublist fields)
    (hunset : ∀ f ∈ fs, f.isSet d = false) (h : Collects o ms fs d d') :
    collect? fields o (some d) (fs.flatMap fun f => chunk f.names ms) = some d' := by
  induction h with
  | nil => rfl
  | @found f fs d d' d'' key t hchunk hread _ ih =>
    have hf : f ∈ fields := hfs.mem List.mem_cons_self
    have hkey : key ∈ f.names := by
      have hmem : (key, t) ∈ chunk f.names ms := by
        rw [hchunk]
        exact List.mem_singleton_self _
      simpa using (List.mem_filter.mp hmem).2
    have hapart := (List.pairwise_cons.mp (hdistinct.apart.sublist hfs)).1
    rw [List.flatMap_cons, hchunk, List.singleton_append, collect?_cons, Option.bind_some,
      take?_of_find?_eq_some (hdistinct.find?_eq hf hkey), hunset f List.mem_cons_self, hread]
    refine ih ((List.sublist_cons_self f fs).trans hfs) fun g hg => ?_
    rw [(hapart g hg).isSet_right _ _ _ _ hread, hunset g (List.mem_cons_of_mem f hg)]
  | @missing f fs d d' hchunk _ ih =>
    rw [List.flatMap_cons, hchunk, List.nil_append]
    exact ih ((List.sublist_cons_self f fs).trans hfs) fun g hg =>
      hunset g (List.mem_cons_of_mem f hg)

/-- The order of the members does not matter, nor do members that belong to no field. -/
theorem collect?_eq (hdistinct : Distinct fields) (hskip : ∀ m ∈ ms, m.2.skip = .ok ())
    (hunset : ∀ f ∈ fields, f.isSet d = false) (h : Collects o ms fields d d') :
    collect? fields o (some d) ms = some d' := by
  rw [collect?_perm hdistinct _ (perm_chunks hdistinct.names ms), collect?_append,
    h.collect?_chunks hdistinct (.refl fields) hunset]
  refine collect?_foreign (fun m hm => hskip m (List.mem_filter.mp hm).1) fun m hm => ?_
  rw [List.find?_eq_none]
  intro f hf
  have hnone := List.all_eq_true.mp (List.mem_filter.mp hm).2 f hf
  simpa using hnone

end Collects

theorem reader_object_eq_ok_iff {r : Record δ α} {o : Origin} {ms : List (String × Tree)} {a : α} :
    r.reader o (.object (.ofPairs ms)) = .ok a ↔
      ∃ d, collect? r.fields o (some r.empty) ms = some d ∧ r.complete d = .ok a := by
  rw [← toOption_ofObject, reader]
  cases ofObject r.fields o r.empty (.ofPairs ms) with
  | error e => simp [bind, Except.bind, Except.toOption]
  | ok d => cases hd : r.complete d <;>
      simp [bind, Except.bind, Except.toOption, reader.finish, hd]

/-- A field is read once, from the member that stands under one of its names. -/
theorem take?_eq_some_iff {β : Type} {fields : List (Field δ)} (hdistinct : Distinct fields)
    {f : Field δ} (hf : f ∈ fields) {get : δ → Option β} {set : δ → β → δ} {r : Reader β}
    (hpart : f.Part get set r) {o : Origin} {key : String} (hkey : key ∈ f.names) {t : Tree}
    {d d' : δ} : take? fields o d (key, t) = some d' ↔
      get d = none ∧ ∃ b, r o t = .ok b ∧ d' = set d b := by
  rw [take?_of_find?_eq_some (hdistinct.find?_eq hf hkey), hpart.isSet_eq, hpart.read_eq]
  cases get d with
  | some b => simp
  | none => cases r o t with
    | error e => simp [Except.map, Except.toOption]
    | ok b => simp [Except.map, Except.toOption, eq_comm]

/-- A record whose members may come in any order. -/
structure Orderly (r : Record δ α) : Prop extends Distinct r.fields where
  unset : ∀ f ∈ r.fields, f.isSet r.empty = false

/-- What the members of an object come to, where each field finds what it needs. -/
theorem Orderly.reader_object {r : Record δ α} (hr : r.Orderly) {o : Origin}
    {ms : List (String × Tree)} (hskip : ∀ m ∈ ms, m.2.skip = .ok ()) {d : δ}
    (h : Collects o ms r.fields r.empty d) {a : α} (ha : r.complete d = .ok a) :
    r.reader o (.object (.ofPairs ms)) = .ok a :=
  reader_object_eq_ok_iff.mpr ⟨d, h.collect?_eq hr.toDistinct hskip hr.unset, ha⟩

end Record

end Montage.Json
