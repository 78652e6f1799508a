import Mathlib
import Montage.Proofs.Json.Values

/-!
A text and the value that it holds read the same.  The value has its members in another order and
each key once, and it is there only if what the reader passes over is sound too.
-/

namespace Montage.Json

variable {α β δ : Type}

/-! ## What is passed over -/

/-- Under the items of an array. -/
def Items.skipped (inside : Tree → List Tree) : Items → List Tree
  | .cons head tail => inside head ++ tail.skipped inside
  | .closed | .cut _ => []

/-- Under the items of an array that holds fields in order. -/
def Items.skippedBy (inside : String → Tree → List Tree) : List (Field δ) → Items → List Tree
  | f :: fs, .cons head tail => inside f.name head ++ tail.skippedBy inside fs
  | _, _ => []

/-- Of the value under a key: all of it, if no field answers to the key. -/
def Tree.skippedAt (fields : List (Field δ)) (inside : String → Tree → List Tree) (key : String)
    (value : Tree) : List Tree :=
  match fields.find? (·.answersTo key) with
  | none => [value]
  | some f => inside f.name value

/-- Under the keys of an object. -/
def Members.skippedBy (fields : List (Field δ)) (inside : String → Tree → List Tree) :
    Members → List Tree
  | .cons ⟨.ok key, _⟩ value tail =>
    value.skippedAt fields inside key ++ tail.skippedBy fields inside
  | _ => []

namespace Tree

def skippedNone (_ : Tree) : List Tree := []

def skippedItems (inside : Tree → List Tree) : Tree → List Tree
  | .array items => items.skipped inside
  | _ => []

theorem skipped_none : ∀ items : Items, items.skipped skippedNone = []
  | .closed | .cut _ => rfl
  | .cons _ tail => skipped_none tail

theorem skippedItems_none : skippedItems skippedNone = skippedNone := by
  funext t
  cases t with
  | array items => exact skipped_none items
  | _ => rfl

end Tree

/-- In a record, where `inside` tells for each field what is passed over in it. -/
def Record.skipped (r : Record δ α) (inside : String → Tree → List Tree) : Tree → List Tree
  | .object members => members.skippedBy r.fields inside
  | .array items => items.skippedBy inside r.fields
  | _ => []

/-! ## Readers -/

namespace Reader

/-- What is read from a text is also read from the value of the text, and the text is sound as soon
as the parts are that the reader passes over. -/
structure Steady (r : Reader α) (skipped : Tree → List Tree) : Prop where
  isSound_iff : ∀ {t : Tree} {a : α}, r .text t = .ok a → (t.isSound ↔ ∀ u ∈ skipped t, u.isSound)
  read_value : ∀ {t : Tree} {a : α} {depth : Nat} {v : Value}, r .text t = .ok a →
    t.value? depth = some v → r .value v.toTree = .ok a

namespace Steady

/-- A reader of scalars passes nothing over. -/
theorem of_scalar {r : Reader α} (h : ∀ {t : Tree} {a : α}, r .text t = .ok a →
    ∃ v, (∀ depth, t.value? depth = some v) ∧ r .value v.toTree = .ok a) :
    Steady r Tree.skippedNone where
  isSound_iff {t a} hread := by
    obtain ⟨v, hvalue, -⟩ := h hread
    have hsound := (t.isSome_value?_iff 0).mp (by rw [hvalue, Option.isSome_some])
    simpa [Tree.skippedNone] using hsound.1
  read_value {t a depth v} hread hv := by
    obtain ⟨v', hvalue, hread'⟩ := h hread
    rw [hvalue, Option.some.injEq] at hv
    exact hv ▸ hread'

theorem bool : Steady Reader.bool Tree.skippedNone := by
  refine of_scalar fun {t a} h => ?_
  cases t with
  | bool b => exact ⟨.bool b, fun _ => rfl, h⟩
  | _ => contradiction

theorem stringAs (expected : String) : Steady (Reader.stringAs expected) Tree.skippedNone := by
  refine of_scalar fun {t a} h => ?_
  cases t with
  | string q =>
    obtain ⟨text, skip⟩ := q
    cases text with
    | ok s => exact ⟨.string s, fun _ => rfl, h⟩
    | error b => contradiction
  | _ => contradiction

theorem float : Steady Reader.float Tree.skippedNone := by
  refine of_scalar fun {t a} h => ?_
  cases t with
  | number n => cases n with
    | ok n => exact ⟨.number n, fun _ => rfl, by cases n <;> exact h⟩
    | error b => contradiction
  | _ => contradiction

theorem word : Steady Reader.word Tree.skippedNone := by
  refine of_scalar fun {t a} h => ?_
  cases t with
  | number n => cases n with
    | ok n => exact ⟨.number n, fun _ => rfl, by cases n <;> exact h⟩
    | error b => contradiction
  | _ => contradiction

/-- What is done with the result does not depend on where it comes from. -/
theorem andThen {r : Reader α} {skipped : Tree → List Tree} (h : Steady r skipped)
    (g : α → Except ReadError β) : Steady (fun o t => r o t >>= g) skipped where
  isSound_iff hread := by
    obtain ⟨a, ha, -⟩ := bind_eq_ok_iff.mp hread
    exact h.isSound_iff ha
  read_value hread hv := by
    obtain ⟨a, ha, hb⟩ := bind_eq_ok_iff.mp hread
    exact bind_eq_ok_iff.mpr ⟨a, h.read_value ha hv, hb⟩

theorem map {r : Reader α} {skipped : Tree → List Tree} (h : Steady r skipped) (g : α → β) :
    Steady (fun o t => (r o t).map g) skipped :=
  h.andThen fun a => .ok (g a)

theorem optional_eq {r : Reader α} {o : Origin} {t : Tree} (h : t ≠ .null) :
    r.optional o t = (r o t).map some := by
  cases t with
  | null => contradiction
  | _ => rfl

theorem optional {r : Reader α} {skipped : Tree → List Tree} (h : Steady r skipped)
    (hnull : skipped .null = []) : Steady r.optional skipped where
  isSound_iff {t a?} hread := by
    by_cases ht : t = .null
    · subst ht
      simp [hnull, Tree.isSound]
    · rw [optional_eq ht] at hread
      exact (h.map some).isSound_iff hread
  read_value {t a? depth v} hread hv := by
    by_cases ht : t = .null
    · subst ht
      obtain rfl := Option.some.inj hv
      exact hread
    · rw [optional_eq ht] at hread
      rw [optional_eq (Value.toTree_ne_null ht hv)]
      exact (h.map some).read_value hread hv

section List

variable {r : Reader α} {skipped : Tree → List Tree} (h : Steady r skipped)

include h

theorem isSound_iff_items : ∀ (items : Items) (as : List α), list.go r .text items = .ok as →
    (items.isSound ↔ ∀ u ∈ items.skipped skipped, u.isSound)
  | .closed, _, _ => by simp [Items.isSound, Items.skipped]
  | .cons head tail, _, hread => by
    obtain ⟨a, ha, hread⟩ := bind_eq_ok_iff.mp hread
    obtain ⟨as, has, -⟩ := bind_eq_ok_iff.mp hread
    rw [Items.isSound, Items.skipped, Bool.and_eq_true, h.isSound_iff ha,
      isSound_iff_items tail as has, List.forall_mem_append]

theorem read_items {depth : Nat} : ∀ (items : Items) (as : List α) (vs : List Value),
    list.go r .text items = .ok as → items.values? depth = some vs →
      list.go r .value (itemsToTree vs) = .ok as
  | .closed, as, vs, hread, hvs => by
    obtain rfl := Option.some.inj hvs
    exact hread
  | .cons head tail, _, _, hread, hvs => by
    obtain ⟨a, ha, hread⟩ := bind_eq_ok_iff.mp hread
    obtain ⟨as, has, hread⟩ := bind_eq_ok_iff.mp hread
    obtain ⟨v, vs, hv, htail, rfl⟩ := Items.exists_of_values?_cons hvs
    exact bind_eq_ok_iff.mpr ⟨a, h.read_value ha hv,
      bind_eq_ok_iff.mpr ⟨as, read_items tail as vs has htail, hread⟩⟩

theorem list : Steady r.list (Tree.skippedItems skipped) where
  isSound_iff {t as} hread := by
    cases t with
    | array items => exact h.isSound_iff_items items as hread
    | _ => contradiction
  read_value {t as depth v} hread hv := by
    cases t with
    | array items =>
      obtain ⟨inner, vs, hvs, rfl⟩ := Tree.exists_of_value?_array hv
      exact h.read_items items as vs hread hvs
    | _ => contradiction

end List

theorem strings : Steady Reader.string.list Tree.skippedNone :=
  Tree.skippedItems_none ▸ (stringAs _).list

section Pair

variable {first : Reader α} {second : Reader β} {o : Origin}

theorem item_eq_ok_iff {r : Reader α} {n : Nat} {items rest : Items} {a : α} :
    pair.item r o n items = .ok (a, rest) ↔ ∃ t, items = .cons t rest ∧ r o t = .ok a := by
  cases items with
  | closed | cut => simp [pair.item]
  | cons head tail =>
    rw [pair.item]
    cases hhead : r o head with
    | error e => simp [Except.map, hhead]
    | ok a' => simp [Except.map, hhead, and_comm]

theorem finish_eq_ok_iff {total : Nat} {items : Items} :
    items.finish o total = .ok () ↔ items = .closed := by
  cases items with
  | closed | cut => simp [Items.finish]
  | cons => cases o <;> simp [Items.finish]

theorem pair_eq_ok_iff {t : Tree} {p : α × β} : first.pair second o t = .ok p ↔
    ∃ t₁ t₂, t = .array (.cons t₁ (.cons t₂ .closed)) ∧ first o t₁ = .ok p.1 ∧
      second o t₂ = .ok p.2 := by
  cases t with
  | array items =>
    simp only [Reader.pair, bind_eq_ok_iff, Prod.exists, item_eq_ok_iff, Tree.array.injEq]
    constructor
    · rintro ⟨a, rest, ⟨t₁, rfl, h₁⟩, b, rest, ⟨t₂, rfl, h₂⟩, ⟨⟩, hfinish, hp⟩
      obtain rfl := finish_eq_ok_iff.mp hfinish
      obtain rfl := Except.ok.inj hp
      exact ⟨t₁, t₂, rfl, h₁, h₂⟩
    · rintro ⟨t₁, t₂, rfl, h₁, h₂⟩
      exact ⟨_, _, ⟨t₁, rfl, h₁⟩, _, _, ⟨t₂, rfl, h₂⟩, (), rfl, rfl⟩
  | _ => simp [Reader.pair]

/-- Two values in a row. -/
theorem pair (hfirst : Steady first Tree.skippedNone) (hsecond : Steady second Tree.skippedNone) :
    Steady (first.pair second) Tree.skippedNone where
  isSound_iff {t p} hread := by
    obtain ⟨t₁, t₂, rfl, h₁, h₂⟩ := pair_eq_ok_iff.mp hread
    have hsound₁ := hfirst.isSound_iff h₁
    have hsound₂ := hsecond.isSound_iff h₂
    simp_all [Tree.isSound, Items.isSound, Tree.skippedNone]
  read_value {t p depth v} hread hv := by
    obtain ⟨t₁, t₂, rfl, h₁, h₂⟩ := pair_eq_ok_iff.mp hread
    obtain ⟨inner, vs, hvs, rfl⟩ := Tree.exists_of_value?_array hv
    obtain ⟨v₁, rest, hv₁, hrest, rfl⟩ := Items.exists_of_values?_cons hvs
    obtain ⟨v₂, none, hv₂, hnone, rfl⟩ := Items.exists_of_values?_cons hrest
    obtain rfl := Option.some.inj hnone
    exact pair_eq_ok_iff.mpr ⟨_, _, rfl, hfirst.read_value h₁ hv₁, hsecond.read_value h₂ hv₂⟩

end Pair

section Choice

variable {known : List String} {named : String → Option α}

theorem unit_eq_ok_iff {o : Origin} {t : Tree} : unit o t = .ok () ↔ t = .null := by
  cases t with
  | null => exact iff_of_true rfl rfl
  | _ => simp [unit]

/-- A choice is its name, or the name as the only key of an object with nothing under it. -/
theorem exists_of_choice {t : Tree} {a : α} (h : Reader.choice known named .text t = .ok a) :
    ∃ s skip, choice.pick known named s = .ok a ∧
      (t = .string ⟨.ok s, skip⟩ ∨ t = .object (.cons ⟨.ok s, skip⟩ .null .closed)) := by
  cases t with
  | string q =>
    obtain ⟨text, skip⟩ := q
    cases text with
    | ok s => exact ⟨s, skip, h, .inl rfl⟩
    | error b => contradiction
  | object members =>
    cases members with
    | cons key value tail =>
      obtain ⟨text, skip⟩ := key
      cases text with
      | error b => contradiction
      | ok s =>
        simp only [Reader.choice, choice.ofText, ok_bind] at h
        obtain ⟨a', ha', h⟩ := bind_eq_ok_iff.mp h
        obtain ⟨⟨⟩, hvalue, h⟩ := bind_eq_ok_iff.mp h
        obtain rfl := unit_eq_ok_iff.mp hvalue
        cases tail with
        | closed =>
          obtain rfl := Except.ok.inj h
          exact ⟨s, skip, ha', .inr rfl⟩
        | _ => contradiction
    | closed | cut => contradiction
    | unquoted key => simp [Reader.choice, choice.ofText] at h
  | _ => contradiction

theorem choice : Steady (Reader.choice known named) Tree.skippedNone where
  isSound_iff {t a} hread := by
    obtain ⟨s, skip, -, rfl | rfl⟩ := exists_of_choice hread
    all_goals simp [Tree.isSound, Members.isSound, Tree.skippedNone, Except.toOption]
  read_value {t a depth v} hread hv := by
    obtain ⟨s, skip, hpick, rfl | rfl⟩ := exists_of_choice hread
    · obtain rfl := Option.some.inj hv
      exact hpick
    · obtain ⟨inner, ms, hms, rfl⟩ := Tree.exists_of_value?_object hv
      obtain rfl := Option.some.inj hms
      exact bind_eq_ok_iff.mpr ⟨a, hpick, rfl⟩

end Choice

end Steady

end Reader

/-! ## Records -/

/-- A field that is read the same from a text and from the value of the text. -/
def Field.Steady (f : Field δ) (skipped : Tree → List Tree) : Prop :=
  ∀ d, Reader.Steady (fun o t => f.read o t d) skipped

theorem Reader.Steady.field {r : Reader α} {skipped : Tree → List Tree} (h : r.Steady skipped)
    {f : Field δ} {get : δ → Option α} {set : δ → α → δ} (hf : f.Part get set r) :
    f.Steady skipped := by
  intro d
  simp only [hf.read_eq]
  exact h.map (set d)

theorem Reader.Steady.of {r : Reader α} {skipped : Tree → List Tree} (h : r.Steady skipped)
    {name : String} {get : δ → Option α} {set : δ → α → δ} :
    (Field.of name get set r).Steady skipped :=
  h.field (Field.part_of name get set r)

namespace Record

section Fields

variable {inside : String → Tree → List Tree}

/-! ### Written as an array -/

theorem isSound_iff_ofArray {total : Nat} : ∀ (items : Items) {fields : List (Field δ)} {d d' : δ},
    (∀ f ∈ fields, f.Steady (inside f.name)) → ofArray fields .text total d items = .ok d' →
      (items.isSound ↔ ∀ u ∈ items.skippedBy inside fields, u.isSound)
  | .closed, fields, _, _, _, _ => by cases fields <;> simp [Items.isSound, Items.skippedBy]
  | .cut _, _, _, _, _, hread => by simp [ofArray] at hread
  | .cons head tail, f :: fs, d, d', h, hread => by
    rw [List.forall_mem_cons] at h
    rw [ofArray] at hread
    obtain ⟨d₁, hd, hread⟩ := bind_eq_ok_iff.mp hread
    rw [Items.isSound, Items.skippedBy, Bool.and_eq_true, (h.1 d).isSound_iff hd,
      isSound_iff_ofArray tail h.2 hread, List.forall_mem_append]

theorem ofArray_values {total total' depth : Nat} : ∀ (items : Items) {fields : List (Field δ)}
    {d d' : δ} {vs : List Value},
    (∀ f ∈ fields, f.Steady (inside f.name)) → ofArray fields .text total d items = .ok d' →
      items.values? depth = some vs → ofArray fields .value total' d (itemsToTree vs) = .ok d'
  | .closed, _, _, _, _, _, hread, hvs => by
    obtain rfl := Option.some.inj hvs
    rw [ofArray] at hread
    rw [itemsToTree, ofArray, hread]
  | .cons head tail, f :: fs, d, d', _, h, hread, hvs => by
    rw [List.forall_mem_cons] at h
    rw [ofArray] at hread
    obtain ⟨d₁, hd, hread⟩ := bind_eq_ok_iff.mp hread
    obtain ⟨v, vs, hv, htail, rfl⟩ := Items.exists_of_values?_cons hvs
    rw [itemsToTree, ofArray]
    exact bind_eq_ok_iff.mpr ⟨d₁, (h.1 d).read_value hd hv, ofArray_values tail h.2 hread htail⟩

/-! ### Written as an object -/

variable {fields : List (Field δ)} {o : Origin} {d d' : δ}

/-- A member is passed over, or it is read by a field that has not been read before. -/
theorem take?_cases {m : String × Tree} : take? fields o d m = some d' ↔
    fields.find? (·.answersTo m.1) = none ∧ m.2.skip = .ok () ∧ d' = d ∨
      ∃ f, fields.find? (·.answersTo m.1) = some f ∧ f.isSet d = false ∧
        f.read o m.2 d = .ok d' := by
  cases hfind : fields.find? (·.answersTo m.1) with
  | none =>
    rw [take?_of_find?_eq_none hfind]
    cases m.2.skip <;> simp [Except.toOption, @eq_comm _ d d']
  | some f =>
    rw [take?_of_find?_eq_some hfind]
    cases hset : f.isSet d with
    | true => simp [hset]
    | false => cases hread : f.read o m.2 d <;> simp [hset, hread, Except.toOption]

theorem ofObject_cons_eq_ok_iff {key : Quote} {value : Tree} {tail : Members} :
    ofObject fields o d (.cons key value tail) = .ok d' ↔ ∃ s d₁, key.text = .ok s ∧
      take? fields o d (s, value) = some d₁ ∧ ofObject fields o d₁ tail = .ok d' := by
  rw [ofObject]
  cases hkey : key.text with
  | error b => simp [bind, Except.bind]
  | ok s =>
    dsimp only
    rw [ok_bind]
    simp only [Except.ok.injEq, exists_and_left, exists_eq_left']
    cases hfind : fields.find? (·.answersTo s) with
    | none =>
      simp only [take?_of_find?_eq_none (m := (s, value)) hfind]
      cases value.skip <;> simp [Except.toOption]
    | some f =>
      simp only [take?_of_find?_eq_some (m := (s, value)) hfind]
      cases f.isSet d with
      | true => simp
      | false => cases hread : f.read o value d <;> simp [bind, Except.bind, Except.toOption]

theorem isSound_iff_ofObject (h : ∀ f ∈ fields, f.Steady (inside f.name)) : ∀ (members : Members)
    {d d' : δ}, ofObject fields .text d members = .ok d' →
      (members.isSound ↔ ∀ u ∈ members.skippedBy fields inside, u.isSound)
  | .closed, _, _, _ => by simp [Members.isSound, Members.skippedBy]
  | .cut _, _, _, hread | .unquoted _, _, _, hread => by simp [ofObject] at hread
  | .cons ⟨text, _⟩ value tail, d, d', hread => by
    obtain ⟨s, d₁, rfl, htake, htail⟩ := ofObject_cons_eq_ok_iff.mp hread
    have hvalue : value.isSound ↔ ∀ u ∈ value.skippedAt fields inside s, u.isSound := by
      unfold Tree.skippedAt
      rcases take?_cases.mp htake with ⟨hnone, -, -⟩ | ⟨f, hf, -, hvalue⟩
      · simp only [hnone, List.forall_mem_singleton]
      · simp only [hf, (h f (List.mem_of_find?_eq_some hf) d).isSound_iff hvalue]
    rw [Members.isSound, Members.skippedBy, Bool.and_eq_true, Bool.and_eq_true, hvalue,
      isSound_iff_ofObject h tail htail, List.forall_mem_append]
    exact and_congr_left' (and_iff_right rfl)

/-- What a member of the text does to the draft, the member of the value does too.  If the key came
before, no field answers to it, and what stood there was passed over. -/
theorem collect?_insertMember (hdistinct : Distinct fields)
    (h : ∀ f ∈ fields, f.Steady (inside f.name)) {empty d d₁ : δ} {found : List (String × Value)}
    {key : String} {t : Tree} {v : Value} {depth : Nat}
    (hfound : collect? fields .value (some empty) (treePairs found) = some d)
    (htake : take? fields .text d (key, t) = some d₁) (hv : t.value? depth = some v) :
    collect? fields .value (some empty) (treePairs (insertMember key v found)) = some d₁ := by
  obtain ⟨rest, hinsert, hrest⟩ := exists_perm_insertMember key v found
  rw [collect?_perm hdistinct _ (perm_treePairs hinsert), treePairs_concat, collect?_append]
  have hbefore : collect? fields .value (some empty) (treePairs rest) = some d := by
    rcases hrest with hrest | ⟨v', hrest⟩
    · rwa [collect?_perm hdistinct _ (perm_treePairs hrest)] at hfound
    · rw [collect?_perm hdistinct _ (perm_treePairs hrest), treePairs_concat,
        collect?_append] at hfound
      obtain ⟨d₀, hd₀, htake₀⟩ := Option.bind_eq_some_iff.mp hfound
      rcases take?_cases.mp htake₀ with ⟨-, -, rfl⟩ | ⟨f, hf, -, hread⟩
      · exact hd₀
      · -- a field that was read is not read again
        have hset := hdistinct.sets f (List.mem_of_find?_eq_some hf) _ _ _ _ hread
        rw [take?_of_find?_eq_some (m := (key, t)) hf, if_pos hset] at htake
        contradiction
  rw [hbefore, collect?_cons, collect?_nil, Option.bind_some]
  rcases take?_cases.mp htake with ⟨hnone, -, rfl⟩ | ⟨f, hf, hset, hread⟩
  · exact take?_cases.mpr (.inl ⟨hnone, v.skip_toTree, rfl⟩)
  · exact take?_cases.mpr (.inr ⟨f, hf, hset,
      (h f (List.mem_of_find?_eq_some hf) d).read_value hread hv⟩)

theorem collect?_values (hdistinct : Distinct fields)
    (h : ∀ f ∈ fields, f.Steady (inside f.name)) {depth : Nat} {empty : δ} : ∀ (members : Members)
    {d d' : δ} {found ms : List (String × Value)}, ofObject fields .text d members = .ok d' →
      collect? fields .value (some empty) (treePairs found) = some d →
        members.values? depth found = some ms →
          collect? fields .value (some empty) (treePairs ms) = some d'
  | .closed, d, d', found, ms, hread, hfound, hms => by
    rw [ofObject] at hread
    obtain rfl := Option.some.inj hms
    rw [hfound, Except.ok.inj hread]
  | .cut _, _, _, _, _, hread, _, _ | .unquoted _, _, _, _, _, hread, _, _ => by
    simp [ofObject] at hread
  | .cons key value tail, d, d', found, ms, hread, hfound, hms => by
    obtain ⟨s, d₁, hkey, htake, htail⟩ := ofObject_cons_eq_ok_iff.mp hread
    rw [Members.values?, hkey] at hms
    obtain ⟨k, hk, hms⟩ := Option.bind_eq_some_iff.mp hms
    obtain rfl := Option.some.inj hk
    obtain ⟨v, hv, hms⟩ := Option.bind_eq_some_iff.mp hms
    exact collect?_values hdistinct h tail htail
      (collect?_insertMember hdistinct h hfound htake hv) hms

end Fields

/-! ### Either way -/

theorem finish_eq_ok_iff {r : Record δ α} {d : δ} {a : α} :
    reader.finish r d = .ok a ↔ r.complete d = .ok a := by
  unfold reader.finish
  cases r.complete d <;> simp

/-- A record is read the same if each of its fields is. -/
theorem steady {r : Record δ α} (hr : r.Orderly) {inside : String → Tree → List Tree}
    (h : ∀ f ∈ r.fields, f.Steady (inside f.name)) : r.reader.Steady (r.skipped inside) where
  isSound_iff {t a} hread := by
    cases t with
    | object members =>
      obtain ⟨d, hd, -⟩ := bind_eq_ok_iff.mp hread
      exact isSound_iff_ofObject h members hd
    | array items =>
      obtain ⟨d, hd, -⟩ := bind_eq_ok_iff.mp hread
      exact isSound_iff_ofArray items h hd
    | _ => contradiction
  read_value {t a depth v} hread hv := by
    cases t with
    | object members =>
      obtain ⟨d, hd, hfinish⟩ := bind_eq_ok_iff.mp hread
      obtain ⟨inner, ms, hms, rfl⟩ := Tree.exists_of_value?_object hv
      rw [Value.toTree, membersToTree_eq, reader_object_eq_ok_iff]
      exact ⟨d, collect?_values hr.toDistinct h members hd rfl hms, finish_eq_ok_iff.mp hfinish⟩
    | array items =>
      obtain ⟨d, hd, hfinish⟩ := bind_eq_ok_iff.mp hread
      obtain ⟨inner, vs, hvs, rfl⟩ := Tree.exists_of_value?_array hv
      refine bind_eq_ok_iff.mpr ⟨d, ofArray_values items h hd hvs, ?_⟩
      rwa [length_itemsToTree, Items.length_values? items hvs]
    | _ => contradiction

end Record

end Montage.Json
