import Mathlib
import Montage.Proofs.Json.Records

/-!
The values that texts hold.  A text holds a value if it is sound throughout and does not nest too
deep; an object of it has each key once, with what stood last under the key.
-/

namespace Montage.Json

/-! ## When there is a value -/

mutual

/-- Nothing is missing or goes wrong in the text, all its numbers are within the doubles, and no
half of a pair of characters stands alone in what it quotes. -/
def Tree.isSound : Tree → Bool
  | .absent | .broken _ => false
  | .null | .bool _ => true
  | .number n => n.toOption.isSome
  | .string q => q.text.toOption.isSome
  | .array items => items.isSound
  | .object members => members.isSound

def Items.isSound : Items → Bool
  | .closed => true
  | .cut _ => false
  | .cons head tail => head.isSound && tail.isSound

def Members.isSound : Members → Bool
  | .closed => true
  | .cut _ | .unquoted _ => false
  | .cons key value tail => key.text.toOption.isSome && value.isSound && tail.isSound

end

mutual

/-- How many arrays and objects stand one within the other. -/
def Tree.nesting : Tree → Nat
  | .array items => items.nesting + 1
  | .object members => members.nesting + 1
  | _ => 0

def Items.nesting : Items → Nat
  | .cons head tail => max head.nesting tail.nesting
  | _ => 0

def Members.nesting : Members → Nat
  | .cons _ value tail => max value.nesting tail.nesting
  | _ => 0

end

mutual

/-- A text that is sound and nests no deeper than is allowed holds a value, and no other does. -/
theorem Tree.isSome_value?_iff : ∀ (t : Tree) (depth : Nat),
    (t.value? depth).isSome ↔ t.isSound ∧ t.nesting ≤ depth
  | .absent, _ | .broken _, _ | .null, _ | .bool _, _ | .number _, _ | .string _, _
  | .array _, 0 | .object _, 0 => by simp [Tree.value?, Tree.isSound, Tree.nesting]
  | .array items, depth + 1 => by
    simpa [Tree.value?, Tree.isSound, Tree.nesting] using items.isSome_values?_iff depth
  | .object members, depth + 1 => by
    simpa [Tree.value?, Tree.isSound, Tree.nesting] using members.isSome_values?_iff depth []

theorem Items.isSome_values?_iff : ∀ (items : Items) (depth : Nat),
    (items.values? depth).isSome ↔ items.isSound ∧ items.nesting ≤ depth
  | .closed, _ | .cut _, _ => by simp [Items.values?, Items.isSound, Items.nesting]
  | .cons head tail, depth => by
    have hhead := head.isSome_value?_iff depth
    have htail := tail.isSome_values?_iff depth
    have hboth : ((Items.cons head tail).values? depth).isSome ↔
        (head.value? depth).isSome ∧ (tail.values? depth).isSome := by
      rw [Items.values?]
      cases head.value? depth <;> cases tail.values? depth <;> simp
    rw [hboth, hhead, htail, Items.isSound, Items.nesting, max_le_iff, Bool.and_eq_true]
    tauto

theorem Members.isSome_values?_iff : ∀ (members : Members) (depth : Nat)
    (found : List (String × Value)),
    (members.values? depth found).isSome ↔ members.isSound ∧ members.nesting ≤ depth
  | .closed, _, _ | .cut _, _, _ | .unquoted _, _, _ => by
    simp [Members.values?, Members.isSound, Members.nesting]
  | .cons key value tail, depth, found => by
    have hvalue := value.isSome_value?_iff depth
    have hboth : ((Members.cons key value tail).values? depth found).isSome ↔
        key.text.toOption.isSome ∧ (value.value? depth).isSome ∧
          tail.isSound ∧ tail.nesting ≤ depth := by
      rw [Members.values?]
      cases key.text.toOption with
      | none => simp
      | some k => cases value.value? depth with
        | none => simp
        | some v => simpa using tail.isSome_values?_iff depth (insertMember k v found)
    rw [hboth, hvalue, Members.isSound, Members.nesting, max_le_iff, Bool.and_eq_true,
      Bool.and_eq_true]
    tauto

end

section Held

variable {depth : Nat}

theorem Tree.exists_of_value?_array {items : Items} {v : Value}
    (h : (Tree.array items).value? depth = some v) :
    ∃ inner vs, items.values? inner = some vs ∧ v = .array vs := by
  cases depth with
  | zero => contradiction
  | succ inner =>
    obtain ⟨vs, hvs, rfl⟩ := Option.map_eq_some_iff.mp h
    exact ⟨inner, vs, hvs, rfl⟩

theorem Tree.exists_of_value?_object {members : Members} {v : Value}
    (h : (Tree.object members).value? depth = some v) :
    ∃ inner ms, members.values? inner [] = some ms ∧ v = .object ms := by
  cases depth with
  | zero => contradiction
  | succ inner =>
    obtain ⟨ms, hms, rfl⟩ := Option.map_eq_some_iff.mp h
    exact ⟨inner, ms, hms, rfl⟩

theorem Items.exists_of_values?_cons {head : Tree} {tail : Items} {vs : List Value}
    (h : (Items.cons head tail).values? depth = some vs) :
    ∃ v rest, head.value? depth = some v ∧ tail.values? depth = some rest ∧ vs = v :: rest := by
  obtain ⟨v, hv, h⟩ := Option.bind_eq_some_iff.mp h
  obtain ⟨rest, hrest, h⟩ := Option.bind_eq_some_iff.mp h
  exact ⟨v, rest, hv, hrest, (Option.some.inj h).symm⟩

theorem Items.length_values? : ∀ (items : Items) {vs : List Value},
    items.values? depth = some vs → vs.length = items.length
  | .closed, vs, h => by
    obtain rfl := Option.some.inj h
    rfl
  | .cons head tail, vs, h => by
    obtain ⟨v, rest, -, hrest, rfl⟩ := exists_of_values?_cons h
    rw [List.length_cons, tail.length_values? hrest, Items.length]

end Held

/-! ## The members of an object -/

/-- To insert a member is to put it in place of the one with its key, if there is one. -/
theorem exists_perm_insertMember (k : String) (v : Value) (ms : List (String × Value)) :
    ∃ rest, (insertMember k v ms).Perm (rest ++ [(k, v)]) ∧
      (ms.Perm rest ∨ ∃ v', ms.Perm (rest ++ [(k, v')])) := by
  induction ms with
  | nil => exact ⟨[], .refl _, .inl (.refl _)⟩
  | cons m ms ih =>
    obtain ⟨k', v'⟩ := m
    rw [insertMember]
    split
    · exact ⟨(k', v') :: ms, (List.perm_append_singleton _ _).symm, .inl (.refl _)⟩
    split
    case isTrue hk =>
      subst hk
      exact ⟨ms, (List.perm_append_singleton _ _).symm,
        .inr ⟨v', (List.perm_append_singleton _ _).symm⟩⟩
    case isFalse =>
      obtain ⟨rest, hinsert, hms⟩ := ih
      refine ⟨(k', v') :: rest, hinsert.cons _, ?_⟩
      rcases hms with hms | ⟨v₀, hms⟩
      · exact .inl (hms.cons _)
      · exact .inr ⟨v₀, hms.cons _⟩

/-- The members of an object value, as trees. -/
def treePairs (ms : List (String × Value)) : List (String × Tree) :=
  ms.map fun m => (m.1, m.2.toTree)

theorem membersToTree_eq (ms : List (String × Value)) :
    membersToTree ms = .ofPairs (treePairs ms) := by
  induction ms with
  | nil => rfl
  | cons m ms ih =>
    rw [membersToTree, ih]
    rfl

theorem perm_treePairs {ms ns : List (String × Value)} (h : ms.Perm ns) :
    (treePairs ms).Perm (treePairs ns) := h.map _

theorem treePairs_concat (ms : List (String × Value)) (k : String) (v : Value) :
    treePairs (ms ++ [(k, v)]) = treePairs ms ++ [(k, v.toTree)] := by
  simp [treePairs]

/-! ## Values as trees -/

mutual

/-- A value can be passed over. -/
@[simp] theorem Value.skip_toTree : ∀ v : Value, v.toTree.skip = .ok ()
  | .null | .bool _ | .number _ | .string _ => rfl
  | .array items => skip_itemsToTree items
  | .object members => skip_membersToTree members

theorem skip_itemsToTree : ∀ items : List Value, (itemsToTree items).skip = .ok ()
  | [] => rfl
  | v :: rest => by rw [itemsToTree, Items.skip, v.skip_toTree, ok_bind, skip_itemsToTree rest]

theorem skip_membersToTree : ∀ members : List (String × Value),
    (membersToTree members).skip = .ok ()
  | [] => rfl
  | (_, v) :: rest => by
    rw [membersToTree, Members.skip]
    dsimp only
    rw [v.skip_toTree, ok_bind, skip_membersToTree rest]

end

theorem Tree.eq_null_of_value? {t : Tree} {depth : Nat} (h : t.value? depth = some .null) :
    t = .null := by
  cases t with
  | null => rfl
  | array | object => cases depth <;> simp [Tree.value?] at h
  | _ => simp [Tree.value?] at h

theorem Value.toTree_ne_null {t : Tree} {v : Value} {depth : Nat} (ht : t ≠ .null)
    (hv : t.value? depth = some v) : v.toTree ≠ .null := by
  cases v with
  | null => exact absurd (Tree.eq_null_of_value? hv) ht
  | _ => exact Tree.noConfusion

theorem length_itemsToTree (items : List Value) : (itemsToTree items).length = items.length := by
  induction items with
  | nil => rfl
  | cons v rest ih => rw [itemsToTree, Items.length, ih, List.length_cons]

end Montage.Json
