import Mathlib

/-!
Laws of lists that the development needs and the library does not have: first appearances, counts
before a place, and cuts where a test first fails.
-/

namespace List

variable {α : Type} [BEq α] [LawfulBEq α]

theorem eraseDups_concat (xs : List α) (a : α) :
    (xs ++ [a]).eraseDups = if a ∈ xs then xs.eraseDups else xs.eraseDups ++ [a] := by
  rw [eraseDups_append]
  split
  case isTrue h => simp [removeAll, h]
  case isFalse h => simp [removeAll, h, eraseDups_cons]

theorem nodup_eraseDups (xs : List α) : xs.eraseDups.Nodup := by
  induction xs using List.reverseRecOn with
  | nil => simp
  | append_singleton xs a ih =>
    rw [eraseDups_concat]
    split
    case isTrue => exact ih
    case isFalse h =>
      rw [nodup_append]
      refine ⟨ih, by simp, fun b hb c hc hbc => h ?_⟩
      simpa [hbc, mem_singleton.mp hc] using hb

theorem eraseDups_of_nodup {xs : List α} (h : xs.Nodup) : xs.eraseDups = xs := by
  induction xs using List.reverseRecOn with
  | nil => simp
  | append_singleton xs a ih =>
    have ha : a ∉ xs := fun ha => (nodup_append.mp h).2.2 a ha a (by simp) rfl
    rw [eraseDups_concat, if_neg ha, ih (nodup_append.mp h).1]

theorem eraseDups_eraseDups_append (xs ys : List α) :
    (xs.eraseDups ++ ys).eraseDups = (xs ++ ys).eraseDups := by
  induction ys using List.reverseRecOn with
  | nil => simpa using eraseDups_of_nodup (nodup_eraseDups xs)
  | append_singleton ys a ih =>
    rw [← append_assoc, ← append_assoc, eraseDups_concat, eraseDups_concat, ih]
    simp

omit [BEq α] [LawfulBEq α] in
/-- Pieces made at different places are disjoint when each element tells its place. -/
theorem nodup_flatMap_zipIdx {β : Type} {xs : List α} {f : α × Nat → List β} (place : β → Nat)
    (hf : ∀ x ∈ xs.zipIdx, (f x).Nodup) (hplace : ∀ x ∈ xs.zipIdx, ∀ b ∈ f x, place b = x.2) :
    (xs.zipIdx.flatMap f).Nodup := by
  have hne : xs.zipIdx.Pairwise fun x y => x.2 ≠ y.2 := by
    apply Pairwise.of_map Prod.snd (fun _ _ h => h)
    rw [zipIdx_map_snd]
    exact nodup_range' 1
  rw [nodup_flatMap]
  refine ⟨hf, hne.imp_of_mem fun {x y} hx hy h b hb hb' => h ?_⟩
  rw [← hplace x hx b hb, hplace y hy b hb']

theorem exists_getElem?_of_lt_count {xs : List α} {a : α} {k : Nat} (h : k < xs.count a) :
    ∃ n : Nat, xs[n]? = some a ∧ (xs.take n).count a = k := by
  induction xs generalizing k with
  | nil => simp at h
  | cons x xs ih =>
    by_cases hx : x = a
    · subst hx
      cases k with
      | zero => exact ⟨0, by simp, by simp⟩
      | succ k =>
        rw [count_cons_self] at h
        obtain ⟨n, hn, hk⟩ := ih (Nat.lt_of_succ_lt_succ h)
        exact ⟨n + 1, by simpa using hn, by simp [hk]⟩
    · rw [count_cons_of_ne hx] at h
      obtain ⟨n, hn, hk⟩ := ih h
      exact ⟨n + 1, by simpa using hn, by simp [count_cons_of_ne hx, hk]⟩

theorem count_take_lt {xs : List α} {a : α} {m n : Nat} (hm : xs[m]? = some a) (h : m < n) :
    (xs.take m).count a < (xs.take n).count a := by
  have hsucc : (xs.take (m + 1)).count a = (xs.take m).count a + 1 := by
    rw [take_add_one, hm]
    simp
  have hle := (take_sublist_take_left (l := xs) (show m + 1 ≤ n from h)).count_le a
  omega

theorem count_take_lt_count {xs : List α} {a : α} {n : Nat} (hn : xs[n]? = some a) :
    (xs.take n).count a < xs.count a :=
  (count_take_lt hn n.lt_succ_self).trans_le ((take_sublist _ _).count_le a)

/-- An element with the same count before it stands at the same place. -/
theorem eq_of_count_take_eq {xs : List α} {a : α} {m n : Nat} (hm : xs[m]? = some a)
    (hn : xs[n]? = some a) (h : (xs.take m).count a = (xs.take n).count a) : m = n := by
  rcases Nat.lt_trichotomy m n with hlt | heq | hlt
  · exact absurd h (count_take_lt hm hlt).ne
  · exact heq
  · exact absurd h (count_take_lt hn hlt).ne'

omit [BEq α] [LawfulBEq α] in
/-- The pieces before a place are passed over as a whole. -/
theorem getElem?_flatMap {β : Type} {f : α → List β} {xs : List α} {t i : Nat} {x : α}
    (ht : xs[t]? = some x) (hi : i < (f x).length) :
    (xs.flatMap f)[((xs.take t).map (f · |>.length)).sum + i]? = (f x)[i]? := by
  induction xs generalizing t with
  | nil => simp at ht
  | cons y ys ih =>
    cases t with
    | zero =>
      obtain rfl : y = x := by simpa using ht
      simp [List.getElem?_append_left hi]
    | succ t =>
      rw [take_succ_cons, map_cons, sum_cons, flatMap_cons, Nat.add_assoc,
        getElem?_append_right (Nat.le_add_right ..), Nat.add_sub_cancel_left]
      exact ih (by simpa using ht)

omit [BEq α] [LawfulBEq α] in
theorem eq_of_map_eq {β : Type} {f : α → β} {xs ys : List α}
    (hf : ∀ x ∈ xs, ∀ y ∈ ys, f x = f y → x = y) (h : xs.map f = ys.map f) : xs = ys := by
  induction xs generalizing ys with
  | nil => exact (map_eq_nil_iff.mp h.symm).symm
  | cons x xs ih =>
    obtain ⟨y, ys, rfl, hxy, hrest⟩ := map_eq_cons_iff.mp h.symm
    rw [hf x (by simp) y (by simp) hxy.symm]
    rw [ih (fun x hx y hy => hf x (by simp [hx]) y (by simp [hy])) hrest.symm]

omit [BEq α] [LawfulBEq α] in
theorem getElem?_set_of_eq_some {xs : List α} {i : Nat} {a : α} (h : xs[i]? = some a) (b : α) :
    (xs.set i b)[i]? = some b :=
  getElem?_set_self (getElem?_eq_some_iff.mp h).1

section Cut

variable {γ : Type} {p : γ → Bool} {xs ys zs ws : List γ}

theorem takeWhile_append_of_head (hxs : ∀ x ∈ xs, p x) (hys : ∀ y ∈ ys.head?, p y = false) :
    (xs ++ ys).takeWhile p = xs := by
  rw [takeWhile_append_of_pos hxs]
  cases ys with
  | nil => simp
  | cons y ys => simp [hys y rfl]

/-- A list can be cut in one way only where a test first fails. -/
theorem append_inj_of_head (hxs : ∀ x ∈ xs, p x) (hzs : ∀ z ∈ zs, p z)
    (hys : ∀ y ∈ ys.head?, p y = false) (hws : ∀ w ∈ ws.head?, p w = false)
    (h : xs ++ ys = zs ++ ws) : xs = zs ∧ ys = ws := by
  have hleft : xs = zs := by
    rw [← takeWhile_append_of_head hxs hys, h, takeWhile_append_of_head hzs hws]
  rw [hleft] at h
  exact ⟨hleft, append_cancel_left h⟩

end Cut

section Except

variable {γ δ ε : Type} {f : γ → Except ε δ}

theorem mapM_eq_ok_iff {xs : List γ} {ys : List δ} :
    xs.mapM f = .ok ys ↔ Forall₂ (fun x y => f x = .ok y) xs ys := by
  induction xs generalizing ys with
  | nil =>
    rw [mapM_nil, forall₂_nil_left_iff]
    exact ⟨fun h => (Except.ok.inj h).symm, fun h => h ▸ rfl⟩
  | cons x xs ih =>
    rw [mapM_cons, forall₂_cons_left_iff]
    simp only [← ih]
    cases hx : f x with
    | error e => simp [bind, Except.bind]
    | ok y =>
      cases hxs : xs.mapM f with
      | error e => simp [bind, Except.bind]
      | ok zs => simp [bind, Except.bind, pure, Except.pure, eq_comm]

theorem Forall₂.getElem?_eq_some {R : γ → δ → Prop} {xs : List γ} {ys : List δ}
    (h : Forall₂ R xs ys) {i : Nat} {x : γ} (hx : xs[i]? = some x) :
    ∃ y, ys[i]? = some y ∧ R x y := by
  obtain ⟨hi, rfl⟩ := getElem?_eq_some_iff.mp hx
  have hi' : i < ys.length := h.length_eq ▸ hi
  exact ⟨ys[i], getElem?_eq_getElem hi', forall₂_iff_get.mp h |>.2 i hi hi'⟩

end Except

end List
