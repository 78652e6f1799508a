import Mathlib
import Montage.Proofs.Lists
import Montage.Video.Assembly

/-!
What registering files does to a registry: its paths stay distinct and in the order of first
appearance, every identity is the place of its path, and every tile counts once.
-/

namespace Montage.Registry

@[simp] theorem length_paths (r : Registry) : r.paths.length = r.size := List.length_map _

theorem get?_eq (r : Registry) (path : String) :
    r.get? path = if path ∈ r.paths then some ⟨r.paths.idxOf path⟩ else none := by
  have hidx : r.entries.findIdx (·.path == path) = r.paths.idxOf path := by
    rw [paths, List.idxOf, List.findIdx_map]
    rfl
  rw [get?, List.findIdx?_eq_guard_findIdx_lt, hidx]
  split
  case isTrue h =>
    have := List.idxOf_lt_length_of_mem h
    simp_all [Option.guard, size]
  case isFalse h =>
    have := List.idxOf_eq_length_iff.mpr h
    simp_all [Option.guard, size]

theorem paths_register (r : Registry) (path : String) :
    (r.register path).1.paths = if path ∈ r.paths then r.paths else r.paths ++ [path] := by
  unfold register
  rw [get?_eq]
  split <;> simp_all [paths]

theorem register_id (r : Registry) (path : String) :
    (r.register path).2 = ⟨(r.register path).1.paths.idxOf path⟩ := by
  have hpaths := paths_register r path
  unfold register at hpaths ⊢
  rw [get?_eq] at hpaths ⊢
  split
  case h_1 h =>
    split at h <;> simp_all
  case h_2 h =>
    split at h
    · simp at h
    · simp_all [List.idxOf_append, size]

theorem usageCount_register (r : Registry) (path : String) (id : SourceId) :
    (r.register path).1.usageCount id = r.usageCount id := by
  unfold register
  split
  case h_1 => rfl
  case h_2 =>
    rcases Nat.lt_trichotomy id.index r.entries.length with h | h | h
    · simp [usageCount, List.getElem?_append_left h]
    · simp [usageCount, h]
    · rw [usageCount, usageCount, List.getElem?_eq_none (by simp; omega),
        List.getElem?_eq_none h.le]

@[simp] theorem paths_addUse (r : Registry) (id : SourceId) : (r.addUse id).paths = r.paths := by
  apply List.ext_getElem? fun i => ?_
  simp only [paths, addUse, List.getElem?_map, List.getElem?_modify]
  split <;> cases r.entries[i]? <;> rfl

theorem usageCount_addUse {r : Registry} {id : SourceId} (h : id.index < r.size) (j : SourceId) :
    (r.addUse id).usageCount j = r.usageCount j + if j = id then 1 else 0 := by
  obtain ⟨i⟩ := id
  obtain ⟨j⟩ := j
  simp only [usageCount, addUse, List.getElem?_modify, SourceId.mk.injEq]
  by_cases hij : i = j
  · subst hij
    simp [List.getElem?_eq_getElem h]
  · simp [hij, Ne.symm hij]

theorem paths_acquire (r : Registry) (path : String) :
    (r.acquire path).1.paths = if path ∈ r.paths then r.paths else r.paths ++ [path] := by
  rw [acquire, paths_addUse, paths_register]

theorem acquire_id (r : Registry) (path : String) :
    (r.acquire path).2 = ⟨(r.acquire path).1.paths.idxOf path⟩ := by
  rw [acquire, paths_addUse, register_id]

theorem mem_paths_acquire (r : Registry) (path : String) : path ∈ (r.acquire path).1.paths := by
  rw [paths_acquire]
  split <;> simp_all

theorem usageCount_acquire (r : Registry) (path : String) (id : SourceId) :
    (r.acquire path).1.usageCount id =
      r.usageCount id + if id = (r.acquire path).2 then 1 else 0 := by
  have hlt : (r.register path).2.index < (r.register path).1.size := by
    rw [register_id, ← length_paths]
    apply List.idxOf_lt_length_of_mem
    rw [paths_register]
    split <;> simp_all
  rw [acquire, usageCount_addUse hlt, usageCount_register]

variable {r : Registry} {t : Tile} {ts : List Tile} {path : String}

theorem acquireAll_blank (h : t.file = none) :
    r.acquireAll (t :: ts) = ((r.acquireAll ts).1, none :: (r.acquireAll ts).2) := by
  rw [acquireAll, h]

theorem acquireAll_file (h : t.file = some path) :
    r.acquireAll (t :: ts) =
      (((r.acquire path).1.acquireAll ts).1,
        some (r.acquire path).2 :: ((r.acquire path).1.acquireAll ts).2) := by
  rw [acquireAll, h]

theorem nodup_paths_acquire (hr : r.paths.Nodup) (path : String) :
    (r.acquire path).1.paths.Nodup := by
  rw [paths_acquire]
  split
  case isTrue => exact hr
  case isFalse h => simpa [List.nodup_append, hr] using fun p hp => ne_of_mem_of_not_mem hp h

/-- The files of all tiles follow the paths that were there, each where it first appears. -/
theorem paths_acquireAll (hr : r.paths.Nodup) (ts : List Tile) :
    (r.acquireAll ts).1.paths = (r.paths ++ ts.filterMap (·.file)).eraseDups := by
  induction ts generalizing r with
  | nil => simp [acquireAll, List.eraseDups_of_nodup hr]
  | cons t ts ih =>
    cases hf : t.file with
    | none => rw [acquireAll_blank hf, ih hr, List.filterMap_cons_none hf]
    | some path =>
      have hacquire : (r.acquire path).1.paths = (r.paths ++ [path]).eraseDups := by
        rw [paths_acquire, List.eraseDups_concat, List.eraseDups_of_nodup hr]
      rw [acquireAll_file hf, ih (nodup_paths_acquire hr path), hacquire,
        List.eraseDups_eraseDups_append, List.filterMap_cons_some hf]
      simp

theorem paths_prefix_acquire (r : Registry) (path : String) :
    r.paths <+: (r.acquire path).1.paths := by
  rw [paths_acquire]
  split
  case isTrue => exact List.prefix_rfl
  case isFalse => exact List.prefix_append _ _

theorem paths_prefix_acquireAll (r : Registry) (ts : List Tile) :
    r.paths <+: (r.acquireAll ts).1.paths := by
  induction ts generalizing r with
  | nil => exact List.prefix_rfl
  | cons t ts ih =>
    cases hf : t.file with
    | none =>
      rw [acquireAll_blank hf]
      exact ih r
    | some path =>
      rw [acquireAll_file hf]
      exact (paths_prefix_acquire r path).trans (ih _)

theorem size_acquire_le (r : Registry) (path : String) : (r.acquire path).1.size ≤ r.size + 1 := by
  rw [← length_paths, ← length_paths, paths_acquire]
  split
  case isTrue => exact Nat.le_succ _
  case isFalse => rw [List.length_append, List.length_singleton]

theorem size_acquireAll_le (r : Registry) (ts : List Tile) :
    (r.acquireAll ts).1.size ≤ r.size + ts.length := by
  induction ts generalizing r with
  | nil => exact Nat.le_refl _
  | cons t ts ih =>
    rw [List.length_cons]
    cases hf : t.file with
    | none =>
      rw [acquireAll_blank hf]
      exact (ih r).trans (by omega)
    | some path =>
      rw [acquireAll_file hf]
      calc
        ((r.acquire path).1.acquireAll ts).1.size ≤ (r.acquire path).1.size + ts.length := ih _
        _ ≤ r.size + (ts.length + 1) := by
          have := size_acquire_le r path
          omega

theorem acquireAll_ids (r : Registry) (ts : List Tile) :
    (r.acquireAll ts).2 =
      ts.map fun t => t.file.map fun p => ⟨(r.acquireAll ts).1.paths.idxOf p⟩ := by
  induction ts generalizing r with
  | nil => rfl
  | cons t ts ih =>
    cases hf : t.file with
    | none => simp [acquireAll_blank hf, hf, ← ih]
    | some path =>
      obtain ⟨more, hmore⟩ := paths_prefix_acquireAll (r.acquire path).1 ts
      have hid : (r.acquire path).2 =
          ⟨((r.acquire path).1.acquireAll ts).1.paths.idxOf path⟩ := by
        rw [acquire_id, ← hmore, List.idxOf_append_of_mem (mem_paths_acquire r path)]
      simp [acquireAll_file hf, hf, ← ih, ← hid]

theorem mem_paths_acquireAll (r : Registry) (ht : t ∈ ts) (hf : t.file = some path) :
    path ∈ (r.acquireAll ts).1.paths := by
  induction ts generalizing r with
  | nil => simp at ht
  | cons u ts ih =>
    rcases List.mem_cons.mp ht with rfl | ht
    · rw [acquireAll_file hf]
      exact (paths_prefix_acquireAll _ ts).subset (mem_paths_acquire r path)
    · cases hu : u.file with
      | none =>
        rw [acquireAll_blank hu]
        exact ih r ht
      | some other =>
        rw [acquireAll_file hu]
        exact ih _ ht

theorem index_lt_of_mem_acquireAll {id : SourceId} (h : some id ∈ (r.acquireAll ts).2) :
    id.index < (r.acquireAll ts).1.size := by
  rw [acquireAll_ids] at h
  obtain ⟨t, ht, hid⟩ := List.mem_map.mp h
  obtain ⟨path, hf, rfl⟩ := Option.map_eq_some_iff.mp hid
  rw [← length_paths]
  exact List.idxOf_lt_length_of_mem (mem_paths_acquireAll r ht hf)

/-- Every tile counts one use of its file. -/
theorem usageCount_acquireAll (r : Registry) (ts : List Tile) (id : SourceId) :
    (r.acquireAll ts).1.usageCount id =
      r.usageCount id + (r.acquireAll ts).2.count (some id) := by
  induction ts generalizing r with
  | nil => simp [acquireAll]
  | cons t ts ih =>
    cases hf : t.file with
    | none => simp [acquireAll_blank hf, ih]
    | some path =>
      simp only [acquireAll_file hf, ih, usageCount_acquire, List.count_cons, beq_iff_eq,
        Option.some.injEq]
      by_cases h : id = (r.acquire path).2
      · simp [h]; omega
      · simp [h, Ne.symm h]

theorem count_idxOf (r : Registry) (ts : List Tile) (file : String) :
    (r.acquireAll ts).2.count (some ⟨(r.acquireAll ts).1.paths.idxOf file⟩) =
      (ts.filterMap (·.file)).count file := by
  rw [acquireAll_ids, List.count_filterMap, List.count, List.countP_map]
  apply List.countP_congr
  intro t ht
  cases hf : t.file with
  | none => simp [hf]
  | some f =>
    have hidx : (r.acquireAll ts).1.paths.idxOf f = (r.acquireAll ts).1.paths.idxOf file ↔
        f = file :=
      List.idxOf_inj (mem_paths_acquireAll r ht hf)
    simp [hf, hidx]

theorem getElem?_entries {i : Nat} {source : Source} (h : r.entries[i]? = some source) :
    r.paths[i]? = some source.path ∧ r.usageCount ⟨i⟩ = source.uses := by
  simp [paths, usageCount, h]

end Montage.Registry
