import Mathlib
import Montage.Proofs.Video.Registration

/-!
The history of a registry that keeps a table of identities beside its entries.  Whatever is
registered, acquired and used, the table and the entries stay each other's inverse, and the registry
is the list of the distinct paths in the order in which they were first named.
-/

namespace Montage.Registry

theorem path?_of_get? {r : Registry} {path : String} {id : SourceId} (h : r.get? path = some id) :
    r.path? id = some path := by
  rw [get?_eq] at h
  split at h
  case isTrue hmem =>
    obtain rfl := Option.some.inj h
    rw [path?_eq_getElem?, List.getElem?_eq_getElem (List.idxOf_lt_length_of_mem hmem),
      List.getElem_idxOf]
  case isFalse => contradiction

theorem get?_eq_some_iff {r : Registry} (hr : r.paths.Nodup) {path : String} {id : SourceId} :
    r.get? path = some id ↔ r.path? id = some path := by
  refine ⟨path?_of_get?, fun h => ?_⟩
  rw [path?_eq_getElem?] at h
  obtain ⟨hlt, rfl⟩ := List.getElem?_eq_some_iff.mp h
  rw [get?_eq, if_pos (List.getElem_mem hlt), hr.idxOf_getElem]

theorem get?_eq_none_iff {r : Registry} {path : String} : r.get? path = none ↔ path ∉ r.paths := by
  rw [get?_eq]
  split <;> simp_all

theorem path?_eq_none_iff {r : Registry} {id : SourceId} :
    r.path? id = none ↔ r.size ≤ id.index := by
  rw [path?_eq_getElem?, List.getElem?_eq_none_iff, length_paths]

theorem usageCount_of_le {r : Registry} {id : SourceId} (h : r.size ≤ id.index) :
    r.usageCount id = 0 := by
  rw [usageCount, List.getElem?_eq_none h]
  rfl

theorem addUse_of_le {r : Registry} {id : SourceId} (h : r.size ≤ id.index) : r.addUse id = r := by
  rw [addUse, List.modify_eq_self h]

@[simp] theorem path?_addUse (r : Registry) (id other : SourceId) :
    (r.addUse id).path? other = r.path? other := by
  rw [path?_eq_getElem?, path?_eq_getElem?, paths_addUse]

@[simp] theorem get?_addUse (r : Registry) (id : SourceId) (path : String) :
    (r.addUse id).get? path = r.get? path := by
  rw [get?_eq, get?_eq, paths_addUse]

/-- A path that is registered belongs to its identity, and no other identity changes hands. -/
theorem path?_register (r : Registry) (path : String) (id : SourceId) :
    (r.register path).1.path? id =
      if id = (r.register path).2 then some path else r.path? id := by
  unfold register
  cases hget : r.get? path with
  | some known =>
    by_cases heq : id = known
    · simp only [heq, if_true, path?_of_get? hget]
    · simp only [heq, if_false]
  | none =>
    obtain ⟨i⟩ := id
    simp only [path?, SourceId.mk.injEq]
    rcases Nat.lt_trichotomy i r.entries.length with hlt | rfl | hgt
    · rw [if_neg hlt.ne, List.getElem?_append_left hlt]
    · simp
    · rw [if_neg hgt.ne', List.getElem?_eq_none (by simpa using hgt),
        List.getElem?_eq_none hgt.le]

/-- A path that is registered is found under its identity, and all others as before. -/
theorem get?_register (r : Registry) (path other : String) :
    (r.register path).1.get? other =
      if other = path then some (r.register path).2 else r.get? other := by
  unfold register
  cases hget : r.get? path with
  | some known =>
    by_cases hother : other = path
    · simp only [hother, hget, if_true]
    · simp only [hother, if_false]
  | none =>
    have hnew : r.entries.findIdx? (·.path == path) = none := Option.map_eq_none_iff.mp hget
    simp only [get?, List.findIdx?_append, List.findIdx?_singleton]
    by_cases hother : other = path
    · simp [hother, hnew]
    · simp [hother, Ne.symm hother]

/-- The path that a call asks an identity for. -/
def Call.path? : Call → Option String
  | .register path => some path
  | .addUse _ => none
  | .acquire path => some path

/-- A path keeps its identity. -/
theorem get?_perform {r : Registry} {path : String} {id : SourceId} (h : r.get? path = some id)
    (c : Call) : (r.perform c).get? path = some id := by
  have hregister (other : String) : (r.register other).1.get? path = some id := by
    rw [get?_register]
    split
    case isTrue hother => rw [register, ← hother, h]
    case isFalse => exact h
  cases c with
  | register other => exact hregister other
  | addUse other => rwa [perform, get?_addUse]
  | acquire other => rw [perform, acquire, get?_addUse, hregister]

theorem get?_perform_of_path? (r : Registry) {c : Call} {path : String}
    (h : c.path? = some path) : (r.perform c).get? path = some (r.register path).2 := by
  cases c with
  | addUse => contradiction
  | register other =>
    obtain rfl := Option.some.inj h
    rw [perform, get?_register, if_pos rfl]
  | acquire other =>
    obtain rfl := Option.some.inj h
    rw [perform, acquire, get?_addUse, get?_register, if_pos rfl]

theorem get?_run {r : Registry} {path : String} {id : SourceId} (h : r.get? path = some id)
    (calls : List Call) : (r.run calls).get? path = some id := by
  induction calls generalizing r with
  | nil => exact h
  | cons c _ ih => exact ih (get?_perform h c)

theorem run_append (r : Registry) (calls more : List Call) :
    r.run (calls ++ more) = (r.run calls).run more := by
  induction calls generalizing r with
  | nil => rfl
  | cons _ _ ih => exact ih _

theorem run_concat (r : Registry) (calls : List Call) (c : Call) :
    r.run (calls ++ [c]) = (r.run calls).perform c := run_append r calls [c]

/-! ## What a history says -/

def named (calls : List Call) : List String := calls.filterMap Call.path?

theorem exists_of_mem_named {calls : List Call} {path : String} (h : path ∈ named calls) :
    ∃ i : Nat, calls[i]?.bind Call.path? = some path := by
  obtain ⟨c, hc, hpath⟩ := List.mem_filterMap.mp h
  obtain ⟨i, hi⟩ := List.mem_iff_getElem?.mp hc
  exact ⟨i, by rw [hi, Option.bind_some, hpath]⟩

def acquisitions (calls : List Call) (path : String) : Nat :=
  calls.countP fun
    | .acquire other => other = path
    | _ => false

/-- The uses that were added to an identity when enough paths had been named for it to exist. -/
def additions (calls : List Call) (id : SourceId) : Nat :=
  calls.zipIdx.countP fun
    | (.addUse other, i) => other = id ∧ id.index < (named (calls.take i)).eraseDups.length
    | _ => false

theorem paths_run (calls : List Call) : (empty.run calls).paths = (named calls).eraseDups := by
  induction calls using List.reverseRecOn with
  | nil => rfl
  | append_singleton calls c ih =>
    rw [run_concat, named, List.filterMap_append, ← named]
    cases c with
    | register path =>
      change ((empty.run calls).register path).1.paths = (named calls ++ [path]).eraseDups
      rw [paths_register, List.eraseDups_concat, ih]
      simp
    | addUse id =>
      change ((empty.run calls).addUse id).paths = (named calls ++ []).eraseDups
      rw [paths_addUse, List.append_nil, ih]
    | acquire path =>
      change ((empty.run calls).acquire path).1.paths = (named calls ++ [path]).eraseDups
      rw [paths_acquire, List.eraseDups_concat, ih]
      simp

theorem nodup_run (calls : List Call) : (empty.run calls).paths.Nodup := by
  rw [paths_run]
  exact List.nodup_eraseDups _

theorem size_run (calls : List Call) : (empty.run calls).size = (named calls).eraseDups.length := by
  rw [← paths_run, length_paths]

theorem mem_paths_run {calls : List Call} {path : String} :
    path ∈ (empty.run calls).paths ↔ path ∈ named calls := by
  rw [paths_run, List.mem_eraseDups]

theorem acquisitions_eq_zero {calls : List Call} {path : String} (h : path ∉ named calls) :
    acquisitions calls path = 0 := by
  rw [acquisitions, List.countP_eq_zero]
  intro c hc
  cases c with
  | register | addUse => simp
  | acquire other =>
    have hne : other ≠ path := fun heq => h (List.mem_filterMap.mpr ⟨_, hc, by rw [heq]; rfl⟩)
    simpa using hne

theorem additions_concat (calls : List Call) (c : Call) (id : SourceId) :
    additions (calls ++ [c]) id = additions calls id +
      match c with
      | .addUse other => if other = id ∧ id.index < (named calls).eraseDups.length then 1 else 0
      | _ => 0 := by
  unfold additions
  rw [List.zipIdx_append, List.countP_append]
  congr 1
  · refine List.countP_congr fun ⟨c', i⟩ hp => ?_
    cases c' with
    | register | acquire => rfl
    | addUse =>
      dsimp only
      rw [List.take_append_of_le_length (List.snd_lt_of_mem_zipIdx hp).le]
  · cases c with
    | register | acquire => rfl
    | addUse other => simp [List.countP_singleton]

theorem acquisitions_concat (calls : List Call) (c : Call) (path : String) :
    acquisitions (calls ++ [c]) path = acquisitions calls path +
      match c with
      | .acquire other => if other = path then 1 else 0
      | _ => 0 := by
  unfold acquisitions
  rw [List.countP_append, List.countP_singleton]
  cases c with
  | register | addUse => rfl
  | acquire => simp

/-- The identity that a path is registered under was the one of the path, or it was nobody's. -/
theorem path?_register_id (r : Registry) (path : String) :
    r.path? (r.register path).2 = some path ∨
      r.path? (r.register path).2 = none ∧ path ∉ r.paths := by
  unfold register
  cases hget : r.get? path with
  | some known => exact .inl (path?_of_get? hget)
  | none => exact .inr ⟨path?_eq_none_iff.mpr (Nat.le_refl _), get?_eq_none_iff.mp hget⟩

/-- To register a path acquires nothing. -/
theorem acquisitions_register (calls : List Call) (path : String) (id : SourceId) :
    (((empty.run calls).register path).1.path? id).elim 0 (acquisitions calls) =
      ((empty.run calls).path? id).elim 0 (acquisitions calls) := by
  rw [path?_register]
  split
  case isTrue hid =>
    subst hid
    rcases path?_register_id (empty.run calls) path with hpath | ⟨hnone, hnew⟩
    · rw [hpath]
    · rw [hnone]
      exact acquisitions_eq_zero (mt mem_paths_run.mpr hnew)
  case isFalse => rfl

/-- Every identity counts how often its path was acquired and how often a use was added to it. -/
theorem usageCount_run (calls : List Call) (id : SourceId) :
    (empty.run calls).usageCount id =
      ((empty.run calls).path? id).elim 0 (acquisitions calls) + additions calls id := by
  induction calls using List.reverseRecOn with
  | nil => rfl
  | append_singleton calls c ih =>
    have hsame (o : Option String) (hc : ∀ path ∈ o, c ≠ .acquire path) :
        o.elim 0 (acquisitions (calls ++ [c])) = o.elim 0 (acquisitions calls) := by
      cases o with
      | none => rfl
      | some path => cases c <;> simp_all [acquisitions_concat]
    rw [run_concat, additions_concat]
    cases c with
    | register path =>
      rw [perform, usageCount_register, ih, hsame _ (by simp), acquisitions_register, Nat.add_zero]
    | addUse other =>
      rw [perform, path?_addUse, hsame _ (by simp), ← size_run]
      by_cases hlt : other.index < (empty.run calls).size
      · rw [usageCount_addUse hlt, ih, Nat.add_assoc]
        congr 2
        by_cases heq : id = other
        · simp [heq, hlt]
        · simp [heq, Ne.symm heq]
      · have hnot : ¬(other = id ∧ id.index < (empty.run calls).size) := fun h => hlt (h.1 ▸ h.2)
        simp only [addUse_of_le (Nat.not_lt.mp hlt), ih, if_neg hnot, Nat.add_zero]
    | acquire path =>
      rw [perform, usageCount_acquire, ih, Nat.add_zero, ← acquisitions_register calls path,
        acquire, path?_addUse, path?_register, Nat.add_right_comm]
      congr 1
      by_cases hid : id = ((empty.run calls).register path).2
      · simp [hid, acquisitions_concat]
      · rw [if_neg hid, if_neg hid]
        refine (hsame _ fun other hother heq => hid ?_).symm
        obtain rfl := Call.acquire.inj heq
        rw [register, (get?_eq_some_iff (nodup_run calls)).mpr hother]

/-! ## A registry with a table -/

/-- A registry that looks identities up in a table instead of searching its entries. -/
structure Indexed extends Registry where
  table : Std.HashMap String SourceId

namespace Indexed

def empty : Indexed := ⟨.empty, ∅⟩

def get? (x : Indexed) (path : String) : Option SourceId := x.table[path]?

def register (x : Indexed) (path : String) : Indexed × SourceId :=
  match x.get? path with
  | some id => (x, id)
  | none =>
    let id := ⟨x.entries.length⟩
    (⟨⟨x.entries ++ [⟨path, 0⟩]⟩, x.table.insert path id⟩, id)

def addUse (x : Indexed) (id : SourceId) : Indexed := { x with toRegistry := x.toRegistry.addUse id }

def acquire (x : Indexed) (path : String) : Indexed × SourceId :=
  let (x, id) := x.register path
  (x.addUse id, id)

/-- What a call leaves, and the identity that it is answered with. -/
def perform (x : Indexed) : Call → Indexed × Option SourceId
  | .register path => ((x.register path).1, (x.register path).2)
  | .addUse id => (x.addUse id, none)
  | .acquire path => ((x.acquire path).1, (x.acquire path).2)

def run (x : Indexed) (calls : List Call) : Indexed := calls.foldl (fun x c => (x.perform c).1) x

/-- The identity that a call of a history is answered with. -/
def answer? (calls : List Call) (i : Nat) : Option SourceId :=
  calls[i]?.bind fun c => ((empty.run (calls.take i)).perform c).2

/-- The table finds what a search of the entries finds. -/
def Agrees (x : Indexed) : Prop := ∀ path, x.get? path = x.toRegistry.get? path

variable {x : Indexed}

theorem agrees_empty : empty.Agrees := fun _ => Std.HashMap.getElem?_empty

theorem Agrees.addUse (h : x.Agrees) (id : SourceId) : (x.addUse id).Agrees := by
  intro path
  rw [Indexed.addUse, get?_addUse]
  exact h path

/-- To register by the table is to register by the entries. -/
theorem Agrees.register_eq (h : x.Agrees) (path : String) :
    (x.register path).1.toRegistry = (x.toRegistry.register path).1 ∧
      (x.register path).2 = (x.toRegistry.register path).2 := by
  unfold Indexed.register Registry.register
  rw [← h path]
  cases x.get? path with
  | some known => exact ⟨rfl, rfl⟩
  | none => exact ⟨rfl, rfl⟩

theorem Agrees.register (h : x.Agrees) (path : String) : (x.register path).1.Agrees := by
  intro other
  obtain ⟨hregistry, hid⟩ := h.register_eq path
  rw [hregistry, get?_register, ← hid, ← h other]
  unfold Indexed.register
  cases hget : x.get? path with
  | some known =>
    by_cases hother : other = path
    · simp only [hother, hget, if_true]
    · simp only [hother, if_false]
  | none =>
    by_cases hother : other = path
    · simp [Indexed.get?, hother]
    · simp [Indexed.get?, Std.HashMap.getElem?_insert, hother, Ne.symm hother]

theorem Agrees.perform (h : x.Agrees) (c : Call) :
    (x.perform c).1.Agrees ∧ (x.perform c).1.toRegistry = x.toRegistry.perform c := by
  cases c with
  | register path => exact ⟨h.register path, (h.register_eq path).1⟩
  | addUse id => exact ⟨h.addUse id, rfl⟩
  | acquire path =>
    obtain ⟨hregistry, hid⟩ := h.register_eq path
    refine ⟨(h.register path).addUse _, ?_⟩
    change (x.register path).1.toRegistry.addUse (x.register path).2 =
      (x.toRegistry.register path).1.addUse (x.toRegistry.register path).2
    rw [hregistry, hid]

/-- A call that names a path is answered with the identity that the path is registered under. -/
theorem Agrees.answer (h : x.Agrees) {c : Call} {path : String} (hc : c.path? = some path) :
    (x.perform c).2 = some (x.toRegistry.register path).2 := by
  cases c with
  | addUse => contradiction
  | register other | acquire other =>
    obtain rfl := Option.some.inj hc
    rw [← (h.register_eq other).2]
    rfl

theorem agrees_run (calls : List Call) :
    (empty.run calls).Agrees ∧ (empty.run calls).toRegistry = Registry.empty.run calls := by
  induction calls using List.reverseRecOn with
  | nil => exact ⟨agrees_empty, rfl⟩
  | append_singleton calls c ih =>
    obtain ⟨hagrees, hregistry⟩ := ih.1.perform c
    rw [Registry.run_concat, ← ih.2, ← hregistry, run, List.foldl_concat, ← run]
    exact ⟨hagrees, rfl⟩

/-- Every call that names a path is answered with the identity under which the path is found in
the end. -/
theorem exists_answer? {calls : List Call} {i : Nat} {path : String}
    (h : calls[i]?.bind Call.path? = some path) :
    ∃ id, answer? calls i = some id ∧ (Registry.empty.run calls).get? path = some id := by
  obtain ⟨c, hc, hpath⟩ := Option.bind_eq_some_iff.mp h
  obtain ⟨hagrees, hregistry⟩ := agrees_run (calls.take i)
  refine ⟨_, by rw [answer?, hc, Option.bind_some, hagrees.answer hpath], ?_⟩
  obtain ⟨hlt, rfl⟩ := List.getElem?_eq_some_iff.mp hc
  have hsplit : calls = calls.take i ++ calls[i] :: calls.drop (i + 1) := by
    rw [← List.drop_eq_getElem_cons hlt, List.take_append_drop]
  have hfound := get?_run (get?_perform_of_path? (Registry.empty.run (calls.take i)) hpath)
    (calls.drop (i + 1))
  rw [hregistry]
  rwa [← Registry.run, ← run_append, ← hsplit] at hfound

/-- An identity that has a path was handed out. -/
theorem exists_answer?_of_path? {calls : List Call} {id : SourceId} {path : String}
    (h : (Registry.empty.run calls).path? id = some path) : ∃ i, answer? calls i = some id := by
  have hmem : path ∈ (Registry.empty.run calls).paths := by
    rw [path?_eq_getElem?] at h
    exact List.mem_of_getElem? h
  obtain ⟨i, hi⟩ := exists_of_mem_named (mem_paths_run.mp hmem)
  obtain ⟨id', hanswer, hget⟩ := exists_answer? hi
  rw [(get?_eq_some_iff (nodup_run calls)).mpr h] at hget
  exact ⟨i, hget ▸ hanswer⟩

/-- Two calls are answered alike just when they name one path. -/
theorem answer?_eq_iff {calls : List Call} {i j : Nat} {path other : String}
    (hi : calls[i]?.bind Call.path? = some path) (hj : calls[j]?.bind Call.path? = some other) :
    answer? calls i = answer? calls j ↔ path = other := by
  obtain ⟨id, hid, hpath⟩ := exists_answer? hi
  obtain ⟨id', hid', hother⟩ := exists_answer? hj
  rw [hid, hid', Option.some.injEq]
  constructor
  · rintro rfl
    rw [get?_eq_some_iff (nodup_run calls)] at hpath hother
    exact Option.some.inj (hpath.symm.trans hother)
  · rintro rfl
    exact Option.some.inj (hpath.symm.trans hother)

/-- What is left of a history in the registry. -/
structure Records (calls : List Call) (x : Indexed) : Prop where
  /-- The table changes nothing. -/
  toRegistry_eq : x.toRegistry = Registry.empty.run calls
  paths_eq : x.paths = (named calls).eraseDups
  size_eq : x.size = (named calls).toFinset.card
  /-- The table and the entries are each other's inverse. -/
  get?_iff : ∀ path id, x.get? path = some id ↔ x.path? id = some path
  get?_none : ∀ path, x.get? path = none ↔ path ∉ named calls
  /-- Whoever names a path is answered with one identity, at any time. -/
  answered : ∀ i path, calls[i]?.bind Call.path? = some path →
    ∃ id, answer? calls i = some id ∧ x.get? path = some id
  answer?_inj : ∀ i j path other, calls[i]?.bind Call.path? = some path →
    calls[j]?.bind Call.path? = some other → (answer? calls i = answer? calls j ↔ path = other)
  usageCount_eq : ∀ id path, x.path? id = some path →
    x.usageCount id = acquisitions calls path + additions calls id
  usageCount_zero : ∀ id, (∀ i, answer? calls i ≠ some id) → x.usageCount id = 0

theorem records_run (calls : List Call) : Records calls (empty.run calls) := by
  obtain ⟨hagrees, hregistry⟩ := agrees_run calls
  have hget? (path : String) : (empty.run calls).get? path = (Registry.empty.run calls).get? path :=
    hregistry ▸ hagrees path
  have hnodup := nodup_run calls
  constructor
  · exact hregistry
  · rw [hregistry, paths_run]
  · rw [hregistry, size_run, ← List.toFinset_card_of_nodup (List.nodup_eraseDups _)]
    congr 1
    ext path
    simp
  · intro path id
    rw [hget?, hregistry, get?_eq_some_iff hnodup]
  · intro path
    rw [hget?, get?_eq_none_iff, mem_paths_run]
  · intro i path hi
    simpa only [hget?] using exists_answer? hi
  · intro i j path other
    exact answer?_eq_iff
  · intro id path hpath
    rw [hregistry] at hpath ⊢
    rw [usageCount_run, hpath, Option.elim_some]
  · intro id hnever
    rw [hregistry]
    refine usageCount_of_le (path?_eq_none_iff.mp ?_)
    by_contra hne
    obtain ⟨path, hpath⟩ := Option.ne_none_iff_exists'.mp hne
    obtain ⟨i, hi⟩ := exists_answer?_of_path? hpath
    exact hnever i hi

end Indexed

end Montage.Registry
