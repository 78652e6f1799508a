import Mathlib
import Montage.FileTree
import Montage.Proofs.Verdict

/-!
What the operations on a file tree leave alone.  To make directories and to remove what is there
adds no file, and in a tree where everything stands in a directory a path that does not go up names
a place that its text alone tells.
-/

namespace Montage

/-- The place of a path that does not go up, seen from a working directory. -/
def Path.place (dir : Place) (path : String) : Place :=
  (if isAbsolute path then [] else dir) ++ (names path).filter (· ≠ ".")

/-- The place that names lead to where all on the way are directories. -/
def Path.follow (start : Place) : List String → Place
  | [] => start
  | name :: rest =>
    if name = "." then follow start rest
    else if name = ".." then follow start.dropLast rest
    else follow (start ++ [name]) rest

/-- The place of a path that leads anywhere, seen from a working directory. -/
def Path.target (dir : Place) (path : String) : Place :=
  follow (if isAbsolute path then [] else dir) (names path)

theorem Path.follow_eq {start : Place} {names : List String} (hup : ".." ∉ names) :
    follow start names = start ++ names.filter (· ≠ ".") := by
  induction names generalizing start with
  | nil => simp [follow]
  | cons name rest ih =>
    rw [List.mem_cons, not_or] at hup
    rw [follow]
    split
    case isTrue hdot => simp [hdot, ih hup.2]
    case isFalse hdot => simp [hdot, Ne.symm hup.1, ih hup.2]

theorem Path.target_eq_place {dir : Place} {path : String} (hup : ".." ∉ names path) :
    target dir path = place dir path :=
  follow_eq hup

theorem lookup_filter_fst {α β : Type} [BEq α] [LawfulBEq α] (p : α → Bool) (xs : List (α × β))
    (a : α) : (xs.filter fun x => p x.1).lookup a = if p a then xs.lookup a else none := by
  induction xs with
  | nil => simp
  | cons x xs ih =>
    obtain ⟨b, y⟩ := x
    by_cases hab : a = b
    · subst hab
      by_cases hp : p a <;> simp [hp, ih]
    · have hb : (a == b) = false := beq_false_of_ne hab
      by_cases hp : p b <;> simp [hp, hb, ih, List.lookup_cons]

namespace FileTree

variable {t t' : FileTree} {p q dir start : Place} {path : String}

/-- Everything stands in a directory. -/
def Sound (t : FileTree) : Prop := ∀ x ∈ t.entries, t.isDirectory x.1.dropLast

instance : DecidablePred Sound := fun t =>
  inferInstanceAs (Decidable (∀ x ∈ t.entries, t.isDirectory x.1.dropLast))

def IsFile (t : FileTree) (p : Place) : Prop :=
  ∃ content executable, t.entry? p = some (.file content executable)

instance : Decidable (t.IsFile p) :=
  match h : t.entry? p with
  | some (.file content executable) => .isTrue ⟨content, executable, h⟩
  | some .directory => .isFalse fun ⟨_, _, hfile⟩ => by simp [h] at hfile
  | none => .isFalse fun ⟨_, _, hfile⟩ => by simp [h] at hfile

@[simp] theorem entry?_nil (t : FileTree) : t.entry? [] = some .directory := rfl

theorem isDirectory_iff : t.isDirectory p ↔ t.entry? p = some .directory := by
  simp [isDirectory]

theorem entry?_put (t : FileTree) (hp : p ≠ []) (e : Entry) (q : Place) :
    entry? (t.put p e) q = if q = p then some e else t.entry? q := by
  by_cases hq : q = []
  · subst hq
    simp [Ne.symm hp]
  · by_cases hqp : q = p
    · simp [ entry?, put, hqp, hp]
    · have hne : (q == p) = false := beq_false_of_ne hqp
      have hkey := lookup_filter_fst (· != p) t.entries q
      rw [bne, hne, Bool.not_false, if_pos rfl] at hkey
      simpa [ entry?, put, hq, hqp, hne, List.lookup_cons] using hkey

theorem entry?_prune (t : FileTree) (p : Place) (hq : q ≠ []) :
    entry? (t.prune p) q = if p <+: q then none else t.entry? q := by
  have hkey := lookup_filter_fst (fun q => !p.isPrefixOf q) t.entries q
  by_cases hpre : p <+: q
  · rw [List.isPrefixOf_iff_prefix.mpr hpre] at hkey
    simpa [ entry?, prune, hq, hpre] using hkey
  · rw [Bool.eq_false_iff.mpr (mt List.isPrefixOf_iff_prefix.mp hpre)] at hkey
    simpa [ entry?, prune, hq, hpre] using hkey

theorem Sound.isDirectory_dropLast (h : t.Sound) (hp : t.entry? p ≠ none) :
    t.isDirectory p.dropLast := by
  by_cases hnil : p = []
  · subst hnil
    rfl
  · obtain ⟨e, he⟩ := Option.ne_none_iff_exists'.mp hp
    rw [ entry?, if_neg hnil] at he
    obtain ⟨before, after, hentries, -⟩ := List.lookup_eq_some_iff.mp he
    exact h (p, e) (by simp [hentries])

/-- Below a place where nothing is there is nothing. -/
theorem Sound.entry?_append (h : t.Sound) (hp : t.entry? p = none) (names : List String) :
    t.entry? (p ++ names) = none := by
  induction names using List.reverseRecOn with
  | nil => rwa [List.append_nil]
  | append_singleton names name ih =>
    by_contra hne
    have hdir := h.isDirectory_dropLast hne
    rw [← List.append_assoc, List.dropLast_concat, isDirectory_iff, ih] at hdir
    contradiction

/-- What an operation does that adds no file. -/
structure AddsNoFile (t t' : FileTree) : Prop where
  sound : t.Sound → t'.Sound
  isFile : ∀ {p}, t'.IsFile p → t.IsFile p

namespace AddsNoFile

theorem refl (t : FileTree) : t.AddsNoFile t := ⟨id, id⟩

theorem trans {t'' : FileTree} (h : t.AddsNoFile t') (h' : t'.AddsNoFile t'') :
    t.AddsNoFile t'' := ⟨h'.sound ∘ h.sound, h.isFile ∘ h'.isFile⟩

theorem put_directory (hp : t.entry? p = none) (hdir : t.isDirectory p.dropLast) :
    t.AddsNoFile (t.put p .directory) := by
  have hnil : p ≠ [] := by
    rintro rfl
    contradiction
  have hentry := entry?_put t hnil .directory
  have hkeep {q : Place} (hq : t.isDirectory q) : (t.put p .directory).isDirectory q := by
    rw [isDirectory_iff, hentry]
    split
    · rfl
    · exact isDirectory_iff.mp hq
  constructor
  · intro h x hx
    rcases List.mem_cons.mp hx with rfl | hx
    · exact hkeep hdir
    · exact hkeep (h x (List.mem_filter.mp hx).1)
  · rintro q ⟨content, executable, hq⟩
    rw [hentry] at hq
    split at hq
    · simp at hq
    · exact ⟨content, executable, hq⟩

theorem prune (t : FileTree) (p : Place) : t.AddsNoFile (t.prune p) := by
  constructor
  · intro h x hx
    obtain ⟨hx, hpre⟩ := List.mem_filter.mp hx
    by_cases hnil : x.1.dropLast = []
    · rw [hnil]
      rfl
    · have hpre' : ¬p <+: x.1.dropLast := by
        intro hpre'
        have hx := List.isPrefixOf_iff_prefix.mpr (hpre'.trans (List.dropLast_prefix x.1))
        rw [hx] at hpre
        contradiction
      rw [isDirectory_iff, entry?_prune t p hnil, if_neg hpre']
      exact isDirectory_iff.mp (h x hx)
  · rintro q ⟨content, executable, hq⟩
    by_cases hnil : q = []
    · subst hnil
      simp at hq
    · rw [entry?_prune t p hnil] at hq
      split at hq
      · contradiction
      · exact ⟨content, executable, hq⟩

theorem makeWay {names : List String} (h : t.makeWay start names = .ok t') : t.AddsNoFile t' := by
  induction names generalizing t start with
  | nil =>
    obtain rfl := Except.ok.inj h
    exact .refl t
  | cons name rest ih =>
    rw [FileTree.makeWay] at h
    split at h
    · exact ih h
    split at h
    · exact ih h
    · dsimp only at h
      split at h
      case h_1 => exact ih h
      case h_2 hnone =>
        split at h
        case isTrue hdir =>
          refine (put_directory hnone ?_).trans (ih h)
          rwa [List.dropLast_concat]
        case isFalse => contradiction
      case h_3 => contradiction

theorem makeDirectories (h : t.makeDirectories dir path = .ok t') : t.AddsNoFile t' := by
  obtain ⟨start, -, hway⟩ := bind_eq_ok_iff.mp h
  exact makeWay hway

end AddsNoFile

/-- What is removed was where its path leads to. -/
theorem exists_of_removeFile (h : t.removeFile dir path = .ok t') :
    ∃ p, t.locate dir path = .ok p ∧ t' = t.prune p := by
  obtain ⟨p, hp, h⟩ := bind_eq_ok_iff.mp h
  split at h
  case h_3 => exact ⟨p, hp, (Except.ok.inj h).symm⟩
  all_goals contradiction

theorem exists_of_removeTree (h : t.removeTree dir path = .ok t') :
    ∃ p, t.locate dir path = .ok p ∧ t' = t.prune p := by
  obtain ⟨p, hp, h⟩ := bind_eq_ok_iff.mp h
  split at h
  case h_3 => exact ⟨p, hp, (Except.ok.inj h).symm⟩
  all_goals contradiction

theorem AddsNoFile.removeFile (h : t.removeFile dir path = .ok t') : t.AddsNoFile t' := by
  obtain ⟨p, -, rfl⟩ := exists_of_removeFile h
  exact .prune t p

theorem AddsNoFile.removeTree (h : t.removeTree dir path = .ok t') : t.AddsNoFile t' := by
  obtain ⟨p, -, rfl⟩ := exists_of_removeTree h
  exact .prune t p

theorem walk_eq_follow {names : List String} (h : t.walk start names = .ok p) :
    p = Path.follow start names := by
  induction names generalizing start with
  | nil => exact (Except.ok.inj h).symm
  | cons name rest ih =>
    rw [walk] at h
    rw [Path.follow]
    split at h
    · contradiction
    · contradiction
    · split at h
      case isTrue hdot => rw [if_pos hdot, ih h]
      case isFalse hdot =>
        rw [if_neg hdot]
        split at h
        case isTrue hup => rw [if_pos hup, ih h]
        case isFalse hup => rw [if_neg hup, ih h]

theorem Sound.entry?_of_walk (ht : t.Sound) {names : List String} (hup : ".." ∉ names)
    (h : t.walk start names = .error .notFound) :
    t.entry? (start ++ names.filter (· ≠ ".")) = none := by
  induction names generalizing start with
  | nil => contradiction
  | cons name rest ih =>
    rw [List.mem_cons, not_or] at hup
    rw [walk] at h
    split at h
    case h_1 hnone => exact ht.entry?_append hnone _
    case h_2 => contradiction
    case h_3 =>
      split at h
      case isTrue hdot => simpa [hdot] using ih hup.2 h
      case isFalse hdot =>
        rw [if_neg (Ne.symm hup.1)] at h
        simpa [hdot] using ih hup.2 h

/-- No empty path leads anywhere, and none with a zero byte; of the others the names are walked. -/
theorem locate_cases (t : FileTree) (dir : Place) (path : String) :
    (path = "" ∧ t.locate dir path = .error .notFound) ∨ t.locate dir path = .error .zeroInPath ∨
      t.locate dir path =
        (t.walk (if Path.isAbsolute path then [] else dir) (Path.names path) >>= fun p =>
          match t.entry? p with
          | some (.file ..) => if Path.endsInSlash path then .error .notDirectory else .ok p
          | _ => .ok p) := by
  by_cases hpath : path = ""
  · subst hpath
    exact .inl ⟨rfl, rfl⟩
  · have hempty : path.isEmpty = false := by simp [hpath]
    unfold locate startOf
    rw [hempty]
    by_cases hzero : Path.hasZero path
    · rw [hzero]
      exact .inr (.inl rfl)
    · rw [Bool.not_eq_true] at hzero
      rw [hzero]
      exact .inr (.inr rfl)

/-- A path that leads anywhere leads to its target. -/
theorem locate_eq_target (h : t.locate dir path = .ok p) : p = Path.target dir path := by
  rcases locate_cases t dir path with ⟨-, hcase⟩ | hcase | hcase <;> rw [hcase] at h
  · contradiction
  · contradiction
  · obtain ⟨q, hq, h⟩ := bind_eq_ok_iff.mp h
    have hqp : q = p := by
      split at h
      · split at h
        · contradiction
        · exact Except.ok.inj h
      · exact Except.ok.inj h
    exact hqp ▸ walk_eq_follow hq

/-- A path that does not go up leads to its own place, if it leads anywhere. -/
theorem locate_eq_ok (hup : ".." ∉ Path.names path) (h : t.locate dir path = .ok p) :
    p = Path.place dir path :=
  (locate_eq_target h).trans (Path.target_eq_place hup)

theorem Sound.entry?_of_locate (ht : t.Sound) (hup : ".." ∉ Path.names path) (hpath : path ≠ "")
    (h : t.locate dir path = .error .notFound) : t.entry? (Path.place dir path) = none := by
  rcases locate_cases t dir path with ⟨hnil, -⟩ | hcase | hcase
  · contradiction
  · rw [hcase] at h
    contradiction
  · rw [hcase] at h
    cases hwalk : t.walk (if Path.isAbsolute path then [] else dir) (Path.names path) with
    | error error =>
      rw [hwalk] at h
      obtain rfl := Except.error.inj h
      exact ht.entry?_of_walk hup hwalk
    | ok q =>
      rw [hwalk, ok_bind] at h
      split at h
      · split at h <;> contradiction
      · contradiction

theorem Sound.entry?_of_pathExists (ht : t.Sound) (hup : ".." ∉ Path.names path)
    (hpath : path ≠ "") (h : t.pathExists dir path = .ok false) :
    t.entry? (Path.place dir path) = none := by
  unfold pathExists at h
  split at h
  case h_1 p hp =>
    rw [← locate_eq_ok hup hp]
    simpa using h
  case h_2 hnone => exact ht.entry?_of_locate hup hpath hnone
  case h_3 => contradiction

/-- A file is gone when it is removed. -/
theorem not_isFile_of_removeFile (hup : ".." ∉ Path.names path)
    (h : t.removeFile dir path = .ok t') : ¬t'.IsFile (Path.place dir path) := by
  obtain ⟨p, hp, rfl⟩ := exists_of_removeFile h
  rw [← locate_eq_ok hup hp]
  rintro ⟨content, executable, hfile⟩
  by_cases hnil : p = []
  · subst hnil
    simp at hfile
  · rw [entry?_prune t p hnil, if_pos (List.prefix_refl p)] at hfile
    contradiction

section Directories

/-- There is nothing in the directory at a place. -/
def Vacant (t : FileTree) (p : Place) : Prop :=
  ∀ (name : String) (rest : List String), t.entry? (p ++ name :: rest) = none

/-- Two trees have the same at a place and below it. -/
def SameBelow (p : Place) (t t' : FileTree) : Prop :=
  ∀ names : List String, t'.entry? (p ++ names) = t.entry? (p ++ names)

theorem SameBelow.refl (p : Place) (t : FileTree) : SameBelow p t t := fun _ => rfl

theorem SameBelow.vacant (h : SameBelow p t t') (ht : t.Vacant p) : t'.Vacant p :=
  fun name rest => (h (name :: rest)).trans (ht name rest)

/-- To make way puts directories on the way and leaves the rest. -/
theorem entry?_makeWay {names : List String} (hup : ".." ∉ names)
    (h : t.makeWay start names = .ok t') (hq : ¬q <+: start ++ names.filter (· ≠ ".")) :
    t'.entry? q = t.entry? q := by
  induction names generalizing t start with
  | nil => rw [Except.ok.inj h]
  | cons name rest ih =>
    rw [List.mem_cons, not_or] at hup
    rw [makeWay] at h
    split at h
    case isTrue hdot => exact ih hup.2 h (by simpa [hdot] using hq)
    case isFalse hdot =>
      rw [if_neg (Ne.symm hup.1)] at h
      have hway : start ++ (name :: rest).filter (· ≠ ".") =
          start ++ [name] ++ rest.filter (· ≠ ".") := by simp [hdot]
      rw [hway] at hq
      dsimp only at h
      split at h
      case h_1 => exact ih hup.2 h hq
      case h_2 =>
        split at h
        case isTrue =>
          have hne : q ≠ start ++ [name] := by
            rintro rfl
            exact hq (List.prefix_append ..)
          rw [ih hup.2 h hq, entry?_put t (by simp), if_neg hne]
        case isFalse => contradiction
      case h_3 => contradiction

/-- Making a directory puts nothing in it. -/
theorem Vacant.makeDirectories (ht : t.Vacant (Path.place dir path))
    (hup : ".." ∉ Path.names path) (h : t.makeDirectories dir path = .ok t') :
    t'.Vacant (Path.place dir path) := by
  obtain ⟨start, hstart, hway⟩ := bind_eq_ok_iff.mp h
  intro name rest
  have hplace : start ++ (Path.names path).filter (· ≠ ".") = Path.place dir path := by
    unfold startOf at hstart
    split at hstart
    · contradiction
    · rw [← Except.ok.inj hstart, Path.place]
  rw [entry?_makeWay hup hway, ht name rest]
  rw [hplace]
  intro hpre
  have hlength := hpre.length_le
  simp at hlength

/-- Where a path leads nowhere there is nothing below its place. -/
theorem Sound.vacant (ht : t.Sound) (hup : ".." ∉ Path.names path) (hpath : path ≠ "")
    (h : t.pathExists dir path = .ok false) : t.Vacant (Path.place dir path) :=
  fun _ _ => ht.entry?_append (ht.entry?_of_pathExists hup hpath h) _

/-- What is removed takes everything below it along. -/
theorem vacant_of_removeTree (h : t.removeTree dir path = .ok t') :
    t'.Vacant (Path.target dir path) := by
  obtain ⟨p, hp, rfl⟩ := exists_of_removeTree h
  intro name rest
  rw [← locate_eq_target hp, entry?_prune t p (by simp), if_pos (List.prefix_append ..)]

theorem entry?_ne_none_of_mem (hq : q ≠ []) (h : q ∈ t.entries.map (·.1)) : t.entry? q ≠ none := by
  rw [ entry?, if_neg hq, ne_eq, List.lookup_eq_none_iff]
  obtain ⟨x, hx, rfl⟩ := List.mem_map.mp h
  intro hnone
  simpa using hnone x hx

/-- A still that is listed is in the directory. -/
theorem exists_of_mem_listStills {stills : List String} {still : String}
    (h : t.listStills dir path = .ok stills) (hstill : still ∈ stills) :
    ∃ name, still = Path.join path name ∧ t.entry? (Path.target dir path ++ [name]) ≠ none := by
  obtain ⟨names, hnames, h⟩ := bind_eq_ok_iff.mp h
  obtain rfl := Except.ok.inj h
  obtain ⟨name, hname, rfl⟩ := List.mem_map.mp hstill
  rw [List.mem_mergeSort] at hname
  have hname := (List.mem_filter.mp hname).1
  refine ⟨name, rfl, ?_⟩
  obtain ⟨p, hp, hnames⟩ := bind_eq_ok_iff.mp hnames
  rw [← locate_eq_target hp]
  split at hnames
  case h_3 =>
    obtain rfl := Except.ok.inj hnames
    obtain ⟨⟨q, entry⟩, hentry, hlast⟩ := List.mem_filterMap.mp hname
    split at hlast
    case isTrue hparent =>
      have hq : q = p ++ [name] := by
        rw [← hparent, List.dropLast_append_getLast? name hlast]
      exact entry?_ne_none_of_mem (by simp) (List.mem_map.mpr ⟨_, hentry, hq⟩)
    case isFalse => contradiction
  all_goals contradiction

end Directories

end FileTree

end Montage
