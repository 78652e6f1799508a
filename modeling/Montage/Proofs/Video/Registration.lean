import Mathlib
import Montage.Proofs.Video.Panes
import Montage.Proofs.Video.Stages

/-!
Drawing a picture over a registry that is already in use.  The files of the tiles join the paths
that are there, and the graph is linked exactly when no use was counted before: a use that no tile
stands for is a pad that nobody reads.
-/

namespace Montage

namespace Registry

/-- What can be done to a registry before a picture is drawn over it. -/
inductive Call
  | register (path : String)
  | addUse (id : SourceId)
  | acquire (path : String)

def perform (r : Registry) : Call → Registry
  | .register path => (r.register path).1
  | .addUse id => r.addUse id
  | .acquire path => (r.acquire path).1

def run (r : Registry) : List Call → Registry
  | [] => r
  | c :: calls => (r.perform c).run calls

theorem nodup_paths_register {r : Registry} (hr : r.paths.Nodup) (path : String) :
    (r.register path).1.paths.Nodup := by
  have h := nodup_paths_acquire hr path
  rwa [acquire, paths_addUse] at h

theorem nodup_paths_perform {r : Registry} (hr : r.paths.Nodup) (c : Call) :
    (r.perform c).paths.Nodup := by
  cases c with
  | register path => exact nodup_paths_register hr path
  | addUse id =>
    rw [perform, paths_addUse]
    exact hr
  | acquire path => exact nodup_paths_acquire hr path

theorem nodup_paths_run {r : Registry} (hr : r.paths.Nodup) (calls : List Call) :
    (r.run calls).paths.Nodup := by
  induction calls generalizing r with
  | nil => exact hr
  | cons c calls ih => exact ih (nodup_paths_perform hr c)

/-- What a registry becomes when tiles that show the files `shown` are registered. -/
structure Gains (before : Registry) (shown : List String) (after : Registry) : Prop where
  get?_eq : ∀ path id, before.get? path = some id → after.get? path = some id
  path?_eq : ∀ id path, before.path? id = some path → after.path? id = some path
  paths_eq : after.paths = before.paths ++ (shown.filter (· ∉ before.paths)).eraseDups
  usageCount_eq : ∀ id path, after.path? id = some path →
    after.usageCount id = before.usageCount id + shown.count path

theorem path?_eq_getElem? (r : Registry) (id : SourceId) : r.path? id = r.paths[id.index]? := by
  rw [path?, paths, List.getElem?_map]

theorem gains_acquireAll {r : Registry} (hr : r.paths.Nodup) (ts : List Tile) :
    r.Gains (ts.filterMap (·.file)) (r.acquireAll ts).1 where
  get?_eq path id h := by
    obtain ⟨more, hmore⟩ := paths_prefix_acquireAll r ts
    rw [get?_eq] at h ⊢
    split at h
    case isTrue hmem =>
      rw [← hmore, List.idxOf_append_of_mem hmem, if_pos (List.mem_append_left _ hmem), h]
    case isFalse => contradiction
  path?_eq id path h := by
    rw [path?_eq_getElem?] at h ⊢
    obtain ⟨more, hmore⟩ := paths_prefix_acquireAll r ts
    rw [← hmore, List.getElem?_append_left (List.getElem?_eq_some_iff.mp h).1, h]
  paths_eq := by
    rw [paths_acquireAll hr, List.eraseDups_append, List.eraseDups_of_nodup hr]
    congr 2
    simp [List.removeAll]
  usageCount_eq id path h := by
    have hnodup : (r.acquireAll ts).1.paths.Nodup := by
      rw [paths_acquireAll hr]
      exact List.nodup_eraseDups _
    rw [path?_eq_getElem?] at h
    obtain ⟨hlt, rfl⟩ := List.getElem?_eq_some_iff.mp h
    rw [usageCount_acquireAll, ← count_idxOf r, hnodup.idxOf_getElem]

variable {r : Registry} {ids : List (Option SourceId)}

theorem eq_of_feed_mem_offersOf {before : List (Option SourceId)} {id : Option SourceId}
    {i uses : Nat} (h : r.feed before id ∈ offersOf i uses) : id = some ⟨i⟩ := by
  cases id with
  | none => simp [feed, mem_offersOf] at h
  | some id =>
    obtain ⟨j⟩ := id
    by_cases hj : 1 < r.usageCount ⟨j⟩ <;> simp_all [feed, mem_offersOf]

/-- A registry whose offers are all asked for counts no use beyond the tiles: the last pad of a
source is asked for by the tile that its last use stands for. -/
theorem usageCount_le_count (h : r.offers ⊆ r.feeds ids) (id : SourceId) :
    r.usageCount id ≤ ids.count (some id) := by
  obtain ⟨i⟩ := id
  have hfeed {p : PadName} (hp : p ∈ offersOf i (r.usageCount ⟨i⟩)) :
      ∃ n : Nat, ids[n]? = some (some ⟨i⟩) ∧ r.feed (ids.take n) (some ⟨i⟩) = p := by
    have hlt : i < r.size := by
      by_contra hge
      rw [usageCount, List.getElem?_eq_none (Nat.le_of_not_lt hge)] at hp
      contradiction
    obtain ⟨id, n, hn, rfl⟩ := mem_feeds.mp (h (mem_offers.mpr ⟨i, hlt, hp⟩))
    obtain rfl := eq_of_feed_mem_offersOf hp
    exact ⟨n, hn, rfl⟩
  rcases Nat.lt_trichotomy (r.usageCount ⟨i⟩) 1 with hzero | hone | hmany
  · omega
  · obtain ⟨n, hn, -⟩ := hfeed (mem_offersOf.mpr (.inl ⟨hone, rfl⟩))
    rw [hone]
    exact List.count_pos_iff.mpr (List.mem_of_getElem? hn)
  · obtain ⟨n, hn, hcopy⟩ := hfeed (mem_offersOf.mpr
      (.inr ⟨hmany, r.usageCount ⟨i⟩ - 1, by omega, rfl⟩))
    have hlast := List.count_take_lt_count hn
    rw [feed, if_pos hmany, PadName.copy.injEq] at hcopy
    omega

end Registry

namespace VideoSettings

variable {s : VideoSettings} {r : Registry} {items : List (Tile × Option SourceId)}

theorem mem_feeds_of_mem_consulted {p : PadName} (hp : p.part = .source)
    (h : p.pad ∈ consulted (s.pictureNodes r items)) : p ∈ r.feeds (items.map (·.2)) := by
  cases s.pictureForm r items with
  | lone t id hitems _ hnodes =>
    rw [hnodes, consulted_loneNodes, List.mem_map_of_injective PadName.pad_injective] at h
    rwa [hitems]
  | stack hnodes =>
    rw [hnodes, consulted_stackNodes, List.mem_map_of_injective PadName.pad_injective,
      List.mem_flatMap] at h
    obtain ⟨l, hl, hmem⟩ := h
    rw [← Registry.map_feed_layers]
    simp only [List.mem_append, List.mem_singleton] at hmem
    obtain rfl | rfl | rfl := hmem
    · exact List.mem_map_of_mem hl
    · cases hplace : l.place <;> rw [hplace] at hp <;> contradiction
    · contradiction

/-- In a linked picture every offer of the sources feeds a tile. -/
theorem offers_subset_feeds
    (h : Linked (r.sourceNodes ++ s.pictureNodes r items) [(PadName.finished items.length).pad]) :
    r.offers ⊆ r.feeds (items.map (·.2)) := by
  intro p hp
  have hpart : p.part = .source :=
    Registry.part_of_mem_writtenNames (Registry.offers_subset_writtenNames hp)
  have hread : (r.offers.map PadName.pad ++ written (s.pictureNodes r items)).Perm
      (consulted (s.pictureNodes r items) ++ [(PadName.finished items.length).pad]) := by
    have hpaired := (r.written_sourceNodes_perm.append_right _).symm.trans
      (written_append .. ▸ consulted_append .. ▸ h.paired)
    rwa [List.append_assoc, List.append_assoc, List.perm_append_left_iff] at hpaired
  have hmem := hread.mem_iff.mp (List.mem_append_left _ (List.mem_map_of_mem hp))
  cases List.mem_append.mp hmem with
  | inl hmem => exact mem_feeds_of_mem_consulted hpart hmem
  | inr hmem =>
    rw [List.mem_singleton, PadName.pad_inj] at hmem
    subst hmem
    unfold PadName.finished at hpart
    split at hpart <;> contradiction

end VideoSettings

namespace Registry

theorem usageCount_eq_zero_iff {r : Registry} :
    (∀ id, r.usageCount id = 0) ↔ ∀ source ∈ r.entries, source.uses = 0 := by
  constructor
  · intro h source hsource
    obtain ⟨i, hi⟩ := List.mem_iff_getElem?.mp hsource
    rw [← (getElem?_entries hi).2, h]
  · intro h id
    rw [usageCount]
    cases hget : r.entries[id.index]? with
    | none => rfl
    | some source => exact h source (List.mem_of_getElem? hget)

end Registry

/-- The picture is linked exactly when the tiles are all that the registry counts. -/
theorem VideoSettings.linked_acquireAll_iff (s : VideoSettings) (before : Registry)
    (tiles : List Tile) :
    let (r, ids) := before.acquireAll tiles
    Linked (r.sourceNodes ++ s.pictureNodes r (tiles.zip ids))
        [(PadName.finished tiles.length).pad] ↔
      ∀ source ∈ before.entries, source.uses = 0 := by
  have hlength : (before.acquireAll tiles).2.length = tiles.length := by
    rw [Registry.acquireAll_ids, List.length_map]
  have hids : (tiles.zip (before.acquireAll tiles).2).map (·.2) = (before.acquireAll tiles).2 :=
    List.map_snd_zip hlength.le
  have hzip : tiles.length = (tiles.zip (before.acquireAll tiles).2).length := by
    rw [List.length_zip, hlength, Nat.min_self]
  have husage := before.usageCount_acquireAll tiles
  rw [← Registry.usageCount_eq_zero_iff]
  dsimp only
  rw [hzip]
  constructor
  · intro h id
    have hle := Registry.usageCount_le_count (offers_subset_feeds h) id
    rw [hids, husage] at hle
    omega
  · intro h
    refine linked_picture ⟨fun id hid => ?_, fun id => ?_⟩
    · rw [hids] at hid
      exact Registry.index_lt_of_mem_acquireAll hid
    · rw [hids, husage, h, Nat.zero_add]

/-- The files that tracks show. -/
def shownFiles (tracks : List VideoTrack) : List String :=
  (tracks.flatMap (·.files)).filter (!·.isEmpty)

theorem filterMap_file_of_planAll {tracks : List VideoTrack} {canvas : Size} {tiles : List Tile}
    (h : Tile.planAll tracks canvas = .ok tiles) :
    tiles.filterMap (·.file) = shownFiles tracks := by
  have hplan := Request.planAll_eq
    { Request.ofMode .render with videoTracks := tracks, canvas := canvas }
  rw [h, eq_comm, verdict_eq_ok_iff, List.map_eq_nil_iff] at hplan
  obtain ⟨hfaults, rfl⟩ := hplan
  exact Request.filterMap_file_tiles hfaults

/-- Drawing over a registry that was used in any way before: the graph passes its edge check
exactly if no use had been counted, the registry gains the files of the tiles, and it stays as it
was if no graph comes out. -/
theorem drawVideo_run (calls : List Registry.Call) (tracks : List VideoTrack)
    (s : VideoSettings) :
    let before := Registry.empty.run calls
    match (drawVideo tracks s).run.run before with
    | (.ok (graph, out), after) =>
      (graph.checkEdges [out] = .ok () ↔ ∀ source ∈ before.entries, source.uses = 0) ∧
        before.Gains (shownFiles tracks) after
    | (.error _, after) => after = before := by
  intro before
  have hempty : Registry.empty.paths.Nodup := List.nodup_nil
  have hnodup : before.paths.Nodup := Registry.nodup_paths_run hempty calls
  cases h : Tile.planAll tracks s.canvas with
  | error f => rw [drawVideo_of_error h]
  | ok tiles =>
    rw [drawVideo_of_ok h]
    refine ⟨?_, ?_⟩
    · rw [Graph.checkEdges_eq_ok_iff]
      exact s.linked_acquireAll_iff before tiles
    · rw [← filterMap_file_of_planAll h]
      exact Registry.gains_acquireAll hnodup tiles

end Montage
