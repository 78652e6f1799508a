import Mathlib
import Montage.Proofs.Graph.Links
import Montage.Proofs.Video.Layers

/-!
The wiring of the picture.  What the sources offer is what the tiles ask for, pad by pad, and every
canvas is read by the layer above the one that writes it; so the picture is linked.
-/

namespace Montage

namespace Registry

/-- The pads that a source offers to the tiles that show it. -/
def offersOf (i uses : Nat) : List PadName :=
  if uses = 0 then [] else if uses = 1 then [.stream i .video]
  else (List.range uses).map (.copy i)

def offers (r : Registry) : List PadName :=
  r.entries.zipIdx.flatMap fun (source, i) => offersOf i source.uses

/-- The pads that the nodes of a source write: a stream with copies is written as well. -/
def writtenOf (i uses : Nat) : List PadName :=
  (if 1 < uses then [.stream i .video] else []) ++ offersOf i uses

theorem mem_offersOf {i uses : Nat} {p : PadName} :
    p ∈ offersOf i uses ↔ uses = 1 ∧ p = .stream i .video ∨
      1 < uses ∧ ∃ k < uses, p = .copy i k := by
  rcases uses with _ | _ | uses
  · simp [offersOf]
  · simp [offersOf]
  · simp [offersOf, eq_comm]

theorem mem_writtenOf {i uses : Nat} {p : PadName} :
    p ∈ writtenOf i uses ↔ 0 < uses ∧ p = .stream i .video ∨
      1 < uses ∧ ∃ k < uses, p = .copy i k := by
  rcases uses with _ | _ | uses
  · simp [writtenOf, offersOf]
  · simp [writtenOf, offersOf]
  · simp [writtenOf, mem_offersOf]

theorem nodup_offersOf (i uses : Nat) : (offersOf i uses).Nodup := by
  rcases uses with _ | _ | uses
  · simp [offersOf]
  · simp [offersOf]
  · exact List.nodup_range.map fun j k h => by simpa using h

theorem nodup_writtenOf (i uses : Nat) : (writtenOf i uses).Nodup := by
  unfold writtenOf
  split
  case isTrue h =>
    rw [List.singleton_append, List.nodup_cons]
    exact ⟨by simp [mem_offersOf]; omega, nodup_offersOf i uses⟩
  case isFalse => exact nodup_offersOf i uses

theorem mem_entries_zipIdx {r : Registry} {source : Source} {i : Nat}
    (h : (source, i) ∈ r.entries.zipIdx) : i < r.size ∧ r.usageCount ⟨i⟩ = source.uses := by
  rw [List.mem_zipIdx_iff_getElem?] at h
  exact ⟨(List.getElem?_eq_some_iff.mp h).1, (getElem?_entries h).2⟩

theorem exists_mem_entries_zipIdx {r : Registry} {P : Nat → Nat → Prop} :
    (∃ x ∈ r.entries.zipIdx, P x.2 x.1.uses) ↔ ∃ i < r.size, P i (r.usageCount ⟨i⟩) := by
  constructor
  · rintro ⟨⟨source, i⟩, hx, hP⟩
    obtain ⟨hi, hu⟩ := mem_entries_zipIdx hx
    exact ⟨i, hi, by rwa [hu]⟩
  · rintro ⟨i, hi, hP⟩
    obtain ⟨source, hget⟩ : ∃ source, r.entries[i]? = some source :=
      ⟨_, List.getElem?_eq_getElem hi⟩
    refine ⟨(source, i), List.mem_zipIdx_iff_getElem?.mpr hget, ?_⟩
    rwa [← (getElem?_entries hget).2]

theorem mem_offers {r : Registry} {p : PadName} :
    p ∈ r.offers ↔ ∃ i < r.size, p ∈ offersOf i (r.usageCount ⟨i⟩) := by
  rw [offers, List.mem_flatMap]
  exact exists_mem_entries_zipIdx (P := fun i uses => p ∈ offersOf i uses)

def sourceOf : PadName → Nat
  | .stream i _ => i
  | .copy i _ => i
  | _ => 0

theorem nodup_offers (r : Registry) : r.offers.Nodup := by
  apply List.nodup_flatMap_zipIdx sourceOf
  · exact fun x _ => nodup_offersOf x.2 x.1.uses
  · rintro ⟨source, i⟩ - p hp
    obtain ⟨-, rfl⟩ | ⟨-, k, -, rfl⟩ := mem_offersOf.mp hp <;> rfl

def writtenNames (r : Registry) : List PadName :=
  r.entries.zipIdx.flatMap fun (source, i) => writtenOf i source.uses

theorem mem_writtenNames {r : Registry} {p : PadName} :
    p ∈ r.writtenNames ↔ ∃ i < r.size, p ∈ writtenOf i (r.usageCount ⟨i⟩) := by
  rw [writtenNames, List.mem_flatMap]
  exact exists_mem_entries_zipIdx (P := fun i uses => p ∈ writtenOf i uses)

theorem part_of_mem_writtenNames {r : Registry} {p : PadName} (h : p ∈ r.writtenNames) :
    p.part = .source := by
  obtain ⟨i, -, hi⟩ := mem_writtenNames.mp h
  obtain ⟨-, rfl⟩ | ⟨-, k, -, rfl⟩ := mem_writtenOf.mp hi <;> rfl

theorem nodup_writtenNames (r : Registry) : r.writtenNames.Nodup := by
  apply List.nodup_flatMap_zipIdx sourceOf
  · exact fun x _ => nodup_writtenOf x.2 x.1.uses
  · rintro ⟨source, i⟩ - p hp
    obtain ⟨-, rfl⟩ | ⟨-, k, -, rfl⟩ := mem_writtenOf.mp hp <;> rfl

theorem written_sourceNodes (r : Registry) :
    written r.sourceNodes = r.writtenNames.map PadName.pad := by
  rw [written, sourceNodes, List.flatMap_assoc, writtenNames, List.map_flatMap]
  apply List.flatMap_congr
  rintro ⟨⟨path, uses⟩, i⟩ -
  rcases uses with _ | _ | uses
  · simp [writtenOf, offersOf]
  · simp [writtenOf, offersOf, PadName.pad]
  · simp [writtenOf, offersOf, PadName.pad, Function.comp_def]

/-- What the nodes of the sources write, they read themselves or offer. -/
theorem written_sourceNodes_perm (r : Registry) :
    (written r.sourceNodes).Perm (consulted r.sourceNodes ++ r.offers.map PadName.pad) := by
  rw [written, consulted, sourceNodes, List.flatMap_assoc, List.flatMap_assoc, offers,
    List.map_flatMap]
  refine List.Perm.trans ?_ (List.flatMap_append_perm _ _ _).symm
  apply List.Perm.flatMap_left
  rintro ⟨⟨path, uses⟩, i⟩ -
  rcases uses with _ | _ | uses
  · simp [offersOf]
  · simp [offersOf, PadName.pad]
  · simp [offersOf, PadName.pad, Function.comp_def]

/-- The registry knows the sources of a stack and counts each tile that shows one. -/
structure Counts (r : Registry) (ids : List (Option SourceId)) : Prop where
  index_lt : ∀ id, some id ∈ ids → id.index < r.size
  usage : ∀ id, r.usageCount id = ids.count (some id)

def feeds (r : Registry) (ids : List (Option SourceId)) : List PadName :=
  ids.zipIdx.map fun (id, n) => r.feed (ids.take n) id

def blanks (ids : List (Option SourceId)) : List PadName :=
  ids.zipIdx.flatMap fun (id, n) => if id = none then [.blank n] else []

variable {r : Registry} {ids : List (Option SourceId)}

theorem mem_feeds {p : PadName} :
    p ∈ r.feeds ids ↔ ∃ (id : Option SourceId) (n : Nat), ids[n]? = some id ∧
      r.feed (ids.take n) id = p := by
  simp only [feeds, List.mem_map, Prod.exists, List.mem_zipIdx_iff_getElem?]

theorem mem_blanks {p : PadName} :
    p ∈ blanks ids ↔ ∃ n : Nat, ids[n]? = some none ∧ p = .blank n := by
  simp only [blanks, List.mem_flatMap, Prod.exists, List.mem_zipIdx_iff_getElem?]
  constructor
  · rintro ⟨id, n, hn, hp⟩
    split at hp
    case isTrue h => exact ⟨n, h ▸ hn, by simpa using hp⟩
    case isFalse => simp at hp
  · rintro ⟨n, hn, rfl⟩
    exact ⟨none, n, hn, by simp⟩

theorem nodup_blanks (ids : List (Option SourceId)) : (blanks ids).Nodup := by
  apply List.nodup_flatMap_zipIdx fun | .blank n => n | _ => 0
  · rintro ⟨id, n⟩ -
    dsimp only
    split <;> simp
  · rintro ⟨id, n⟩ - p hp
    dsimp only at hp
    split at hp <;> simp_all

namespace Counts

theorem feed_blank {n : Nat} (hn : ids[n]? = some none) :
    r.feed (ids.take n) none = .blank n := by
  have := (List.getElem?_eq_some_iff.mp hn).1
  rw [feed, List.length_take, Nat.min_eq_left this.le]

theorem feed_mem_offersOf (h : r.Counts ids) {id : SourceId} {n : Nat}
    (hn : ids[n]? = some (some id)) :
    r.feed (ids.take n) (some id) ∈ offersOf id.index (r.usageCount id) := by
  have hlt := List.count_take_lt_count hn
  rw [← h.usage] at hlt
  rw [mem_offersOf, feed]
  split
  case isTrue hu => exact .inr ⟨hu, _, hlt, rfl⟩
  case isFalse hu => exact .inl ⟨by omega, rfl⟩

theorem feed_injective (h : r.Counts ids) {m n : Nat} {a b : Option SourceId}
    (hm : ids[m]? = some a) (hn : ids[n]? = some b)
    (hf : r.feed (ids.take m) a = r.feed (ids.take n) b) : m = n := by
  cases a with
  | none =>
    cases b with
    | none => simpa [feed_blank hm, feed_blank hn] using hf
    | some j =>
      have hj := h.feed_mem_offersOf hn
      rw [← hf, feed_blank hm, mem_offersOf] at hj
      simp at hj
  | some i =>
    have hi := h.feed_mem_offersOf hm
    cases b with
    | none =>
      rw [hf, feed_blank hn, mem_offersOf] at hi
      simp at hi
    | some j =>
      have hij : i = j := by
        obtain ⟨i⟩ := i
        obtain ⟨j⟩ := j
        simp only [feed] at hf
        split at hf <;> split at hf <;> simp_all
      subst hij
      have hkm := List.count_take_lt_count hm
      have hkn := List.count_take_lt_count hn
      rw [← h.usage] at hkm hkn
      apply List.eq_of_count_take_eq hm hn
      simp only [feed] at hf
      split at hf
      case isTrue => simpa using hf
      case isFalse => omega

theorem nodup_feeds (h : r.Counts ids) : (r.feeds ids).Nodup := by
  apply List.Nodup.map_on
  · rintro ⟨a, m⟩ hm ⟨b, n⟩ hn hf
    rw [List.mem_zipIdx_iff_getElem?] at hm hn
    obtain rfl := h.feed_injective hm hn hf
    simpa using hm.symm.trans hn
  · apply List.Nodup.of_map Prod.snd
    rw [List.zipIdx_map_snd]
    exact List.nodup_range' 1

theorem mem_feeds_of_mem_offersOf (h : r.Counts ids) {i : Nat} {p : PadName}
    (hp : p ∈ offersOf i (r.usageCount ⟨i⟩)) : p ∈ r.feeds ids := by
  have hnext (k : Nat) (hk : k < r.usageCount ⟨i⟩) : ∃ n : Nat, ids[n]? = some (some ⟨i⟩) ∧
      (ids.take n).count (some ⟨i⟩) = k := by
    rw [h.usage] at hk
    exact List.exists_getElem?_of_lt_count hk
  rw [mem_feeds]
  obtain ⟨hu, rfl⟩ | ⟨hu, k, hk, rfl⟩ := mem_offersOf.mp hp
  · obtain ⟨n, hn, -⟩ := hnext 0 (by omega)
    exact ⟨_, n, hn, by simp [feed, hu]⟩
  · obtain ⟨n, hn, hcount⟩ := hnext k hk
    exact ⟨_, n, hn, by simp [feed, hu, hcount]⟩

/-- What the tiles ask for is what blank tiles bring along and sources offer. -/
theorem feeds_perm (h : r.Counts ids) : (r.feeds ids).Perm (blanks ids ++ r.offers) := by
  have hdisjoint : List.Disjoint (blanks ids) r.offers := by
    intro p hb ho
    obtain ⟨n, -, rfl⟩ := mem_blanks.mp hb
    obtain ⟨i, -, hi⟩ := mem_offers.mp ho
    simp [mem_offersOf] at hi
  rw [List.perm_ext_iff_of_nodup h.nodup_feeds
    ((nodup_blanks ids).append r.nodup_offers hdisjoint)]
  intro p
  rw [List.mem_append]
  constructor
  · intro hp
    obtain ⟨id, n, hn, rfl⟩ := mem_feeds.mp hp
    cases id with
    | none => exact .inl (mem_blanks.mpr ⟨n, hn, feed_blank hn⟩)
    | some id =>
      have hi := h.index_lt id (List.mem_of_getElem? hn)
      exact .inr (mem_offers.mpr ⟨id.index, hi, h.feed_mem_offersOf hn⟩)
  · rintro (hb | ho)
    · obtain ⟨n, hn, rfl⟩ := mem_blanks.mp hb
      exact mem_feeds.mpr ⟨none, n, hn, feed_blank hn⟩
    · obtain ⟨i, -, hi⟩ := mem_offers.mp ho
      exact h.mem_feeds_of_mem_offersOf hi

end Counts

theorem map_feed_layers (items : List (Tile × Option SourceId)) :
    (r.layers items).map (·.feed) = r.feeds (items.map (·.2)) := by
  simp [layers, feeds, List.zipIdx_map]

theorem flatMap_blank_layers (items : List (Tile × Option SourceId)) :
    ((r.layers items).flatMap fun l => if l.source = none then [.blank l.place] else []) =
      blanks (items.map (·.2)) := by
  simp [layers, blanks, List.zipIdx_map, List.flatMap_map]

theorem map_place_layers (items : List (Tile × Option SourceId)) :
    (r.layers items).map (·.place) = List.range items.length := by
  rw [layers, List.map_map, List.range_eq_range', ← List.zipIdx_map_snd 0 items]
  rfl

end Registry

namespace Layer

def writtenNames (total : Nat) (l : Layer) : List PadName :=
  (if l.source = none then [.blank l.place] else []) ++
    [.tile l.place, PadName.canvasAbove total l.place]

theorem eq_of_mem_writtenNames {total : Nat} {l : Layer} {p : PadName}
    (h : p ∈ l.writtenNames total) :
    p = .blank l.place ∨ p = .tile l.place ∨ p = .canvasAbove total l.place := by
  simp only [writtenNames, List.mem_append] at h
  split at h <;> simp_all

def placeOf (total : Nat) : PadName → Nat
  | .blank n => n
  | .tile n => n
  | .canvas n => n
  | _ => total - 1

theorem placeOf_canvasAbove (total n : Nat) : placeOf total (PadName.canvasAbove total n) = n := by
  unfold PadName.canvasAbove
  split
  · simp only [placeOf]; omega
  · rfl

theorem written_nodes (s : VideoSettings) (total : Nat) (l : Layer) :
    written (l.nodes s total) = (l.writtenNames total).map PadName.pad := by
  cases h : l.source <;>
    simp [nodes, writtenNames, VideoSettings.backdrop, VideoSettings.colorNode,
      VideoSettings.fitting, VideoSettings.scaleCropNode, overlay, h]

theorem consulted_nodes (s : VideoSettings) (total : Nat) (l : Layer) :
    consulted (l.nodes s total) =
      ([l.feed] ++ ([PadName.canvasBelow l.place] ++ [PadName.tile l.place])).map PadName.pad := by
  cases h : l.source <;>
    simp [nodes, VideoSettings.backdrop, VideoSettings.colorNode, VideoSettings.fitting,
      VideoSettings.scaleCropNode, overlay, h]

end Layer

/-- Each canvas but the last is read by the layer above the one that writes it. -/
theorem PadName.background_cons_canvasAbove (total : Nat) :
    background :: (List.range total).map (canvasAbove total) =
      (List.range total).map canvasBelow ++ [finished total] := by
  cases total with
  | zero => rfl
  | succ k =>
    have habove : (List.range k).map (canvasAbove (k + 1)) = (List.range k).map canvas := by
      apply List.map_congr_left
      intro n hn
      have := List.mem_range.mp hn
      exact if_neg (by omega)
    calc
      background :: (List.range (k + 1)).map (canvasAbove (k + 1))
          = background :: ((List.range k).map canvas ++ [videoOut]) := by
        rw [List.range_succ, List.map_append, habove]
        simp [canvasAbove]
      _ = (List.range (k + 1)).map canvasBelow ++ [finished (k + 1)] := by
        rw [List.range_succ_eq_map]
        simp [canvasBelow, finished, Function.comp_def]

namespace VideoSettings

variable {s : VideoSettings} {r : Registry} {items : List (Tile × Option SourceId)}

def stackNames (r : Registry) (items : List (Tile × Option SourceId)) : List PadName :=
  .background :: (r.layers items).flatMap (Layer.writtenNames items.length)

theorem written_stackNodes :
    written (s.stackNodes r items) = (stackNames r items).map PadName.pad := by
  have hlayers : written ((r.layers items).flatMap (Layer.nodes s items.length)) =
      ((r.layers items).flatMap (Layer.writtenNames items.length)).map PadName.pad := by
    rw [written, List.flatMap_assoc, List.map_flatMap]
    exact List.flatMap_congr fun l _ => l.written_nodes s items.length
  simp [stackNodes, stackNames, colorNode, hlayers]

theorem part_of_mem_stackNames {p : PadName} (h : p ∈ stackNames r items) :
    p.part = .picture := by
  rcases List.mem_cons.mp h with rfl | h
  · rfl
  · obtain ⟨l, -, hl⟩ := List.mem_flatMap.mp h
    rcases Layer.eq_of_mem_writtenNames hl with rfl | rfl | rfl
    · rfl
    · rfl
    · unfold PadName.canvasAbove
      split <;> rfl

theorem nodup_stackNames : (stackNames r items).Nodup := by
  rw [stackNames, List.nodup_cons]
  constructor
  · intro hb
    obtain ⟨l, -, hl⟩ := List.mem_flatMap.mp hb
    have := Layer.eq_of_mem_writtenNames hl
    unfold PadName.canvasAbove at this
    split at this <;> simp at this
  · rw [Registry.layers, List.flatMap_map]
    apply List.nodup_flatMap_zipIdx (Layer.placeOf items.length)
    · rintro ⟨⟨t, id⟩, n⟩ -
      simp only [Layer.writtenNames, PadName.canvasAbove]
      split <;> split <;> simp
    · rintro ⟨⟨t, id⟩, n⟩ - p hp
      rcases Layer.eq_of_mem_writtenNames hp with rfl | rfl | rfl
      · rfl
      · rfl
      · exact Layer.placeOf_canvasAbove items.length n

/-- What a stack reads and does not write is what the sources offer, and what it writes and does
not read is the finished picture. -/
theorem stackNames_perm (h : r.Counts (items.map (·.2))) :
    (stackNames r items ++ r.offers).Perm
      (((r.layers items).flatMap fun l =>
          [l.feed] ++ ([PadName.canvasBelow l.place] ++ [PadName.tile l.place])) ++
        [PadName.finished items.length]) := by
  have hmap {f : Nat → PadName} :
      ((r.layers items).flatMap fun l => [f l.place]) = (List.range items.length).map f := by
    rw [← Registry.map_place_layers (r := r), List.map_map, ← List.map_eq_flatMap]
    rfl
  have hwritten : ((r.layers items).flatMap (Layer.writtenNames items.length)).Perm
      (Registry.blanks (items.map (·.2)) ++ ((List.range items.length).map .tile ++
        (List.range items.length).map (PadName.canvasAbove items.length))) := by
    rw [← Registry.flatMap_blank_layers (r := r), ← hmap, ← hmap]
    refine (List.Perm.append_left _ (List.flatMap_append_perm _ _ _)).trans ?_ |>.symm
    exact List.flatMap_append_perm _ _ _
  have hconsulted : ((r.layers items).flatMap fun l =>
      [l.feed] ++ ([PadName.canvasBelow l.place] ++ [PadName.tile l.place])).Perm
      (r.feeds (items.map (·.2)) ++ ((List.range items.length).map .canvasBelow ++
        (List.range items.length).map .tile)) := by
    rw [← Registry.map_feed_layers, ← hmap, ← hmap, List.map_eq_flatMap]
    refine (List.Perm.append_left _ (List.flatMap_append_perm _ _ _)).trans ?_ |>.symm
    exact List.flatMap_append_perm _ _ _
  calc
    (stackNames r items ++ r.offers).Perm
        (.background :: (Registry.blanks (items.map (·.2)) ++
          ((List.range items.length).map .tile ++
            (List.range items.length).map (PadName.canvasAbove items.length))) ++ r.offers) :=
      (hwritten.cons _).append_right _
    _ |>.Perm ((Registry.blanks (items.map (·.2)) ++ r.offers) ++
        ((.background :: (List.range items.length).map (PadName.canvasAbove items.length)) ++
          (List.range items.length).map .tile)) := by
      rw [List.perm_iff_count]
      intro p
      simp only [List.cons_append, List.count_cons, List.count_append]
      omega
    _ |>.Perm (r.feeds (items.map (·.2)) ++
        ((List.range items.length).map .canvasBelow ++ [PadName.finished items.length] ++
          (List.range items.length).map .tile)) := by
      rw [PadName.background_cons_canvasAbove]
      exact h.feeds_perm.symm.append_right _
    _ |>.Perm (r.feeds (items.map (·.2)) ++ ((List.range items.length).map .canvasBelow ++
        (List.range items.length).map .tile) ++ [PadName.finished items.length]) := by
      rw [List.perm_iff_count]
      intro p
      simp only [List.count_append]
      omega
    _ |>.Perm _ := hconsulted.symm.append_right _

theorem consulted_stackNodes :
    consulted (s.stackNodes r items) =
      ((r.layers items).flatMap fun l =>
        [l.feed] ++ ([PadName.canvasBelow l.place] ++ [PadName.tile l.place])).map PadName.pad := by
  have hlayers : consulted ((r.layers items).flatMap (Layer.nodes s items.length)) =
      ((r.layers items).flatMap fun l =>
        [l.feed] ++ ([PadName.canvasBelow l.place] ++ [PadName.tile l.place])).map
          PadName.pad := by
    rw [consulted, List.flatMap_assoc, List.map_flatMap]
    exact List.flatMap_congr fun l _ => l.consulted_nodes s items.length
  simp [stackNodes, colorNode, hlayers]

def loneNames (id : Option SourceId) : List PadName := Registry.blanks [id] ++ [.videoOut]

variable {t : Tile} {id : Option SourceId}

theorem written_loneNodes : written (s.loneNodes r t id) = (loneNames id).map PadName.pad := by
  cases id <;> simp [loneNodes, loneNames, Registry.blanks, backdrop, colorNode, scaleCropNode]

theorem part_of_mem_loneNames {p : PadName} (h : p ∈ loneNames id) : p.part = .picture := by
  cases List.mem_append.mp h with
  | inl h =>
    obtain ⟨n, -, rfl⟩ := Registry.mem_blanks.mp h
    rfl
  | inr h =>
    rw [List.mem_singleton.mp h]
    rfl

theorem consulted_loneNodes : consulted (s.loneNodes r t id) = (r.feeds [id]).map PadName.pad := by
  cases id <;> simp [loneNodes, Registry.feeds, backdrop, colorNode, scaleCropNode]

end VideoSettings

/-- Nodes that read every offer of the sources, and leave only the finished picture unread, are
linked together with the sources. -/
theorem Registry.linked_append {r : Registry} {top : List Node} {names : List PadName}
    {out : PadName} (hw : written top = names.map PadName.pad) (hn : names.Nodup)
    (hd : List.Disjoint r.writtenNames names)
    (hp : ((names ++ r.offers).map PadName.pad).Perm (consulted top ++ [out.pad])) :
    Linked (r.sourceNodes ++ top) [out.pad] where
  written_nodup := by
    rw [written_append, written_sourceNodes, hw, ← List.map_append]
    exact (r.nodup_writtenNames.append hn hd).map PadName.pad_injective
  paired := by
    rw [written_append, consulted_append, hw]
    calc
      (written r.sourceNodes ++ names.map PadName.pad).Perm
          (consulted r.sourceNodes ++ r.offers.map PadName.pad ++ names.map PadName.pad) :=
        r.written_sourceNodes_perm.append_right _
      _ |>.Perm (consulted r.sourceNodes ++ (names ++ r.offers).map PadName.pad) := by
        rw [List.append_assoc, List.map_append]
        exact List.perm_append_comm.append_left _
      _ |>.Perm (consulted r.sourceNodes ++ (consulted top ++ [out.pad])) := hp.append_left _
      _ = consulted r.sourceNodes ++ consulted top ++ [out.pad] := by rw [List.append_assoc]

namespace VideoSettings

variable {s : VideoSettings} {r : Registry} {items : List (Tile × Option SourceId)}

/-- The picture of a plan is linked: its sources serve every tile with a pad of its own. -/
theorem linked_picture (h : r.Counts (items.map (·.2))) :
    Linked (r.sourceNodes ++ s.pictureNodes r items) [(PadName.finished items.length).pad] := by
  cases s.pictureForm r items with
  | lone t id hitems _ hnodes =>
    subst hitems
    rw [hnodes]
    apply Registry.linked_append written_loneNodes
    · refine (Registry.nodup_blanks [id]).append (by simp) ?_
      intro p hp
      obtain ⟨n, -, rfl⟩ := Registry.mem_blanks.mp hp
      simp
    · apply PadName.disjoint_of_part
      intro p hp q hq
      rw [Registry.part_of_mem_writtenNames hp, part_of_mem_loneNames hq]
      decide
    · rw [consulted_loneNodes]
      have hp : (loneNames id ++ r.offers).Perm (r.feeds [id] ++ [.videoOut]) :=
        calc
          (loneNames id ++ r.offers).Perm (Registry.blanks [id] ++ r.offers ++ [.videoOut]) := by
            rw [loneNames, List.append_assoc, List.append_assoc]
            exact List.perm_append_comm.append_left _
          _ |>.Perm _ := h.feeds_perm.symm.append_right _
      simpa [PadName.finished] using hp.map PadName.pad
  | stack hnodes =>
    rw [hnodes]
    apply Registry.linked_append written_stackNodes nodup_stackNames
    · apply PadName.disjoint_of_part
      intro p hp q hq
      rw [Registry.part_of_mem_writtenNames hp, part_of_mem_stackNames hq]
      decide
    · rw [consulted_stackNodes]
      simpa using (stackNames_perm h).map PadName.pad

variable (s r items) in
theorem exists_written_pictureNodes :
    ∃ names : List PadName, written (s.pictureNodes r items) = names.map PadName.pad ∧
      ∀ p ∈ names, p.part = .picture := by
  cases s.pictureForm r items with
  | lone t id _ _ hnodes =>
    rw [hnodes, written_loneNodes]
    exact ⟨_, rfl, fun p hp => part_of_mem_loneNames hp⟩
  | stack hnodes =>
    rw [hnodes, written_stackNodes]
    exact ⟨_, rfl, fun p hp => part_of_mem_stackNames hp⟩

/-- No pad of the picture belongs to the sound. -/
theorem part_of_mem_written_picture {p : PadName}
    (h : p.pad ∈ written (r.sourceNodes ++ s.pictureNodes r items)) : p.part ≠ .sound := by
  obtain ⟨names, hnames, hpart⟩ := s.exists_written_pictureNodes r items
  rw [written_append, Registry.written_sourceNodes, hnames, List.mem_append] at h
  cases h with
  | inl h =>
    rw [Registry.part_of_mem_writtenNames ((List.mem_map_of_injective PadName.pad_injective).mp h)]
    decide
  | inr h =>
    rw [hpart p ((List.mem_map_of_injective PadName.pad_injective).mp h)]
    decide

end VideoSettings

end Montage
