import Mathlib
import Montage.Proofs.Graph.PadName
import Montage.Proofs.Source.Registry
import Montage.Video.Assembly

/-!
The nodes of the picture, written out without the counters that the assembly passes along.  A
layer is a tile with its place in the stack and the pad it is fed from, and the graph of the
picture is a list of nodes for each layer.
-/

namespace Montage

namespace Registry

/-- The pad for a tile that shows a source, where the tiles before it show the sources `before`. -/
def feed (r : Registry) (before : List (Option SourceId)) : Option SourceId → PadName
  | none => .blank before.length
  | some id =>
    if 1 < r.usageCount id then .copy id.index (before.count (some id))
    else .stream id.index .video

/-- The taps once tiles that show the sources `before` are served. -/
def tapsAfter (r : Registry) (before : List (Option SourceId)) : Taps :=
  r.entries.zipIdx.map fun (source, i) =>
    if 1 < source.uses then .copies (before.count (some ⟨i⟩)) else .direct

theorem tapsAfter_nil (r : Registry) : r.tapsAfter [] = r.taps := by
  apply List.ext_getElem?
  intro i
  simp only [tapsAfter, taps, List.getElem?_map, List.getElem?_zipIdx, List.count_nil]
  cases r.entries[i]? <;> rfl

theorem tapsAfter_none (r : Registry) (before : List (Option SourceId)) :
    r.tapsAfter (before ++ [none]) = r.tapsAfter before := by
  simp [tapsAfter]

theorem getElem?_tapsAfter (r : Registry) (before : List (Option SourceId)) (i : Nat) :
    (r.tapsAfter before)[i]? = r.entries[i]?.map fun source =>
      if 1 < source.uses then .copies (before.count (some ⟨i⟩)) else .direct := by
  simp only [tapsAfter, List.getElem?_map, List.getElem?_zipIdx]
  cases r.entries[i]? <;> simp

/-- Serving a tile from a source hands out its next pad and moves only its own tap. -/
theorem take_tapsAfter {r : Registry} {before : List (Option SourceId)} {id : SourceId}
    (h : id.index < r.size) :
    (r.tapsAfter before).take id =
      .ok ((r.feed before (some id)).pad, r.tapsAfter (before ++ [some id])) := by
  obtain ⟨source, hsource⟩ : ∃ source, r.entries[id.index]? = some source :=
    ⟨_, List.getElem?_eq_getElem h⟩
  have hget := r.getElem?_tapsAfter before id.index
  rw [hsource, Option.map_some] at hget
  have huses : r.usageCount id = source.uses := by simp [usageCount, hsource]
  by_cases hu : 1 < source.uses
  · rw [if_pos hu] at hget
    simp only [Taps.take, hget, feed, huses, if_pos hu]
    congr 2
    apply List.ext_getElem?
    intro i
    by_cases hi : id.index = i
    · subst hi
      rw [List.getElem?_set_self (List.getElem?_eq_some_iff.mp hget).1, getElem?_tapsAfter,
        hsource, Option.map_some, if_pos hu]
      simp
    · have hne : id ≠ ⟨i⟩ := fun he => hi (congrArg SourceId.index he)
      simp [List.getElem?_set_ne hi, getElem?_tapsAfter, hne]
  · rw [if_neg hu] at hget
    simp only [Taps.take, hget, feed, huses, if_neg hu]
    congr 2
    apply List.ext_getElem?
    intro i
    by_cases hi : id.index = i
    · subst hi
      rw [hget, getElem?_tapsAfter, hsource, Option.map_some, if_neg hu]
    · have hne : id ≠ ⟨i⟩ := fun he => hi (congrArg SourceId.index he)
      simp [getElem?_tapsAfter, hne]

end Registry

/-- A tile with its place in the stack, what it shows and the pad it is fed from. -/
structure Layer where
  place : Nat
  tile : Tile
  source : Option SourceId
  feed : PadName

/-- The stack of tiles, lowest first. -/
def Registry.layers (r : Registry) (items : List (Tile × Option SourceId)) : List Layer :=
  items.zipIdx.map fun ((t, id), n) => ⟨n, t, id, r.feed ((items.map (·.2)).take n) id⟩

namespace PadName

def canvasBelow : Nat → PadName
  | 0 => .background
  | n + 1 => .canvas n

/-- The canvas with a layer on it; the last of all layers finishes the picture. -/
def canvasAbove (total n : Nat) : PadName := if n + 1 = total then .videoOut else .canvas n

def finished (total : Nat) : PadName := if total = 0 then .background else .videoOut

end PadName

namespace VideoSettings

variable (s : VideoSettings)

/-- The node that a blank tile brings along. -/
def backdrop (n : Nat) (t : Tile) : Option SourceId → List Node
  | none => [s.colorNode t.region.size (PadName.blank n).pad]
  | some _ => []

def fitting (l : Layer) : Node :=
  s.scaleCropNode l.tile l.feed.pad (PadName.tile l.place).pad

end VideoSettings

namespace Layer

def overlay (total : Nat) (l : Layer) : Node :=
  ⟨.overlay l.tile.region.origin.x l.tile.region.origin.y l.tile.interval,
    [(PadName.canvasBelow l.place).pad, (PadName.tile l.place).pad],
    [(PadName.canvasAbove total l.place).pad]⟩

def nodes (s : VideoSettings) (total : Nat) (l : Layer) : List Node :=
  s.backdrop l.place l.tile l.source ++ [s.fitting l, l.overlay total]

end Layer

namespace Registry

variable {r : Registry} {items : List (Tile × Option SourceId)}

@[simp] theorem length_layers : (r.layers items).length = items.length := by simp [layers]

theorem getElem?_layers (n : Nat) :
    (r.layers items)[n]? =
      items[n]?.map fun (t, id) => ⟨n, t, id, r.feed ((items.map (·.2)).take n) id⟩ := by
  simp only [layers, List.getElem?_map, List.getElem?_zipIdx]
  cases items[n]? <;> simp

theorem mem_items_of_mem_layers {l : Layer} (h : l ∈ r.layers items) :
    (l.tile, l.source) ∈ items := by
  obtain ⟨n, hn⟩ := List.mem_iff_getElem?.mp h
  rw [getElem?_layers] at hn
  obtain ⟨⟨t, id⟩, ht, rfl⟩ := Option.map_eq_some_iff.mp hn
  exact List.mem_of_getElem? ht

theorem drop_layers {done rest : List (Tile × Option SourceId)} {t : Tile}
    {id : Option SourceId} :
    (r.layers (done ++ (t, id) :: rest)).drop done.length =
      ⟨done.length, t, id, r.feed (done.map (·.2)) id⟩ ::
        (r.layers (done ++ (t, id) :: rest)).drop (done.length + 1) := by
  have hget : (r.layers (done ++ (t, id) :: rest))[done.length]? =
      some ⟨done.length, t, id, r.feed (done.map (·.2)) id⟩ := by
    rw [getElem?_layers, List.getElem?_append_right (Nat.le_refl _), Nat.sub_self]
    simp
  obtain ⟨hlt, hget⟩ := List.getElem?_eq_some_iff.mp hget
  rw [List.drop_eq_getElem_cons hlt, hget]

end Registry

namespace VideoSettings

def stackNodes (s : VideoSettings) (r : Registry) (items : List (Tile × Option SourceId)) :
    List Node :=
  s.colorNode s.canvas PadName.background.pad ::
    (r.layers items).flatMap (Layer.nodes s items.length)

variable (s : VideoSettings) {r : Registry}

theorem feed_tapsAfter (before : List (Option SourceId)) (t : Tile) {id : Option SourceId}
    (h : ∀ i, id = some i → i.index < r.size) :
    s.feed (r.tapsAfter before) before.length t id =
      .ok (s.backdrop before.length t id, (r.feed before id).pad,
        r.tapsAfter (before ++ [id])) := by
  cases id with
  | none =>
    rw [Registry.tapsAfter_none]
    rfl
  | some id =>
    rw [feed, Registry.take_tapsAfter (h id rfl)]
    rfl

/-- Painting the rest of a stack emits the nodes of the layers that are left.  The induction is on
the tiles still to come, and the taps are those after the tiles `done`. -/
theorem paint_eq (done rest : List (Tile × Option SourceId)) (canvas : Pad)
    (hids : ∀ id, some id ∈ (done ++ rest).map (·.2) → id.index < r.size)
    (hcanvas : rest ≠ [] → canvas = (PadName.canvasBelow done.length).pad) :
    s.paint done.length canvas (r.tapsAfter (done.map (·.2))) rest =
      .ok (((r.layers (done ++ rest)).drop done.length).flatMap
          (Layer.nodes s (done ++ rest).length),
        if rest = [] then canvas else PadName.videoOut.pad) := by
  induction rest generalizing done canvas with
  | nil => rw [List.drop_eq_nil_of_le (by simp)]; simp [paint]
  | cons item rest ih =>
    obtain ⟨t, id⟩ := item
    have hid : ∀ i, id = some i → i.index < r.size := by
      rintro i rfl
      exact hids i (by simp)
    have hfeed := s.feed_tapsAfter (done.map (·.2)) t hid
    rw [List.length_map] at hfeed
    have hrest := ih (done ++ [(t, id)])
      (if rest.isEmpty then Pad.videoOut else Pad.canvas done.length)
      (by simpa using hids) (by intro h; simp [h, PadName.canvasBelow, PadName.pad])
    simp only [List.append_assoc, List.singleton_append, List.length_append,
      List.length_singleton, List.map_append, List.map_singleton] at hrest
    have hnext : (if rest.isEmpty then Pad.videoOut else Pad.canvas done.length) =
        (PadName.canvasAbove (done ++ (t, id) :: rest).length done.length).pad := by
      cases rest <;> simp [PadName.canvasAbove, PadName.pad]
    rw [paint, hfeed, hcanvas (by simp)]
    simp only [bind, Except.bind, hrest, Registry.drop_layers, pure, Except.pure]
    rw [hnext, List.flatMap_cons, Layer.nodes, ← List.length_append]
    cases rest with
    | nil => simp [PadName.canvasAbove, fitting, Layer.overlay, PadName.pad]
    | cons => simp [fitting, Layer.overlay, PadName.pad]

theorem paint_stack (items : List (Tile × Option SourceId))
    (hids : ∀ id, some id ∈ items.map (·.2) → id.index < r.size) :
    s.paint 0 Pad.background r.taps items =
      .ok ((r.layers items).flatMap (Layer.nodes s items.length),
        (PadName.finished items.length).pad) := by
  have h := s.paint_eq [] items Pad.background (by simpa using hids) (fun _ => rfl)
  rw [List.map_nil, r.tapsAfter_nil] at h
  rw [List.length_nil] at h
  rw [h]
  cases items <;> simp [PadName.finished, PadName.pad]

def loneNodes (s : VideoSettings) (r : Registry) (t : Tile) (id : Option SourceId) : List Node :=
  s.backdrop 0 t id ++ [s.scaleCropNode t (r.feed [] id).pad PadName.videoOut.pad]

/-- The nodes of the picture above those of its sources. -/
def pictureNodes (s : VideoSettings) (r : Registry) :
    List (Tile × Option SourceId) → List Node
  | [(t, id)] => if t.standsAlone s.canvas then s.loneNodes r t id else s.stackNodes r [(t, id)]
  | items => s.stackNodes r items

/-- A picture is a tile that needs no canvas or a stack on the canvas. -/
inductive PictureForm (s : VideoSettings) (r : Registry) (items : List (Tile × Option SourceId)) :
    Prop
  | lone (t : Tile) (id : Option SourceId) (items_eq : items = [(t, id)])
      (alone : t.standsAlone s.canvas) (nodes_eq : s.pictureNodes r items = s.loneNodes r t id)
  | stack (nodes_eq : s.pictureNodes r items = s.stackNodes r items)

theorem pictureForm (s : VideoSettings) (r : Registry) (items : List (Tile × Option SourceId)) :
    s.PictureForm r items := by
  cases items with
  | nil => exact .stack rfl
  | cons item items =>
    cases items with
    | nil =>
      cases h : item.1.standsAlone s.canvas with
      | true => exact .lone item.1 item.2 rfl h (if_pos h)
      | false => exact .stack (if_neg (by simp [h]))
    | cons => exact .stack rfl

end VideoSettings

variable {tracks : List VideoTrack} {s : VideoSettings}

section Runs

variable {ε σ α β : Type}

theorem run_liftExcept_bind (a : α) (f : α → ExceptT ε (StateM σ) β) (st : σ) :
    ((liftExcept (Except.ok a : Except ε α) : ExceptT ε (StateM σ) α) >>= f).run.run st =
      (f a).run.run st :=
  rfl

theorem run_modifyGet_bind (g : σ → α × σ) (f : α → ExceptT ε (StateM σ) β) (st : σ) :
    (modifyGet g >>= f).run.run st = (f (g st).1).run.run (g st).2 :=
  rfl

theorem run_get_bind (f : σ → ExceptT ε (StateM σ) β) (st : σ) :
    (get >>= f).run.run st = (f st).run.run st :=
  rfl

theorem run_run_pure (a : α) (st : σ) :
    (pure a : ExceptT ε (StateM σ) α).run.run st = (.ok a, st) :=
  rfl

end Runs

/-- Everything is checked before the first file is registered. -/
theorem drawVideo_of_error {f : Fault} (h : Tile.planAll tracks s.canvas = .error f)
    (sources : Registry) : (drawVideo tracks s).run.run sources = (.error f, sources) := by
  rw [drawVideo, h]
  rfl

/-- Drawing a plan emits the nodes of its sources and of its picture. -/
theorem drawVideo_of_ok {tiles : List Tile} (h : Tile.planAll tracks s.canvas = .ok tiles)
    (sources : Registry) :
    (drawVideo tracks s).run.run sources =
      let (r, ids) := sources.acquireAll tiles
      (.ok (⟨r.sourceNodes ++ s.pictureNodes r (tiles.zip ids)⟩,
        (PadName.finished tiles.length).pad), r) := by
  have hlength : (sources.acquireAll tiles).2.length = tiles.length := by
    rw [Registry.acquireAll_ids, List.length_map]
  have hids : ∀ id, some id ∈ (tiles.zip (sources.acquireAll tiles).2).map (·.2) →
      id.index < (sources.acquireAll tiles).1.size := by
    intro id hid
    rw [List.map_snd_zip (by omega)] at hid
    exact Registry.index_lt_of_mem_acquireAll hid
  rw [drawVideo, h, run_liftExcept_bind, run_modifyGet_bind, run_get_bind]
  generalize hr : sources.acquireAll tiles = acquired at hlength hids
  obtain ⟨r, ids⟩ := acquired
  have hstack := s.paint_stack _ hids
  have hzip : (tiles.zip ids).length = tiles.length := by
    rw [List.length_zip, hlength, Nat.min_self]
  simp only [Prod.swap, hstack]
  split
  case h_1 t id =>
    have hfeed := s.feed_tapsAfter [] t fun i (hi : id = some i) => hids i (by simp [hi])
    rw [Registry.tapsAfter_nil, List.length_nil, List.nil_append] at hfeed
    rw [hfeed]
    by_cases halone : t.standsAlone s.canvas
    · rw [if_pos halone, run_liftExcept_bind, run_run_pure]
      simp [VideoSettings.pictureNodes, VideoSettings.loneNodes, halone, PadName.finished,
        PadName.pad]
    · rw [if_neg halone, run_liftExcept_bind, run_run_pure]
      simp [VideoSettings.pictureNodes, VideoSettings.stackNodes, halone, PadName.pad]
  case h_2 hpair =>
    have hpicture : s.pictureNodes r (tiles.zip ids) = s.stackNodes r (tiles.zip ids) := by
      unfold VideoSettings.pictureNodes
      split
      case h_1 hitems =>
        rw [hitems, List.length_singleton] at hzip
        obtain ⟨t, rfl⟩ := List.length_eq_one_iff.mp hzip.symm
        obtain ⟨id, rfl⟩ := List.length_eq_one_iff.mp (hlength.trans hzip.symm)
        exact (hpair t id rfl rfl).elim
      case h_2 => rfl
    rw [hpicture, hzip, run_liftExcept_bind, run_run_pure]
    simp [VideoSettings.stackNodes, hzip, PadName.pad]

/-- The picture of a plan: the nodes of its sources, and of what is laid over the canvas. -/
theorem assembleVideo_eq (sources : Registry) (s : VideoSettings) {tiles : List Tile}
    (h : Tile.planAll tracks s.canvas = .ok tiles) :
    assembleVideo tracks sources s =
      let (r, ids) := sources.acquireAll tiles
      .ok (⟨r.sourceNodes ++ s.pictureNodes r (tiles.zip ids)⟩,
        (PadName.finished tiles.length).pad, r) := by
  rw [assembleVideo, drawVideo_of_ok h]

end Montage
