import Mathlib
import Montage.Proofs.Guarded.Basic
import Montage.Proofs.Video.Layers

/-!
The picture under guard.  Use counters and the places of tiles are sums, and a source is served
from two tables of its own, which have an entry for every source that a tile shows.
-/

namespace Montage.Guarded

/-- One more tile shows the file. -/
def addUse (r : Registry) (id : SourceId) : Except Trap Registry :=
  match r.entries[id.index]? with
  | none => .ok r
  | some source => do
    let uses ← add source.uses 1
    return ⟨r.entries.set id.index { source with uses }⟩

def acquireAll (r : Registry) : List Tile → Except Trap (Registry × List (Option SourceId))
  | [] => .ok (r, [])
  | t :: rest =>
    match t.file with
    | none => do
      let (r, ids) ← acquireAll r rest
      return (r, none :: ids)
    | some path => do
      let (r, id) := r.register path
      let r ← addUse r id
      let (r, ids) ← acquireAll r rest
      return (r, some id :: ids)

/-- A registry that can count `n` more uses of each of its sources. -/
def Room (n : Nat) (r : Registry) : Prop := ∀ id, r.usageCount id + n < UInt64.size

namespace Room

variable {n : Nat} {r : Registry}

theorem of_succ (h : Room (n + 1) r) : Room n r := fun id => Nat.lt_of_succ_lt (h id)

theorem register (h : Room n r) (path : String) : Room n (r.register path).1 := by
  intro id
  rw [Registry.usageCount_register]
  exact h id

theorem acquire (h : Room (n + 1) r) (path : String) : Room n (r.acquire path).1 := by
  intro id
  have := h id
  rw [Registry.usageCount_acquire]
  split <;> omega

theorem empty (h : n < UInt64.size) : Room n .empty := by
  intro id
  have hnone : Registry.empty.usageCount id = 0 := by simp [Registry.usageCount, Registry.empty]
  omega

end Room

theorem addUse_eq {r : Registry} (h : Room 1 r) (id : SourceId) :
    addUse r id = .ok (r.addUse id) := by
  unfold addUse Registry.addUse
  rw [List.modify_eq_set_getElem?]
  cases hget : r.entries[id.index]? with
  | none => rfl
  | some source =>
    have huses := h id
    rw [(Registry.getElem?_entries hget).2] at huses
    simp only [add_eq_ok huses]
    rfl

/-- Every tile that shows a file takes one use of the room. -/
theorem acquireAll_eq {r : Registry} (ts : List Tile) (h : Room ts.length r) :
    acquireAll r ts = .ok (r.acquireAll ts) := by
  induction ts generalizing r with
  | nil => rfl
  | cons t ts ih =>
    rw [List.length_cons] at h
    cases hf : t.file with
    | none =>
      rw [Registry.acquireAll_blank hf, acquireAll, hf]
      dsimp only
      rw [ih h.of_succ]
      rfl
    | some path =>
      have hone : Room 1 (r.register path).1 := by
        intro id
        have := h.register path id
        omega
      rw [Registry.acquireAll_file hf, acquireAll, hf]
      dsimp only
      rw [addUse_eq hone, ok_bind]
      change (acquireAll (r.acquire path).1 ts >>= fun _ => _) = _
      rw [ih (h.acquire path)]
      rfl

/-- Two tables with an entry for each source: whether it is copied, and its next copy. -/
structure SourcePads where
  next : List Nat
  split : List Bool

namespace SourcePads

def ofRegistry (r : Registry) : SourcePads where
  next := List.replicate r.size 0
  split := r.entries.map fun source => decide (1 < source.uses)

def take (pads : SourcePads) (id : SourceId) : Except Trap (Pad × SourcePads) := do
  if ← lookup pads.split id.index then
    let k ← lookup pads.next id.index
    let next ← add k 1
    return (Pad.copy id.index k, { pads with next := pads.next.set id.index next })
  else return (Pad.stream id.index .video, pads)

/-- The two tables as one. -/
def taps (pads : SourcePads) : Taps :=
  pads.split.zipWith (fun split k => if split then .copies k else .direct) pads.next

/-- The tables have the same entries, and no source has served more than `n` tiles. -/
structure Within (pads : SourcePads) (n : Nat) : Prop where
  length_eq : pads.split.length = pads.next.length
  next_le : ∀ k ∈ pads.next, k ≤ n

theorem taps_ofRegistry (r : Registry) : (ofRegistry r).taps = r.taps := by
  obtain ⟨sources⟩ := r
  induction sources with
  | nil => rfl
  | cons source sources ih =>
    simp only [taps, ofRegistry, Registry.taps, Registry.size, List.length_cons,
      List.replicate_succ, List.map_cons, List.zipWith_cons_cons] at ih ⊢
    rw [ih]
    simp

theorem within_ofRegistry (r : Registry) : (ofRegistry r).Within 0 where
  length_eq := by simp [ofRegistry, Registry.size]
  next_le k hk := (List.eq_of_mem_replicate hk).le

theorem taps_set {pads : SourcePads} {i : Nat} (h : pads.split[i]? = some true) (k : Nat) :
    { pads with next := pads.next.set i k : SourcePads }.taps = pads.taps.set i (.copies k) := by
  obtain ⟨hlt, htrue⟩ := List.getElem?_eq_some_iff.mp h
  apply List.ext_getElem?
  intro j
  by_cases hj : i = j
  · subst hj
    by_cases hi : i < pads.next.length <;> simp [taps, hlt, htrue, hi]
  · simp [taps, List.getElem?_zipWith, hj]

/-- Serving a tile from the tables is serving it from the taps. -/
theorem take_eq {pads : SourcePads} {n : Nat} {id : SourceId} {p : Pad} {taps : Taps}
    (hw : pads.Within n) (hn : n + 1 < UInt64.size) (h : pads.taps.take id = .ok (p, taps)) :
    ∃ after, pads.take id = .ok (p, after) ∧ after.taps = taps ∧ after.Within (n + 1) := by
  unfold Taps.take at h
  cases htap : pads.taps[id.index]? with
  | none =>
    rw [htap] at h
    contradiction
  | some tap =>
    obtain ⟨split, k, hsplit, hnext, rfl⟩ := List.getElem?_zipWith_eq_some.mp htap
    rw [htap] at h
    rw [take, lookup_eq_ok hsplit, ok_bind]
    cases split with
    | false =>
      cases h
      exact ⟨pads, rfl, rfl, hw.length_eq, fun k hk => (hw.next_le k hk).trans (Nat.le_succ n)⟩
    | true =>
      cases h
      have hk := hw.next_le k (List.mem_of_getElem? hnext)
      rw [if_pos rfl, lookup_eq_ok hnext, ok_bind, add_eq_ok (by omega), ok_bind]
      refine ⟨_, rfl, ?_, ?_, ?_⟩
      · exact taps_set hsplit (k + 1)
      · simpa using hw.length_eq
      · intro j hj
        rcases List.mem_or_eq_of_mem_set hj with hj | rfl
        · exact (hw.next_le j hj).trans (Nat.le_succ n)
        · omega

end SourcePads

/-- The pad that the picture of a tile comes from.  A blank tile brings its own node. -/
def feed (s : VideoSettings) (pads : SourcePads) (n : Nat) (t : Tile) :
    Option SourceId → Except Trap (List Node × Pad × SourcePads)
  | none => .ok ([s.colorNode t.region.size (Pad.blank n)], Pad.blank n, pads)
  | some id => do
    let (pad, pads) ← pads.take id
    return ([], pad, pads)

/-- Lays tiles over a canvas, the first of them being tile number `n` of `total`. -/
def paint (s : VideoSettings) (total n : Nat) (canvas : Pad) (pads : SourcePads) :
    List (Tile × Option SourceId) → Except Trap (List Node × Pad)
  | [] => .ok ([], canvas)
  | (t, id) :: rest => do
    let (blank, input, pads) ← feed s pads n t id
    let above ← add n 1
    let next := if above = total then Pad.videoOut else Pad.canvas n
    let scaled := Pad.tile n
    let overlay : Node :=
      ⟨.overlay t.region.origin.x t.region.origin.y t.interval, [canvas, scaled], [next]⟩
    let (nodes, out) ← paint s total above next pads rest
    return (blank ++ [s.scaleCropNode t input scaled, overlay] ++ nodes, out)

section Serving

variable {s : VideoSettings} {pads : SourcePads} {n : Nat} {nodes : List Node} {p : Pad}
  {taps : Taps}

theorem feed_eq {t : Tile} {id : Option SourceId} (hw : pads.Within n)
    (hn : n + 1 < UInt64.size) (h : s.feed pads.taps n t id = .ok (nodes, p, taps)) :
    ∃ after, feed s pads n t id = .ok (nodes, p, after) ∧ after.taps = taps ∧
      after.Within (n + 1) := by
  cases id with
  | none =>
    cases h
    exact ⟨pads, rfl, rfl, hw.length_eq, fun k hk => (hw.next_le k hk).trans (Nat.le_succ n)⟩
  | some id =>
    rw [VideoSettings.feed] at h
    cases htake : pads.taps.take id with
    | error f => 
      rw [htake] at h
      contradiction
    | ok served =>
      rw [htake] at h
      cases h
      obtain ⟨after, htake, htaps, hafter⟩ := SourcePads.take_eq hw hn htake
      exact ⟨after, by rw [feed, htake]; rfl, htaps, hafter⟩

/-- Painting under guard does what painting does.  The induction is on the tiles still to come, of
which `n` are done. -/
theorem paint_eq {total : Nat} {canvas : Pad} {items : List (Tile × Option SourceId)}
    (hw : pads.Within n) (htotal : n + items.length = total) (hsize : total < UInt64.size)
    (h : s.paint n canvas pads.taps items = .ok (nodes, p)) :
    paint s total n canvas pads items = .ok (nodes, p) := by
  induction items generalizing n canvas pads nodes p with
  | nil => 
    cases h
    rfl
  | cons item rest ih =>
    obtain ⟨t, id⟩ := item
    rw [List.length_cons] at htotal
    rw [VideoSettings.paint, bind_eq_ok_iff] at h
    obtain ⟨⟨blank, input, taps⟩, hfeed, h⟩ := h
    obtain ⟨after, hserve, rfl, hafter⟩ := feed_eq hw (by omega) hfeed
    dsimp only at h
    rw [bind_eq_ok_iff] at h
    obtain ⟨⟨layers, out⟩, hrest, h⟩ := h
    have hlast : rest.isEmpty = true ↔ n + 1 = total := by
      rw [List.isEmpty_iff_length_eq_zero]
      omega
    simp only [hlast] at hrest h
    rw [paint, hserve, ok_bind]
    dsimp only
    rw [add_eq_ok (by omega), ok_bind, ih hafter (by omega) hrest]
    cases h
    rfl

end Serving

/-- The picture of one tile that needs nothing under it. -/
def drawAlone (s : VideoSettings) (r : Registry) (t : Tile) (ids : List (Option SourceId)) :
    Except Trap (Graph × Pad) := do
  let id ← lookup ids 0
  let (blank, input, _) ← feed s (.ofRegistry r) 0 t id
  return (⟨r.sourceNodes ++ blank ++ [s.scaleCropNode t input Pad.videoOut]⟩, Pad.videoOut)

def drawStack (s : VideoSettings) (r : Registry) (tiles : List Tile)
    (ids : List (Option SourceId)) : Except Trap (Graph × Pad) := do
  let background := s.colorNode s.canvas Pad.background
  let (nodes, out) ← paint s tiles.length 0 Pad.background (.ofRegistry r) (tiles.zip ids)
  return (⟨r.sourceNodes ++ [background] ++ nodes⟩, out)

def draw (s : VideoSettings) (r : Registry) (tiles : List Tile) (ids : List (Option SourceId)) :
    Except Trap (Graph × Pad) :=
  match tiles with
  | [t] => if t.standsAlone s.canvas then drawAlone s r t ids else drawStack s r [t] ids
  | tiles => drawStack s r tiles ids

variable {s : VideoSettings} {r : Registry}

theorem drawAlone_eq {t : Tile} {id : Option SourceId}
    (hid : ∀ i, id = some i → i.index < r.size) :
    drawAlone s r t [id] = .ok (⟨r.sourceNodes ++ s.loneNodes r t id⟩, Pad.videoOut) := by
  have hfeed := s.feed_tapsAfter [] t hid
  rw [r.tapsAfter_nil, ← SourcePads.taps_ofRegistry, List.length_nil] at hfeed
  obtain ⟨after, hserve, -⟩ := feed_eq (SourcePads.within_ofRegistry r) (by decide) hfeed
  rw [drawAlone, lookup_eq_ok (x := id) rfl, ok_bind, hserve]
  simp [VideoSettings.loneNodes, PadName.pad, pure, Except.pure, bind, Except.bind]

theorem drawStack_eq {tiles : List Tile} {ids : List (Option SourceId)}
    (hlength : ids.length = tiles.length) (hids : ∀ id, some id ∈ ids → id.index < r.size)
    (hsize : tiles.length < UInt64.size) :
    drawStack s r tiles ids = .ok (⟨r.sourceNodes ++ s.stackNodes r (tiles.zip ids)⟩,
      (PadName.finished tiles.length).pad) := by
  have hzip : (tiles.zip ids).length = tiles.length := by
    rw [List.length_zip, hlength, Nat.min_self]
  have hitems : ∀ id, some id ∈ (tiles.zip ids).map (·.2) → id.index < r.size := by
    rwa [List.map_snd_zip hlength.le]
  have hpaint := s.paint_stack (tiles.zip ids) hitems
  rw [← SourcePads.taps_ofRegistry] at hpaint
  rw [drawStack, paint_eq (SourcePads.within_ofRegistry r) (by omega) hsize hpaint]
  simp [VideoSettings.stackNodes, PadName.pad, pure, Except.pure, bind, Except.bind, hzip]

/-- Drawing under guard draws the picture of the tiles, whose sources are all registered. -/
theorem draw_eq {tiles : List Tile} {ids : List (Option SourceId)}
    (hlength : ids.length = tiles.length) (hids : ∀ id, some id ∈ ids → id.index < r.size)
    (hsize : tiles.length < UInt64.size) :
    draw s r tiles ids = .ok (⟨r.sourceNodes ++ s.pictureNodes r (tiles.zip ids)⟩,
      (PadName.finished tiles.length).pad) := by
  have hstack := drawStack_eq (s := s) hlength hids hsize
  cases tiles with
  | nil => exact hstack
  | cons t tiles =>
    cases tiles with
    | nil =>
      obtain ⟨id, rfl⟩ := List.length_eq_one_iff.mp hlength
      simp only [draw, List.zip_cons_cons, List.zip_nil_right, VideoSettings.pictureNodes]
      split
      case isTrue => exact drawAlone_eq fun i hi => hids i (by simp [hi])
      case isFalse => exact hstack
    | cons u tiles =>
      obtain _ | ⟨id, _ | ⟨next, ids⟩⟩ := ids
      · contradiction
      · simp at hlength
      · exact hstack

/-- All sources of the tiles are found in the registry that the tiles were registered in. -/
theorem draw_acquireAll (s : VideoSettings) (r : Registry) (tiles : List Tile)
    (h : tiles.length < UInt64.size) :
    draw s (r.acquireAll tiles).1 tiles (r.acquireAll tiles).2 =
      .ok (⟨(r.acquireAll tiles).1.sourceNodes ++
          s.pictureNodes (r.acquireAll tiles).1 (tiles.zip (r.acquireAll tiles).2)⟩,
        (PadName.finished tiles.length).pad) := by
  refine draw_eq ?_ (fun id hid => Registry.index_lt_of_mem_acquireAll hid) h
  rw [Registry.acquireAll_ids, List.length_map]

end Montage.Guarded
