import Mathlib
import Montage.Proofs.Command.Streams
import Montage.Proofs.Picture.Panes

/-!
The graph of a request shows what the request asks for.  Each tile shows the picture of its pane,
each canvas the panes laid so far, and the picture with no canvas under it is the same as if there
were one: its pane has every pixel at every moment before the end.
-/

namespace Montage

variable {κ : Type} {proc : Processor κ} {file : String → Picture κ} {v : Pad → Picture κ}

theorem Graph.LeadsTo.picture_eq {g : Graph} {q : Pad} {uses i : Nat} (h : g.LeadsTo q uses i)
    {stream : Nat → Option (Picture κ)} (hv : Plays proc stream g.nodes v) {pic : Picture κ}
    (hpic : stream i = some pic) : v q = pic := by
  unfold LeadsTo at h
  split at h
  case isTrue =>
    obtain ⟨hmem, hout⟩ := mem_of_writer?_eq_some h
    exact hv _ hmem pic hpic q hout
  case isFalse =>
    obtain ⟨input, copies, hsplit, hinput⟩ := h
    obtain ⟨hmem, hout⟩ := mem_of_writer?_eq_some hinput
    obtain ⟨hmem', hout'⟩ := mem_of_writer?_eq_some hsplit
    calc
      v q = v input := hv _ hmem' (v input) rfl q hout'
      _ = pic := hv _ hmem pic hpic input hout

namespace PadName

/-- The canvas with the first so many of all layers on it. -/
def canvasAfter (total k : Nat) : PadName := if k = total then finished total else canvasBelow k

theorem canvasAfter_zero (total : Nat) : canvasAfter total 0 = .background := by
  cases total <;> simp [canvasAfter, finished, canvasBelow]

theorem canvasAfter_self (total : Nat) : canvasAfter total total = finished total := if_pos rfl

theorem canvasAfter_of_lt {total k : Nat} (h : k < total) :
    canvasAfter total k = canvasBelow k := if_neg h.ne

theorem canvasAfter_succ {total k : Nat} (h : k < total) :
    canvasAfter total (k + 1) = canvasAbove total k := by
  unfold canvasAfter canvasAbove
  apply if_congr Iff.rfl
  · exact if_neg (Nat.ne_zero_of_lt h)
  · rfl

end PadName

namespace Plan

variable {pow : Power} {r : Request} (p : Plan pow r)

theorem length_items_eq : p.items.length = r.panes.length := by
  rw [p.length_items, p.tiles_eq, List.length_map]

variable (hv : Plays proc (fun i => p.declared[i]?.map file) p.graph.nodes v)
include hv

/-- A tile is fed with what its pane is made from, given that the node of a blank one is there. -/
theorem feed_eq {n : Nat} {q : Pane} (hq : r.panes[n]? = some q)
    (hback : r.videoSettings.backdrop n q.tile (p.sourceOf q.tile.file) ⊆ p.graph.nodes) :
    v (p.registry.feed ((p.items.map (·.2)).take n) (p.sourceOf q.tile.file)).pad =
      q.footage proc file := by
  have hid : (p.items.map (·.2))[n]? = some (p.sourceOf q.tile.file) := by
    rw [List.getElem?_map, p.getElem?_items (p.getElem?_tiles hq)]
    rfl
  unfold Pane.footage
  cases hfile : q.file.isEmpty with
  | true =>
    have hsource : p.sourceOf q.tile.file = none := by simp [sourceOf, Pane.tile, hfile]
    rw [hsource] at hid hback ⊢
    rw [Registry.Counts.feed_blank hid]
    apply hv (r.videoSettings.colorNode q.region.size (PadName.blank n).pad)
    · exact hback (List.mem_singleton_self _)
    · rfl
    · exact List.mem_singleton_self _
  | false =>
    have hsource : p.sourceOf q.tile.file = some ⟨p.registry.paths.idxOf q.file⟩ := by
      simp [sourceOf, Pane.tile, hfile]
    rw [hsource] at hid ⊢
    have hpath := p.mem_paths_of_mem_panes (List.mem_of_getElem? hq) hfile
    apply (p.leadsTo_feed hid).picture_eq hv
    rw [p.declared_idxOf hpath]
    rfl

theorem agrees_tile {n : Nat} {q : Pane} (hq : r.panes[n]? = some q)
    (hback : r.videoSettings.backdrop n q.tile (p.sourceOf q.tile.file) ⊆ p.graph.nodes)
    {out : Pad} (hn : r.videoSettings.scaleCropNode q.tile
      (p.registry.feed ((p.items.map (·.2)).take n) (p.sourceOf q.tile.file)).pad out ∈
        p.graph.nodes) :
    (v out).Agrees (q.picture proc file r.grade) := by
  have hout := hv _ hn _ rfl out (List.mem_singleton_self _)
  rw [hout]
  change (proc.cut q.tile.fit.fitted q.tile.fit.crop _ (v _)).Agrees _
  rw [p.feed_eq hv hq hback]
  apply q.agrees_cut_tile
  · intro hfile
    simp [Pane.tile, hfile, Request.grade]
  · intro hfile
    simp [Pane.tile, hfile]

/-- Every canvas shows the panes laid up to it.  The induction is on how many there are. -/
theorem canvas_eq (hstack : r.videoSettings.stackNodes p.registry p.items ⊆ p.graph.nodes)
    {k : Nat} (hk : k ≤ r.panes.length) :
    v (PadName.canvasAfter r.panes.length k).pad =
      (r.panes.take k).foldl (Pane.lay proc file r.grade) (proc.plain r.canvas) := by
  induction k with
  | zero =>
    rw [PadName.canvasAfter_zero]
    apply hv (r.videoSettings.colorNode r.canvas PadName.background.pad)
    · exact hstack (VideoSettings.mem_stackNodes.mpr (.inl rfl))
    · rfl
    · exact List.mem_singleton_self _
  | succ k ih =>
    have hq : r.panes[k]? = some r.panes[k] := List.getElem?_eq_getElem hk
    generalize r.panes[k] = q at hq
    have hl := List.mem_of_getElem? (p.getElem?_layers (p.getElem?_tiles hq))
    have hnodes := List.Subset.trans (VideoSettings.nodes_subset_stackNodes hl) hstack
    have htile := p.agrees_tile hv hq (List.Subset.trans (List.subset_append_left _ _) hnodes)
      (hnodes (List.mem_append_right _ (List.mem_cons_self ..)))
    have hover := hv _ (hnodes (List.mem_append_right _ (List.mem_cons_of_mem _
      (List.mem_singleton_self _)))) _ rfl _ (List.mem_singleton_self _)
    rw [p.length_items_eq] at hover
    rw [PadName.canvasAfter_succ hk, hover, List.take_add_one, hq, Option.toList_some,
      List.foldl_append, List.foldl_cons, List.foldl_nil, ← ih (Nat.le_of_succ_le hk),
      PadName.canvasAfter_of_lt hk]
    exact Picture.overlay_congr htile ..

theorem paintedBy : r.PaintedBy proc file r.duration (v p.outputs.video) := by
  have hpicture : r.videoSettings.pictureNodes p.registry p.items ⊆ p.graph.nodes :=
    fun n hn => List.mem_append_left _ (List.mem_append_right _ hn)
  cases r.videoSettings.pictureForm p.registry p.items with
  | lone t id hitems halone hnodes =>
    obtain ⟨q, hq⟩ : ∃ q, r.panes = [q] := by
      rw [← List.length_eq_one_iff, ← p.length_items_eq, hitems]
      rfl
    have hq₀ : r.panes[0]? = some q := by simp [hq]
    have hitem := p.getElem?_items (p.getElem?_tiles hq₀)
    rw [hitems] at hitem
    obtain ⟨rfl, rfl⟩ : t = q.tile ∧ id = p.sourceOf q.tile.file := by simpa using hitem
    rw [hnodes] at hpicture
    have htotal : p.tiles.length = 1 := by rw [← p.length_items, hitems]; rfl
    have hvideo : p.outputs.video = PadName.videoOut.pad := by
      rw [outputs, htotal]
      rfl
    rw [hvideo]
    apply Request.paintedBy_lone p.pictureFaults_eq hq halone
    apply p.agrees_tile hv hq₀
    · exact List.Subset.trans (List.subset_append_left _ _) hpicture
    · exact hpicture (List.mem_append_right _ (List.mem_singleton_self _))
  | stack hnodes =>
    rw [hnodes] at hpicture
    have hcanvas := p.canvas_eq hv hpicture (Nat.le_refl _)
    rw [PadName.canvasAfter_self, List.take_length, ← p.length_items_eq, p.length_items] at hcanvas
    rw [outputs, hcanvas]
    exact Request.paintedBy_stack r.duration

end Plan

theorem Plan.exists_plays {pow : Power} {r : Request} (p : Plan pow r)
    (stream : Nat → Option (Picture κ)) : ∃ v, Plays proc stream p.graph.nodes v := by
  have hn : (written p.graph.ordered).Nodup :=
    (p.graph.ordered_perm.flatMap_right _).nodup_iff.mpr p.linked.written_nodup
  obtain ⟨v, -, hv⟩ : ∃ v, _ ∧ Plays proc stream p.graph.ordered v :=
    p.wired.exists_plays hn fun _ => proc.plain ⟨0, 0⟩
  exact ⟨v, hv.mono p.graph.ordered_perm.symm.subset⟩

/-- Shades of grey, from black at zero to white at one, that are scaled to the nearest pixel. -/
def Processor.grey : Processor ℚ where
  black := 0
  scale grade size p τ x y :=
    let shade := p.colour τ (x * p.size.width.toNat / size.width.toNat)
      (y * p.size.height.toNat / size.height.toNat)
    match grade.bind (·.equalizer) with
    | some e =>
      max 0 (min 1 ((shade - 1 / 2) * Decimal.value e.contrast + 1 / 2 +
        Decimal.value e.brightness))
    | none => shade
  scale_self p τ x y hx hy := by
    simp [Nat.mul_div_cancel _ (Nat.zero_lt_of_lt hx), Nat.mul_div_cancel _ (Nat.zero_lt_of_lt hy)]

/-- A still that is brighter to the right. -/
def Picture.ramp (size : Size) : Picture ℚ := ⟨size, fun _ x _ => x / size.width.toNat⟩

end Montage
