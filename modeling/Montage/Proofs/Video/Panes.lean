import Mathlib
import Montage.Proofs.Layout.Fit
import Montage.Proofs.Verdict
import Montage.Timeline.Request

/-!
What a request asks to be shown, region by region, and what is wrong with it.  Planning the tiles
comes down to two lists that are read off the request: its panes, and the complaints about it.
-/

namespace Montage

/-- A region of a track with the file that is to fill it; an empty name leaves it blank. -/
structure Pane where
  file : String
  native : Size
  region : Rect
  interval : Interval

namespace Pane

/-- The size that is scaled; a blank pane is as large as its region. -/
def shown (p : Pane) : Size := if p.file.isEmpty then p.region.size else p.native

def Fillable (p : Pane) : Prop := p.file.isEmpty ∨ p.native.Coverable p.region.size

instance (p : Pane) : Decidable p.Fillable := inferInstanceAs (Decidable (_ ∨ _))

def tile (p : Pane) : Tile where
  file := if p.file.isEmpty then none else some p.file
  fit := Fit.covering p.shown p.region.size
  region := p.region
  interval := p.interval

theorem fillable_iff {p : Pane} (h : p.region.size.isEmpty = false) :
    p.Fillable ↔ p.shown.Coverable p.region.size := by
  unfold Fillable shown
  split
  case isTrue hblank => simp [hblank, Size.coverable_self h]
  case isFalse hfile => simp [hfile]

/-- Only a pane that shows a file can be refused, so the refusal names the size of that file. -/
theorem plan_eq {p : Pane} (h : p.region.size.isEmpty = false) (track : TrackRef) :
    Tile.plan track p.interval p.file p.native p.region =
      verdict (complain p.Fillable (.rejected (.invalidParameter track (.resolution p.native))))
        p.tile := by
  rw [Tile.plan, ← shown, fitAndCrop_eq, complain_congr (fillable_iff h)]
  by_cases hc : p.shown.Coverable p.region.size
  · rw [if_pos hc, complain, if_pos hc]
    rfl
  · have hfile : ¬p.file.isEmpty := fun hf => hc ((fillable_iff h).mp (.inl hf))
    have hshown : p.shown = p.native := if_neg hfile
    rw [if_neg hc, complain, if_neg hc, hshown]
    rfl

end Pane

namespace VideoTrack

/-- The panes of a track; a layout that there is not has none. -/
def panes (t : VideoTrack) (canvas : Size) : List Pane :=
  match LayoutKind.named? t.layout with
  | none => []
  | some kind =>
    ((t.files.zip t.resolutions).zip (kind.regions canvas)).map fun ((file, native), region) =>
      ⟨file, native, region, t.interval⟩

/-- What is wrong with a track, in the order it is looked for. -/
def faults (t : VideoTrack) (canvas : Size) (index : Nat) : List CompileError :=
  let track := TrackRef.video index
  match LayoutKind.named? t.layout with
  | none => [.invalidLayout t.layout]
  | some kind =>
    complain (t.files.length = kind.regionCount)
        (.layoutMismatch track kind .files kind.regionCount t.files.length) ++
      (complain (t.resolutions.length = t.files.length)
          (.layoutMismatch track kind .resolutions t.files.length t.resolutions.length) ++
        (complain t.interval.isValid (.invalidParameter track (.interval t.interval)) ++
          (complain (kind = .single ∨ 2 ≤ canvas.width.toNat ∧ 2 ≤ canvas.height.toNat)
              (.invalidCanvas canvas (.tooSmall kind)) ++
            (t.panes canvas).flatMap fun p =>
              complain p.Fillable (.invalidParameter track (.resolution p.native)))))

theorem mapM_plan {regions : List Rect} (h : regions.any (·.size.isEmpty) = false)
    (interval : Interval) (shown : List (String × Size)) (track : TrackRef) :
    ((shown.zip regions).mapM fun ((file, native), region) =>
      Tile.plan track interval file native region) =
      let panes := (shown.zip regions).map fun ((file, native), region) =>
        Pane.mk file native region interval
      verdict (panes.flatMap fun p =>
          complain p.Fillable (.rejected (.invalidParameter track (.resolution p.native))))
        (panes.map Pane.tile) := by
  rw [List.any_eq_false] at h
  dsimp only
  rw [List.flatMap_map, List.map_map]
  apply verdict_mapM
  rintro ⟨⟨file, native⟩, region⟩ hx
  have hregion : region.size.isEmpty = false := by simpa using h region (List.of_mem_zip hx).2
  exact Pane.plan_eq (p := ⟨file, native, region, interval⟩) hregion track

theorem planTrack_eq {canvas : Size} (hcanvas : canvas.isEmpty = false) (t : VideoTrack)
    (index : Nat) :
    Tile.planTrack canvas t index =
      verdict ((t.faults canvas index).map Fault.rejected) ((t.panes canvas).map Pane.tile) := by
  unfold Tile.planTrack faults panes
  cases hkind : LayoutKind.named? t.layout with
  | none => rfl
  | some kind =>
    simp only [kind.template_eq, Fault.ofOverflow, pure_bind, List.map_append, map_complain,
      List.map_flatMap]
    apply check_eq_verdict Iff.rfl
    intro _
    apply check_eq_verdict Iff.rfl
    intro _
    apply check_eq_verdict (by simp)
    intro _
    have hsmall := kind.any_isEmpty_regions hcanvas
    rw [ok_bind]
    apply check_eq_verdict (by rw [← hsmall, Bool.not_eq_false])
    intro hsize
    exact mapM_plan (hsmall.mpr hsize) t.interval (t.files.zip t.resolutions) (.video index)

variable {t : VideoTrack} {canvas : Size} {index : Nat}

theorem exists_kind_of_faults_eq_nil (h : t.faults canvas index = []) :
    ∃ kind, LayoutKind.named? t.layout = some kind ∧ t.files.length = kind.regionCount ∧
      t.resolutions.length = t.files.length ∧ t.interval.isValid ∧
      (kind = .single ∨ 2 ≤ canvas.width.toNat ∧ 2 ≤ canvas.height.toNat) ∧
      ∀ p ∈ t.panes canvas, p.Fillable := by
  unfold faults at h
  cases hkind : LayoutKind.named? t.layout with
  | none => simp [hkind] at h
  | some kind =>
    simp only [hkind, List.append_eq_nil_iff, complain_eq_nil_iff, List.flatMap_eq_nil_iff] at h
    exact ⟨kind, rfl, h⟩

theorem interval_eq_of_mem_panes {p : Pane} (hp : p ∈ t.panes canvas) :
    p.interval = t.interval := by
  unfold panes at hp
  cases hkind : LayoutKind.named? t.layout with
  | none => simp [hkind] at hp
  | some kind =>
    rw [hkind] at hp
    obtain ⟨x, -, rfl⟩ := List.mem_map.mp hp
    rfl

theorem map_file_panes (h : t.faults canvas index = []) :
    (t.panes canvas).map (·.file) = t.files := by
  obtain ⟨kind, hkind, hfiles, hsizes, -⟩ := exists_kind_of_faults_eq_nil h
  have hfst : ((t.files.zip t.resolutions).zip (kind.regions canvas)).map (·.1.1) = t.files := by
    calc
      _ = (((t.files.zip t.resolutions).zip (kind.regions canvas)).map (·.1)).map (·.1) := by
        rw [List.map_map]
        rfl
      _ = t.files := by
        rw [List.map_fst_zip (by simp [hfiles, hsizes]), List.map_fst_zip hsizes.ge]
  simp only [panes, hkind, List.map_map]
  exact hfst

theorem panes_ne_nil (h : t.faults canvas index = []) : t.panes canvas ≠ [] := by
  obtain ⟨kind, -, hfiles, -⟩ := exists_kind_of_faults_eq_nil h
  intro hnil
  rw [← map_file_panes h, hnil] at hfiles
  cases kind <;> contradiction

theorem length_panes_le (t : VideoTrack) (canvas : Size) : (t.panes canvas).length ≤ 4 := by
  unfold panes
  cases LayoutKind.named? t.layout with
  | none => exact Nat.zero_le 4
  | some kind =>
    have hcount : kind.regionCount ≤ 4 := by cases kind <;> decide
    simp only [List.length_map, List.length_zip, LayoutKind.length_regions]
    omega

end VideoTrack

namespace Request

def panes (r : Request) : List Pane := r.videoTracks.flatMap (·.panes r.canvas)

/-- What is wrong with the picture, in the order it is looked for. -/
def pictureFaults (r : Request) : List CompileError :=
  complain (r.canvas.isEmpty = false) (.invalidCanvas r.canvas .empty) ++
    r.videoTracks.zipIdx.flatMap fun (t, i) => t.faults r.canvas i

/-- The files that are shown, each where it is first named. -/
def videoPaths (r : Request) : List String :=
  ((r.videoTracks.flatMap (·.files)).filter (!·.isEmpty)).eraseDups

theorem length_panes_le (r : Request) : r.panes.length ≤ 4 * r.videoTracks.length := by
  have hsum := List.sum_le_card_nsmul (r.videoTracks.map fun t => (t.panes r.canvas).length) 4
    fun n hn => by
      obtain ⟨t, -, rfl⟩ := List.mem_map.mp hn
      exact t.length_panes_le r.canvas
  rw [panes, List.length_flatMap]
  rw [List.length_map, smul_eq_mul] at hsum
  omega

variable {r : Request}

theorem faults_eq_nil (h : r.pictureFaults = []) {t : VideoTrack} (ht : t ∈ r.videoTracks) :
    ∃ i, t.faults r.canvas i = [] := by
  obtain ⟨i, hi⟩ := List.mem_iff_getElem?.mp ht
  rw [pictureFaults, List.append_eq_nil_iff, List.flatMap_eq_nil_iff] at h
  exact ⟨i, h.2 (t, i) (List.mem_zipIdx_iff_getElem?.mpr hi)⟩

theorem exists_pane (h : r.pictureFaults = []) {t : VideoTrack} (ht : t ∈ r.videoTracks) :
    ∃ p ∈ r.panes, p.interval = t.interval := by
  obtain ⟨i, hi⟩ := faults_eq_nil h ht
  obtain ⟨p, hp⟩ := List.exists_mem_of_ne_nil _ (VideoTrack.panes_ne_nil hi)
  exact ⟨p, List.mem_flatMap.mpr ⟨t, ht, hp⟩, VideoTrack.interval_eq_of_mem_panes hp⟩

theorem isValid_interval (h : r.pictureFaults = []) {p : Pane} (hp : p ∈ r.panes) :
    p.interval.isValid := by
  obtain ⟨t, ht, hp⟩ := List.mem_flatMap.mp hp
  obtain ⟨i, hi⟩ := faults_eq_nil h ht
  obtain ⟨-, -, -, -, hinterval, -⟩ := VideoTrack.exists_kind_of_faults_eq_nil hi
  rwa [VideoTrack.interval_eq_of_mem_panes hp]

theorem map_file_panes (h : r.pictureFaults = []) :
    r.panes.map (·.file) = r.videoTracks.flatMap (·.files) := by
  rw [panes, List.map_flatMap]
  apply List.flatMap_congr
  intro t ht
  obtain ⟨i, hi⟩ := faults_eq_nil h ht
  exact VideoTrack.map_file_panes hi

theorem filterMap_file_tiles (h : r.pictureFaults = []) :
    (r.panes.map Pane.tile).filterMap (·.file) =
      (r.videoTracks.flatMap (·.files)).filter (!·.isEmpty) := by
  rw [← map_file_panes h, List.filterMap_map, List.filter_map, ← List.filterMap_eq_map,
    ← List.filterMap_eq_filter, List.filterMap_filterMap]
  congr 1
  funext p
  by_cases hp : p.file.isEmpty <;> simp [Pane.tile, hp, Option.guard]

theorem planAll_eq (r : Request) :
    Tile.planAll r.videoTracks r.canvas =
      verdict (r.pictureFaults.map Fault.rejected) (r.panes.map Pane.tile) := by
  rw [Tile.planAll, pictureFaults, List.map_append, map_complain, List.map_flatMap]
  apply check_eq_verdict (by simp)
  intro hcanvas
  have htiles : ((r.videoTracks.zipIdx.map fun x => (x.1.panes r.canvas).map Pane.tile)).flatten =
      r.panes.map Pane.tile := by
    rw [panes, List.map_flatMap, ← List.flatMap_def, ← List.zipIdx_map_fst 0 r.videoTracks,
      List.flatMap_map, List.zipIdx_map_fst]
  rw [verdict_mapM fun x _ => VideoTrack.planTrack_eq hcanvas x.1 x.2, ← htiles]
  exact verdict_bind_ok rfl

end Request

end Montage
