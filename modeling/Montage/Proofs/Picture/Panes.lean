import Mathlib
import Montage.Proofs.Picture.Meaning
import Montage.Proofs.Video.Panes
import Montage.Command.Compile

/-!
What a request asks to be seen.  Panes are laid on a black canvas one after the other, so at every
moment and place the last pane there is seen.
-/

namespace Montage

def Request.grade (r : Request) (file : String) : Option Grade :=
  (r.videoSettings.effectsFor? file).bind Grade.ofEffects

variable {κ : Type} (proc : Processor κ) (file : String → Picture κ) (grade : String → Option Grade)

namespace Pane

def Shows (p : Pane) (τ : ℝ) (x y : Nat) : Prop := p.interval.Holds τ ∧ p.region.Contains x y

noncomputable instance (p : Pane) (τ : ℝ) (x y : Nat) : Decidable (p.Shows τ x y) :=
  inferInstanceAs (Decidable (_ ∧ _))

/-- What fills the region: black, or the part that is kept of the scaled picture of the file. -/
def picture (p : Pane) : Picture κ :=
  if p.file.isEmpty then proc.plain p.region.size
  else
    let fit := Fit.covering p.native p.region.size
    proc.cut fit.fitted fit.crop (grade p.file) (file p.file)

def footage (p : Pane) : Picture κ :=
  if p.file.isEmpty then proc.plain p.region.size else file p.file

@[simp] theorem size_picture (p : Pane) : (p.picture proc file grade).size = p.region.size := by
  unfold picture
  split <;> rfl

/-- What is seen of a pane at a pixel of the canvas. -/
def colour (p : Pane) (τ : ℝ) (x y : Nat) : κ :=
  (p.picture proc file grade).colour τ (x - p.region.origin.x.toNat) (y - p.region.origin.y.toNat)

noncomputable def lay (canvas : Picture κ) (p : Pane) : Picture κ :=
  canvas.overlay (p.picture proc file grade) p.region.origin p.interval

theorem covering_self_of_size {s : Size} (h : s.isEmpty = false) :
    (Fit.covering s s).fitted = s ∧ (Fit.covering s s).crop = ⟨⟨0, 0⟩, s⟩ := by
  simp [Fit.covering, Size.covering_self h]

/-- Scaling a blank picture to its own size leaves it blank, so the tile of a pane shows the
picture of the pane. -/
theorem agrees_cut_tile (p : Pane) {g : Option Grade}
    (hg : p.file.isEmpty = false → g = grade p.file) (hblank : p.file.isEmpty → g = none) :
    (proc.cut p.tile.fit.fitted p.tile.fit.crop g (p.footage proc file)).Agrees
      (p.picture proc file grade) := by
  cases hfile : p.file.isEmpty with
  | false =>
    simp only [tile, shown, footage, picture, hfile, hg hfile]
    exact Picture.Agrees.refl _
  | true =>
    simp only [tile, shown, footage, picture, hfile, hblank hfile, if_true]
    cases hempty : p.region.size.isEmpty with
    | false =>
      rw [(covering_self_of_size hempty).1, (covering_self_of_size hempty).2]
      exact proc.agrees_cut_self (proc.plain p.region.size)
    | true =>
      refine ⟨rfl, ?_⟩
      intro τ x y hx hy
      exfalso
      have hpixel : p.region.size.isEmpty = false :=
        Size.isEmpty_eq_false_iff.mpr ⟨Nat.one_le_of_lt hx, Nat.one_le_of_lt hy⟩
      simp [hempty] at hpixel

/-- The pane seen in a stack: the last one that shows something there. -/
noncomputable def top? (ps : List Pane) (τ : ℝ) (x y : Nat) : Option Pane :=
  (ps.filter fun p => p.Shows τ x y).getLast?

theorem top?_cons (p : Pane) (ps : List Pane) (τ : ℝ) (x y : Nat) :
    top? (p :: ps) τ x y = (top? ps τ x y).or (if p.Shows τ x y then some p else none) := by
  unfold top?
  rw [List.filter_cons]
  by_cases h : p.Shows τ x y
  · simp only [h, decide_true, if_true, List.getLast?_cons]
    cases (ps.filter fun p => p.Shows τ x y).getLast? <;> rfl
  · simp [h]

theorem size_foldl_lay (ps : List Pane) (canvas : Picture κ) :
    (ps.foldl (lay proc file grade) canvas).size = canvas.size := by
  induction ps generalizing canvas with
  | nil => rfl
  | cons p ps ih => exact ih _

theorem colour_lay (p : Pane) (canvas : Picture κ) (τ : ℝ) (x y : Nat) :
    (lay proc file grade canvas p).colour τ x y =
      if p.Shows τ x y then p.colour proc file grade τ x y else canvas.colour τ x y := by
  simp only [lay, Picture.overlay, size_picture]
  rfl

/-- The induction is on the panes still to be laid. -/
theorem colour_foldl_lay (ps : List Pane) (canvas : Picture κ) (τ : ℝ) (x y : Nat) :
    (ps.foldl (lay proc file grade) canvas).colour τ x y =
      (top? ps τ x y).elim (canvas.colour τ x y) fun p => p.colour proc file grade τ x y := by
  induction ps generalizing canvas with
  | nil => rfl
  | cons p ps ih =>
    rw [List.foldl_cons, ih, top?_cons, colour_lay]
    cases top? ps τ x y with
    | some q => rfl
    | none => by_cases h : p.Shows τ x y <;> simp [h]

end Pane

namespace Request

/-- What is to be seen at a moment and a pixel of the canvas. -/
noncomputable def painted (r : Request) (τ : ℝ) (x y : Nat) : κ :=
  match Pane.top? r.panes τ x y with
  | some p => p.colour proc file r.grade τ x y
  | none => proc.black

/-- A picture of the size of the canvas that shows what is to be seen, up to a time. -/
structure PaintedBy (r : Request) (duration : Float) (pic : Picture κ) : Prop where
  size_eq : pic.size = r.canvas
  colour_eq : ∀ (τ : ℝ) (x y : Nat), 0 ≤ τ → τ < (Decimal.value duration : ℝ) →
    x < r.canvas.width.toNat → y < r.canvas.height.toNat →
      pic.colour τ x y = r.painted proc file τ x y

variable {proc file} {r : Request}

theorem paintedBy_stack (duration : Float) :
    r.PaintedBy proc file duration
      (r.panes.foldl (Pane.lay proc file r.grade) (proc.plain r.canvas)) where
  size_eq := Pane.size_foldl_lay ..
  colour_eq τ x y _ _ _ _ := by
    rw [Pane.colour_foldl_lay, painted]
    cases Pane.top? r.panes τ x y <;> rfl

/-- The pane of a request that fills the canvas from the start lasts to the end. -/
theorem shows_of_standsAlone (h : r.pictureFaults = []) {p : Pane} (hp : r.panes = [p])
    (halone : p.tile.standsAlone r.canvas) {τ : ℝ} (h₀ : 0 ≤ τ)
    (hτ : τ < (Decimal.value r.duration : ℝ)) {x y : Nat} (hx : x < r.canvas.width.toNat)
    (hy : y < r.canvas.height.toNat) : p.Shows τ x y := by
  simp only [Tile.standsAlone, Rect.coversCanvas, Bool.and_eq_true, beq_iff_eq] at halone
  obtain ⟨⟨horigin, hsize⟩, hstart⟩ := halone
  have hfinite := Interval.isFinite_start (isValid_interval h (by simp [hp] : p ∈ r.panes))
  have hstop : p.interval.stop = r.duration := by
    obtain ⟨t, ht, hstop⟩ := exists_stop_eq_duration h₀ hτ
    obtain ⟨q, hq, hinterval⟩ := exists_pane h ht
    rw [hp, List.mem_singleton] at hq
    rw [← hstop, ← hinterval, hq]
  change p.region.origin = _ at horigin
  change p.region.size = _ at hsize
  refine ⟨⟨?_, ?_⟩, ⟨?_, ?_⟩, ?_, ?_⟩
  · have hzero := (Decimal.beq_iff_value_eq hfinite Decimal.isFinite_zero).mp hstart
    rwa [hzero, Decimal.value_zero, Rat.cast_zero]
  · rwa [hstop]
  · simp [horigin]
  · simpa [horigin, hsize] using hx
  · simp [horigin]
  · simpa [horigin, hsize] using hy

theorem paintedBy_lone (h : r.pictureFaults = []) {p : Pane} (hp : r.panes = [p])
    (halone : p.tile.standsAlone r.canvas) {pic : Picture κ}
    (hpic : pic.Agrees (p.picture proc file r.grade)) :
    r.PaintedBy proc file r.duration pic := by
  have hcovers := halone
  simp only [Tile.standsAlone, Rect.coversCanvas, Bool.and_eq_true, beq_iff_eq] at hcovers
  have horigin : p.region.origin = ⟨0, 0⟩ := hcovers.1.1
  have hsize : pic.size = r.canvas := by
    rw [hpic.size_eq, Pane.size_picture]
    exact hcovers.1.2
  refine ⟨hsize, ?_⟩
  intro τ x y h₀ hτ hx hy
  have hshows := shows_of_standsAlone h hp halone h₀ hτ hx hy
  have htop : Pane.top? r.panes τ x y = some p := by simp [hp, Pane.top?, hshows]
  rw [painted, htop]
  change pic.colour τ x y = p.colour proc file r.grade τ x y
  rw [Pane.colour, horigin]
  apply hpic.colour_eq <;> rwa [hsize]

end Request

end Montage
