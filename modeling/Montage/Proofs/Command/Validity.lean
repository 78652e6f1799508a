import Mathlib
import Montage.Proofs.Command.Plan
import Montage.Proofs.Decimal.Value

/-!
Which requests are compiled.  A request is compiled exactly if it is valid; otherwise it is
rejected for the first of its faults, in the order canvas, video tracks, audio tracks.
-/

namespace Montage

theorem LayoutKind.named?_eq_some_iff {s : String} {kind : LayoutKind} :
    named? s = some kind ↔ s = kind.name ∨ s = kind.glyph := by
  constructor
  · intro h
    have hkind := List.find?_some h
    simpa using hkind
  · rintro (rfl | rfl) <;> cases kind <;> rfl

@[simp] theorem LayoutKind.named?_name (kind : LayoutKind) : named? kind.name = some kind :=
  named?_eq_some_iff.mpr (.inl rfl)

@[simp] theorem LayoutKind.named?_glyph (kind : LayoutKind) : named? kind.glyph = some kind :=
  named?_eq_some_iff.mpr (.inr rfl)

/-- A layout that the track names, with a file and a size for each of its regions. -/
structure VideoTrack.Valid (t : VideoTrack) (canvas : Size) (kind : LayoutKind) : Prop where
  layout : t.layout = kind.name ∨ t.layout = kind.glyph
  files : t.files.length = kind.regionCount
  resolutions : t.resolutions.length = t.files.length
  start_finite : t.interval.start.isFinite
  stop_finite : t.interval.stop.isFinite
  start_nonneg : 0 ≤ t.interval.start
  start_le_stop : t.interval.start ≤ t.interval.stop
  room : kind = .single ∨ 2 ≤ canvas.width.toNat ∧ 2 ≤ canvas.height.toNat
  covered : ∀ (i : Nat) (file : String) (native : Size) (region : Rect), t.files[i]? = some file →
    t.resolutions[i]? = some native → (kind.regions canvas)[i]? = some region → file ≠ "" →
      native.width ≠ 0 ∧ native.height ≠ 0 ∧
        (native.covering region.size).1 < 2 ^ 32 ∧ (native.covering region.size).2 < 2 ^ 32

/-- Settings in range, where those of an echo count only if it is heard. -/
structure AudioTrack.Valid (t : AudioTrack) : Prop where
  volume_finite : t.volume.isFinite
  volume_nonneg : 0 ≤ t.volume
  startTime_finite : t.startTime.isFinite
  startTime_nonneg : 0 ≤ t.startTime
  reverb : t.reverb.enabled → (0 < t.reverb.delayMs ∧ t.reverb.delayMs ≤ 90000) ∧
    (0 < t.reverb.decay ∧ t.reverb.decay ≤ 1)
  echo : t.reverb.enabled = false → t.echo.enabled →
    (0 < t.echo.delayMs ∧ t.echo.delayMs ≤ 90000) ∧ (0 < t.echo.decay ∧ t.echo.decay ≤ 1) ∧
      (0 < t.echo.inGain ∧ t.echo.inGain ≤ 1) ∧ (0 < t.echo.outGain ∧ t.echo.outGain ≤ 1)

structure Request.Valid (r : Request) : Prop where
  width : 1 ≤ r.canvas.width.toNat
  height : 1 ≤ r.canvas.height.toNat
  video : ∀ t ∈ r.videoTracks, ∃ kind, t.Valid r.canvas kind
  audio : ∀ t ∈ r.audioTracks, t.Valid

section Settings

variable {x : Float}

theorem isLevel_iff : isLevel x ↔ x.isFinite ∧ 0 ≤ x := by
  simp only [isLevel, Bool.and_eq_true, Bool.not_eq_true', decide_eq_false_iff_not]
  apply and_congr_right
  intro h
  rw [Decimal.lt_iff_value_lt h Decimal.isFinite_zero,
    Decimal.le_iff_value_le Decimal.isFinite_zero h, not_lt]

theorem isEchoDelay_iff : isEchoDelay x ↔ 0 < x ∧ x ≤ 90000 := by
  have hmax : maxEchoDelayMs.isFinite := by decide +kernel
  simp only [isEchoDelay, Bool.and_eq_true, decide_eq_true_eq, and_assoc]
  exact ⟨And.right, fun h => ⟨Decimal.isFinite_of_pos_of_le hmax h.1 h.2, h⟩⟩

theorem isShare_iff : isShare x ↔ 0 < x ∧ x ≤ 1 := by
  have hone : (1 : Float).isFinite := by decide +kernel
  simp only [isShare, Bool.and_eq_true, decide_eq_true_eq, and_assoc]
  exact ⟨And.right, fun h => ⟨Decimal.isFinite_of_pos_of_le hone h.1 h.2, h⟩⟩

end Settings

theorem AudioTrack.faults_eq_nil_iff {t : AudioTrack} {index : Nat} :
    t.faults index = [] ↔ t.Valid := by
  have hreflections : t.reflectionFaults index = [] ↔
      (t.reverb.enabled → (0 < t.reverb.delayMs ∧ t.reverb.delayMs ≤ 90000) ∧
        (0 < t.reverb.decay ∧ t.reverb.decay ≤ 1)) ∧
      (t.reverb.enabled = false → t.echo.enabled →
        (0 < t.echo.delayMs ∧ t.echo.delayMs ≤ 90000) ∧
          (0 < t.echo.decay ∧ t.echo.decay ≤ 1) ∧ (0 < t.echo.inGain ∧ t.echo.inGain ≤ 1) ∧
            (0 < t.echo.outGain ∧ t.echo.outGain ≤ 1)) := by
    unfold reflectionFaults complaint
    cases t.reverb.enabled <;> cases t.echo.enabled <;>
      simp [isEchoDelay_iff, isShare_iff]
  simp only [faults, complaint, List.append_eq_nil_iff, complain_eq_nil_iff, isLevel_iff,
    hreflections]
  constructor
  · rintro ⟨⟨hvf, hv⟩, ⟨hsf, hs⟩, hreverb, hecho⟩
    exact ⟨hvf, hv, hsf, hs, hreverb, hecho⟩
  · rintro ⟨hvf, hv, hsf, hs, hreverb, hecho⟩
    exact ⟨⟨hvf, hv⟩, ⟨hsf, hs⟩, hreverb, hecho⟩

theorem Interval.isValid_iff {i : Interval} :
    i.isValid ↔ i.start.isFinite ∧ i.stop.isFinite ∧ 0 ≤ i.start ∧ i.start ≤ i.stop := by
  simp [isValid, and_assoc]

theorem Size.coverable_iff {native region : Size} (h : region.isEmpty = false) :
    native.Coverable region ↔ native.width ≠ 0 ∧ native.height ≠ 0 ∧
      (native.covering region).1 < 2 ^ 32 ∧ (native.covering region).2 < 2 ^ 32 := by
  have hnative : native.isEmpty = false ↔ native.width ≠ 0 ∧ native.height ≠ 0 := by
    simp [isEmpty]
  have hsize : UInt32.size = 2 ^ 32 := rfl
  simp only [Coverable, hnative, h, hsize, true_and, and_assoc]

namespace VideoTrack

variable {t : VideoTrack} {canvas : Size} {index : Nat}

theorem mem_panes {kind : LayoutKind} (hkind : LayoutKind.named? t.layout = some kind) {p : Pane} :
    p ∈ t.panes canvas ↔ ∃ i : Nat, t.files[i]? = some p.file ∧
      t.resolutions[i]? = some p.native ∧ (kind.regions canvas)[i]? = some p.region ∧
        p.interval = t.interval := by
  simp only [panes, hkind]
  rw [List.mem_map]
  constructor
  · rintro ⟨⟨⟨file, native⟩, region⟩, hmem, rfl⟩
    obtain ⟨i, hi⟩ := List.mem_iff_getElem?.mp hmem
    rw [List.getElem?_zip_eq_some, List.getElem?_zip_eq_some] at hi
    exact ⟨i, hi.1.1, hi.1.2, hi.2, rfl⟩
  · rintro ⟨i, hfile, hnative, hregion, hinterval⟩
    refine ⟨((p.file, p.native), p.region), List.mem_iff_getElem?.mpr ⟨i, ?_⟩, ?_⟩
    · rw [List.getElem?_zip_eq_some, List.getElem?_zip_eq_some]
      exact ⟨⟨hfile, hnative⟩, hregion⟩
    · cases p
      cases hinterval
      rfl

theorem faults_eq_nil_iff (hcanvas : canvas.isEmpty = false) :
    t.faults canvas index = [] ↔ ∃ kind, t.Valid canvas kind := by
  constructor
  · intro h
    obtain ⟨kind, hkind, hfiles, hsizes, hinterval, hroom, hpanes⟩ :=
      exists_kind_of_faults_eq_nil h
    obtain ⟨hstart, hstop, hnonneg, hle⟩ := Interval.isValid_iff.mp hinterval
    refine ⟨kind, LayoutKind.named?_eq_some_iff.mp hkind, hfiles, hsizes, hstart, hstop, hnonneg,
      hle, hroom, ?_⟩
    intro i file native region hfile hnative hregion hne
    have hfill := hpanes ⟨file, native, region, t.interval⟩
      ((mem_panes hkind).mpr ⟨i, hfile, hnative, hregion, rfl⟩)
    have hcover := hfill.resolve_left (by simpa using hne)
    exact (Size.coverable_iff hcover.2.1).mp hcover
  · rintro ⟨kind, h⟩
    have hkind := LayoutKind.named?_eq_some_iff.mpr h.layout
    have hinterval := Interval.isValid_iff.mpr
      ⟨h.start_finite, h.stop_finite, h.start_nonneg, h.start_le_stop⟩
    simp only [faults, hkind, List.append_eq_nil_iff, complain_eq_nil_iff,
      List.flatMap_eq_nil_iff]
    refine ⟨h.files, h.resolutions, hinterval, h.room, ?_⟩
    intro p hp
    obtain ⟨i, hfile, hnative, hregion, -⟩ := (mem_panes hkind).mp hp
    have hregions := (kind.any_isEmpty_regions hcanvas).mpr h.room
    have hsize : p.region.size.isEmpty = false := by
      rw [List.any_eq_false] at hregions
      simpa using hregions p.region (List.mem_of_getElem? hregion)
    by_cases hblank : p.file = ""
    · exact .inl (by simp [hblank])
    · exact .inr ((Size.coverable_iff hsize).mpr
        (h.covered i p.file p.native p.region hfile hnative hregion hblank))

end VideoTrack

namespace Request

variable (r : Request)

/-- What is wrong with the sound, in the order it is looked for. -/
def soundFaults : List CompileError := r.audioTracks.zipIdx.flatMap fun (t, i) => t.faults i

def faults : List CompileError := r.pictureFaults ++ r.soundFaults

variable {r}

theorem forall_zipIdx_flatMap_eq_nil {α : Type} {xs : List α} {P : α → Prop}
    {f : α → Nat → List CompileError} (h : ∀ x ∈ xs, ∀ i, f x i = [] ↔ P x) :
    (xs.zipIdx.flatMap fun (x, i) => f x i) = [] ↔ ∀ x ∈ xs, P x := by
  rw [List.flatMap_eq_nil_iff]
  constructor
  · intro hnil x hx
    obtain ⟨i, hi⟩ := List.mem_iff_getElem?.mp hx
    exact (h x hx i).mp (hnil (x, i) (List.mem_zipIdx_iff_getElem?.mpr hi))
  · rintro hP ⟨x, i⟩ hx
    have hmem := List.mem_of_getElem? (List.mem_zipIdx_iff_getElem?.mp hx)
    exact (h x hmem i).mpr (hP x hmem)

theorem faults_eq_nil_iff : r.faults = [] ↔ r.Valid := by
  have haudio : r.soundFaults = [] ↔ ∀ t ∈ r.audioTracks, t.Valid :=
    forall_zipIdx_flatMap_eq_nil fun _ _ _ => AudioTrack.faults_eq_nil_iff
  have hvideo (hcanvas : r.canvas.isEmpty = false) :=
    forall_zipIdx_flatMap_eq_nil (f := fun t i => VideoTrack.faults t r.canvas i)
      fun t (_ : t ∈ r.videoTracks) _ => VideoTrack.faults_eq_nil_iff (t := t) hcanvas
  rw [faults, pictureFaults, List.append_eq_nil_iff, List.append_eq_nil_iff, complain_eq_nil_iff,
    haudio]
  constructor
  · rintro ⟨⟨hcanvas, htracks⟩, hsound⟩
    obtain ⟨hwidth, hheight⟩ := Size.isEmpty_eq_false_iff.mp hcanvas
    exact ⟨hwidth, hheight, (hvideo hcanvas).mp htracks, hsound⟩
  · intro h
    have hcanvas := Size.isEmpty_eq_false_iff.mpr ⟨h.width, h.height⟩
    exact ⟨⟨hcanvas, (hvideo hcanvas).mpr h.video⟩, h.audio⟩

theorem chainAll_eq (pow : Power) (r : Request) :
    chainAll pow r.audioTracks r.sampleRate =
      verdict r.soundFaults (r.audioTracks.zipIdx.map fun (t, i) =>
        ⟨i, t.stages pow r.sampleRate⟩) :=
  verdict_mapM fun _ _ => AudioTrack.chain_eq r.sampleRate

/-- What a compilation amounts to: the first fault, or a command if there is none and the operation
has use for the mode. -/
theorem compileFor_eq_of_faults (pow : Power) (r : Request) (op : Operation) :
    (r.faults = [] ∧ ∃ c, r.compileFor pow op =
      if op.allows r.mode then .ok c else .error (.rejected (.invalidMode r.mode op))) ∨
      ∃ e, r.faults.head? = some e ∧ r.compileFor pow op = .error (.rejected e) := by
  have hplan := r.planAll_eq
  have hchains := chainAll_eq pow r
  unfold faults
  cases compiles pow r op with
  | planned p hcompile =>
    have hok : chainAll pow r.audioTracks r.sampleRate = .ok p.chains :=
      List.mapM_eq_ok_iff.mpr p.chained
    rw [hok] at hchains
    have hsound := (verdict_eq_ok_iff.mp hchains.symm).1
    exact .inl ⟨by rw [p.pictureFaults_eq, hsound]; rfl, p.command, hcompile⟩
  | badTiles f hf hcompile =>
    right
    rw [hf] at hplan
    have hhead := verdict_eq_error_iff.mp hplan.symm
    rw [List.head?_map, Option.map_eq_some_iff] at hhead
    obtain ⟨e, he, rfl⟩ := hhead
    exact ⟨e, by rw [List.head?_append, he]; rfl, hcompile⟩
  | badChains tiles e htiles he hcompile =>
    right
    rw [htiles] at hplan
    rw [he] at hchains
    have hpicture := List.map_eq_nil_iff.mp (verdict_eq_ok_iff.mp hplan.symm).1
    rw [hpicture]
    exact ⟨e, verdict_eq_error_iff.mp hchains.symm, hcompile⟩

theorem compile_eq_of_faults (pow : Power) (r : Request) :
    (r.faults = [] ∧ ∃ c, r.compile pow = .ok c) ∨
      ∃ e, r.faults.head? = some e ∧ r.compile pow = .error (.rejected e) := by
  have h := compileFor_eq_of_faults pow r (.forMode r.mode)
  simpa only [compile, Plan.allows_forMode, if_true] using h

/-- What is wrong with a request for an operation, in the order it is looked for. -/
def faultsFor (r : Request) (op : Operation) : List CompileError :=
  r.faults ++ complain (op.allows r.mode) (.invalidMode r.mode op)

theorem compileFor_eq_error_iff {pow : Power} {op : Operation} {f : Fault} :
    r.compileFor pow op = .error f ↔ ∃ e, (r.faultsFor op).head? = some e ∧ f = .rejected e := by
  have hreject (e : CompileError) : (Except.error (.rejected e) : Except Fault Command) = .error f ↔
      ∃ e', some e = some e' ∧ f = .rejected e' := by
    simp only [Except.error.injEq, Option.some.injEq, exists_eq_left', eq_comm]
  rw [faultsFor]
  rcases compileFor_eq_of_faults pow r op with ⟨hnil, c, hc⟩ | ⟨e, hhead, he⟩
  · rw [hnil, hc, List.nil_append]
    by_cases hallows : op.allows r.mode
    · simp [complain, hallows]
    · rw [if_neg hallows, complain, if_neg hallows]
      exact hreject _
  · rw [he, List.head?_append, hhead]
    exact hreject e

/-- Exactly the valid requests are compiled, and any other is rejected for its first fault. -/
theorem compile_iff_valid (pow : Power) (r : Request) :
    ((∃ c, r.compile pow = .ok c) ↔ r.Valid) ∧
      ∀ f, r.compile pow = .error f → ∃ e, r.faults.head? = some e ∧ f = .rejected e := by
  rcases compile_eq_of_faults pow r with ⟨hnil, c, hc⟩ | ⟨e, hhead, he⟩
  · refine ⟨⟨fun _ => faults_eq_nil_iff.mp hnil, fun _ => ⟨c, hc⟩⟩, ?_⟩
    intro f hf
    rw [hc] at hf
    contradiction
  · refine ⟨⟨?_, ?_⟩, ?_⟩
    · rintro ⟨c, hc⟩
      rw [he] at hc
      contradiction
    · intro hvalid
      rw [faults_eq_nil_iff.mpr hvalid] at hhead
      contradiction
    · intro f hf
      rw [he] at hf
      exact ⟨e, hhead, (Except.error.inj hf).symm⟩

end Request

end Montage
