import Mathlib
import Montage.Proofs.Command.Validity
import Montage.Proofs.Decimal.Ranges
import Montage.Proofs.Video.Stages

/-!
What the nodes of a graph hand to the processor.  Whatever numbers a request is made of, once it is
compiled every number in its graph is finite and in its range, every part of a picture lies in that
picture, and every overlay ends with the timeline.
-/

namespace Montage

open Decimal

/-- A share raised to one or more is a share. -/
def Power.Damps (pow : Power) : Prop :=
  ∀ base exponent : Float, 0 < base → base ≤ 1 → 1 ≤ exponent →
    0 ≤ pow base exponent ∧ pow base exponent ≤ 1

namespace Grade

def floats (g : Grade) : List Float :=
  g.equalizer.toList.flatMap fun e => [e.contrast, e.brightness, e.gammaR, e.gammaG, e.gammaB]

/-- A grade does something, and no more than the processor takes. -/
structure WellFormed (g : Grade) : Prop where
  exists_change : g.equalizer.isSome ∨ g.blur.isSome
  contrast : ∀ e, g.equalizer = some e → -1000 ≤ e.contrast ∧ e.contrast ≤ 1000
  brightness : ∀ e, g.equalizer = some e → -1 ≤ e.brightness ∧ e.brightness ≤ 1
  gamma : ∀ e, g.equalizer = some e → ∀ x ∈ [e.gammaR, e.gammaG, e.gammaB], 0.1 ≤ x ∧ x ≤ 10
  blur : ∀ n, g.blur = some n → 1 ≤ n ∧ n ≤ 50

end Grade

def AudioStage.floats : AudioStage → List Float
  | .echo inGain outGain tap => [inGain, outGain, tap.delayMs, tap.decay]
  | .reverb inGain outGain taps => inGain :: outGain :: taps.flatMap fun t => [t.delayMs, t.decay]
  | .normalize _ volume => [volume]
  | .declick | .declip | .delay _ => []

def NodeKind.floats : NodeKind → List Float
  | .input .. | .split _ => []
  | .color _ _ duration => [duration]
  | .scaleCrop _ _ grade => grade.toList.flatMap Grade.floats
  | .overlay _ _ enable => [enable.start, enable.stop]
  | .audioChain chain => chain.stages.flatMap AudioStage.floats
  | .mix _ padTo => padTo.toList

/-- What a node of a graph asks of the processor can be done, on a canvas and a timeline. -/
def Node.Feasible (canvas : Size) (duration : Float) (nodes : List Node) (n : Node) : Prop :=
  match n.kind with
  | .input .. | .audioChain _ => True
  | .color size fps _ => size.isEmpty = false ∧ 1 ≤ fps
  | .split fanout => 2 ≤ fanout ∧ fanout = n.outputs.length
  | .scaleCrop resolution crop grade =>
    crop.size.isEmpty = false ∧ crop.Within resolution ∧ ∀ g, grade = some g → g.WellFormed
  | .overlay x y enable =>
    (∃ tile ∈ nodes, ∃ resolution crop grade below pad,
      tile.kind = .scaleCrop resolution crop grade ∧ tile.outputs = [pad] ∧
        n.inputs = [below, pad] ∧ Rect.Within ⟨⟨x, y⟩, crop.size⟩ canvas) ∧
      0 ≤ enable.start ∧ enable.start ≤ enable.stop ∧ enable.stop ≤ duration
  | .mix inputs padTo =>
    inputs = n.inputs.length ∧ 1 ≤ inputs ∧ (padTo.isSome ↔ 0 < duration)

/-- A node whose parameters the processor can take. -/
structure Node.WellFormed (canvas : Size) (duration : Float) (nodes : List Node) (n : Node) :
    Prop where
  isFinite : ∀ x ∈ n.kind.floats, x.isFinite
  feasible : n.Feasible canvas duration nodes

section Grading

theorem VideoEffects.le_of_within {low high x y : Float} (hlow : low.isFinite)
    (hhigh : high.isFinite) (hle : low ≤ high) (h : within low high x = some y) :
    low ≤ y ∧ y ≤ high := by
  unfold within at h
  split at h
  case isTrue hx =>
    obtain rfl := Option.some.inj h
    exact le_clamp hlow hhigh hle hx
  case isFalse => contradiction

/-- A setting in its range, or else what stands for none. -/
theorem le_getD {low high d : Float} {o : Option Float}
    (h : ∀ x, o = some x → low ≤ x ∧ x ≤ high) (hd : low ≤ d ∧ d ≤ high) :
    low ≤ o.getD d ∧ o.getD d ≤ high := by
  cases o with
  | none => exact hd
  | some x => exact h x rfl

namespace VideoEffects

variable {fx : VideoEffects} {x : Float}

theorem le_brightness (h : fx.clamped.brightness = some x) : -1 ≤ x ∧ x ≤ 1 := by
  obtain ⟨y, -, hy⟩ := Option.bind_eq_some_iff.mp h
  exact le_of_within (by decide +kernel) (by decide +kernel) (by decide +kernel) hy

theorem le_contrast (h : fx.clamped.contrast = some x) : -1000 ≤ x ∧ x ≤ 1000 := by
  obtain ⟨y, -, hy⟩ := Option.bind_eq_some_iff.mp h
  exact le_of_within (by decide +kernel) (by decide +kernel) (by decide +kernel) hy

theorem le_balance {c : ColorBalance} (h : fx.clamped.balance = some c) :
    ∀ x ∈ [c.r, c.g, c.b], 0.1 ≤ x ∧ x ≤ 10 := by
  have hwithin {x y : Float} (hy : within 0.1 10 x = some y) : 0.1 ≤ y ∧ y ≤ 10 :=
    le_of_within (by decide +kernel) (by decide +kernel) (by decide +kernel) hy
  obtain ⟨given, -, h⟩ := Option.bind_eq_some_iff.mp h
  obtain ⟨r, hr, h⟩ := Option.bind_eq_some_iff.mp h
  obtain ⟨g, hg, h⟩ := Option.bind_eq_some_iff.mp h
  obtain ⟨b, hb, h⟩ := Option.bind_eq_some_iff.mp h
  obtain rfl := Option.some.inj h
  simpa using ⟨hwithin hr, hwithin hg, hwithin hb⟩

theorem le_blur (h : fx.clamped.blurRadius = some x) : 1 ≤ x ∧ x ≤ 50 := by
  obtain ⟨y, -, hy⟩ := Option.bind_eq_some_iff.mp h
  exact le_of_within (by decide +kernel) (by decide +kernel) (by decide +kernel) hy

end VideoEffects

theorem le_roundWithin_blur {x : Float} (h : 1 ≤ x ∧ x ≤ 50) :
    1 ≤ roundWithin (UInt32.size - 1) x ∧ roundWithin (UInt32.size - 1) x ≤ 50 := by
  have hone : (1 : Float).isFinite := by decide +kernel
  have hfifty : (50 : Float).isFinite := by decide +kernel
  have hx := isFinite_of_le_of_le hone hfifty h.1 h.2
  have hvalue_one : value 1 = (1 : Nat) := by
    have hexact : Exact.ofFloat 1 = .finite false (2 ^ 52) (-52) := by decide +kernel
    rw [value, hexact, Exact.value]
    norm_num
  have hvalue_fifty : value 50 = (50 : Nat) := by
    have hexact : Exact.ofFloat 50 = .finite false (50 * 2 ^ 47) (-47) := by decide +kernel
    rw [value, hexact, Exact.value]
    norm_num
  apply le_roundWithin hx
  · rw [← hvalue_one, ← le_iff_value_le hone hx]
    exact h.1
  · rw [← hvalue_fifty, ← le_iff_value_le hx hfifty]
    exact h.2
  · decide

theorem Grade.wellFormed_ofEffects {fx : VideoEffects} {g : Grade} (h : ofEffects fx = some g) :
    g.WellFormed := by
  unfold ofEffects at h
  dsimp only at h
  split at h
  case isTrue => contradiction
  case isFalse hchange =>
    obtain rfl := Option.some.inj h
    have hequalizer {e : Equalizer} {ok : Bool} {e' : Equalizer}
        (h : (if ok then some e else none) = some e') : e = e' := by
      split at h
      · exact Option.some.inj h
      · contradiction
    refine ⟨?_, fun e he => ?_, fun e he => ?_, fun e he => ?_, fun n hn => ?_⟩
    · simp only [VideoEffects.isIdentity, Bool.and_eq_true, Option.isNone_iff_eq_none] at hchange
      by_cases hequal : fx.clamped.brightness.isSome || fx.clamped.contrast.isSome ||
          fx.clamped.balance.isSome
      · simp [hequal]
      · simp_all [Option.isSome_iff_ne_none]
    · rw [← hequalizer he]
      exact le_getD (fun _ => VideoEffects.le_contrast) (by decide +kernel)
    · rw [← hequalizer he]
      exact le_getD (fun _ => VideoEffects.le_brightness) (by decide +kernel)
    · rw [← hequalizer he]
      cases hbalance : fx.clamped.balance with
      | none =>
        simp only [Option.map_none, Option.getD_none, List.forall_mem_cons]
        decide +kernel
      | some c => exact VideoEffects.le_balance hbalance
    · obtain ⟨x, hx, rfl⟩ := Option.map_eq_some_iff.mp hn
      exact le_roundWithin_blur (VideoEffects.le_blur hx)

theorem Grade.WellFormed.isFinite {g : Grade} (h : g.WellFormed) : ∀ x ∈ g.floats, x.isFinite := by
  intro x hx
  obtain ⟨e, he, hx⟩ := List.mem_flatMap.mp hx
  have he := Option.mem_toList.mp he
  simp only [List.mem_cons, List.not_mem_nil, or_false] at hx
  have hgamma := h.gamma e he
  have hcontrast := h.contrast e he
  have hbrightness := h.brightness e he
  rcases hx with rfl | rfl | hx
  · exact isFinite_of_le_of_le (by decide +kernel) (by decide +kernel) hcontrast.1 hcontrast.2
  · exact isFinite_of_le_of_le (by decide +kernel) (by decide +kernel) hbrightness.1 hbrightness.2
  · have hle := hgamma x (by simpa using hx)
    exact isFinite_of_le_of_le (by decide +kernel) (by decide +kernel) hle.1 hle.2

end Grading

section Sound

variable {pow : Power} {t : AudioTrack}

theorem isFinite_of_share {x : Float} (h : 0 < x ∧ x ≤ 1) : x.isFinite :=
  isFinite_of_pos_of_le (by decide +kernel) h.1 h.2

theorem isFinite_of_echoDelay {x : Float} (h : 0 < x ∧ x ≤ 90000) : x.isFinite :=
  isFinite_of_pos_of_le (by decide +kernel) h.1 h.2

theorem isFinite_reverbTaps (hpow : pow.Damps) {delayMs decay : Float}
    (hdelay : 0 < delayMs ∧ delayMs ≤ 90000) (hdecay : 0 < decay ∧ decay ≤ 1) :
    ∀ tap ∈ reverbTaps pow delayMs decay, tap.delayMs.isFinite ∧ tap.decay.isFinite := by
  have hfactor : ∀ i ∈ List.range reverbTapCount, (Float.ofNat (i + 1)).isFinite ∧
      0 < Float.ofNat (i + 1) ∧ 1 ≤ 1.0 + 0.6 * Float.ofNat i := by decide +kernel
  intro tap htap
  obtain ⟨i, hi, rfl⟩ := List.mem_map.mp htap
  obtain ⟨hfinite, hpos, hexponent⟩ := hfactor i hi
  have hmax : maxEchoDelayMs.isFinite := by decide +kernel
  have hproduct := ofFloat_mul_ne hfinite (isFinite_of_echoDelay hdelay) hpos hdelay.1
  refine ⟨isFinite_smaller hproduct hmax, ?_⟩
  obtain ⟨hlow, hhigh⟩ := hpow decay _ hdecay.1 hdecay.2 hexponent
  exact isFinite_of_le_of_le isFinite_zero (by decide +kernel) hlow hhigh

theorem AudioTrack.isFinite_stages (hpow : pow.Damps) (ht : t.Valid) (sampleRate : UInt32) :
    ∀ a ∈ t.stages pow sampleRate, ∀ x ∈ a.floats, x.isFinite := by
  have hreflections : ∀ a ∈ t.reflectionStages pow, ∀ x ∈ a.floats, x.isFinite := by
    intro a ha x hx
    unfold reflectionStages at ha
    split at ha
    case isTrue hreverb =>
      obtain ⟨hdelay, hdecay⟩ := ht.reverb hreverb
      obtain rfl := List.mem_singleton.mp ha
      simp only [AudioStage.floats, List.mem_cons] at hx
      rcases hx with rfl | rfl | hx
      · decide +kernel
      · decide +kernel
      · obtain ⟨tap, htap, hx⟩ := List.mem_flatMap.mp hx
        have htap := isFinite_reverbTaps hpow hdelay hdecay tap htap
        simp only [List.mem_cons, List.not_mem_nil, or_false] at hx
        rcases hx with rfl | rfl
        · exact htap.1
        · exact htap.2
    case isFalse hreverb =>
      split at ha
      case isTrue hecho =>
        obtain ⟨hdelay, hdecay, hin, hout⟩ := ht.echo ((Bool.not_eq_true _).mp hreverb) hecho
        obtain rfl := List.mem_singleton.mp ha
        simp only [AudioStage.floats, List.mem_cons, List.not_mem_nil, or_false] at hx
        rcases hx with rfl | rfl | rfl | rfl
        · exact isFinite_of_share hin
        · exact isFinite_of_share hout
        · exact isFinite_of_echoDelay hdelay
        · exact isFinite_of_share hdecay
      case isFalse => contradiction
  unfold stages
  simp only [List.forall_mem_append]
  refine ⟨⟨⟨⟨?_, ?_⟩, hreflections⟩, ?_⟩, ?_⟩
  · split <;> simp [AudioStage.floats]
  · split <;> simp [AudioStage.floats]
  · simpa [AudioStage.floats] using ht.volume_finite
  · split <;> simp [AudioStage.floats]

end Sound

/-- A tile whose parameters the processor can take. -/
structure Tile.WellFormed (canvas : Size) (duration : Float) (t : Tile) : Prop where
  size_eq : t.fit.crop.size = t.region.size
  isEmpty_eq : t.region.size.isEmpty = false
  crop : t.fit.crop.Within t.fit.fitted
  region : t.region.Within canvas
  isFinite_start : t.interval.start.isFinite
  isFinite_stop : t.interval.stop.isFinite
  start_nonneg : 0 ≤ t.interval.start
  start_le_stop : t.interval.start ≤ t.interval.stop
  stop_le : t.interval.stop ≤ duration

namespace Request

variable {r : Request}

theorem one_le_effectiveFps (r : Request) : 1 ≤ r.effectiveFps := by
  unfold effectiveFps
  split
  case isTrue => decide
  case isFalse h =>
    rw [UInt32.le_iff_toNat_le]
    have hne : r.framesPerSecond.toNat ≠ 0 := fun heq => h (UInt32.toNat_inj.mp heq)
    exact Nat.one_le_iff_ne_zero.mpr hne

theorem isFinite_duration (r : Request) : r.duration.isFinite :=
  (le_foldl_larger (fun _ hy => (List.mem_filter.mp hy).2) isFinite_zero).1

/-- The timeline ends with the last of its tracks. -/
theorem stop_le_duration {t : VideoTrack} (ht : t ∈ r.videoTracks)
    (hstop : t.interval.stop.isFinite) : t.interval.stop ≤ r.duration := by
  refine (le_foldl_larger (fun _ hy => (List.mem_filter.mp hy).2) isFinite_zero).2 _
    (List.mem_cons_of_mem _ (List.mem_filter.mpr ⟨?_, hstop⟩))
  exact List.mem_map_of_mem ht

theorem isEmpty_canvas (h : r.pictureFaults = []) : r.canvas.isEmpty = false := by
  rw [pictureFaults, List.append_eq_nil_iff, complain_eq_nil_iff] at h
  exact h.1

theorem wellFormed_tile (h : r.pictureFaults = []) {p : Pane} (hp : p ∈ r.panes) :
    p.tile.WellFormed r.canvas r.duration := by
  have hcanvas := isEmpty_canvas h
  obtain ⟨t, ht, hp⟩ := List.mem_flatMap.mp hp
  obtain ⟨i, hi⟩ := faults_eq_nil h ht
  obtain ⟨kind, hkind, -, -, hvalid, hroom, hfillable⟩ :=
    VideoTrack.exists_kind_of_faults_eq_nil hi
  obtain ⟨hstart, hstop, hnonneg, hle⟩ := Interval.isValid_iff.mp hvalid
  obtain ⟨k, -, -, hregion, hinterval⟩ := (VideoTrack.mem_panes hkind).mp hp
  have hregion := List.mem_of_getElem? hregion
  have hsize : p.region.size.isEmpty = false := by
    have hregions := (kind.any_isEmpty_regions hcanvas).mpr hroom
    rw [List.any_eq_false] at hregions
    simpa using hregions p.region hregion
  have hcover := (Pane.fillable_iff hsize).mp (hfillable p hp)
  have htile : p.tile.interval = t.interval := hinterval
  constructor
  case size_eq => rfl
  case isEmpty_eq => exact hsize
  case crop => exact Fit.within_covering hcover
  case region => exact LayoutKind.within_of_mem_regions hregion
  all_goals rw [htile]
  case isFinite_start => exact hstart
  case isFinite_stop => exact hstop
  case start_nonneg => exact hnonneg
  case start_le_stop => exact hle
  case stop_le => exact stop_le_duration ht hstop

end Request

section Picture

variable {r : Request} {s : VideoSettings} {sources : Registry}
  {items : List (Tile × Option SourceId)} {nodes : List Node} {n : Node}

theorem Registry.wellFormed_sourceNodes {canvas : Size} {duration : Float}
    (hn : n ∈ sources.sourceNodes) : n.WellFormed canvas duration nodes := by
  obtain ⟨i, -, ⟨-, rfl⟩ | ⟨huses, rfl⟩⟩ := mem_sourceNodes.mp hn
  · exact ⟨by simp [inputNode, NodeKind.floats], trivial⟩
  · exact ⟨by simp [splitNode, NodeKind.floats], huses, by simp [splitNode]⟩

namespace VideoSettings

theorem wellFormed_colorNode (r : Request) {size : Size} (hsize : size.isEmpty = false)
    (out : Pad) : (r.videoSettings.colorNode size out).WellFormed r.canvas r.duration nodes :=
  ⟨fun _ hx => List.mem_singleton.mp hx ▸ r.isFinite_duration, hsize, r.one_le_effectiveFps⟩

theorem wellFormed_scaleCropNode {t : Tile} (ht : t.WellFormed r.canvas r.duration)
    (input out : Pad) :
    (r.videoSettings.scaleCropNode t input out).WellFormed r.canvas r.duration nodes := by
  have hgrade (g : Grade) (hg : (t.file.bind r.videoSettings.effectsFor?).bind Grade.ofEffects =
      some g) : g.WellFormed := by
    obtain ⟨fx, -, hfx⟩ := Option.bind_eq_some_iff.mp hg
    exact Grade.wellFormed_ofEffects hfx
  constructor
  · intro x hx
    obtain ⟨g, hg, hx⟩ := List.mem_flatMap.mp hx
    exact (hgrade g (Option.mem_toList.mp hg)).isFinite x hx
  · refine ⟨?_, ht.crop, hgrade⟩
    rw [ht.size_eq]
    exact ht.isEmpty_eq

/-- An overlay places the tile of its own layer. -/
theorem wellFormed_overlay {l : Layer} (hl : l.tile.WellFormed r.canvas r.duration) (total : Nat)
    (hmem : r.videoSettings.fitting l ∈ nodes) :
    (l.overlay total).WellFormed r.canvas r.duration nodes := by
  constructor
  · intro x hx
    simp only [Layer.overlay, NodeKind.floats, List.mem_cons, List.not_mem_nil, or_false] at hx
    rcases hx with rfl | rfl
    · exact hl.isFinite_start
    · exact hl.isFinite_stop
  · refine ⟨⟨_, hmem, _, _, _, _, _, rfl, rfl, rfl, ?_⟩, hl.start_nonneg, hl.start_le_stop,
      hl.stop_le⟩
    rw [hl.size_eq]
    exact hl.region

theorem wellFormed_pictureNodes (hcanvas : r.canvas.isEmpty = false)
    (hitems : ∀ item ∈ items, item.1.WellFormed r.canvas r.duration)
    (hn : n ∈ r.videoSettings.pictureNodes sources items)
    (hsub : r.videoSettings.pictureNodes sources items ⊆ nodes) :
    n.WellFormed r.canvas r.duration nodes := by
  cases r.videoSettings.pictureForm sources items with
  | lone t id hone _ hnodes =>
    have ht := hitems (t, id) (by simp [hone])
    rw [hnodes] at hn
    rcases List.mem_append.mp hn with hn | hn
    · obtain ⟨-, rfl⟩ := mem_backdrop.mp hn
      exact wellFormed_colorNode r ht.isEmpty_eq _
    · rw [List.mem_singleton.mp hn]
      exact wellFormed_scaleCropNode ht _ _
  | stack hnodes =>
    rw [hnodes] at hn hsub
    rcases mem_stackNodes.mp hn with rfl | ⟨l, hl, hn⟩
    · exact wellFormed_colorNode r hcanvas _
    · have ht := hitems _ (Registry.mem_items_of_mem_layers hl)
      rcases hn with hn | rfl | rfl
      · obtain ⟨-, rfl⟩ := mem_backdrop.mp hn
        exact wellFormed_colorNode r ht.isEmpty_eq _
      · exact wellFormed_scaleCropNode ht _ _
      · exact wellFormed_overlay ht _ (hsub (mem_stackNodes.mpr (.inr ⟨l, hl, .inr (.inl rfl)⟩)))

end VideoSettings

end Picture

theorem wellFormed_soundNodes {pow : Power} (hpow : pow.Damps) {r : Request} {nodes : List Node}
    {n : Node} {offset : Nat} {chains : List AudioChain}
    (hchains : Chained pow r.audioTracks r.sampleRate chains) (hne : chains ≠ [])
    (hn : n ∈ soundNodes offset chains r.duration) :
    n.WellFormed r.canvas r.duration nodes := by
  obtain ⟨c, hc, rfl | rfl⟩ | rfl := mem_soundNodes.mp hn
  · exact ⟨by simp [NodeKind.floats], trivial⟩
  · obtain ⟨i, hi⟩ := List.mem_iff_getElem?.mp hc
    obtain ⟨⟨t, k⟩, -, ht⟩ := hchains.flip.getElem?_eq_some hi
    obtain ⟨hfaults, rfl⟩ := AudioTrack.eq_of_chain_eq_ok ht
    have hfinite := AudioTrack.isFinite_stages hpow (AudioTrack.faults_eq_nil_iff.mp hfaults)
      r.sampleRate
    refine ⟨fun x hx => ?_, trivial⟩
    obtain ⟨a, ha, hx⟩ := List.mem_flatMap.mp hx
    exact hfinite a ha x hx
  · have hduration := r.isFinite_duration
    constructor
    · intro x hx
      simp only [mixNode, NodeKind.floats, Option.mem_toList] at hx
      split at hx
      · exact Option.some.inj hx ▸ hduration
      · contradiction
    · refine ⟨by simp [mixNode], List.length_pos_iff.mpr hne, ?_⟩
      by_cases hpos : 0 < r.duration <;> simp [hduration, hpos]

/-- Every node of the graph of a command is well-formed. -/
theorem Request.wellFormed_of_compile_eq_ok {pow : Power} (hpow : pow.Damps) {r : Request}
    {c : Command} (h : r.compile pow = .ok c) :
    ∃ graph outputs sources, r.assemble pow = .ok (graph, outputs, sources) ∧
      c.filterGraph = graph.text ∧
      ∀ n ∈ graph.nodes, n.WellFormed r.canvas r.duration graph.nodes := by
  obtain ⟨p, rfl⟩ := exists_plan h
  refine ⟨p.graph, p.outputs, p.registry, p.assemble_eq, rfl, fun n hn => ?_⟩
  have hcanvas := isEmpty_canvas p.pictureFaults_eq
  have hitems : ∀ item ∈ p.items, item.1.WellFormed r.canvas r.duration := by
    intro item hitem
    have htile := (List.of_mem_zip hitem).1
    rw [p.tiles_eq] at htile
    obtain ⟨pane, hpane, heq⟩ := List.mem_map.mp htile
    exact heq ▸ wellFormed_tile p.pictureFaults_eq hpane
  rcases List.mem_append.mp hn with hn | hn
  · rcases List.mem_append.mp hn with hn | hn
    · exact Registry.wellFormed_sourceNodes hn
    · refine VideoSettings.wellFormed_pictureNodes hcanvas hitems hn ?_
      exact fun _ hm => List.mem_append_left _ (List.mem_append_right _ hm)
  · unfold Plan.sound at hn
    split at hn
    case isTrue hsound =>
      refine wellFormed_soundNodes hpow p.chained ?_ hn
      intro hnil
      have hlength := p.chained.length_eq
      rw [hnil] at hlength
      exact hsound.2 (List.length_eq_zero_iff.mp hlength.symm)
    case isFalse => contradiction

/-- The sample with a voice that never fades and whose later reflections come as late as they
can. -/
def Request.sampleResonant : Request :=
  { sample with
    audioTracks := [{ AudioTrack.ofFile "a.mp4" with reverb := ⟨true, 20000, 1⟩ }] }

set_option maxRecDepth 100000 in
/-- Every power of one is one. -/
theorem Request.wellFormed_sampleResonant :
    Power.Damps (fun _ _ => 1) ∧ ∃ c, sampleResonant.compile (fun _ _ => 1) = .ok c ∧
      ∃ graph outputs sources,
        sampleResonant.assemble (fun _ _ => 1) = .ok (graph, outputs, sources) ∧
          c.filterGraph = graph.text ∧ ∀ n ∈ graph.nodes,
            n.WellFormed sampleResonant.canvas sampleResonant.duration graph.nodes := by
  have hone : (0 : Float) ≤ 1 ∧ (1 : Float) ≤ 1 := by decide +kernel
  have hpow : Power.Damps (fun _ _ => 1) := fun _ _ _ _ _ => hone
  have hcompile : (sampleResonant.compile fun _ _ => 1).toOption.isSome := by decide +kernel
  refine ⟨hpow, ?_⟩
  cases hc : sampleResonant.compile fun _ _ => 1 with
  | ok c => exact ⟨c, rfl, wellFormed_of_compile_eq_ok hpow hc⟩
  | error f =>
    rw [hc] at hcompile
    contradiction

end Montage
