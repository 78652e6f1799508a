import Mathlib
import Montage.Proofs.Audio.Stages
import Montage.Proofs.Graph.Chains
import Montage.Proofs.Graph.PadName

/-!
The bodies of chains, read back.  What a node does is printed as records of numbers, and the first
filter of a body tells which kind of node it is; so a body gives back everything that its node
holds, but for the number of a track, which is in the pad that the node writes.
-/

namespace Montage

open Text Decimal

namespace Text.Record

def color : Record (Size × UInt32 × Float) where
  names := ["color=c=black:s=", "x", ":r=", ":d="]
  numbers := fun (s, f, d) =>
    [toString s.width.toNat, toString s.height.toNat, toString f.toNat, plain d]
  length_numbers _ := rfl
  ends := by decide
  numeral a := by simp
  injective := by
    rintro ⟨⟨w, h⟩, f, d⟩ ⟨⟨w', h'⟩, f', d'⟩ heq
    simpa [Nat.repr_inj, UInt32.toNat_inj, and_assoc] using heq

def equalizer : Record Equalizer where
  names := ["eq=contrast=", ":brightness=", ":gamma_r=", ":gamma_g=", ":gamma_b="]
  numbers e :=
    [plain e.contrast, plain e.brightness, plain e.gammaR, plain e.gammaG, plain e.gammaB]
  length_numbers _ := rfl
  ends := by decide
  numeral e := by simp
  injective := by
    rintro ⟨c, b, r, g, l⟩ ⟨c', b', r', g', l'⟩ h
    simpa using h

def blur : Record Nat := count "avgblur=sizeX="

def scaleCrop : Record (Size × Rect) where
  names := ["scale=", ":", ",crop=", ":", ":", ":"]
  numbers := fun (s, r) =>
    [toString s.width.toNat, toString s.height.toNat, toString r.size.width.toNat,
      toString r.size.height.toNat, toString r.origin.x.toNat, toString r.origin.y.toNat]
  length_numbers _ := rfl
  ends := by decide
  numeral a := by simp
  injective := by
    rintro ⟨⟨w, h⟩, ⟨x, y⟩, ⟨cw, ch⟩⟩ ⟨⟨w', h'⟩, ⟨x', y'⟩, ⟨cw', ch'⟩⟩ heq
    simp [Nat.repr_inj, UInt32.toNat_inj] at heq
    simp [heq]

def overlay : Record (UInt32 × UInt32 × Interval) where
  names := ["overlay=x=", ":y=", ":enable='gte(t,", ")*lt(t,"]
  numbers := fun (x, y, i) =>
    [toString x.toNat, toString y.toNat, plain i.start, plain i.stop]
  length_numbers _ := rfl
  ends := by decide
  numeral a := by simp
  injective := by
    rintro ⟨x, y, ⟨a, b⟩⟩ ⟨x', y', ⟨a', b'⟩⟩ heq
    simpa [Nat.repr_inj, UInt32.toNat_inj] using heq

def padding : Record Float where
  names := [",apad=whole_dur="]
  numbers x := [plain x]
  length_numbers _ := rfl
  ends := by decide
  numeral x := by simp
  injective x y h := by simpa using h

end Text.Record

namespace Grade

/-- The adjustment of colours and the blur, where there are any. -/
def parts (grade : Option Grade) : Option Equalizer × Option Nat :=
  (grade.bind (·.equalizer), grade.bind (·.blur))

theorem parts_injOn {g g' : Option Grade} (hg : g ≠ some ⟨none, none⟩)
    (hg' : g' ≠ some ⟨none, none⟩) (h : parts g = parts g') : g = g' := by
  cases g with
  | none =>
    cases g' with
    | none => rfl
    | some b =>
      obtain ⟨e, r⟩ := b
      simp only [parts, Option.bind_none, Option.bind_some, Prod.mk.injEq] at h
      rw [← h.1, ← h.2] at hg'
      contradiction
  | some a =>
    obtain ⟨e, r⟩ := a
    cases g' with
    | none =>
      simp only [parts, Option.bind_none, Option.bind_some, Prod.mk.injEq] at h
      rw [h.1, h.2] at hg
      contradiction
    | some b =>
      obtain ⟨e', r'⟩ := b
      simp only [parts, Option.bind_some, Prod.mk.injEq] at h
      rw [h.1, h.2]

theorem toList_text (grade : Option Grade) :
    ((grade.map Grade.text).getD "").toList =
      (parts grade).1.elim [] Record.equalizer.listed ++
        (parts grade).2.elim [] Record.blur.listed := by
  cases grade with
  | none => simp [parts]
  | some g =>
    obtain ⟨e, r⟩ := g
    have hequalizer (e : Equalizer) : e.text.toList = Record.equalizer.listed e := by
      unfold Equalizer.text
      simp [Record.listed, Record.chars_eq, Record.equalizer]
    cases e <;> cases r <;>
      simp [text, parts, hequalizer, Record.listed, Record.chars_eq, Record.blur, Record.count]

/-- The filters of a grade end where the scaling starts. -/
theorem append_inj {g g' : Option Grade} (hg : g ≠ some ⟨none, none⟩)
    (hg' : g' ≠ some ⟨none, none⟩) {s t : List Char} (hs : s.head? = some 's')
    (ht : t.head? = some 's')
    (h : ((g.map Grade.text).getD "").toList ++ s = ((g'.map Grade.text).getD "").toList ++ t) :
    g = g' ∧ s = t := by
  have hhead (o : Option Nat) {s : List Char} (hs : s.head? = some 's') :
      (o.elim [] Record.blur.listed ++ s).head? ≠ some 'e' := by
    cases o <;> simp [hs, Record.listed, Record.chars_eq, Record.blur, Record.count]
  rw [toList_text, toList_text, List.append_assoc, List.append_assoc] at h
  obtain ⟨hequalizer, h⟩ := option_append_inj (c := 'e')
    (by simp [Record.listed, Record.chars_eq, Record.equalizer])
    Record.equalizer.listed_append_inj (hhead _ hs) (hhead _ ht) h
  obtain ⟨hblur, hrest⟩ := option_append_inj (c := 'a')
    (by simp [Record.listed, Record.chars_eq, Record.blur, Record.count])
    Record.blur.listed_append_inj (by simp [hs]) (by simp [ht]) h
  exact ⟨parts_injOn hg hg' (Prod.ext hequalizer hblur), hrest⟩

/-- An adjustment that changes nothing is no grade. -/
theorem ofEffects_ne (fx : VideoEffects) : ofEffects fx ≠ some ⟨none, none⟩ := by
  intro h
  simp only [ofEffects] at h
  split at h
  case isTrue => contradiction
  case isFalse hidentity =>
    simp only [Option.some.injEq, mk.injEq, ite_eq_right_iff, reduceCtorEq, imp_false,
      Option.map_eq_none_iff] at h
    apply hidentity
    simpa [VideoEffects.isIdentity, and_assoc] using h

end Grade

/-- The filters that come first in the bodies of each stage. -/
def Stage.filters : Stage → List String
  | .source => ["color"]
  | .split => ["split"]
  | .scaleCrop => ["eq", "avgblur", "scale"]
  | .overlay => ["overlay"]
  | .audioChain => ["adeclick", "adeclip", "aecho", "aformat", "adelay"]
  | .mix => ["amix"]

theorem Stage.eq_of_mem_filters {s t : Stage} {name : String} (hs : name ∈ s.filters)
    (ht : name ∈ t.filters) : s = t := by
  have hdisjoint : ∀ name ∈ s.filters, name ∈ t.filters → s = t := by
    cases s <;> cases t <;> simp [filters]
  exact hdisjoint name hs ht

theorem AudioStage.filter_mem (a : AudioStage) : a.filter ∈ Stage.audioChain.filters := by
  cases a <;> simp [filter, Stage.filters]

namespace NodeKind

/-- A grade does something, a chain has stages, and a reverb is no echo. -/
def Legible : NodeKind → Prop
  | .scaleCrop _ _ grade => grade ≠ some ⟨none, none⟩
  | .audioChain chain => chain.stages ≠ [] ∧ ∀ a ∈ chain.stages, a.Legible
  | _ => True

/-- The characters of a body. -/
def chars : NodeKind → List Char
  | .input .. => []
  | .color size fps duration => Record.color.chars (size, fps, duration)
  | .split fanout => (Record.count "split=").chars fanout
  | .scaleCrop resolution crop grade =>
    ((grade.map Grade.text).getD "").toList ++ Record.scaleCrop.chars (resolution, crop)
  | .overlay x y enable => Record.overlay.chars (x, y, enable) ++ ")':eof_action=pass".toList
  | .audioChain chain => (joinWith "," (chain.stages.map AudioStage.text)).toList
  | .mix inputs padTo =>
    (Record.count "amix=inputs=").chars inputs ++
      (":duration=longest".toList ++ padTo.elim [] Record.padding.chars)

theorem toList_text {k : NodeKind} {body : String} (h : k.text = some body) :
    body.toList = k.chars := by
  cases k with
  | input => contradiction
  | audioChain chain => rw [← Option.some.inj h, chars]
  | mix inputs padTo =>
    rw [← Option.some.inj h]
    cases padTo <;> simp [chars, Record.chars_eq, Record.count, Record.padding]
  | color | split | scaleCrop | overlay =>
    rw [← Option.some.inj h]
    simp [chars, Size.text, Record.chars_eq, Record.color, Record.count,
      Record.scaleCrop, Record.overlay]

theorem leadingName_mem {k : NodeKind} (hk : k.Legible) (h : k.text.isSome) :
    leadingName k.chars ∈ k.stage.filters := by
  cases k with
  | input => contradiction
  | color | split | overlay | mix =>
    simp [leadingName, chars, stage, Stage.filters, Record.chars_eq, Record.color,
      Record.count, Record.overlay]
  | scaleCrop resolution crop grade =>
    rw [chars, Grade.toList_text]
    rcases Grade.parts grade with ⟨_ | e, _ | r⟩ <;>
      simp [leadingName, stage, Stage.filters, Record.listed, Record.chars_eq,
        Record.equalizer, Record.blur, Record.count, Record.scaleCrop]
  | audioChain chain =>
    obtain ⟨a, rest, hstages⟩ := List.exists_cons_of_ne_nil hk.1
    have hrest : Closes ((rest.map AudioStage.text).flatMap fun p => ',' :: p.toList) := by
      cases rest with
      | nil => exact closes_nil
      | cons b rest => exact closes_comma _
    have hcomma : (",").toList = [','] := by simp
    rw [chars, hstages, List.map_cons, toList_joinWith_cons hcomma, a.leadingName_text hrest]
    exact a.filter_mem

/-- What a node does, but for the number of a track. -/
def untracked : NodeKind → NodeKind
  | .audioChain chain => .audioChain ⟨0, chain.stages⟩
  | k => k

theorem untracked_injOn {k l : NodeKind} {body : String} (hk : k.Legible) (hl : l.Legible)
    (hkt : k.text = some body) (hlt : l.text = some body) : k.untracked = l.untracked := by
  have h : k.chars = l.chars := by rw [← toList_text hkt, toList_text hlt]
  have hstage : k.stage = l.stage := by
    have hname := leadingName_mem hk (by simp [hkt])
    rw [h] at hname
    exact Stage.eq_of_mem_filters hname (leadingName_mem hl (by simp [hlt]))
  cases k <;> cases l <;> simp [stage] at hstage
  case input.input | input.color | color.input => contradiction
  case color.color =>
    cases Record.color.inj h
    rfl
  case split.split =>
    cases (Record.count _).inj h
    rfl
  case scaleCrop.scaleCrop =>
    obtain ⟨rfl, hrest⟩ := Grade.append_inj hk hl
      (by simp [Record.chars_eq, Record.scaleCrop])
      (by simp [Record.chars_eq, Record.scaleCrop]) h
    cases Record.scaleCrop.inj hrest
    rfl
  case overlay.overlay =>
    cases (Record.overlay.append_inj (by simp [isNumeral]) (by simp [isNumeral]) h).1
    rfl
  case mix.mix =>
    obtain ⟨rfl, hrest⟩ :=
      (Record.count _).append_inj (by simp [isNumeral]) (by simp [isNumeral]) h
    have hpadding := congrArg (· ++ []) (List.append_cancel_left hrest)
    cases (option_append_inj (c := ',')
      (by simp [Record.padding, Record.chars_eq])
      (Record.padding.append_inj stops_nil stops_nil) (by simp) (by simp) hpadding).1
    rfl
  case audioChain.audioChain c d =>
    have hstages : c.stages = d.stages :=
      (joinWith_append_inj (by simp) closes_comma (fun ha hb => AudioStage.append_inj ha hb)
        hk.1 hl.1 hk.2 hl.2 closes_nil closes_nil (by simp) (by simp) (congrArg (· ++ []) h)).1
    rw [untracked, untracked, hstages]

theorem eq_of_untracked_eq {k l : NodeKind} (h : k.untracked = l.untracked)
    (htrack : ∀ c d, k = .audioChain c → l = .audioChain d → c.track = d.track) : k = l := by
  cases k <;> cases l <;> simp only [untracked, reduceCtorEq] at h
  case audioChain.audioChain c d =>
    obtain ⟨i, stages⟩ := c
    obtain ⟨j, stages'⟩ := d
    obtain rfl : i = j := htrack _ _ rfl rfl
    obtain rfl : stages = stages' := (AudioChain.mk.inj (audioChain.inj h)).2
    rfl
  all_goals exact h

end NodeKind

namespace Node

/-- A node that can be told from its chain: a sound chain writes the pad of its track. -/
structure Legible (n : Node) : Prop where
  kind : n.kind.Legible
  track : ∀ chain, n.kind = .audioChain chain → n.outputs = [Pad.track chain.track]

theorem map_label_injective : Function.Injective (List.map Pad.label) :=
  List.map_injective_iff.mpr Pad.label_injective

/-- The chain of a node has all of the node in it. -/
theorem chain_injOn {m n : Node} (hm : m.Legible) (hn : n.Legible) (hmt : m.kind.text.isSome)
    (hnt : n.kind.text.isSome) (h : m.chain = n.chain) : m = n := by
  obtain ⟨body, hbody⟩ := Option.isSome_iff_exists.mp hmt
  obtain ⟨body', hbody'⟩ := Option.isSome_iff_exists.mp hnt
  rw [chain, chain, hbody, hbody', Chain.mk.injEq] at h
  obtain ⟨hinputs, rfl, houtputs⟩ := h
  replace hinputs := map_label_injective hinputs
  replace houtputs := map_label_injective houtputs
  have hkind : m.kind = n.kind := by
    apply NodeKind.eq_of_untracked_eq (NodeKind.untracked_injOn hm.kind hn.kind hbody hbody')
    intro c d hc hd
    have htrack := (hm.track c hc).symm.trans (houtputs.trans (hn.track d hd))
    exact PadName.track.inj (PadName.pad_injective (List.singleton_inj.mp htrack))
  cases m
  cases n
  rw [mk.injEq]
  exact ⟨hkind, hinputs, houtputs⟩

end Node

end Montage
