import Mathlib
import Montage.Proofs.Graph.Links
import Montage.Proofs.Text.Marks
import Montage.Proofs.Text.Records

/-!
The text of a graph, read back.  A chain is a row of bracketed labels, a body and another row of
labels; the text of a graph splits at its semicolons into the chains of its nodes, and the text of
a chain tells its labels from its body.
-/

namespace Montage

structure Chain where
  inputs : List String
  body : String
  outputs : List String
  deriving DecidableEq

namespace Chain

def bracketed (label : String) : String := "[" ++ label ++ "]"

def text (c : Chain) : String :=
  String.join (c.inputs.map bracketed) ++ c.body ++ String.join (c.outputs.map bracketed)

/-- There is a body, and neither it nor a label has a bracket or a semicolon in it. -/
structure WellFormed (c : Chain) : Prop where
  body_ne : c.body ≠ ""
  body : Text.Unmarked c.body
  inputs : ∀ l ∈ c.inputs, Text.Unmarked l
  outputs : ∀ l ∈ c.outputs, Text.Unmarked l

theorem toList_bracketed (label : String) :
    (bracketed label).toList = '[' :: label.toList ++ [']'] := by
  simp [bracketed]

theorem semicolon_not_mem_bracketed {label : String} (h : Text.Unmarked label) :
    ';' ∉ (bracketed label).toList := by
  have hlabel : ';' ∉ label.toList := fun hm => by simpa [Text.isMark] using h ';' hm
  simp [toList_bracketed, hlabel]

theorem semicolon_not_mem_text {c : Chain} (h : c.WellFormed) : ';' ∉ c.text.toList := by
  have hrow {labels : List String} (hl : ∀ l ∈ labels, Text.Unmarked l) :
      ';' ∉ (String.join (labels.map bracketed)).toList := by
    rw [String.toList_join, List.mem_flatMap]
    rintro ⟨s, hs, hm⟩
    obtain ⟨l, hmem, rfl⟩ := List.mem_map.mp hs
    exact semicolon_not_mem_bracketed (hl l hmem) hm
  have hbody : ';' ∉ c.body.toList := fun hm => by simpa [Text.isMark] using h.body ';' hm
  simp only [text, String.toList_append, List.mem_append, not_or]
  exact ⟨⟨hrow h.inputs, hbody⟩, hrow h.outputs⟩

theorem splitOn_joinWith {chains : List Chain} (hne : chains ≠ [])
    (h : ∀ c ∈ chains, c.WellFormed) :
    (joinWith ";" (chains.map text)).toList.splitOn ';' = chains.map (·.text.toList) := by
  rw [joinWith, String.toList_intercalate, List.map_map]
  have hsep : (";" : String).toList = [';'] := by simp
  rw [hsep]
  apply List.splitOn_intercalate
  · intro s hs
    obtain ⟨c, hc, rfl⟩ := List.mem_map.mp hs
    exact semicolon_not_mem_text (h c hc)
  · simpa using hne

/-- A row of labels and what comes after it, which does not start with a bracket. -/
theorem row_append_inj {labels labels' : List String} {s t : List Char}
    (hl : ∀ l ∈ labels, Text.Unmarked l) (hl' : ∀ l ∈ labels', Text.Unmarked l)
    (hs : s.head? ≠ some '[') (ht : t.head? ≠ some '[')
    (h : labels.flatMap (fun l => (bracketed l).toList) ++ s =
      labels'.flatMap (fun l => (bracketed l).toList) ++ t) : labels = labels' ∧ s = t := by
  have hlabel {l l' : String} {s t : List Char} (hl : Text.Unmarked l) (hl' : Text.Unmarked l')
      (_ : True) (_ : True) (h : (l.toList ++ [']']) ++ s = (l'.toList ++ [']']) ++ t) :
      l = l' ∧ s = t := by
    rw [List.append_assoc, List.append_assoc, List.singleton_append, List.singleton_append] at h
    obtain ⟨heq, hrest⟩ :=
      List.append_inj_of_head (hl.all_ne ']' rfl) (hl'.all_ne ']' rfl) (by simp) (by simp) h
    exact ⟨String.toList_injective heq, (List.cons.inj hrest).2⟩
  simp only [toList_bracketed, List.cons_append] at h
  exact Text.flatMap_append_inj (fun _ => trivial) hlabel hl hl' trivial trivial hs ht h

theorem toList_text (c : Chain) :
    c.text.toList = c.inputs.flatMap (fun l => (bracketed l).toList) ++
      (c.body.toList ++ c.outputs.flatMap fun l => (bracketed l).toList) := by
  simp [text, String.toList_join, List.flatMap_map]

/-- The text of a chain can be read in one way only. -/
theorem text_injective {c d : Chain} (hc : c.WellFormed) (hd : d.WellFormed)
    (h : c.text = d.text) : c = d := by
  have hhead {e : Chain} (he : e.WellFormed) (row : List Char) :
      (e.body.toList ++ row).head? ≠ some '[' := by
    obtain ⟨a, rest, hb⟩ :=
      List.exists_cons_of_ne_nil (mt String.toList_eq_nil_iff.mp he.body_ne)
    have ha := he.body.all_ne '[' rfl a (by simp [hb])
    simpa [hb] using ha
  have hrow (labels : List String) :
      ∀ c ∈ (labels.flatMap fun l => (bracketed l).toList).head?, (c != '[') = false := by
    cases labels <;> simp [toList_bracketed]
  have htext := congrArg String.toList h
  rw [toList_text, toList_text] at htext
  obtain ⟨hinputs, hrest⟩ :=
    row_append_inj hc.inputs hd.inputs (hhead hc _) (hhead hd _) htext
  obtain ⟨hbody, hlabels⟩ :=
    List.append_inj_of_head (hc.body.all_ne '[' rfl) (hd.body.all_ne '[' rfl) (hrow _) (hrow _)
      hrest
  have houtputs := row_append_inj (s := []) (t := []) hc.outputs hd.outputs (by simp) (by simp)
    (by simpa using hlabels)
  cases c
  cases d
  rw [mk.injEq]
  exact ⟨hinputs, String.toList_injective hbody, houtputs.1⟩

end Chain

def Node.chain (n : Node) : Chain where
  inputs := n.inputs.map (·.label)
  body := n.kind.text.getD ""
  outputs := n.outputs.map (·.label)

theorem Node.text_eq {n : Node} {body : String} (h : n.kind.text = some body) :
    n.text = some n.chain.text := by
  have hrow (ps : List Pad) :
      ps.map Pad.reference = (ps.map (·.label)).map Chain.bracketed := by
    rw [List.map_map]
    rfl
  simp [text, chain, Chain.text, h, hrow]

namespace Graph

/-- The nodes that the text of a graph has a chain for. -/
def emitted (g : Graph) : List Node := g.ordered.filter (·.kind.text.isSome)

theorem text_eq (g : Graph) :
    g.text = joinWith ";" ((g.emitted.map Node.chain).map Chain.text) := by
  have hnodes (ns : List Node) : ns.filterMap Node.text =
      ((ns.filter (·.kind.text.isSome)).map Node.chain).map Chain.text := by
    induction ns with
    | nil => rfl
    | cons n ns ih =>
      cases h : n.kind.text with
      | none => rw [List.filterMap_cons_none (by simp [Node.text, h]), ih]; simp [h]
      | some body => rw [List.filterMap_cons_some (Node.text_eq h), ih]; simp [h]
  rw [text, hnodes, emitted]

end Graph

open Text

theorem unmarked_echoText (inGain outGain : Float) (taps : List EchoTap) :
    Unmarked (echoText inGain outGain taps) := by
  have hdelays : Unmarked (joinWith "|" (taps.map fun t => Decimal.plain t.delayMs)) :=
    unmarked_joinWith (unmarked_ofList rfl) (by simp)
  have hdecays : Unmarked (joinWith "|" (taps.map fun t => Decimal.plain t.decay)) :=
    unmarked_joinWith (unmarked_ofList rfl) (by simp)
  simp only [echoText, unmarked_append, Decimal.unmarked_plain, hdelays, hdecays, and_true]
  exact ⟨⟨⟨unmarked_ofList rfl, unmarked_ofList rfl⟩, unmarked_ofList rfl⟩, unmarked_ofList rfl⟩

theorem AudioStage.unmarked_text (stage : AudioStage) : Unmarked stage.text := by
  cases stage with
  | declick => exact (unmarked_ofList rfl : Unmarked "adeclick")
  | declip => exact (unmarked_ofList rfl : Unmarked "adeclip")
  | echo inGain outGain tap => exact unmarked_echoText inGain outGain [tap]
  | reverb inGain outGain taps => exact unmarked_echoText inGain outGain taps
  | normalize =>
    unfold text
    simp only [unmarked_append, unmarked_toString, Decimal.unmarked_plain, and_true]
    exact ⟨unmarked_ofList rfl, unmarked_ofList rfl⟩
  | delay =>
    unfold text
    simp only [unmarked_append, unmarked_toString, and_true]
    exact ⟨unmarked_ofList rfl, unmarked_ofList rfl⟩

theorem Equalizer.unmarked_text (e : Equalizer) : Unmarked e.text := by
  unfold text
  simp only [unmarked_append, Decimal.unmarked_plain, and_true]
  exact ⟨⟨⟨⟨⟨unmarked_ofList rfl, unmarked_ofList rfl⟩, unmarked_ofList rfl⟩,
    unmarked_ofList rfl⟩, unmarked_ofList rfl⟩, unmarked_ofList rfl⟩

theorem Grade.unmarked_text (g : Grade) : Unmarked g.text := by
  rw [text, unmarked_append]
  refine ⟨unmarked_getD Equalizer.unmarked_text _, unmarked_getD (fun n => ?_) _⟩
  simp only [unmarked_append, unmarked_toString, and_true]
  exact ⟨unmarked_ofList rfl, unmarked_ofList rfl⟩

theorem NodeKind.unmarked_text {k : NodeKind} {body : String} (h : k.text = some body) :
    Unmarked body := by
  cases k with
  | input => contradiction
  | audioChain chain =>
    rw [← Option.some.inj h]
    refine unmarked_joinWith (unmarked_ofList rfl) ?_
    intro s hs
    obtain ⟨stage, -, rfl⟩ := List.mem_map.mp hs
    exact stage.unmarked_text
  | color =>
    rw [← Option.some.inj h]
    simp only [Size.text, unmarked_append, unmarked_toString, Decimal.unmarked_plain, true_and,
      and_true]
    exact ⟨⟨⟨unmarked_ofList rfl, unmarked_ofList rfl⟩, unmarked_ofList rfl⟩, unmarked_ofList rfl⟩
  | split =>
    rw [← Option.some.inj h]
    simp only [unmarked_append, unmarked_toString, and_true]
    exact unmarked_ofList rfl
  | overlay =>
    rw [← Option.some.inj h]
    simp only [unmarked_append, unmarked_toString, Decimal.unmarked_plain, and_true]
    exact ⟨⟨⟨⟨unmarked_ofList rfl, unmarked_ofList rfl⟩, unmarked_ofList rfl⟩,
      unmarked_ofList rfl⟩, unmarked_ofList rfl⟩
  | scaleCrop resolution crop grade =>
    rw [← Option.some.inj h]
    simp only [unmarked_append, unmarked_toString, unmarked_getD Grade.unmarked_text, true_and,
      and_true]
    exact ⟨⟨⟨⟨⟨unmarked_ofList rfl, unmarked_ofList rfl⟩, unmarked_ofList rfl⟩,
      unmarked_ofList rfl⟩, unmarked_ofList rfl⟩, unmarked_ofList rfl⟩
  | mix inputs padTo =>
    have hpad (t : Float) : Unmarked (",apad=whole_dur=" ++ Decimal.plain t) := by
      rw [unmarked_append]
      exact ⟨unmarked_ofList rfl, Decimal.unmarked_plain t⟩
    rw [← Option.some.inj h]
    simp only [unmarked_append, unmarked_toString, unmarked_getD hpad, and_true]
    exact ⟨unmarked_ofList rfl, unmarked_ofList rfl⟩

theorem NodeKind.text_eq_none_iff {k : NodeKind} :
    k.text = none ↔ ∃ i stream, k = .input i stream := by
  cases k <;> simp [text]

theorem joinWith_ne_empty {separator : String} {parts : List String} {s : String}
    (hs : s ∈ parts) (hne : s ≠ "") : joinWith separator parts ≠ "" := by
  induction parts with
  | nil => simp at hs
  | cons t rest ih =>
    cases rest with
    | nil =>
      rw [List.mem_singleton.mp hs] at hne
      simpa [joinWith] using hne
    | cons u rest =>
      rw [joinWith, String.intercalate_cons_cons]
      rcases List.mem_cons.mp hs with rfl | hs
      · simp [hne]
      · have hrest := ih hs
        rw [joinWith] at hrest
        simp [hrest]

theorem NodeKind.text_ne_empty {k : NodeKind} {body : String} (h : k.text = some body)
    (hchain : ∀ c, k = .audioChain c → joinWith "," (c.stages.map AudioStage.text) ≠ "") :
    body ≠ "" := by
  cases k with
  | input => contradiction
  | audioChain chain =>
    rw [← Option.some.inj h]
    exact hchain chain rfl
  | color | split | overlay | scaleCrop | mix =>
    rw [← Option.some.inj h]
    simp

end Montage
