import Mathlib
import Montage.Proofs.Engine.Occupancy
import Montage.Proofs.Progress.Folding

/-!
What a caller hears of the progress of a run.  Of the bytes that its process writes, in whatever
pieces they come, the watcher takes in line after line up to the first that is no text.  When it
has seen the process exit it has told of every block that these lines close, and after that of the
end; a line that is no text ends the reading, and the blocks after it are lost.
-/

namespace Montage

namespace Bytes

/-- The lines of what a process has written, without their ends.  The last need not have one. -/
def lines : Bytes → List Bytes
  | [] => []
  | b :: rest =>
    if b = 10 then [] :: lines rest
    else match lines rest with
      | [] => [[b]]
      | line :: more => (b :: line) :: more

def chars? (line : Bytes) : Option (List Char) := line.text?.map String.toList

/-- The lines that are text. -/
def texts (b : Bytes) : List (List Char) := b.lines.filterMap chars?

/-- The lines before the first that is no text. -/
def legible (b : Bytes) : List (List Char) :=
  (b.lines.takeWhile fun line => line.chars?.isSome).filterMap chars?

/-- The lines after these that are text. -/
def lost (b : Bytes) : List (List Char) :=
  (b.lines.dropWhile fun line => line.chars?.isSome).filterMap chars?

theorem lines_append {line : Bytes} (h : 10 ∉ line) (rest : Bytes) :
    lines (line ++ 10 :: rest) = line :: lines rest := by
  induction line with
  | nil => rfl
  | cons b line ih =>
    rw [List.mem_cons, not_or] at h
    rw [List.cons_append, lines, if_neg (Ne.symm h.1), ih h.2]

theorem lines_of_not_mem {line : Bytes} (h : 10 ∉ line) (hne : line ≠ []) :
    lines line = [line] := by
  induction line with
  | nil => contradiction
  | cons b line ih =>
    rw [List.mem_cons, not_or] at h
    rw [lines, if_neg (Ne.symm h.1)]
    cases line with
    | nil => rfl
    | cons c line => rw [ih h.2 (by simp)]

variable {b rest line : Bytes}

theorem legible_of_lines (h : b.lines = line :: rest.lines) :
    b.legible = line.chars?.elim [] (· :: rest.legible) := by
  rw [legible, h]
  cases hline : line.chars? with
  | none => rw [List.takeWhile_cons_of_neg (by simp [hline])]; rfl
  | some text =>
    rw [List.takeWhile_cons_of_pos (by simp [hline]), List.filterMap_cons_some hline]
    rfl

theorem texts_eq (b : Bytes) : b.texts = b.legible ++ b.lost := by
  rw [legible, lost, ← List.filterMap_append, List.takeWhile_append_dropWhile, texts]

end Bytes

namespace Progress

def Closes (line : List Char) : Prop := ∃ isEnd, Marks line (.closing isEnd)

instance : DecidablePred Closes := fun _ => decidable_of_iff _ (closes_iff (p := start))

theorem feed_snd (p : Progress) (line : List Char) : (p.feed line).2 = decide (Closes line) :=
  Bool.eq_iff_iff.mpr (closes_iff.trans (decide_eq_true_iff (p := Closes line)).symm)

/-- The reports on some lines: one for each line that closes a block, on all lines up to it. -/
def reports (duration : Float) (lines : List (List Char)) : List Report :=
  (lines.inits.filter fun upTo => upTo.getLast?.any fun line => Closes line).map fun upTo =>
    (start.run upTo).report duration

theorem reports_concat (duration : Float) (lines : List (List Char)) (line : List Char) :
    reports duration (lines ++ [line]) = reports duration lines ++
      if Closes line then [(start.run (lines ++ [line])).report duration] else [] := by
  have hinits : (lines ++ [line]).inits = lines.inits ++ [lines ++ [line]] := by
    simp [List.inits_append]
  rw [reports, hinits, List.filter_append, List.map_append, ← reports]
  split
  case isTrue h => simp [h]
  case isFalse h => simp [h]

theorem length_reports (duration : Float) (lines : List (List Char)) :
    (reports duration lines).length = lines.countP fun line => Closes line := by
  induction lines using List.reverseRecOn with
  | nil => rfl
  | append_singleton lines line ih =>
    rw [reports_concat, List.length_append, List.countP_append, ih, List.countP_singleton]
    congr 1
    by_cases h : Closes line <;> simp [h]

theorem prefix_reports (duration : Float) (lines more : List (List Char)) :
    reports duration lines <+: reports duration (lines ++ more) := by
  induction more using List.reverseRecOn with
  | nil => rw [List.append_nil]
  | append_singleton more line ih =>
    rw [← List.append_assoc, reports_concat]
    exact ih.trans (List.prefix_append ..)

/-- Further lines change the reports just when one of them closes a block. -/
theorem reports_eq_iff {duration : Float} {lines more : List (List Char)} :
    reports duration lines = reports duration (lines ++ more) ↔ ∀ line ∈ more, ¬Closes line := by
  have hlength : (reports duration lines).length = (reports duration (lines ++ more)).length ↔
      ∀ line ∈ more, ¬Closes line := by
    rw [length_reports, length_reports, List.countP_append, Nat.left_eq_add, List.countP_eq_zero]
    simp only [decide_eq_true_iff]
  rw [← hlength]
  exact ⟨congrArg List.length, (prefix_reports duration lines more).eq_of_length⟩

theorem run_concat (p : Progress) (lines : List (List Char)) (line : List Char) :
    p.run (lines ++ [line]) = ((p.run lines).feed line).1 := by
  rw [run_append]
  rfl

end Progress

namespace Run

variable {r r' : Run} {written line rest : Bytes} {read : List (List Char)}

theorem splitLine?_eq_some {b : Bytes} (h : splitLine? b = some (line, rest)) :
    b = line ++ 10 :: rest ∧ 10 ∉ line := by
  induction b generalizing line with
  | nil => contradiction
  | cons c b ih =>
    rw [splitLine?] at h
    split at h
    case isTrue hc =>
      obtain ⟨rfl, rfl⟩ := Prod.mk.inj (Option.some.inj h)
      exact ⟨by rw [hc]; rfl, List.not_mem_nil⟩
    case isFalse hc =>
      obtain ⟨⟨line', rest'⟩, hsplit, heq⟩ := Option.map_eq_some_iff.mp h
      obtain ⟨rfl, rfl⟩ := Prod.mk.inj heq
      obtain ⟨rfl, hline⟩ := ih hsplit
      exact ⟨rfl, by simp [hline, Ne.symm hc]⟩

theorem splitLine?_eq_none {b : Bytes} (h : splitLine? b = none) : 10 ∉ b := by
  induction b with
  | nil => exact List.not_mem_nil
  | cons c b ih =>
    rw [splitLine?] at h
    split at h
    case isTrue => contradiction
    case isFalse hc => simp [ih (Option.map_eq_none_iff.mp h), Ne.symm hc]

theorem endings_eq_nil_of_isOver (hover : r.isOver = false) : r.endings = [] := by
  by_contra hne
  rw [isOver_iff.mpr hne] at hover
  contradiction

/-- The watcher has taken in some lines of what the process has written: the caller has been told
of the blocks that they close and of nothing else but the end, and what is left to read are the
other lines up to the first that is no text, whatever the process writes while it is alive. -/
structure Relays (written : Bytes) (read : List (List Char)) (r : Run) : Prop where
  progress : r.progress = Progress.start.run read
  notices : r.notices = (Progress.reports r.command.duration read).map Notice.report ++
    r.endings.map fun e => .ended e.1 e.2
  unread : ∀ more, r.isAlive ∨ more = [] →
    (written ++ more).legible = read ++ if r.reading then (r.unread ++ more).legible else []
  finished : ∀ code, r.verdict = some (.finished code) → r.reading = false

namespace Relays

theorem start (slot : Slot) (command : Command) : (Run.start slot command).Relays [] [] where
  progress := rfl
  notices := rfl
  unread _ _ := rfl
  finished _ h := by contradiction

theorem doom (h : r.Relays written read) : r.doom.Relays written read :=
  ⟨h.progress, h.notices, h.unread, h.finished⟩

theorem emit (h : r.Relays written read) (halive : r.isAlive) (bytes : Bytes) :
    Relays (written ++ bytes) read { r with unread := r.unread ++ bytes } where
  progress := h.progress
  notices := h.notices
  unread more _ := by
    rw [List.append_assoc, List.append_assoc]
    exact h.unread (bytes ++ more) (.inl halive)
  finished := h.finished

theorem exit (h : r.Relays written read) (code : UInt8) :
    Relays written read { r with life := .exited code } where
  progress := h.progress
  notices := h.notices
  unread more hmore := h.unread more (.inr (hmore.resolve_left Bool.false_ne_true))
  finished := h.finished

theorem feed_eq (h : r.Relays written read) (text : List Char) :
    r.progress.feed text =
      (Progress.start.run (read ++ [text]), decide (Progress.Closes text)) := by
  rw [Progress.run_concat, ← h.progress]
  exact Prod.ext rfl (Progress.feed_snd ..)

/-- The watcher stops where there is no more text to be read. -/
theorem stop (h : r.Relays written read) (hreading : r.reading) (unread : Bytes)
    (hstop : ∀ more, r.isAlive ∨ more = [] → (r.unread ++ more).legible = []) :
    Relays written read { r with unread, reading := false } where
  progress := h.progress
  notices := h.notices
  unread more hmore := by
    rw [h.unread more hmore, if_pos hreading, hstop more hmore]
    rfl
  finished _ _ := rfl

/-- A line that is taken in was the next one to be read. -/
theorem take (h : r.Relays written read) (hreading : r.reading) (hnone : r.verdict = none)
    (hover : r.isOver = false)
    (hline : ∀ more, r.isAlive ∨ more = [] →
      (r.unread ++ more).legible = line.chars?.elim [] (· :: (rest ++ more).legible)) :
    ∃ read', ({ r with unread := rest }.take line).Relays written read' := by
  have hnil := endings_eq_nil_of_isOver hover
  have hnotices : r.notices = (Progress.reports r.command.duration read).map Notice.report := by
    rw [h.notices, hnil, List.map_nil, List.append_nil]
  cases htext : line.text? with
  | none =>
    have htake : { r with unread := rest }.take line =
        { r with unread := rest, reading := false } := by rw [Run.take, htext]
    rw [htake]
    refine ⟨read, h.stop hreading rest fun more hmore => ?_⟩
    rw [hline more hmore, Bytes.chars?, htext]
    rfl
  | some text =>
    have hunread (more : Bytes) (hmore : r.isAlive ∨ more = []) :
        (written ++ more).legible = read ++ [text.toList] ++ (rest ++ more).legible := by
      rw [h.unread more hmore, if_pos hreading, hline more hmore, Bytes.chars?, htext,
        List.append_assoc]
      rfl
    have hreports := Progress.reports_concat r.command.duration read text.toList
    have hfinished (code : UInt8) (hcode : r.verdict = some (.finished code)) :
        r.reading = false := by
      rw [hnone] at hcode
      contradiction
    refine ⟨read ++ [text.toList], ?_⟩
    rw [Run.take, htext]
    simp only [h.feed_eq, decide_eq_true_eq]
    split
    case isTrue hcloses =>
      rw [if_pos hcloses] at hreports
      refine ⟨rfl, ?_, fun more hmore => ?_, hfinished⟩
      · rw [endings_tell_report]
        change r.notices ++ [_] =
          List.map _ (Progress.reports r.command.duration _) ++ r.endings.map _
        rw [hreports, hnotices, hnil, List.map_append, List.map_nil, List.append_nil]
        rfl
      · exact (hunread more hmore).trans (by rw [tell, if_pos hreading])
    case isFalse hcloses =>
      rw [if_neg hcloses, List.append_nil] at hreports
      refine ⟨rfl, ?_, fun more hmore => ?_, hfinished⟩
      · change r.notices = List.map _ (Progress.reports r.command.duration _) ++ r.endings.map _
        rw [hreports, hnotices, hnil, List.map_nil, List.append_nil]
      · exact (hunread more hmore).trans (by rw [if_pos hreading])

theorem readLine (h : r.Relays written read) (hreading : r.reading) (hnone : r.verdict = none)
    (hover : r.isOver = false) (hr : r.readLine = some r') :
    ∃ read', r'.Relays written read' := by
  unfold Run.readLine at hr
  split at hr
  case h_1 line rest hsplit =>
    obtain rfl := Option.some.inj hr
    obtain ⟨hunread, hline⟩ := splitLine?_eq_some hsplit
    refine h.take hreading hnone hover fun more _ => Bytes.legible_of_lines ?_
    rw [hunread, List.append_assoc, List.cons_append, Bytes.lines_append hline]
  case h_2 hsplit =>
    split at hr
    case isTrue => contradiction
    case isFalse halive =>
      have hmore {more : Bytes} (hmore : r.isAlive ∨ more = []) : more = [] :=
        hmore.resolve_left halive
      split at hr
      case isTrue hempty =>
        obtain rfl := Option.some.inj hr
        refine ⟨read, h.stop hreading r.unread fun more hmore' => ?_⟩
        rw [hmore hmore', List.isEmpty_iff.mp hempty]
        rfl
      case isFalse hempty =>
        obtain rfl := Option.some.inj hr
        refine h.take hreading hnone hover fun more hmore' => Bytes.legible_of_lines ?_
        rw [hmore hmore', List.append_nil]
        exact Bytes.lines_of_not_mem (splitLine?_eq_none hsplit)
          fun hnil => hempty (List.isEmpty_iff.mpr hnil)

theorem watch {stills : List String} (h : r.Relays written read) (hr : r.watch stills = some r') :
    ∃ read', r'.Relays written read' := by
  unfold Run.watch at hr
  split at hr
  case isTrue => contradiction
  case isFalse hover =>
    rw [Bool.not_eq_true] at hover
    split at hr
    case h_1 o ho =>
      obtain rfl := Option.some.inj hr
      refine ⟨read, h.progress, ?_, h.unread, h.finished⟩
      rw [endings_tell_ended, List.map_append, ← List.append_assoc]
      exact congrArg (· ++ [Notice.ended o stills]) h.notices
    case h_2 hnone =>
      unfold Run.follow at hr
      split at hr
      case isTrue =>
        obtain rfl := Option.some.inj hr
        refine ⟨read, h.progress, h.notices, fun more hmore => h.unread more (.inr ?_), ?_⟩
        · exact hmore.resolve_left (by rw [isAlive, isAlive_kill]; exact Bool.false_ne_true)
        · intro code hcode
          cases Option.some.inj hcode
      case isFalse =>
        split at hr
        case isTrue hreading => exact h.readLine hreading hnone hover hr
        case isFalse hreading =>
          split at hr
          case h_1 code hlife =>
            obtain rfl := Option.some.inj hr
            rw [Bool.not_eq_true] at hreading
            exact ⟨read, h.progress, h.notices, h.unread, fun _ _ => hreading⟩
          case h_2 => contradiction

end Relays

/-- What a step of the engine can do to a run, with the bytes that its process writes then. -/
inductive Takes (r : Run) : Bytes → Run → Prop
  | rest : Takes r [] r
  | doom : Takes r [] r.doom
  | watch {stills : List String} {s : Run} : r.watch stills = some s → Takes r [] s
  | emit (bytes : Bytes) : r.isAlive → Takes r bytes { r with unread := r.unread ++ bytes }
  | exit (code : UInt8) : Takes r [] { r with life := .exited code }

theorem Relays.takes {bytes : Bytes} (h : r.Relays written read) (hr : r.Takes bytes r') :
    ∃ read', r'.Relays (written ++ bytes) read' := by
  cases hr with
  | emit _ halive => exact ⟨read, h.emit halive bytes⟩
  | rest => exact ⟨read, by rwa [List.append_nil]⟩
  | doom => exact ⟨read, by simpa using h.doom⟩
  | watch hr => simpa using h.watch hr
  | exit code => exact ⟨read, by simpa using h.exit code⟩

end Run

/-- What an action has the process of a run write. -/
def Action.written (j : Nat) : Action → Bytes
  | .emit k bytes => if k = j then bytes else []
  | _ => []

/-- A call leaves a run as it is, or asks for its end, or begins it. -/
theorem Desk.Serve.takes {d d' : Desk} {slot : Slot} (hs : d.Serve slot d') {j : Nat} {r' : Run}
    (hr' : d'.runs[j]? = some r') :
    (∃ r, d.runs[j]? = some r ∧ r.Takes [] r') ∨
      d.runs[j]? = none ∧ ∃ command, r' = Run.start slot command := by
  cases hs with
  | rest | enter | settle | release => exact .inl ⟨r', hr', .rest⟩
  | seize i k =>
    rw [List.getElem?_modify] at hr'
    obtain ⟨r, hr, rfl⟩ := Option.map_eq_some_iff.mp hr'
    refine .inl ⟨r, hr, ?_⟩
    split
    · exact .doom
    · exact .rest
  | spawn i command =>
    rw [List.getElem?_append] at hr'
    split at hr'
    case isTrue => exact .inl ⟨r', hr', .rest⟩
    case isFalse hlt =>
      refine .inr ⟨List.getElem?_eq_none (Nat.not_lt.mp hlt), command, ?_⟩
      exact List.mem_singleton.mp (List.mem_of_getElem? hr')

namespace Engine

variable {e : Engine} {s s' : EngineState} {a : Action} {actions : List Action} {j : Nat}

theorem takes_of_step (h : e.step s a = some s') {r' : Run} (hr' : s'.runs[j]? = some r') :
    (∃ r, s.runs[j]? = some r ∧ r.Takes (a.written j) r') ∨
      s.runs[j]? = none ∧ a.written j = [] ∧ ∃ slot command, r' = Run.start slot command := by
  have hserve {slot : Slot} (hs : s.desk.Serve slot s'.desk) (hnone : a.written j = []) :
      (∃ r, s.runs[j]? = some r ∧ r.Takes (a.written j) r') ∨
        s.runs[j]? = none ∧ a.written j = [] ∧ ∃ slot command, r' = Run.start slot command := by
    rw [hnone]
    rcases hs.takes hr' with htakes | ⟨hr, command, hcommand⟩
    · exact .inl htakes
    · exact .inr ⟨hr, rfl, slot, command, hcommand⟩
  have hset {k : Nat} {r next : Run} (hr : s.runs[k]? = some r)
      (htakes : r.Takes (a.written k) next) (hother : k ≠ j → a.written j = [])
      (hruns : s'.runs = s.runs.set k next) :
      ∃ r, s.runs[j]? = some r ∧ r.Takes (a.written j) r' := by
    rw [hruns] at hr'
    by_cases hk : k = j
    · subst hk
      rw [List.getElem?_set_of_eq_some hr] at hr'
      exact ⟨r, hr, Option.some.inj hr' ▸ htakes⟩
    · rw [List.getElem?_set_ne hk] at hr'
      exact ⟨r', hr', hother hk ▸ .rest⟩
  cases turn_of_step h with
  | call | alter => exact .inl ⟨r', hr', .rest⟩
  | launch i c slot command waits hc herrand hturn =>
    exact hserve (desk_launchTurn hc herrand hturn) rfl
  | kill i c slots hc herrand hturn => cases slots with
    | nil =>
      obtain ⟨⟩ := hturn
      exact .inl ⟨r', hr', .rest⟩
    | cons slot rest => exact hserve (desk_killTurn hc herrand hturn) rfl
  | watch k r next hr hnext => exact .inl (hset hr (.watch hnext) (fun _ => rfl) rfl)
  | emit k r bytes hr halive =>
    refine .inl (hset hr ?_ (fun hk => if_neg hk) rfl)
    rw [Action.written, if_pos rfl]
    exact .emit bytes halive
  | exit k r code hr => exact .inl (hset hr (.exit code) (fun _ => rfl) rfl)

/-- All that the process of a run has written. -/
def written (actions : List Action) (j : Nat) : Bytes := actions.flatMap (Action.written j)

theorem written_concat (actions : List Action) (a : Action) (j : Nat) :
    written (actions ++ [a]) j = written actions j ++ a.written j := by
  rw [written, List.flatMap_append, List.flatMap_singleton, ← written]

theorem getElem?_of_written (h : e.step s a = some s') (hj : a.written j ≠ []) :
    ∃ r, s.runs[j]? = some r := by
  cases turn_of_step h with
  | emit k r bytes hr =>
    rw [Action.written] at hj
    split at hj
    case isTrue hk => exact ⟨r, hk ▸ hr⟩
    case isFalse => contradiction
  | call | launch | kill | watch | alter | exit => contradiction

/-- Every run relays what its process has written, and what is not there yet has written nothing. -/
theorem relays_steps {files : FileTree} (h : e.steps (.start files) actions = some s) (j : Nat) :
    (∀ r, s.runs[j]? = some r → ∃ read, r.Relays (written actions j) read) ∧
      (s.runs[j]? = none → written actions j = []) := by
  induction actions using List.reverseRecOn generalizing s with
  | nil =>
    obtain rfl := Option.some.inj h
    exact ⟨fun r hr => by contradiction, fun _ => rfl⟩
  | append_singleton actions a ih =>
    obtain ⟨t, ht, hlast⟩ := steps_append.mp h
    obtain ⟨s', hstep, hs'⟩ := steps_cons.mp hlast
    obtain rfl := Option.some.inj hs'
    obtain ⟨hrelays, hsilent⟩ := ih ht
    rw [written_concat]
    constructor
    · intro r hr
      rcases takes_of_step hstep hr with ⟨r₀, hr₀, htakes⟩ | ⟨hnone, hwritten, slot, command, rfl⟩
      · obtain ⟨read, hread⟩ := hrelays r₀ hr₀
        exact hread.takes htakes
      · rw [hsilent hnone, hwritten]
        exact ⟨[], .start slot command⟩
    · intro hnone
      have hkeep {r : Run} (hr : t.runs[j]? = some r) : False := by
        have hreachable := (Reachable.start files).steps ht
        obtain ⟨r', hr', -⟩ := hreachable.coherent.becomes (desk_step hstep) hr
        exact absurd (hnone.symm.trans hr') (Option.some_ne_none r').symm
      have hquiet : a.written j = [] := by
        by_contra hne
        obtain ⟨r, hr⟩ := getElem?_of_written hstep hne
        exact hkeep hr
      rw [hsilent (Option.eq_none_iff_forall_ne_some.mpr fun r hr => hkeep hr), hquiet]
      rfl

/-- A preview whose process writes some pieces and exits, and whose watcher goes on then. -/
def preview (pieces : List Bytes) (watches : Nat) : List Action :=
  Action.call (.start (.ofMode .preview)) :: List.replicate 5 (Action.proceed 0) ++
    pieces.map (Action.emit 0) ++ Action.exit 0 0 :: List.replicate watches (Action.watch 0)

/-- Noise, a line in two pieces, a count that goes back, and a last line without an end. -/
def pieces : List Bytes :=
  ["frame=12\r\nnoise\nprogr", "ess=continue\nframe=7\nprogress=end"].map Bytes.ofString

/-- A line that is no text, and a block after it. -/
def garbled : List Bytes := [[255, 10], Bytes.ofString "progress=end\n"]

end Engine

end Montage
