import Mathlib
import Montage.Progress
import Montage.Proofs.Decimal.Quotients

/-!
What becomes of the lines that a processor reports.  The rendered time and the frame count are the
largest that were reported, a run is complete when the last line that closes a block says so, and
all other lines change nothing.
-/

namespace Montage.Progress

open Decimal (value Exact isFinite_div)

/-! ## The marks of a line -/

/-- What a line can change. -/
inductive Mark
  | time (seconds : Float)
  | frames (count : Nat)
  | closing (isEnd : Bool)

namespace Mark

def time? : Mark → Option Float
  | .time t => some t
  | _ => none

def frames? : Mark → Option Nat
  | .frames n => some n
  | _ => none

def closing? : Mark → Option Bool
  | .closing b => some b
  | _ => none

end Mark

def apply (p : Progress) : Mark → Progress
  | .time t => { p with seconds := Seconds.larger p.seconds t }
  | .frames n => { p with frames := max p.frames n }
  | .closing b => { p with complete := b }

/-- A line sets a key to a value: they stand around its first equals sign, without the blanks. -/
def Sets (line key value : List Char) : Prop :=
  ∃ k v, Text.trim line = k ++ '=' :: v ∧ '=' ∉ k ∧ Text.trim k = key ∧ Text.trim v = value

/-- What the lines stand for that say something. -/
inductive Marks (line : List Char) : Mark → Prop
  | time {key value : List Char} {us : Float} : Sets line key value →
      key = "out_time_us".toList ∨ key = "out_time_ms".toList →
      Decimal.readFloat? value = some us → us.isFinite → Marks line (.time (us / 1000000))
  | frames {value : List Char} {n : Nat} : Sets line "frame".toList value →
      Decimal.readWhole? UInt64.size value = some n → Marks line (.frames n)
  | closing {value : List Char} : Sets line "progress".toList value →
      Marks line (.closing (decide (value = "end".toList)))

theorem entry?_eq_some_iff {line key value : List Char} :
    entry? line = some (key, value) ↔ Sets line key value := by
  unfold entry?
  rw [Option.map_eq_some_iff]
  constructor
  · rintro ⟨⟨k, v⟩, hsplit, heq⟩
    obtain ⟨hline, hk⟩ := Text.splitAtFirst?_eq_some hsplit
    exact ⟨k, v, hline, hk, Prod.mk.inj heq⟩
  · rintro ⟨k, v, hline, hk, hkey, hvalue⟩
    exact ⟨(k, v), by rw [hline, Text.splitAtFirst?_append hk], Prod.ext hkey hvalue⟩

/-- What a key with its value stands for. -/
def markOf? (key value : List Char) : Option Mark :=
  if key = "out_time_us".toList ∨ key = "out_time_ms".toList then
    ((Decimal.readFloat? value).filter Float.isFinite).map fun us => .time (us / 1000000)
  else if key = "frame".toList then (Decimal.readWhole? UInt64.size value).map .frames
  else if key = "progress".toList then some (.closing (decide (value = "end".toList)))
  else none

/-- What a line stands for. -/
def mark? (line : List Char) : Option Mark := entry? line |>.bind fun e => markOf? e.1 e.2

theorem frame_ne_time :
    ¬("frame".toList = "out_time_us".toList ∨ "frame".toList = "out_time_ms".toList) := by decide

theorem progress_ne_time :
    ¬("progress".toList = "out_time_us".toList ∨ "progress".toList = "out_time_ms".toList) := by
  decide

theorem progress_ne_frame : "progress".toList ≠ "frame".toList := by decide

theorem mark?_eq_some_iff {line : List Char} {m : Mark} : mark? line = some m ↔ Marks line m := by
  rw [mark?, Option.bind_eq_some_iff]
  constructor
  · rintro ⟨⟨key, value⟩, hentry, hmark⟩
    rw [entry?_eq_some_iff] at hentry
    unfold markOf? at hmark
    split at hmark
    case isTrue hkey =>
      obtain ⟨us, hus, rfl⟩ := Option.map_eq_some_iff.mp hmark
      obtain ⟨hread, hfinite⟩ := Option.filter_eq_some_iff.mp hus
      exact .time hentry hkey hread hfinite
    case isFalse =>
      split at hmark
      case isTrue hkey =>
        obtain ⟨n, hn, rfl⟩ := Option.map_eq_some_iff.mp hmark
        exact .frames (hkey ▸ hentry) hn
      case isFalse =>
        split at hmark
        case isTrue hkey =>
          obtain rfl := Option.some.inj hmark
          exact .closing (hkey ▸ hentry)
        case isFalse => contradiction
  · intro h
    cases h with
    | time hsets hkey hread hfinite =>
      refine ⟨_, entry?_eq_some_iff.mpr hsets, ?_⟩
      rw [markOf?, if_pos hkey, hread, Option.filter, if_pos hfinite, Option.map_some]
    | @frames value n hsets hread =>
      refine ⟨_, entry?_eq_some_iff.mpr hsets, ?_⟩
      change markOf? "frame".toList value = _
      rw [markOf?, if_neg frame_ne_time, if_pos rfl, hread, Option.map_some]
    | @closing value hsets =>
      refine ⟨_, entry?_eq_some_iff.mpr hsets, ?_⟩
      change markOf? "progress".toList value = _
      rw [markOf?, if_neg progress_ne_time, if_neg progress_ne_frame, if_pos rfl]

theorem update_eq (p : Progress) (key value : List Char) :
    p.update key value = (markOf? key value).elim p p.apply := by
  unfold update markOf?
  split
  case isTrue =>
    unfold setTime
    cases Decimal.readFloat? value with
    | none => rfl
    | some us => cases h : us.isFinite <;> simp [Option.filter, h, apply]
  case isFalse =>
    split
    case isTrue =>
      unfold setFrames
      cases Decimal.readWhole? UInt64.size value <;> rfl
    case isFalse => split <;> rfl

/-- A line does to the progress what it stands for. -/
theorem feed_fst (p : Progress) (line : List Char) :
    (p.feed line).1 = (mark? line).elim p p.apply := by
  unfold feed mark?
  cases entry? line with
  | none => rfl
  | some entry => exact update_eq p entry.1 entry.2

theorem feed_snd_iff {p : Progress} {line : List Char} :
    (p.feed line).2 ↔ ∃ value, Sets line "progress".toList value := by
  simp only [← entry?_eq_some_iff]
  unfold feed
  cases entry? line with
  | none => exact iff_of_false Bool.false_ne_true fun ⟨_, h⟩ => by contradiction
  | some entry =>
    obtain ⟨key, value⟩ := entry
    refine decide_eq_true_iff.trans ⟨fun hkey => ⟨value, by rw [hkey]⟩, fun ⟨_, h⟩ => ?_⟩
    exact (Prod.mk.inj (Option.some.inj h)).1

/-! ## Sequences of lines -/

/-- The progress after a sequence of lines. -/
def run (p : Progress) (lines : List (List Char)) : Progress :=
  lines.foldl (fun p line => (p.feed line).1) p

theorem run_eq (p : Progress) (lines : List (List Char)) :
    p.run lines = (lines.filterMap mark?).foldl apply p := by
  induction lines generalizing p with
  | nil => rfl
  | cons line lines ih =>
    rw [run, List.foldl_cons, ← run, ih, feed_fst]
    cases h : mark? line with
    | none => rw [List.filterMap_cons_none h, Option.elim_none]
    | some m => rw [List.filterMap_cons_some h, Option.elim_some, List.foldl_cons]

theorem frames_foldl (p : Progress) (marks : List Mark) :
    (marks.foldl apply p).frames = (marks.filterMap Mark.frames?).foldl max p.frames := by
  induction marks generalizing p with
  | nil => rfl
  | cons m marks ih => cases m <;> exact ih _

theorem seconds_foldl (p : Progress) (marks : List Mark) :
    (marks.foldl apply p).seconds =
      (marks.filterMap Mark.time?).foldl Seconds.larger p.seconds := by
  induction marks generalizing p with
  | nil => rfl
  | cons m marks ih => cases m <;> exact ih _

theorem complete_foldl (p : Progress) (marks : List Mark) :
    (marks.foldl apply p).complete =
      ((marks.filterMap Mark.closing?).getLast?).getD p.complete := by
  induction marks generalizing p with
  | nil => rfl
  | cons m marks ih =>
    cases m with
    | time | frames => exact ih _
    | closing b =>
      have hcons : (Mark.closing b :: marks).filterMap Mark.closing? =
          b :: marks.filterMap Mark.closing? := rfl
      rw [List.foldl_cons, ih, hcons, List.getLast?_cons, Option.getD_some]
      rfl

theorem mem_filterMap_mark? {α : Type} {f : Mark → Option α} {lines : List (List Char)} {a : α} :
    a ∈ (lines.filterMap mark?).filterMap f ↔ ∃ line ∈ lines, ∃ m, Marks line m ∧ f m = some a := by
  simp only [List.mem_filterMap, mark?_eq_some_iff]
  exact ⟨fun ⟨m, ⟨line, hline, hm⟩, ha⟩ => ⟨line, hline, m, hm, ha⟩,
    fun ⟨line, hline, m, hm, ha⟩ => ⟨m, ⟨line, hline, hm⟩, ha⟩⟩

theorem frames?_eq_some_iff {m : Mark} {n : Nat} : m.frames? = some n ↔ m = .frames n := by
  cases m <;> simp [Mark.frames?]

theorem time?_eq_some_iff {m : Mark} {t : Float} : m.time? = some t ↔ m = .time t := by
  cases m <;> simp [Mark.time?]

theorem closing?_eq_some_iff {m : Mark} {b : Bool} : m.closing? = some b ↔ m = .closing b := by
  cases m <;> simp [Mark.closing?]

theorem run_append (p : Progress) (lines more : List (List Char)) :
    p.run (lines ++ more) = (p.run lines).run more := List.foldl_append

/-! ## Rendered frames and time -/

variable {lines : List (List Char)}

theorem mem_frames {n : Nat} : n ∈ (lines.filterMap mark?).filterMap Mark.frames? ↔
    ∃ line ∈ lines, Marks line (.frames n) := by
  simp only [mem_filterMap_mark?, frames?_eq_some_iff, exists_eq_right]

theorem mem_times {t : Float} : t ∈ (lines.filterMap mark?).filterMap Mark.time? ↔
    ∃ line ∈ lines, Marks line (.time t) := by
  simp only [mem_filterMap_mark?, time?_eq_some_iff, exists_eq_right]

theorem isGreatest_frames (lines : List (List Char)) :
    IsGreatest {n | n = 0 ∨ ∃ line ∈ lines, Marks line (.frames n)} (start.run lines).frames := by
  have hmax : (0 :: (lines.filterMap mark?).filterMap Mark.frames?).max? =
      some (start.run lines).frames := by
    rw [run_eq, frames_foldl]
    exact List.max?_cons'
  obtain ⟨hmem, hle⟩ := List.max?_eq_some_iff.mp hmax
  simp only [List.mem_cons, mem_frames] at hmem hle
  exact ⟨hmem, hle⟩

theorem value_million : value 1000000 = 1000000 := by
  have hexact : Exact.ofFloat 1000000 = .finite false 8589934592000000 (-33) := by decide +kernel
  rw [value, hexact]
  norm_num [Exact.value]

/-- The time of a line is finite: it is a finite number divided by a million. -/
theorem Marks.isFinite {line : List Char} {t : Float} (h : Marks line (.time t)) : t.isFinite := by
  cases h with
  | time _ _ _ hfinite =>
    exact isFinite_div hfinite (by decide +kernel) (by rw [value_million]; norm_num)

theorem seconds_run (lines : List (List Char)) :
    (start.run lines).seconds.isFinite ∧
      ∀ t, t = 0 ∨ (∃ line ∈ lines, Marks line (.time t)) → t ≤ (start.run lines).seconds := by
  have hfinite : ∀ t ∈ (lines.filterMap mark?).filterMap Mark.time?, t.isFinite := by
    intro t ht
    obtain ⟨_, _, h⟩ := mem_times.mp ht
    exact h.isFinite
  rw [run_eq, seconds_foldl]
  obtain ⟨hlast, hle⟩ := Decimal.le_foldl_larger hfinite Decimal.isFinite_zero
  simp only [List.mem_cons, mem_times] at hle
  exact ⟨hlast, hle⟩

theorem seconds_run_mem (lines : List (List Char)) : (start.run lines).seconds = 0 ∨
    ∃ line ∈ lines, Marks line (.time (start.run lines).seconds) := by
  have hmem := Seconds.foldl_larger_mem ((lines.filterMap mark?).filterMap Mark.time?) 0
  have hrun : (start.run lines).seconds =
      ((lines.filterMap mark?).filterMap Mark.time?).foldl Seconds.larger 0 := by
    rw [run_eq, seconds_foldl]
    rfl
  rw [← hrun, List.mem_cons, mem_times] at hmem
  exact hmem

/-! ## Closed blocks -/

theorem bind_closing?_eq_some_iff {line : List Char} {b : Bool} :
    (mark? line).bind Mark.closing? = some b ↔ Marks line (.closing b) := by
  simp only [Option.bind_eq_some_iff, mark?_eq_some_iff, closing?_eq_some_iff, exists_eq_right]

/-- A run is complete when the last line that closes a block says that it has ended. -/
theorem complete_run_iff : (start.run lines).complete ↔
    ∃ before line after, lines = before ++ line :: after ∧ Marks line (.closing true) ∧
      ∀ l ∈ after, ∀ b, ¬Marks l (.closing b) := by
  have hnone {l : List Char} :
      (mark? l).bind Mark.closing? = none ↔ ∀ b, ¬Marks l (.closing b) := by
    simp only [Option.eq_none_iff_forall_ne_some, ne_eq, bind_closing?_eq_some_iff]
  rw [run_eq, complete_foldl, List.filterMap_filterMap, List.getLast?_filterMap]
  have hgetD (o : Option Bool) : o.getD start.complete = true ↔ o = some true := by
    cases o <;> simp [start]
  rw [hgetD, List.findSome?_eq_some_iff]
  simp only [bind_closing?_eq_some_iff, hnone]
  constructor
  · rintro ⟨after, line, before, hlines, hline, hafter⟩
    refine ⟨before.reverse, line, after.reverse, ?_, hline, fun l hl => ?_⟩
    · rw [← List.reverse_reverse lines, hlines]
      simp
    · exact hafter l (List.mem_reverse.mp hl)
  · rintro ⟨before, line, after, rfl, hline, hafter⟩
    refine ⟨after.reverse, line, before.reverse, by simp, hline, fun l hl => ?_⟩
    exact hafter l (List.mem_reverse.mp hl)

theorem closes_iff {p : Progress} {line : List Char} :
    (p.feed line).2 ↔ ∃ b, Marks line (.closing b) := by
  rw [feed_snd_iff]
  exact ⟨fun ⟨_, h⟩ => ⟨_, .closing h⟩, fun ⟨_, h⟩ => by cases h with | closing h => exact ⟨_, h⟩⟩

/-- A line that says nothing changes nothing. -/
theorem feed_of_forall_not {p : Progress} {line : List Char} (h : ∀ m, ¬Marks line m) :
    p.feed line = (p, false) := by
  refine Prod.ext ?_ (Bool.eq_false_iff.mpr fun hclose => ?_)
  · have hmark : mark? line = none :=
      Option.eq_none_iff_forall_ne_some.mpr fun m hm => h m (mark?_eq_some_iff.mp hm)
    rw [feed_fst, hmark]
    rfl
  · obtain ⟨b, hb⟩ := closes_iff.mp hclose
    exact h _ hb

/-! ## Reports -/

theorem fraction_mem (p : Progress) (hfinite : p.seconds.isFinite) (duration : Float) :
    0 ≤ (p.report duration).fraction ∧ (p.report duration).fraction ≤ 1 := by
  unfold report
  dsimp only
  split
  case isTrue => decide +kernel
  case isFalse =>
    split
    case isTrue hpos =>
      exact Decimal.le_clamp_of_isNaN (by decide +kernel) (by decide +kernel) (by decide +kernel)
        (Decimal.isNaN_div hfinite hpos)
    case isFalse => decide +kernel

/-- What the progress after some lines is, and what can become of it. -/
structure Folds (lines : List (List Char)) (p : Progress) : Prop where
  frames : IsGreatest {n | n = 0 ∨ ∃ line ∈ lines, Marks line (.frames n)} p.frames
  seconds_mem : p.seconds = 0 ∨ ∃ line ∈ lines, Marks line (.time p.seconds)
  le_seconds : ∀ t, t = 0 ∨ (∃ line ∈ lines, Marks line (.time t)) → t ≤ p.seconds
  seconds_finite : p.seconds.isFinite
  complete : p.complete ↔ ∃ before line after, lines = before ++ line :: after ∧
    Marks line (.closing true) ∧ ∀ l ∈ after, ∀ b, ¬Marks l (.closing b)
  closes : ∀ line, (p.feed line).2 ↔ ∃ b, Marks line (.closing b)
  idle : ∀ line, (∀ m, ¬Marks line m) → p.feed line = (p, false)
  grows : ∀ more, p.frames ≤ (p.run more).frames ∧ p.seconds ≤ (p.run more).seconds
  fraction : ∀ duration, 0 ≤ (p.report duration).fraction ∧ (p.report duration).fraction ≤ 1

theorem folds_run (lines : List (List Char)) : Folds lines (start.run lines) where
  frames := isGreatest_frames lines
  seconds_mem := seconds_run_mem lines
  le_seconds := (seconds_run lines).2
  seconds_finite := (seconds_run lines).1
  complete := complete_run_iff
  closes _ := closes_iff
  idle _ := feed_of_forall_not
  grows more := by
    rw [← run_append]
    constructor
    · exact (isGreatest_frames _).2 <| (isGreatest_frames lines).1.imp_right
        fun ⟨line, hline, h⟩ => ⟨line, List.mem_append_left more hline, h⟩
    · exact (seconds_run _).2 _ <| (seconds_run_mem lines).imp_right
        fun ⟨line, hline, h⟩ => ⟨line, List.mem_append_left more hline, h⟩
  fraction := fraction_mem _ (seconds_run lines).1

end Montage.Progress
