import Mathlib
import Montage.Engine.Run

/-!
The life of one run.  Whatever its process and its watcher do, the caller is told of the end at
most once, and only when the process is gone; after that nothing about the run changes any more.
-/

namespace Montage

namespace Run

variable {r r' : Run}

/-- The ends that the caller has been told of. -/
def endings (r : Run) : List (Outcome × List String) := r.notices.filterMap Notice.ended?

theorem isOver_iff : r.isOver ↔ r.endings ≠ [] := by
  rw [isOver, ending?, ← List.head?_filterMap, ← endings]
  simp

theorem outcome?_eq (r : Run) : r.outcome? = r.endings.head?.map (·.1) := by
  rw [outcome?, ending?, ← List.head?_filterMap, endings]

@[simp] theorem endings_tell_report (r : Run) (report : Report) :
    (r.tell (.report report)).endings = r.endings := by
  simp [endings, tell, Notice.ended?]

@[simp] theorem endings_tell_ended (r : Run) (o : Outcome) (stills : List String) :
    (r.tell (.ended o stills)).endings = r.endings ++ [(o, stills)] := by
  simp [endings, tell, Notice.ended?]

/-- Reading leaves all but the unread bytes, the progress and the reports. -/
structure Reads (r r' : Run) : Prop where
  slot : r'.slot = r.slot
  command : r'.command = r.command
  life : r'.life = r.life
  verdict : r'.verdict = r.verdict
  endings : r'.endings = r.endings

theorem reads_take (r : Run) (line : Bytes) : r.Reads (r.take line) := by
  unfold take
  split
  · exact ⟨rfl, rfl, rfl, rfl, rfl⟩
  · dsimp only
    split
    · exact ⟨rfl, rfl, rfl, rfl, endings_tell_report _ _⟩
    · exact ⟨rfl, rfl, rfl, rfl, rfl⟩

theorem reads_readLine (h : r.readLine = some r') : r.Reads r' := by
  have htake (unread line : Bytes) : r.Reads ({ r with unread }.take line) := by
    obtain ⟨hslot, hcommand, hlife, hverdict, hendings⟩ := reads_take { r with unread } line
    exact ⟨hslot, hcommand, hlife, hverdict, hendings⟩
  unfold readLine at h
  split at h
  · obtain rfl := Option.some.inj h
    exact htake _ _
  · split at h
    · contradiction
    · split at h
      · obtain rfl := Option.some.inj h
        exact ⟨rfl, rfl, rfl, rfl, rfl⟩
      · obtain rfl := Option.some.inj h
        exact htake _ _

/-- What becomes of a run when its watcher follows the process. -/
inductive Follows (r : Run) : Run → Prop
  | kill : r.doomed → Follows r { r with life := r.life.kill, verdict := some .killed }
  | read {s : Run} : r.Reads s → Follows r s
  | exit (code : UInt8) : r.life = .exited code →
      Follows r { r with verdict := some (.finished code) }

theorem follows_of_follow (h : r.follow = some r') : r.Follows r' := by
  unfold follow at h
  split at h
  case isTrue hdoomed =>
    obtain rfl := Option.some.inj h
    exact .kill hdoomed
  case isFalse =>
    split at h
    case isTrue => exact .read (reads_readLine h)
    case isFalse =>
      split at h
      case h_1 code hlife =>
        obtain rfl := Option.some.inj h
        exact .exit code hlife
      case h_2 => contradiction

/-- What the process of a run and its watcher can do. -/
inductive Moves (r : Run) : Run → Prop
  | follow {s : Run} : r.isOver = false → r.verdict = none → r.Follows s → Moves r s
  | tell (o : Outcome) (stills : List String) : r.isOver = false → r.verdict = some o →
      Moves r (r.tell (.ended o stills))
  | emit (bytes : Bytes) : r.isAlive → Moves r { r with unread := r.unread ++ bytes }
  | exit (code : UInt8) : r.isAlive → Moves r { r with life := .exited code }

theorem moves_of_watch {stills : List String} (h : r.watch stills = some r') : r.Moves r' := by
  unfold watch at h
  split at h
  case isTrue => contradiction
  case isFalse hover =>
    rw [Bool.not_eq_true] at hover
    split at h
    case h_1 o ho =>
      obtain rfl := Option.some.inj h
      exact .tell o stills hover ho
    case h_2 hnone => exact .follow hover hnone (follows_of_follow h)

/-- A run is told of at most once, with the outcome that the watcher saw, and the watcher sees an
outcome only when the process is gone. -/
structure Coherent (r : Run) : Prop where
  gone : r.verdict.isSome → r.isAlive = false
  exited : ∀ code, r.verdict = some (.finished code) → r.life = .exited code
  killed : r.life = .killed → r.verdict = some .killed
  told : r.endings = [] ∨ ∃ o stills, r.verdict = some o ∧ r.endings = [(o, stills)]

/-- The process is gone, and the caller has been told so once. -/
def IsGone (r : Run) : Prop := r.isAlive = false ∧ r.endings.length = 1

theorem isAlive_kill (l : Life) : (l.kill == Life.alive) = false := by cases l <;> rfl

namespace Coherent

theorem length_endings (h : r.Coherent) : r.endings.length ≤ 1 := by
  rcases h.told with hnil | ⟨o, stills, -, hone⟩
  · simp [hnil]
  · simp [hone]

theorem isGone (h : r.Coherent) (hover : r.isOver) : r.IsGone := by
  rcases h.told with hnil | ⟨o, stills, hverdict, hone⟩
  · exact absurd hnil (isOver_iff.mp hover)
  · exact ⟨h.gone (by rw [hverdict]; rfl), by rw [hone]; rfl⟩

theorem isOver_eq_false (h : r.Coherent) (halive : r.isAlive) : r.isOver = false := by
  by_contra hover
  have hgone := (h.isGone ((Bool.not_eq_false _).mp hover)).1
  rw [hgone] at halive
  contradiction

/-- What the caller is told is what the watcher saw. -/
theorem verdict_eq (h : r.Coherent) {o : Outcome} (ho : r.outcome? = some o) :
    r.verdict = some o := by
  rw [outcome?_eq] at ho
  rcases h.told with hnil | ⟨o', stills, hverdict, hone⟩
  · rw [hnil] at ho
    contradiction
  · rw [hone] at ho
    rw [hverdict, ← ho]
    rfl

theorem start (slot : Slot) (command : Command) : (Run.start slot command).Coherent where
  gone h := by contradiction
  exited _ h := by contradiction
  killed h := by contradiction
  told := .inl rfl

theorem doom (h : r.Coherent) : r.doom.Coherent := ⟨h.gone, h.exited, h.killed, h.told⟩

theorem reads (h : r.Coherent) (hr : r.Reads r') : r'.Coherent := by
  obtain ⟨-, -, hlife, hverdict, hendings⟩ := hr
  constructor
  · rw [hverdict, isAlive, hlife]
    exact h.gone
  · rw [hverdict, hlife]
    exact h.exited
  · rw [hverdict, hlife]
    exact h.killed
  · rw [hverdict, hendings]
    exact h.told

theorem endings_eq_nil (h : r.Coherent) (hnone : r.verdict = none) : r.endings = [] := by
  rcases h.told with hnil | ⟨o, stills, hverdict, -⟩
  · exact hnil
  · rw [hnone] at hverdict
    contradiction

theorem follows (h : r.Coherent) (hnone : r.verdict = none) (hr : r.Follows r') :
    r'.Coherent := by
  have hnil := h.endings_eq_nil hnone
  cases hr with
  | kill =>
    exact ⟨fun _ => isAlive_kill _, fun code hcode => by simp at hcode, fun _ => rfl, .inl hnil⟩
  | read hr => exact h.reads hr
  | exit code hlife =>
    refine ⟨fun _ => by simp [isAlive, hlife], fun code' hcode => ?_, fun hkilled => ?_, .inl hnil⟩
    · rw [hlife, (Outcome.finished.inj (Option.some.inj hcode))]
    · rw [hlife] at hkilled
      contradiction

/-- Nothing happens in a run that is over. -/
theorem isOver_of_moves (h : r.Coherent) (hr : r.Moves r') : r.isOver = false := by
  cases hr with
  | follow hover | tell _ _ hover => exact hover
  | emit _ halive | exit _ halive => exact h.isOver_eq_false halive

theorem moves (h : r.Coherent) (hr : r.Moves r') : r'.Coherent := by
  have hnil : r.endings = [] := by
    by_contra hne
    have hover := h.isOver_of_moves hr
    rw [isOver_iff.mpr hne] at hover
    contradiction
  cases hr with
  | follow _ hnone hr => exact h.follows hnone hr
  | tell o stills _ ho =>
    refine ⟨h.gone, h.exited, h.killed, .inr ⟨o, stills, ho, ?_⟩⟩
    rw [endings_tell_ended, hnil, List.nil_append]
  | emit bytes => exact ⟨h.gone, h.exited, h.killed, h.told⟩
  | exit code halive =>
    have hverdict : r.verdict = none := by
      by_contra hne
      rw [h.gone (Option.isSome_iff_ne_none.mpr hne)] at halive
      contradiction
    refine ⟨fun hsome => ?_, fun code' hcode => ?_, fun hkilled => ?_, .inl hnil⟩
    · rw [hverdict] at hsome
      contradiction
    · rw [hverdict] at hcode
      contradiction
    · contradiction

end Coherent

/-- What stays of a run: its slot, its command, how its process was seen to end, and all of it once
it is over. -/
structure Becomes (r r' : Run) : Prop where
  slot : r'.slot = r.slot
  command : r'.command = r.command
  verdict : ∀ o, r.verdict = some o → r'.verdict = some o
  settled : r.isOver → r'.life = r.life ∧ r'.notices = r.notices

namespace Becomes

theorem refl (r : Run) : r.Becomes r := ⟨rfl, rfl, fun _ => id, fun _ => ⟨rfl, rfl⟩⟩

theorem isOver (h : r.Becomes r') (hover : r.isOver) : r'.isOver := by
  rw [Run.isOver, ending?, (h.settled hover).2]
  exact hover

theorem outcome? (h : r.Becomes r') {o : Outcome} (ho : r.outcome? = some o) :
    r'.outcome? = some o := by
  have hover : r.isOver := by
    obtain ⟨ending, hending, -⟩ := Option.map_eq_some_iff.mp ho
    rw [Run.isOver, hending]
    rfl
  rw [Run.outcome?, ending?, (h.settled hover).2]
  exact ho

theorem trans {r'' : Run} (h : r.Becomes r') (h' : r'.Becomes r'') : r.Becomes r'' where
  slot := h'.slot.trans h.slot
  command := h'.command.trans h.command
  verdict o ho := h'.verdict o (h.verdict o ho)
  settled hover := by
    obtain ⟨hlife, hnotices⟩ := h.settled hover
    obtain ⟨hlife', hnotices'⟩ := h'.settled (h.isOver hover)
    exact ⟨hlife'.trans hlife, hnotices'.trans hnotices⟩

theorem doom (r : Run) : r.Becomes r.doom :=
  ⟨rfl, rfl, fun _ => id, fun _ => ⟨rfl, rfl⟩⟩

end Becomes

theorem Coherent.becomes (h : r.Coherent) (hr : r.Moves r') : r.Becomes r' := by
  have hover := h.isOver_of_moves hr
  have hsettled : r.isOver → r'.life = r.life ∧ r'.notices = r.notices := by
    intro hover'
    rw [hover] at hover'
    contradiction
  cases hr with
  | follow _ hnone hr =>
    have hverdict : ∀ o, r.verdict = some o → r'.verdict = some o := by simp [hnone]
    cases hr with
    | kill | exit => exact ⟨rfl, rfl, hverdict, hsettled⟩
    | read hr => exact ⟨hr.slot, hr.command, hverdict, hsettled⟩
  | tell | emit | exit => exact ⟨rfl, rfl, fun _ => id, hsettled⟩

end Run

end Montage
