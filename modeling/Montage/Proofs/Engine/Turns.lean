import Mathlib
import Montage.Engine.State
import Montage.Proofs.Lists

/-!
All that a step of the engine can be: what has to hold for it to be taken, and what it leaves.
-/

namespace Montage

namespace EngineState

section Frames

variable (s : EngineState) (i j : Nat) (c : Call) (slot : Slot) (seat : Seat) (f : Run → Run)
  (next : Phase)

@[simp] theorem files_setSeat : (s.setSeat slot seat).files = s.files := by cases slot <;> rfl

@[simp] theorem runs_setSeat : (s.setSeat slot seat).runs = s.runs := by cases slot <;> rfl

@[simp] theorem calls_setSeat : (s.setSeat slot seat).calls = s.calls := by cases slot <;> rfl

@[simp] theorem seat_setSeat :
    (s.setSeat slot seat).seat = Function.update s.seat slot seat := by
  funext place
  cases slot <;> cases place <;> rfl

@[simp] theorem files_setCall : (s.setCall i c).files = s.files := rfl

@[simp] theorem runs_setCall : (s.setCall i c).runs = s.runs := rfl

@[simp] theorem calls_setCall : (s.setCall i c).calls = s.calls.set i c := rfl

@[simp] theorem seat_setCall : (s.setCall i c).seat = s.seat := by
  funext place
  cases place <;> rfl

@[simp] theorem files_modifyRun : (s.modifyRun j f).files = s.files := rfl

@[simp] theorem runs_modifyRun : (s.modifyRun j f).runs = s.runs.modify j f := rfl

@[simp] theorem calls_modifyRun : (s.modifyRun j f).calls = s.calls := rfl

@[simp] theorem files_release : (s.release slot).files = s.files := files_setSeat ..

@[simp] theorem runs_release : (s.release slot).runs = s.runs := runs_setSeat ..

@[simp] theorem calls_release : (s.release slot).calls = s.calls := calls_setSeat ..

@[simp] theorem files_acquire : (s.acquire i c slot next).files = s.files := by
  unfold acquire
  split <;> simp

@[simp] theorem calls_acquire : (s.acquire i c slot next).calls =
    s.calls.set i { c with phase := (s.seat slot).occupant.elim next .evict } := by
  unfold acquire
  split <;> simp_all

@[simp] theorem length_runs_acquire : (s.acquire i c slot next).runs.length = s.runs.length := by
  unfold acquire
  split <;> simp

end Frames

end EngineState

/-- What a call that runs a command can do next. -/
inductive LaunchTurn (e : Engine) (s : EngineState) (i : Nat) (c : Call) (slot : Slot)
    (command : Command) (waits : Bool) : EngineState → Prop
  | prepare (files : FileTree) : c.phase = .prepare →
      s.files.makeDirectories e.place e.config.scratch = .ok files →
      LaunchTurn e s i c slot command waits ({ s with files }.setCall i { c with phase := .acquire })
  | unprepared (error : IoError) : c.phase = .prepare →
      s.files.makeDirectories e.place e.config.scratch = .error error →
      LaunchTurn e s i c slot command waits (s.setCall i (c.finish (.error (.io error))))
  | acquire : c.phase = .acquire → (s.seat slot).holder = none →
      LaunchTurn e s i c slot command waits (s.acquire i c slot .inspect)
  | evict (j : Nat) : c.phase = .evict j → s.isOver j →
      LaunchTurn e s i c slot command waits (s.setCall i { c with phase := .inspect })
  | inspect (found : Bool) : c.phase = .inspect → e.leftover s.files slot command = .ok found →
      LaunchTurn e s i c slot command waits
        (s.setCall i { c with phase := if found then .clear else .makeWay })
  | clear (files : FileTree) : c.phase = .clear → e.clear s.files slot command = .ok files →
      LaunchTurn e s i c slot command waits ({ s with files }.setCall i { c with phase := .makeWay })
  | makeWay (files : FileTree) : c.phase = .makeWay → e.makeWay s.files slot command = .ok files →
      LaunchTurn e s i c slot command waits ({ s with files }.setCall i { c with phase := .spawn })
  | spawn : c.phase = .spawn → e.canStart s.files command = .ok () →
      LaunchTurn e s i c slot command waits
        (({ s with runs := s.runs ++ [Run.start slot command] }.setSeat slot
          ⟨none, some s.runs.length⟩).setCall i
          { c with
            phase := if waits then .await s.runs.length else .done (.ok (.started s.runs.length command)) })
  | fail (error : EngineError) : c.phase ∈ [.inspect, .clear, .makeWay, .spawn] →
      error.isCompile = false →
      LaunchTurn e s i c slot command waits ((s.release slot).setCall i (c.finish (.error error)))
  | await (j : Nat) (run : Run) (o : Outcome) : c.phase = .await j → s.runs[j]? = some run →
      run.outcome? = some o →
      LaunchTurn e s i c slot command waits
        (s.setCall i { c with phase := .done (e.exportAnswer command o) })

/-- What a call that empties slots can do next. -/
inductive KillTurn (s : EngineState) (i : Nat) (c : Call) : List Slot → EngineState → Prop
  | finish : KillTurn s i c [] (s.setCall i (c.finish (.ok .killed)))
  | evict (j : Nat) (slot : Slot) (rest : List Slot) : c.phase = .evict j → s.isOver j →
      KillTurn s i c (slot :: rest) ((s.release slot).setCall i ⟨.kill rest, .acquire⟩)
  | acquire (slot : Slot) (rest : List Slot) : (∀ j, c.phase ≠ .evict j) →
      (s.seat slot).holder = none → (s.seat slot).occupant ≠ none →
      KillTurn s i c (slot :: rest) (s.acquire i c slot .acquire)
  | pass (slot : Slot) (rest : List Slot) : (∀ j, c.phase ≠ .evict j) →
      (s.seat slot).holder = none → (s.seat slot).occupant = none →
      KillTurn s i c (slot :: rest) (s.setCall i ⟨.kill rest, .acquire⟩)

/-- What a step of the engine can be. -/
inductive Turn (e : Engine) (s : EngineState) : Action → EngineState → Prop
  | call (job : Job) : Turn e s (.call job) { s with calls := s.calls ++ [e.begin job] }
  | launch (i : Nat) (c : Call) (slot : Slot) (command : Command) (waits : Bool)
      {s' : EngineState} : s.calls[i]? = some c → c.errand = .launch slot command waits →
      LaunchTurn e s i c slot command waits s' → Turn e s (.proceed i) s'
  | kill (i : Nat) (c : Call) (slots : List Slot) {s' : EngineState} : s.calls[i]? = some c →
      c.errand = .kill slots → KillTurn s i c slots s' → Turn e s (.proceed i) s'
  | watch (j : Nat) (r next : Run) : s.runs[j]? = some r →
      r.watch (e.stills s.files r.slot) = some next →
      Turn e s (.watch j) { s with runs := s.runs.set j next }
  | emit (j : Nat) (r : Run) (bytes : Bytes) : s.runs[j]? = some r → r.isAlive →
      Turn e s (.emit j bytes) { s with runs := s.runs.set j { r with unread := r.unread ++ bytes } }
  | alter (j : Nat) (r : Run) (files : FileTree) : s.runs[j]? = some r → r.isAlive →
      Turn e s (.alter j files) { s with files }
  | exit (j : Nat) (r : Run) (code : UInt8) : s.runs[j]? = some r → r.isAlive →
      Turn e s (.exit j code) { s with runs := s.runs.set j { r with life := .exited code } }

section Calls

variable {e : Engine} {s s' : EngineState} {i : Nat} {c : Call}

/-- Where a call that is under way may come to: not back to its start, and not to a complaint about
its request. -/
structure Phase.Onward (phase : Phase) : Prop where
  ne_prepare : phase ≠ .prepare
  isCompile : ∀ error, phase = .done (.error error) → error.isCompile = false

theorem Phase.Onward.of_ne_done {phase : Phase} (hprepare : phase ≠ .prepare)
    (hdone : ∀ answer, phase ≠ .done answer) : phase.Onward :=
  ⟨hprepare, fun error herror => absurd herror (hdone (.error error))⟩

theorem onward_exportAnswer (o : Outcome) (command : Command) :
    (Phase.done (e.exportAnswer command o)).Onward := by
  refine ⟨by simp, fun error herror => ?_⟩
  have herror := Phase.done.inj herror
  cases o with
  | finished code =>
    by_cases hcode : code = 0
    · simp [Engine.exportAnswer, hcode] at herror
    · rw [Engine.exportAnswer, if_neg hcode] at herror
      obtain rfl := Except.error.inj herror
      rfl
  | killed =>
    obtain rfl := Except.error.inj herror
    rfl

/-- A call that runs a command keeps its errand and goes on. -/
theorem LaunchTurn.onward {slot : Slot} {command : Command} {waits : Bool}
    (h : LaunchTurn e s i c slot command waits s') :
    ∃ phase : Phase, phase.Onward ∧ s'.calls = s.calls.set i { c with phase } := by
  cases h with
  | prepare => exact ⟨.acquire, .of_ne_done (by simp) (by simp), by simp⟩
  | evict => exact ⟨.inspect, .of_ne_done (by simp) (by simp), by simp⟩
  | clear => exact ⟨.makeWay, .of_ne_done (by simp) (by simp), by simp⟩
  | makeWay => exact ⟨.spawn, .of_ne_done (by simp) (by simp), by simp⟩
  | acquire =>
    refine ⟨_, ?_, EngineState.calls_acquire ..⟩
    cases (s.seat slot).occupant with
    | none | some => exact .of_ne_done (by simp) (by simp)
  | inspect found => cases found with
    | false => exact ⟨.makeWay, .of_ne_done (by simp) (by simp), by simp⟩
    | true => exact ⟨.clear, .of_ne_done (by simp) (by simp), by simp⟩
  | spawn => cases waits with
    | false => exact ⟨.done (.ok _), ⟨by simp, by simp⟩, by simp; rfl⟩
    | true => exact ⟨.await s.runs.length, .of_ne_done (by simp) (by simp), by simp⟩
  | unprepared error =>
    refine ⟨.done (.error (.io error)), ⟨by simp, ?_⟩, by simp; rfl⟩
    rintro error' ⟨⟩
    rfl
  | fail error _ hcompile =>
    refine ⟨.done (.error error), ⟨by simp, ?_⟩, by simp; rfl⟩
    rintro error' ⟨⟩
    exact hcompile
  | await j run o => exact ⟨_, onward_exportAnswer o command, by simp; rfl⟩

/-- A call that runs a command keeps its errand. -/
theorem LaunchTurn.calls_eq {slot : Slot} {command : Command} {waits : Bool}
    (h : LaunchTurn e s i c slot command waits s') :
    ∃ phase, s'.calls = s.calls.set i { c with phase } :=
  let ⟨phase, _, hcalls⟩ := h.onward
  ⟨phase, hcalls⟩

/-- A call that empties slots has one slot less to empty when it is done with it. -/
theorem KillTurn.calls_eq {slot : Slot} {rest : List Slot} (h : KillTurn s i c (slot :: rest) s') :
    (∃ phase, (∀ answer, phase ≠ .done answer) ∧ s'.calls = s.calls.set i { c with phase }) ∨
      s'.calls = s.calls.set i ⟨.kill rest, .acquire⟩ := by
  cases h with
  | evict => exact .inr (by simp)
  | acquire _ _ _ hfree hoccupant =>
    obtain ⟨j, hj⟩ := Option.ne_none_iff_exists'.mp hoccupant
    exact .inl ⟨.evict j, by simp, by simp [hj]⟩
  | pass => exact .inr (by simp)

/-- A call that empties slots keeps to that, and it does not fail. -/
theorem KillTurn.onward {slots : List Slot} (h : KillTurn s i c slots s')
    (herrand : c.errand = .kill slots) :
    ∃ (slots' : List Slot) (phase : Phase), (∀ error, phase ≠ .done (.error error)) ∧
      s'.calls = s.calls.set i ⟨.kill slots', phase⟩ := by
  cases h with
  | finish => exact ⟨[], .done (.ok .killed), by simp, by simp [Call.finish, herrand]⟩
  | evict _ slot rest => exact ⟨rest, .acquire, by simp, by simp⟩
  | acquire slot rest =>
    refine ⟨slot :: rest, _, fun error => ?_, by rw [EngineState.calls_acquire, herrand]⟩
    cases (s.seat slot).occupant <;> simp
  | pass slot rest => exact ⟨rest, .acquire, by simp, by simp⟩

/-- A step leaves the calls that do not take it. -/
theorem Turn.getElem?_calls {a : Action} (h : Turn e s a s') (hc : s.calls[i]? = some c)
    (ha : a ≠ .proceed i) : s'.calls[i]? = some c := by
  have hne {k : Nat} (hk : Action.proceed k ≠ .proceed i) : k ≠ i := fun heq => hk (heq ▸ rfl)
  cases h with
  | call => rw [List.getElem?_append_left (List.getElem?_eq_some_iff.mp hc).1, hc]
  | launch k c' slot command waits hc' herrand hturn =>
    obtain ⟨phase, hcalls⟩ := hturn.calls_eq
    rw [hcalls, List.getElem?_set_ne (hne ha), hc]
  | kill k c' slots hc' herrand hturn => cases slots with
    | nil =>
      obtain ⟨⟩ := hturn
      rw [EngineState.calls_setCall, List.getElem?_set_ne (hne ha), hc]
    | cons slot rest =>
      rcases hturn.calls_eq with ⟨phase, -, hcalls⟩ | hcalls
      all_goals rw [hcalls, List.getElem?_set_ne (hne ha), hc]
  | watch | emit | alter | exit => exact hc

/-- What a step leaves of the calls was there before, if it is not the call that takes the step. -/
theorem Turn.calls_getElem? {a : Action} (h : Turn e s a s') (hc : s'.calls[i]? = some c)
    (ha : a ≠ .proceed i) : s.calls[i]? = some c ∨ ∃ job, c = e.begin job := by
  by_cases hi : i < s.calls.length
  · obtain ⟨c₀, hc₀⟩ : ∃ c₀, s.calls[i]? = some c₀ := ⟨_, List.getElem?_eq_getElem hi⟩
    rw [h.getElem?_calls hc₀ ha] at hc
    exact .inl (hc ▸ hc₀)
  · have hi' := (List.getElem?_eq_some_iff.mp hc).1
    have hset {calls : List Call} {k : Nat} {c' : Call} (hcalls : calls = s.calls.set k c')
        (hlt : i < calls.length) : False := by
      rw [hcalls, List.length_set] at hlt
      exact hi hlt
    cases h with
    | call job =>
      rw [List.getElem?_append_right (Nat.not_lt.mp hi)] at hc
      exact .inr ⟨job, List.mem_singleton.mp (List.mem_of_getElem? hc)⟩
    | launch k _ _ _ _ _ _ hturn =>
      obtain ⟨phase, hcalls⟩ := hturn.calls_eq
      exact (hset hcalls hi').elim
    | kill k _ slots _ _ hturn => cases slots with
      | nil =>
        obtain ⟨⟩ := hturn
        exact (hset rfl hi').elim
      | cons =>
        rcases hturn.calls_eq with ⟨phase, -, hcalls⟩ | hcalls
        · exact (hset hcalls hi').elim
        · exact (hset hcalls hi').elim
    | watch | emit | alter | exit => exact absurd hi' hi

/-- A call that is there after a step was there before, or it is new, or it has gone on with its
errand, or all that it does is to empty slots. -/
theorem Turn.mem_calls {a : Action} (h : Turn e s a s') (hc : c ∈ s'.calls) :
    c ∈ s.calls ∨ (∃ job, a = .call job ∧ c = e.begin job) ∨
      (∃ c₀ ∈ s.calls, c.errand = c₀.errand ∧ c.phase.Onward) ∨
      ∃ slots, c.errand = .kill slots := by
  cases h with
  | call job =>
    rcases List.mem_append.mp hc with hc | hc
    · exact .inl hc
    · exact .inr (.inl ⟨job, rfl, List.mem_singleton.mp hc⟩)
  | launch k c₀ _ _ _ hc₀ _ hturn =>
    obtain ⟨phase, honward, hcalls⟩ := hturn.onward
    rw [hcalls] at hc
    rcases List.mem_or_eq_of_mem_set hc with hc | rfl
    · exact .inl hc
    · exact .inr (.inr (.inl ⟨c₀, List.mem_of_getElem? hc₀, rfl, honward⟩))
  | kill k c₀ _ _ herrand hturn =>
    obtain ⟨slots', phase, -, hcalls⟩ := hturn.onward herrand
    rw [hcalls] at hc
    rcases List.mem_or_eq_of_mem_set hc with hc | rfl
    · exact .inl hc
    · exact .inr (.inr (.inr ⟨slots', rfl⟩))
  | watch | emit | alter | exit => exact .inl hc

end Calls

namespace Engine

variable {e : Engine} {s s' : EngineState} {i : Nat} {c : Call}

theorem launchTurn_of_proceedLaunch {slot : Slot} {command : Command} {waits : Bool}
    (h : e.proceedLaunch s i c slot command waits = some s') :
    LaunchTurn e s i c slot command waits s' := by
  unfold proceedLaunch at h
  cases hphase : c.phase with
  | prepare =>
    simp only [hphase] at h
    split at h
    case h_1 files hfiles =>
      obtain rfl := Option.some.inj h
      exact .prepare files hphase hfiles
    case h_2 error herror =>
      obtain rfl := Option.some.inj h
      exact .unprepared error hphase herror
  | acquire =>
    simp only [hphase] at h
    split at h
    case isTrue hfree =>
      obtain rfl := Option.some.inj h
      exact .acquire hphase hfree
    case isFalse => contradiction
  | evict j =>
    simp only [hphase] at h
    split at h
    case isTrue hover =>
      obtain rfl := Option.some.inj h
      exact .evict j hphase hover
    case isFalse => contradiction
  | inspect =>
    simp only [hphase] at h
    split at h
    case h_1 found hfound =>
      obtain rfl := Option.some.inj h
      exact .inspect found hphase hfound
    case h_2 error herror =>
      obtain rfl := Option.some.inj h
      exact .fail (.io error) (by simp [hphase]) rfl
  | clear =>
    simp only [hphase] at h
    split at h
    case h_1 files hfiles =>
      obtain rfl := Option.some.inj h
      exact .clear files hphase hfiles
    case h_2 error herror =>
      obtain rfl := Option.some.inj h
      exact .fail (.io error) (by simp [hphase]) rfl
  | makeWay =>
    simp only [hphase] at h
    split at h
    case h_1 files hfiles =>
      obtain rfl := Option.some.inj h
      exact .makeWay files hphase hfiles
    case h_2 error herror =>
      obtain rfl := Option.some.inj h
      exact .fail (.io error) (by simp [hphase]) rfl
  | spawn =>
    simp only [hphase] at h
    split at h
    case h_1 hstart =>
      obtain rfl := Option.some.inj h
      exact .spawn hphase hstart
    case h_2 error herror =>
      obtain rfl := Option.some.inj h
      exact .fail (.process (.notStarted e.binary error)) (by simp [hphase]) rfl
  | await j =>
    simp only [hphase] at h
    split at h
    case h_1 run hrun =>
      obtain ⟨o, ho, hs⟩ := Option.bind_eq_some_iff.mp h
      obtain rfl := Option.some.inj hs
      exact .await j run o hphase hrun ho
    case h_2 => contradiction
  | done answer =>
    simp only [hphase] at h
    contradiction

theorem killTurn_of_proceedKill {slots : List Slot} (h : proceedKill s i c slots = some s') :
    KillTurn s i c slots s' := by
  unfold proceedKill at h
  split at h
  case h_1 => contradiction
  case h_2 =>
    obtain rfl := Option.some.inj h
    exact .finish
  case h_3 j slot rest hphase =>
    split at h
    case isTrue hover =>
      obtain rfl := Option.some.inj h
      exact .evict j slot rest hphase hover
    case isFalse => contradiction
  case h_4 slot rest _ hevict =>
    split at h
    case isTrue hfree =>
      split at h
      case h_1 j hj =>
        obtain rfl := Option.some.inj h
        exact .acquire slot rest hevict hfree (by simp [hj])
      case h_2 hnone =>
        obtain rfl := Option.some.inj h
        exact .pass slot rest hevict hfree hnone
    case isFalse => contradiction

theorem turn_of_step {a : Action} (h : e.step s a = some s') : Turn e s a s' := by
  cases a with
  | call job =>
    obtain rfl := Option.some.inj h
    exact .call job
  | proceed i =>
    obtain ⟨c, hc, hstep⟩ := Option.bind_eq_some_iff.mp h
    split at hstep
    case h_1 slot command waits herrand =>
      exact .launch i c slot command waits hc herrand (launchTurn_of_proceedLaunch hstep)
    case h_2 slots herrand => exact .kill i c slots hc herrand (killTurn_of_proceedKill hstep)
  | watch j =>
    obtain ⟨r, hr, hstep⟩ := Option.bind_eq_some_iff.mp h
    obtain ⟨next, hnext, hs⟩ := Option.bind_eq_some_iff.mp hstep
    obtain rfl := Option.some.inj hs
    exact .watch j r next hr hnext
  | emit j bytes =>
    obtain ⟨r, hr, hstep⟩ := Option.bind_eq_some_iff.mp h
    split at hstep
    case isTrue halive =>
      obtain rfl := Option.some.inj hstep
      exact .emit j r bytes hr halive
    case isFalse => contradiction
  | alter j files =>
    obtain ⟨r, hr, hstep⟩ := Option.bind_eq_some_iff.mp h
    split at hstep
    case isTrue halive =>
      obtain rfl := Option.some.inj hstep
      exact .alter j r files hr halive
    case isFalse => contradiction
  | exit j code =>
    obtain ⟨r, hr, hstep⟩ := Option.bind_eq_some_iff.mp h
    split at hstep
    case isTrue halive =>
      obtain rfl := Option.some.inj hstep
      exact .exit j r code hr halive
    case isFalse => contradiction

theorem launchTurn_of_step {slot : Slot} {command : Command} {waits : Bool} {phase : Phase}
    (hc : s.calls[i]? = some ⟨.launch slot command waits, phase⟩)
    (h : e.step s (.proceed i) = some s') :
    LaunchTurn e s i ⟨.launch slot command waits, phase⟩ slot command waits s' := by
  simp only [step, hc] at h
  exact launchTurn_of_proceedLaunch h

theorem killTurn_of_step {slots : List Slot} {phase : Phase}
    (hc : s.calls[i]? = some ⟨.kill slots, phase⟩) (h : e.step s (.proceed i) = some s') :
    KillTurn s i ⟨.kill slots, phase⟩ slots s' := by
  simp only [step, hc] at h
  exact killTurn_of_proceedKill h

end Engine

end Montage
