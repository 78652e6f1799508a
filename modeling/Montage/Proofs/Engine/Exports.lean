import Mathlib
import Montage.Proofs.Command.Plan
import Montage.Proofs.Engine.Occupancy
import Montage.Proofs.FileTree

/-!
An export answers for the process that it spawned itself, whatever other calls and processes do in
the meantime.
-/

namespace Montage

/-- Only processes of the encode slot may make a file at a place, and a process leaves everything
in a directory. -/
def EngineState.Allows (s : EngineState) (p : Place) : Action → Prop
  | .alter j files => files.Sound ∧
      (files.IsFile p → s.files.IsFile p ∨ s.runs[j]?.map Run.slot = some .encode)
  | _ => True

instance (s : EngineState) (p : Place) : DecidablePred (s.Allows p)
  | .alter .. => inferInstanceAs (Decidable (_ ∧ (_ → _)))
  | .call _ | .proceed _ | .watch _ | .emit .. | .exit .. => .isTrue trivial

theorem Path.join_ne_empty {base : String} (path : String) (h : base ≠ "") :
    Path.join base path ≠ "" := by
  unfold Path.join
  intro hjoin
  split at hjoin
  case isTrue habs =>
    subst hjoin
    simp [h, Path.isAbsolute] at habs
  case isFalse =>
    split at hjoin <;> simp [h] at hjoin

namespace Engine

variable {e : Engine} {s s' : EngineState} {i j : Nat} {c : Command} {p : Place}

/-- Actions that are all allowed where they are taken. -/
def Lawful (e : Engine) (p : Place) : EngineState → List Action → Prop
  | _, [] => True
  | s, a :: rest => s.Allows p a ∧
    match e.step s a with
    | some s' => e.Lawful p s' rest
    | none => True

def decideLawful (e : Engine) (p : Place) : (s : EngineState) → (actions : List Action) →
    Decidable (e.Lawful p s actions)
  | _, [] => .isTrue trivial
  | s, a :: rest =>
    have : Decidable (match e.step s a with
        | some s' => e.Lawful p s' rest
        | none => True) :=
      match e.step s a with
      | some s' => e.decideLawful p s' rest
      | none => .isTrue trivial
    inferInstanceAs (Decidable (_ ∧ _))

instance (s : EngineState) (actions : List Action) : Decidable (e.Lawful p s actions) :=
  e.decideLawful p s actions

/-- What every allowed step keeps holds after any number of them. -/
theorem steps_trace {P : List Action → EngineState → Prop} {rest : List Action}
    (hstep : ∀ taken s s' a, P taken s → s.Allows p a → e.step s a = some s' → P (taken ++ [a]) s')
    {taken : List Action} (hs : P taken s) (hlawful : e.Lawful p s rest)
    (h : e.steps s rest = some s') : P (taken ++ rest) s' := by
  induction rest generalizing taken s with
  | nil =>
    obtain rfl := Option.some.inj h
    rwa [List.append_nil]
  | cons a rest ih =>
    obtain ⟨t, ht, hrest⟩ := steps_cons.mp h
    obtain ⟨hallows, hlawful⟩ := hlawful
    rw [ht] at hlawful
    rw [List.append_cons]
    exact ih (hstep taken s t a hs hallows ht) hlawful hrest

/-- A call that runs a command adds no file by itself. -/
theorem files_launchTurn {call : Call} {slot : Slot} {command : Command} {waits : Bool}
    (h : LaunchTurn e s i call slot command waits s') : s.files.AddsNoFile s'.files := by
  cases h with
  | prepare files _ hfiles => exact .makeDirectories hfiles
  | unprepared | evict | inspect | await => exact .refl _
  | acquire | spawn | fail =>
    simp only [EngineState.files_acquire, EngineState.files_setCall, EngineState.files_setSeat,
      EngineState.files_release]
    exact .refl _
  | clear files _ hfiles => cases slot with
    | encode => exact .removeFile hfiles
    | thumbnails => exact .removeTree hfiles
  | makeWay files _ hfiles =>
    unfold makeWay at hfiles
    split at hfiles
    case h_1 =>
      split at hfiles
      · exact .makeDirectories hfiles
      · obtain rfl := Except.ok.inj hfiles
        exact .refl _
    case h_2 => exact .makeDirectories hfiles

theorem files_killTurn {call : Call} {slots : List Slot} (h : KillTurn s i call slots s') :
    s'.files = s.files := by
  cases h <;> simp

/-- All that adds files is what processes do. -/
theorem files_step {a : Action} (h : e.step s a = some s') :
    s.files.AddsNoFile s'.files ∨
      ∃ j r, a = .alter j s'.files ∧ s.runs[j]? = some r ∧ r.isAlive := by
  cases turn_of_step h with
  | launch i call slot command waits _ _ hturn => exact .inl (files_launchTurn hturn)
  | kill i call slots _ _ hturn => exact .inl (files_killTurn hturn ▸ .refl _)
  | alter j r files hr halive => exact .inr ⟨j, r, rfl, hr, halive⟩
  | call | watch | emit | exit => exact .inl (.refl _)

theorem sound_step {a : Action} (hs : s.files.Sound) (hallows : s.Allows p a)
    (h : e.step s a = some s') : s'.files.Sound := by
  rcases files_step h with hfiles | ⟨j, r, rfl, -⟩
  · exact hfiles.sound hs
  · exact hallows.1

/-- A call is done when it is answered. -/
theorem exists_call_of_answer {answer : Except EngineError Reply} (h : s.answer? i = some answer) :
    ∃ errand, s.calls[i]? = some ⟨errand, .done answer⟩ := by
  obtain ⟨⟨errand, phase⟩, hc, hphase⟩ := Option.bind_eq_some_iff.mp h
  cases phase with
  | done => exact ⟨errand, Option.some.inj hphase ▸ hc⟩
  | _ => contradiction

theorem step_proceed_of_answer {answer : Except EngineError Reply}
    (h : s.answer? i = some answer) : e.step s (.proceed i) = none := by
  obtain ⟨errand, hc⟩ := exists_call_of_answer h
  cases errand with
  | launch | kill => simp [step, hc, proceedLaunch, proceedKill]

theorem answer_step {a : Action} {answer : Except EngineError Reply}
    (h : e.step s a = some s') (hanswer : s.answer? i = some answer) :
    s'.answer? i = some answer := by
  obtain ⟨call, hc, hphase⟩ := Option.bind_eq_some_iff.mp hanswer
  have ha : a ≠ .proceed i := by
    rintro rfl
    rw [step_proceed_of_answer hanswer] at h
    contradiction
  rw [EngineState.answer?, (turn_of_step h).getElem?_calls hc ha]
  exact hphase

theorem mode_eq_of_compileFor {pow : Power} {r : Request} {op : Operation}
    (h : r.compileFor pow op = .ok c) : c.mode = r.mode := by
  cases Request.compiles pow r op with
  | planned plan eq =>
    rw [eq] at h
    split at h
    · obtain rfl := Except.ok.inj h
      rfl
    · contradiction
  | badTiles f _ eq | badChains _ f _ _ eq =>
    rw [eq] at h
    contradiction

/-- An export renders, and it waits for its process. -/
theorem compile_exportFile {r : Request} {errand : Errand}
    (h : e.compile (.exportFile r) = .ok errand) :
    ∃ c, errand = .launch .encode c true ∧ c.mode = .render := by
  obtain ⟨_, hcheck, h⟩ := bind_eq_ok_iff.mp h
  obtain ⟨c, hc, h⟩ := bind_eq_ok_iff.mp h
  refine ⟨c, (Except.ok.inj h).symm, ?_⟩
  rw [mode_eq_of_compileFor hc]
  cases hmode : r.mode with
  | render => rfl
  | _ =>
    rw [hmode] at hcheck
    contradiction

/-- The call of an export. -/
def exportCall (c : Command) (phase : Phase) : Call := ⟨.launch .encode c true, phase⟩

/-- A call that has not spawned its process yet, and has cleared the place of its output by the
time that it is about to. -/
inductive Prepares (e : Engine) (path : String) (c : Command) (i : Nat) (s : EngineState) : Prop
  | early (phase : Phase) : s.calls[i]? = some (exportCall c phase) →
      phase ∈ [.prepare, .acquire, .inspect, .clear] ∨ (∃ j, phase = .evict j) →
      Prepares e path c i s
  | ready (phase : Phase) : s.calls[i]? = some (exportCall c phase) →
      phase ∈ [.makeWay, .spawn] →
      (path = e.outputOf c → path ≠ "" → ¬s.files.IsFile (Path.place e.place path)) →
      Prepares e path c i s
  | failed (error : EngineError) : s.calls[i]? = some (exportCall c (.done (.error error))) →
      Prepares e path c i s

/-- A call that waits for run `j`, or has been answered by the end of it. -/
inductive Awaits (e : Engine) (c : Command) (i j : Nat) (s : EngineState) : Prop
  | waiting : s.calls[i]? = some (exportCall c (.await j)) → Awaits e c i j s
  | answered (run : Run) (o : Outcome) :
      s.calls[i]? = some (exportCall c (.done (e.exportAnswer c o))) → s.runs[j]? = some run →
      run.outcome? = some o → Awaits e c i j s

theorem Awaits.step {a : Action} (hs : e.Reachable s) (h : e.Awaits c i j s)
    (hstep : e.step s a = some s') : e.Awaits c i j s' := by
  cases h with
  | waiting hc =>
    by_cases ha : a = .proceed i
    · subst ha
      cases launchTurn_of_step hc hstep with
      | await k run o hphase hrun ho =>
        obtain rfl := Phase.await.inj hphase
        exact .answered run o (List.getElem?_set_of_eq_some hc _) hrun ho
      | fail _ hphase => simp at hphase
      | prepare _ hphase | unprepared _ hphase | acquire hphase | evict _ hphase | inspect _ hphase
      | clear _ hphase | makeWay _ hphase | spawn hphase => contradiction
    · exact .waiting ((turn_of_step hstep).getElem?_calls hc ha)
  | answered run o hc hrun ho =>
    have ha : a ≠ .proceed i := by
      rintro rfl
      have hanswer : s.answer? i = some (e.exportAnswer c o) := by
        rw [EngineState.answer?, hc]
        rfl
      rw [step_proceed_of_answer hanswer] at hstep
      contradiction
    obtain ⟨run', hrun', hbecomes⟩ := hs.coherent.becomes (desk_step hstep) hrun
    refine .answered run' o ((turn_of_step hstep).getElem?_calls hc ha) hrun' ?_
    exact hbecomes.outcome? ho

/-- Where an export is about to spawn its process nothing else can put a file in its place. -/
theorem not_isFile_step {a : Action} (hs : e.Reachable s) {phase : Phase}
    (hc : s.calls[i]? = some (exportCall c phase)) (hphase : phase ∈ [.makeWay, .spawn])
    (hfile : ¬s.files.IsFile p) (hallows : s.Allows p a) (h : e.step s a = some s') :
    ¬s'.files.IsFile p := by
  intro hfile'
  rcases files_step h with hfiles | ⟨k, r, rfl, hr, halive⟩
  · exact hfile (hfiles.isFile hfile')
  · rcases hallows.2 hfile' with hfile'' | hslot
    · exact hfile hfile''
    · rw [hr] at hslot
      have hgrip : (exportCall c phase).grip? = some ⟨.encode, none⟩ := by
        simp only [List.mem_cons, List.not_mem_nil, or_false] at hphase
        rcases hphase with rfl | rfl <;> rfl
      have hover := hs.coherent.isOver_of_grip ((EngineState.desk_grip hc).trans hgrip) (by simp)
        (List.mem_of_getElem? hr) (Option.some.inj hslot)
      have hgone := (hs.coherent.runs r (List.mem_of_getElem? hr)).isGone hover
      rw [hgone.1] at halive
      contradiction

theorem Prepares.step_other {path : String} {a : Action} (hs : e.Reachable s)
    (h : e.Prepares path c i s) (ha : a ≠ .proceed i)
    (hallows : s.Allows (Path.place e.place path) a) (hstep : e.step s a = some s') :
    e.Prepares path c i s' := by
  have hkeep {call : Call} (hc : s.calls[i]? = some call) :=
    (turn_of_step hstep).getElem?_calls hc ha
  cases h with
  | early phase hc hphase => exact .early phase (hkeep hc) hphase
  | ready phase hc hphase hfile =>
    exact .ready phase (hkeep hc) hphase fun hpath hne =>
      not_isFile_step hs hc hphase (hfile hpath hne) hallows hstep
  | failed error hc => exact .failed error (hkeep hc)

theorem outputOf_ne_empty {files : FileTree} (h : e.canStart files c = .ok ()) :
    e.outputOf c ≠ "" := by
  apply Path.join_ne_empty
  intro hscratch
  have hlocate : files.locate e.place e.config.scratch = .error .notFound := by
    rw [hscratch]
    rfl
  simp only [canStart, hlocate, bind, Except.bind] at h
  split at h <;> simp at h

theorem getElem?_of_calls_eq {t : EngineState} {call call' : Call}
    (hc : s.calls[i]? = some call) (hcalls : t.calls = s.calls.set i call') :
    t.calls[i]? = some call' := by
  rw [hcalls, List.getElem?_set_of_eq_some hc]

/-- The place of the output is empty once the call has looked at it or cleared it. -/
theorem Prepares.step_early {path : String} (hsound : s.files.Sound) (hmode : c.mode = .render)
    (hup : ".." ∉ Path.names path) {phase : Phase} (hc : s.calls[i]? = some (exportCall c phase))
    (hphase : phase ∈ [.prepare, .acquire, .inspect, .clear] ∨ ∃ j, phase = .evict j)
    (hstep : e.step s (.proceed i) = some s') : e.Prepares path c i s' := by
  cases launchTurn_of_step hc hstep with
  | prepare files => exact .early .acquire (getElem?_of_calls_eq hc rfl) (by simp)
  | unprepared error => exact .failed (.io error) (getElem?_of_calls_eq hc rfl)
  | acquire =>
    refine .early _ (getElem?_of_calls_eq hc (EngineState.calls_acquire ..)) ?_
    cases (s.seat .encode).occupant with
    | none => simp
    | some k => exact .inr ⟨k, rfl⟩
  | evict k => exact .early .inspect (getElem?_of_calls_eq hc rfl) (by simp)
  | inspect found hinspect hfound => cases found with
    | true => exact .early .clear (getElem?_of_calls_eq hc rfl) (by simp)
    | false =>
      refine .ready .makeWay (getElem?_of_calls_eq hc rfl) (by simp) fun hpath hne hfile => ?_
      obtain ⟨content, executable, hentry⟩ := hfile
      rw [leftover, if_pos hmode, ← hpath] at hfound
      simp [hsound.entry?_of_pathExists hup hne hfound] at hentry
  | clear files hclear hfiles =>
    refine .ready .makeWay (getElem?_of_calls_eq hc rfl) (by simp) fun hpath _ => ?_
    have hremoved : s.files.removeFile e.place path = .ok files := by
      rw [hpath]
      exact hfiles
    exact FileTree.not_isFile_of_removeFile hup hremoved
  | fail error => exact .failed error (getElem?_of_calls_eq hc (by simp; rfl))
  | makeWay _ hlate | spawn hlate | await _ _ _ hlate =>
    obtain rfl := hlate
    simp at hphase

/-- From an empty place on the call makes way and spawns. -/
theorem Prepares.step_ready {path : String} {phase : Phase}
    (hc : s.calls[i]? = some (exportCall c phase)) (hphase : phase ∈ [.makeWay, .spawn])
    (hfile : path = e.outputOf c → path ≠ "" → ¬s.files.IsFile (Path.place e.place path))
    (hstep : e.step s (.proceed i) = some s') :
    e.Prepares path c i s' ∨ s'.runs = s.runs ++ [Run.start .encode c] ∧
      (path = e.outputOf c → ¬s.files.IsFile (Path.place e.place path)) ∧
      s'.calls[i]? = some (exportCall c (.await s.runs.length)) := by
  have hturn := launchTurn_of_step hc hstep
  have hadds := files_launchTurn hturn
  cases hturn with
  | makeWay files _ hfiles =>
    refine .inl (.ready .spawn (getElem?_of_calls_eq hc rfl) (by simp) fun hpath hne hfile' => ?_)
    exact hfile hpath hne (hadds.isFile hfile')
  | spawn _ hstart =>
    exact .inr ⟨by simp, fun hpath => hfile hpath (hpath ▸ outputOf_ne_empty hstart),
      getElem?_of_calls_eq hc (by simp; rfl)⟩
  | fail error => exact .inl (.failed error (getElem?_of_calls_eq hc (by simp; rfl)))
  | prepare _ hlate | unprepared _ hlate | acquire hlate | evict _ hlate | inspect _ hlate
  | clear _ hlate | await _ _ _ hlate =>
    obtain rfl := hlate
    simp at hphase

theorem Prepares.step_own {path : String} (hsound : s.files.Sound) (hmode : c.mode = .render)
    (hup : ".." ∉ Path.names path) (h : e.Prepares path c i s)
    (hstep : e.step s (.proceed i) = some s') :
    e.Prepares path c i s' ∨ s'.runs = s.runs ++ [Run.start .encode c] ∧
      (path = e.outputOf c → ¬s.files.IsFile (Path.place e.place path)) ∧
      s'.calls[i]? = some (exportCall c (.await s.runs.length)) := by
  cases h with
  | early phase hc hphase => exact .inl (Prepares.step_early hsound hmode hup hc hphase hstep)
  | ready phase hc hphase hfile => exact Prepares.step_ready hc hphase hfile hstep
  | failed error hc =>
    have hanswer : s.answer? i = some (.error error) := by
      rw [EngineState.answer?, hc]
      rfl
    rw [step_proceed_of_answer hanswer] at hstep
    contradiction

/-- In the state `before`, one of those that the actions lead through, call `i` spawns its
process. -/
def Spawns (e : Engine) (s : EngineState) (actions : List Action) (s' : EngineState) (i : Nat)
    (c : Command) (before : EngineState) : Prop :=
  ∃ pre post after, actions = pre ++ .proceed i :: post ∧ e.steps s pre = some before ∧
    e.step before (.proceed i) = some after ∧
    after.runs = before.runs ++ [Run.start .encode c] ∧ e.steps after post = some s'

/-- How far an export has come. -/
inductive Exporting (e : Engine) (path : String) (c : Command) (i : Nat) (s : EngineState)
    (actions : List Action) (s' : EngineState) : Prop
  | prepares : e.Prepares path c i s' → Exporting e path c i s actions s'
  | awaits (before : EngineState) : e.Spawns s actions s' i c before →
      (path = e.outputOf c → ¬before.files.IsFile (Path.place e.place path)) →
      before.IsIdle .encode → e.Awaits c i before.runs.length s' →
      Exporting e path c i s actions s'

theorem Spawns.snoc {actions : List Action} {a : Action} {before : EngineState}
    (h : e.Spawns s actions s' i c before) {s'' : EngineState} (hstep : e.step s' a = some s'') :
    e.Spawns s (actions ++ [a]) s'' i c before := by
  obtain ⟨pre, post, after, rfl, hpre, hspawn, hruns, hpost⟩ := h
  exact ⟨pre, post ++ [a], after, by simp, hpre, hspawn, hruns,
    steps_append.mpr ⟨s', hpost, steps_cons.mpr ⟨s'', hstep, rfl⟩⟩⟩

theorem Exporting.step {path : String} {t : EngineState} {actions : List Action} {a : Action}
    (ht : e.steps t actions = some s) (hs : e.Reachable s) (hsound : s.files.Sound)
    (hmode : c.mode = .render) (hup : ".." ∉ Path.names path)
    (hallows : s.Allows (Path.place e.place path) a) (h : e.Exporting path c i t actions s)
    (hstep : e.step s a = some s') : e.Exporting path c i t (actions ++ [a]) s' := by
  cases h with
  | prepares h =>
    by_cases ha : a = .proceed i
    · subst ha
      rcases h.step_own hsound hmode hup hstep with h | ⟨hruns, hfile, hcall⟩
      · exact .prepares h
      · refine .awaits s ⟨actions, [], s', rfl, ht, hstep, hruns, rfl⟩ hfile ?_ (.waiting hcall)
        exact hs.isIdle_of_new hstep (r := Run.start .encode c) (by simp [hruns])
    · exact .prepares (h.step_other hs ha hallows hstep)
  | awaits before hspawns hfile hidle h =>
    exact .awaits before (hspawns.snoc hstep) hfile hidle (h.step hs hstep)

theorem exportCall_step {a : Action} (h : e.step s a = some s')
    (hc : ∃ phase, s.calls[i]? = some (exportCall c phase)) :
    ∃ phase, s'.calls[i]? = some (exportCall c phase) := by
  obtain ⟨phase, hc⟩ := hc
  by_cases ha : a = .proceed i
  · subst ha
    obtain ⟨phase', hcalls⟩ := (launchTurn_of_step hc h).calls_eq
    exact ⟨phase', getElem?_of_calls_eq hc hcalls⟩
  · exact ⟨phase, (turn_of_step h).getElem?_calls hc ha⟩

section Called

variable {r : Request} {path : String} {actions : List Action}

theorem begin_exportFile (hc : e.compile (.exportFile r) = .ok (.launch .encode c true)) :
    e.begin (.exportFile r) = exportCall c .prepare := by
  rw [begin, hc]
  rfl

/-- A job whose request has no command is answered when it is called. -/
theorem answer_of_compile_eq_error {job : Job} {f : Fault} (hf : e.compile job = .error f)
    (h : e.steps s (.call job :: actions) = some s') :
    s'.answer? s.calls.length = some (.error (.compile f)) := by
  obtain ⟨t, ht, hrest⟩ := steps_cons.mp h
  obtain rfl := Option.some.inj ht
  refine steps_keep (P := fun t => t.answer? s.calls.length = some (.error (.compile f)))
    (fun _ _ _ hanswer hstep => answer_step hstep hanswer) ?_ hrest
  rw [EngineState.answer?, List.getElem?_concat_length, begin, hf]
  rfl

theorem exporting (hs : e.Reachable s) (hsound : s.files.Sound) (hup : ".." ∉ Path.names path)
    (hc : e.compile (.exportFile r) = .ok (.launch .encode c true)) (hmode : c.mode = .render)
    (h : e.steps s (.call (.exportFile r) :: actions) = some s')
    (hlawful : e.Lawful (Path.place e.place path) s (.call (.exportFile r) :: actions)) :
    e.Exporting path c s.calls.length s (.call (.exportFile r) :: actions) s' := by
  obtain ⟨t, ht, hrest⟩ := steps_cons.mp h
  have hlawful := hlawful.2
  rw [ht] at hlawful
  have hcall : e.Prepares path c s.calls.length t := by
    obtain rfl := Option.some.inj ht
    refine .early .prepare ?_ (by simp)
    rw [List.getElem?_concat_length, begin_exportFile hc]
  have hstart : e.Reachable t ∧ t.files.Sound ∧
      e.steps s [.call (.exportFile r)] = some t ∧
      e.Exporting path c s.calls.length s [.call (.exportFile r)] t := by
    refine ⟨hs.step ht, ?_, steps_cons.mpr ⟨t, ht, rfl⟩, .prepares hcall⟩
    obtain rfl := Option.some.inj ht
    exact hsound
  have htrace := steps_trace (P := fun taken t => e.Reachable t ∧ t.files.Sound ∧
    e.steps s taken = some t ∧ e.Exporting path c s.calls.length s taken t)
    (fun taken u u' a hu hallows hstep => ?_) hstart hlawful hrest
  · exact htrace.2.2.2
  · obtain ⟨hu, husound, htaken, hexporting⟩ := hu
    exact ⟨hu.step hstep, sound_step husound hallows hstep,
      steps_append.mpr ⟨u, htaken, steps_cons.mpr ⟨u', hstep, rfl⟩⟩,
      hexporting.step htaken hu husound hmode hup hallows hstep⟩

/-- A process that an export spawned is the one that it waits for. -/
theorem Spawns.awaits {before : EngineState} (hs : e.Reachable s)
    (hc : e.compile (.exportFile r) = .ok (.launch .encode c true)) {c' : Command}
    (h : e.Spawns s (.call (.exportFile r) :: actions) s' s.calls.length c' before) :
    e.Awaits c s.calls.length before.runs.length s' := by
  obtain ⟨pre, post, after, hactions, hpre, hspawn, hruns, hpost⟩ := h
  cases pre with
  | nil => simp at hactions
  | cons a pre =>
    obtain ⟨rfl, -⟩ := List.cons.inj hactions
    obtain ⟨t, ht, hpre⟩ := steps_cons.mp hpre
    have hcall : t.calls[s.calls.length]? = some (exportCall c .prepare) := by
      obtain rfl := Option.some.inj ht
      rw [List.getElem?_concat_length, begin_exportFile hc]
    obtain ⟨phase, hbefore⟩ :=
      steps_keep (fun _ _ _ hc hstep => exportCall_step hstep hc) ⟨_, hcall⟩ hpre
    have hafter : e.Awaits c s.calls.length before.runs.length after := by
      cases launchTurn_of_step hbefore hspawn with
      | spawn =>
        refine .waiting (getElem?_of_calls_eq hbefore ?_)
        rw [EngineState.calls_setCall, EngineState.calls_setSeat]
        rfl
      | acquire =>
        have hlength := congrArg List.length hruns
        simp at hlength
      | prepare | unprepared | evict | inspect | clear | makeWay | fail | await =>
        simp at hruns
    have hreach := ((hs.step ht).steps hpre).step hspawn
    exact (steps_keep (P := fun t => e.Reachable t ∧ e.Awaits c s.calls.length before.runs.length t)
      (fun _ _ _ h hstep => ⟨h.1.step hstep, h.2.step h.1 hstep⟩) ⟨hreach, hafter⟩ hpost).2

/-- An export that was answered when it was called spawns nothing. -/
theorem Spawns.elim {before : EngineState} {f : Fault}
    (hf : e.compile (.exportFile r) = .error f) {c' : Command}
    (h : e.Spawns s (.call (.exportFile r) :: actions) s' s.calls.length c' before) : False := by
  obtain ⟨pre, post, after, hactions, hpre, hspawn, -⟩ := h
  cases pre with
  | nil => simp at hactions
  | cons a pre =>
    obtain ⟨rfl, -⟩ := List.cons.inj hactions
    rw [step_proceed_of_answer (answer_of_compile_eq_error hf hpre)] at hspawn
    contradiction

end Called

/-- What an export answers for. -/
structure Answers (e : Engine) (r : Request) (path : String) (s : EngineState)
    (actions : List Action) (s' : EngineState) : Prop where
  reply : ∀ reply, s'.answer? s.calls.length = some (.ok reply) → ∃ path, reply = .exported path
  /-- A file is reported when the export's own process ended well. -/
  own : s'.answer? s.calls.length = some (.ok (.exported path)) →
    ∃ c before run, e.compile (.exportFile r) = .ok (.launch .encode c true) ∧
      path = e.outputOf c ∧ e.Spawns s actions s' s.calls.length c before ∧
      s'.runs[before.runs.length]? = some run ∧ run.life = .exited 0 ∧
      run.outcome? = some (.finished 0) ∧
      ¬before.files.IsFile (Path.place e.place path) ∧
      ∀ r ∈ before.runs, r.slot = .encode → r.isAlive = false
  /-- A process that was killed makes its export fail. -/
  cancelled : ∀ c before run, e.Spawns s actions s' s.calls.length c before →
    s'.runs[before.runs.length]? = some run → run.life = .killed ∨ run.verdict = some .killed →
    (∀ answer, s'.answer? s.calls.length = some answer →
      answer = .error (.process .cancelled)) ∧
    (run.isOver → s'.answer? s.calls.length = none →
      ∃ s'', e.step s' (.proceed s.calls.length) = some s'' ∧
        s''.answer? s.calls.length = some (.error (.process .cancelled)))

theorem Awaits.outcome_of_answer {answer : Except EngineError Reply}
    (h : e.Awaits c i j s) (hanswer : s.answer? i = some answer) :
    ∃ run o, s.runs[j]? = some run ∧ run.outcome? = some o ∧ answer = e.exportAnswer c o := by
  cases h with
  | waiting hc =>
    rw [EngineState.answer?, hc] at hanswer
    contradiction
  | answered run o hc hrun ho =>
    rw [EngineState.answer?, hc] at hanswer
    exact ⟨run, o, hrun, ho, (Option.some.inj hanswer).symm⟩

theorem exported_of_exportAnswer {o : Outcome} {reply : Reply}
    (h : e.exportAnswer c o = .ok reply) : o = .finished 0 ∧ reply = .exported (e.outputOf c) := by
  cases o with
  | killed => contradiction
  | finished code =>
    by_cases hcode : code = 0
    · subst hcode
      exact ⟨rfl, (Except.ok.inj h).symm⟩
    · simp [exportAnswer, hcode] at h

theorem Prepares.answer?_ne {path : String} (h : e.Prepares path c i s) (reply : Reply) :
    s.answer? i ≠ some (.ok reply) := by
  intro hanswer
  cases h with
  | early phase hc hphase =>
    rw [EngineState.answer?, hc] at hanswer
    simp only [List.mem_cons, List.not_mem_nil, or_false] at hphase
    obtain (rfl | rfl | rfl | rfl) | ⟨j, rfl⟩ := hphase <;> contradiction
  | ready phase hc hphase =>
    rw [EngineState.answer?, hc] at hanswer
    simp only [List.mem_cons, List.not_mem_nil, or_false] at hphase
    obtain rfl | rfl := hphase <;> contradiction
  | failed error hc =>
    rw [EngineState.answer?, hc] at hanswer
    simp [exportCall, Call.answer?] at hanswer

/-- An export that reports a file has spawned a process, which ended well. -/
theorem Exporting.exists_run {path : String} {t : EngineState} {actions : List Action}
    (h : e.Exporting path c i t actions s) {reply : Reply}
    (hanswer : s.answer? i = some (.ok reply)) :
    ∃ before run, e.Spawns t actions s i c before ∧ before.IsIdle .encode ∧
      (path = e.outputOf c → ¬before.files.IsFile (Path.place e.place path)) ∧
      s.runs[before.runs.length]? = some run ∧ run.outcome? = some (.finished 0) ∧
      reply = .exported (e.outputOf c) := by
  cases h with
  | prepares h => exact absurd hanswer (h.answer?_ne reply)
  | awaits before hspawns hfile hidle h =>
    obtain ⟨run, o, hrun, ho, hexport⟩ := h.outcome_of_answer hanswer
    obtain ⟨rfl, hreply⟩ := exported_of_exportAnswer hexport.symm
    exact ⟨before, run, hspawns, hidle, hfile, hrun, ho, hreply⟩

/-- An export whose process was killed fails, and can do so once it has been told. -/
theorem Awaits.cancelled (hs : e.Reachable s) (h : e.Awaits c i j s) {run : Run}
    (hrun : s.runs[j]? = some run) (hkilled : run.life = .killed ∨ run.verdict = some .killed) :
    (∀ answer, s.answer? i = some answer → answer = .error (.process .cancelled)) ∧
      (run.isOver → s.answer? i = none →
        ∃ s', e.step s (.proceed i) = some s' ∧
          s'.answer? i = some (.error (.process .cancelled))) := by
  have hcoherent := hs.coherent.runs run (List.mem_of_getElem? hrun)
  have hverdict : run.verdict = some .killed := hkilled.elim hcoherent.killed id
  have houtcome {o : Outcome} (ho : run.outcome? = some o) : o = .killed :=
    Option.some.inj ((hcoherent.verdict_eq ho).symm.trans hverdict)
  constructor
  · intro answer hanswer
    obtain ⟨run', o, hrun', ho, rfl⟩ := h.outcome_of_answer hanswer
    obtain rfl := Option.some.inj (hrun.symm.trans hrun')
    rw [houtcome ho]
    rfl
  · intro hover hnone
    cases h with
    | waiting hc =>
      obtain ⟨ending, hending⟩ := Option.isSome_iff_exists.mp hover
      have ho : run.outcome? = some .killed := by
        have ho : run.outcome? = some ending.1 := by rw [Run.outcome?, hending]; rfl
        rw [ho, houtcome ho]
      refine ⟨s.setCall i (exportCall c (.done (.error (.process .cancelled)))), ?_, ?_⟩
      · simp [Engine.step, hc, exportCall, proceedLaunch, hrun, ho, exportAnswer]
      · rw [EngineState.answer?, EngineState.calls_setCall, List.getElem?_set_of_eq_some hc]
        rfl
    | answered run o hc =>
      rw [EngineState.answer?, hc] at hnone
      contradiction

/-- The files of the sample with a film where an export puts its own. -/
def filmFiles (film : String) : FileTree :=
  ⟨(["tmp", "videobones", "output.mp4"], .file (.ofString film) false) ::
    (["tmp", "videobones"], .directory) :: sampleFiles.entries⟩

/-- An export that takes the place of an older film. -/
def renewal : List Action :=
  Action.call (.exportFile (.ofMode .render)) :: List.replicate 6 (Action.proceed 0)
    ++ [Action.alter 0 (filmFiles "new"), Action.exit 0 0] ++ List.replicate 3 (Action.watch 0)
    ++ [Action.proceed 0]

end Engine

end Montage
